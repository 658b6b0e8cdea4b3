import PolishCalc.Fault
import PolishCalc.Program

namespace PolishCalc

/-- What a token can be at the start of an expression. -/
inductive TokenClass
  | numeral
  | identifier
  | unary (op : UnaryOp)
  | binary (op : BinaryOp)
  | other
  deriving DecidableEq, Repr

def classify (t : String) : TokenClass :=
  if isNumeral t then .numeral
  else if isIdentifier t then .identifier
  else match UnaryOp.ofSymbol? t with
    | some op => .unary op
    | none => match BinaryOp.ofSymbol? t with
      | some op => .binary op
      | none => .other

/-- The constant that a numeral stands for. -/
def readConstant (t : String) : Except Failure Expr :=
  match readNumeral t with
  | .ok n => .ok (.constant n)
  | .error l => .error (.limit l)

theorem length_le_of_rest {ts rest : List String} (t : String) (h : rest.length ≤ ts.length - 1) :
    rest.length ≤ (t :: ts).length - 1 :=
  Nat.le_trans h (Nat.sub_le ts.length 1)

theorem length_lt_of_rest {ts rest : List String} (t : String) (h : rest.length ≤ ts.length - 1) :
    rest.length < (t :: ts).length :=
  Nat.lt_succ_of_le (length_le_of_rest t h)

/-- One expression from the front of the tokens, and the tokens after the last one looked at,
of which there are fewer than before unless there was none. -/
def expressionStep : (ts : List String) →
    { r : Except Failure Expr × List String // r.2.length ≤ ts.length - 1 }
  | [] => ⟨(.error (.fault .noExpression), []), Nat.le_refl 0⟩
  | t :: ts =>
    match classify t with
    | .numeral => ⟨(readConstant t, ts), Nat.le_refl ts.length⟩
    | .identifier => ⟨(.ok (.variable t), ts), Nat.le_refl ts.length⟩
    | .unary op =>
      match expressionStep ts with
      | ⟨(.ok e, rest), h⟩ => ⟨(.ok (.unary op e), rest), length_le_of_rest t h⟩
      | ⟨(.error f, rest), h⟩ => ⟨(.error f, rest), length_le_of_rest t h⟩
    | .binary op =>
      match expressionStep ts with
      | ⟨(.error f, rest), h⟩ => ⟨(.error f, rest), length_le_of_rest t h⟩
      | ⟨(.ok l, rest), h⟩ =>
        have := length_lt_of_rest t h
        match expressionStep rest with
        | ⟨(.ok r, rest'), h'⟩ =>
          ⟨(.ok (.binary op l r), rest'),
            Nat.le_trans h' (Nat.le_trans (Nat.sub_le _ 1) (length_le_of_rest t h))⟩
        | ⟨(.error f, rest'), h'⟩ =>
          ⟨(.error f, rest'),
            Nat.le_trans h' (Nat.le_trans (Nat.sub_le _ 1) (length_le_of_rest t h))⟩
    | .other => ⟨(.error (.fault (.notAnExpression t)), ts), Nat.le_refl ts.length⟩
termination_by ts => ts.length
decreasing_by
  · exact Nat.lt_succ_self ts.length
  · exact Nat.lt_succ_self ts.length
  · exact this

/-- One expression from the front of the tokens, and the tokens after the last one looked at. -/
def expression (ts : List String) : Except Failure Expr × List String :=
  (expressionStep ts).1

theorem expression_length_le (ts : List String) : (expression ts).2.length ≤ ts.length - 1 :=
  (expressionStep ts).2

theorem expression_nil : expression [] = (.error (.fault .noExpression), []) := by
  rw [expression, expressionStep]

theorem expression_cons (t : String) (ts : List String) :
    expression (t :: ts) = match classify t with
      | .numeral => (readConstant t, ts)
      | .identifier => (.ok (.variable t), ts)
      | .unary op =>
        match expression ts with
        | (.ok e, rest) => (.ok (.unary op e), rest)
        | (.error f, rest) => (.error f, rest)
      | .binary op =>
        match expression ts with
        | (.error f, rest) => (.error f, rest)
        | (.ok l, rest) =>
          match expression rest with
          | (.ok r, rest') => (.ok (.binary op l r), rest')
          | (.error f, rest') => (.error f, rest')
      | .other => (.error (.fault (.notAnExpression t)), ts) := by
  unfold expression
  rw [expressionStep]
  split
  all_goals first | rfl | skip
  · split <;> simp_all
  · split
    · simp_all
    · split <;> simp_all

/-- Reads one expression and makes an action of it. -/
def readThen (make : Expr → Except Failure Action) (ts : List String) :
    Except Failure Action × List String :=
  match expression ts with
  | (.error f, rest) => (.error f, rest)
  | (.ok e, rest) => (make e, rest)

theorem readThen_snd (make : Expr → Except Failure Action) (ts : List String) :
    (readThen make ts).2 = (expression ts).2 := by
  unfold readThen
  split <;> simp_all

/-- Any token but a numeral can be assigned to. -/
def assignment (name : String) (e : Expr) : Except Failure Action :=
  if isNumeral name then .error (.fault (.numeralTarget name)) else .ok (.assign name e)

/-- One action from the front of the tokens, and the tokens after the last one looked at. A
target is refused only after its expression has been read. -/
def action : List String → Except Failure Action × List String
  | [] => (.error (.fault .noAction), [])
  | t :: ts =>
    if t = ":=" then
      match ts with
      | [] => (.error (.fault (.nothingFollows t)), [])
      | name :: ts => readThen (assignment name) ts
    else if t = "#" then
      match ts with
      | [] => (.error (.fault (.nothingFollows t)), [])
      | u :: ts => readThen (fun e => .ok (.print e)) (u :: ts)
    else (.error (.fault (.notAnAction t)), ts)

theorem action_length_lt (t : String) (ts : List String) :
    (action (t :: ts)).2.length < (t :: ts).length := by
  cases ts with
  | nil => simp only [action]; split <;> (try split) <;> simp
  | cons u ts =>
    have h := expression_length_le ts
    have h' := expression_length_le (u :: ts)
    simp only [action]
    split
    · simp only [readThen_snd, List.length_cons]; omega
    · split
      · simp only [readThen_snd, List.length_cons] at h' ⊢; omega
      · simp

/-- All actions up to the end of the tokens, and the tokens after the last one looked at. -/
def actions : (ts : List String) → Except Failure Program × List String
  | [] => (.ok [], [])
  | t :: ts =>
    match action (t :: ts), action_length_lt t ts with
    | (.error f, rest), _ => (.error f, rest)
    | (.ok a, rest), _ =>
      match actions rest with
      | (.ok p, rest') => (.ok (a :: p), rest')
      | (.error f, rest') => (.error f, rest')
termination_by ts => ts.length
decreasing_by assumption

theorem actions_nil : actions [] = (.ok [], []) := by
  rw [actions]

theorem actions_cons (t : String) (ts : List String) :
    actions (t :: ts) = match action (t :: ts) with
      | (.error f, rest) => (.error f, rest)
      | (.ok a, rest) =>
        match actions rest with
        | (.ok p, rest') => (.ok (a :: p), rest')
        | (.error f, rest') => (.error f, rest') := by
  rw [actions]
  split <;> simp_all

def parse (ts : List String) : Except Failure Program :=
  (actions ts).1

/-- A reader of tokens that can be asked for one thing after the other. -/
structure Cursor where
  tokens : List String
  pos : Nat
  deriving DecidableEq, Repr

namespace Cursor

def start (tokens : List String) : Cursor := ⟨tokens, 0⟩

/-- The tokens not looked at yet. -/
def rest (c : Cursor) : List String := c.tokens.drop c.pos

def hasMore (c : Cursor) : Bool := c.pos < c.tokens.length

/-- The cursor in front of the given last tokens. -/
def before (c : Cursor) (rest : List String) : Cursor :=
  { c with pos := c.tokens.length - rest.length }

/-- The next token; at the end there is none and the cursor stays. -/
def advance (c : Cursor) : Option String × Cursor :=
  match c.rest with
  | [] => (none, c)
  | t :: _ => (some t, { c with pos := c.pos + 1 })

def expression (c : Cursor) : Except Failure Expr × Cursor :=
  let (r, rest) := PolishCalc.expression c.rest
  (r, c.before rest)

def action (c : Cursor) : Except Failure Action × Cursor :=
  let (r, rest) := PolishCalc.action c.rest
  (r, c.before rest)

def parse (c : Cursor) : Except Failure Program × Cursor :=
  let (r, rest) := actions c.rest
  (r, c.before rest)

end Cursor

end PolishCalc
