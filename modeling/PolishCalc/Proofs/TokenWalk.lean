import PolishCalc.Proofs.Grammar

namespace PolishCalc

/-- What can stop a parser that gets its tokens one by one from a cursor. -/
inductive Halt
  | failure (f : Failure)
  /-- A token was asked for behind the last one. -/
  | overrun
  /-- The calls were nested deeper than allowed for. -/
  | tooDeep
  deriving DecidableEq, Repr

def Walk (α : Type) : Type :=
  Cursor → Except Halt α × Cursor

namespace Walk

def throw {α : Type} (h : Halt) : Walk α :=
  fun c => (.error h, c)

instance : Monad Walk where
  pure a c := (.ok a, c)
  bind x f c :=
    match x c with
    | (.ok a, c') => f a c'
    | (.error h, c') => (.error h, c')

def ofExcept {α : Type} : Except Failure α → Walk α
  | .ok a => pure a
  | .error f => throw (.failure f)

def hasMore : Walk Bool :=
  fun c => (.ok c.hasMore, c)

/-- The next token, which has to be there. -/
def next : Walk String := fun c =>
  match c.advance with
  | (some t, c') => (.ok t, c')
  | (none, c') => (.error .overrun, c')

def expression : Nat → Walk Expr
  | 0 => throw .tooDeep
  | depth + 1 => do
    if ← hasMore then
      let t ← next
      match classify t with
      | .numeral => ofExcept (readConstant t)
      | .identifier => pure (.variable t)
      | .unary op =>
        let e ← expression depth
        pure (.unary op e)
      | .binary op =>
        let l ← expression depth
        let r ← expression depth
        pure (.binary op l r)
      | .other => throw (.failure (.fault (.notAnExpression t)))
    else
      throw (.failure (.fault .noExpression))

def action (depth : Nat) : Walk Action := do
  if ← hasMore then
    let t ← next
    if t = ":=" then
      if ← hasMore then
        let name ← next
        let e ← expression depth
        ofExcept (assignment name e)
      else
        throw (.failure (.fault (.nothingFollows t)))
    else if t = "#" then
      if ← hasMore then
        let e ← expression depth
        pure (.print e)
      else
        throw (.failure (.fault (.nothingFollows t)))
    else
      throw (.failure (.fault (.notAnAction t)))
  else
    throw (.failure (.fault .noAction))

def program : Nat → Walk Program
  | 0 => throw .tooDeep
  | depth + 1 => do
    if ← hasMore then
      let a ← action depth
      let p ← program depth
      pure (a :: p)
    else
      pure []

end Walk

/-- The cursor among all tokens in front of the last of them. -/
def Cursor.among (tokens rest : List String) : Cursor :=
  (start tokens).before rest

namespace Walk

theorem bind_apply {α β : Type} (x : Walk α) (f : α → Walk β) (c : Cursor) :
    (x >>= f) c = match x c with
      | (.ok a, c') => f a c'
      | (.error h, c') => (.error h, c') :=
  rfl

theorem hasMore_among_nil (tokens : List String) :
    hasMore (Cursor.among tokens []) = (.ok false, Cursor.among tokens []) := by
  simp [hasMore, Cursor.hasMore, Cursor.among, Cursor.before, Cursor.start]

theorem hasMore_among_cons {tokens ts : List String} {t : String} (h : t :: ts <:+ tokens) :
    hasMore (Cursor.among tokens (t :: ts)) = (.ok true, Cursor.among tokens (t :: ts)) := by
  have hlen := h.length_le
  simp only [List.length_cons] at hlen
  have inside : tokens.length - (ts.length + 1) < tokens.length := by omega
  simp only [hasMore, Cursor.hasMore, Cursor.among, Cursor.before, Cursor.start, List.length_cons,
    inside, decide_true]

theorem next_among_cons {tokens ts : List String} {t : String} (h : t :: ts <:+ tokens) :
    next (Cursor.among tokens (t :: ts)) = (.ok t, Cursor.among tokens ts) := by
  have hlen := h.length_le
  have hdrop := List.suffix_iff_eq_drop.mp h
  simp only [List.length_cons] at hlen hdrop
  simp only [next, Cursor.advance, Cursor.rest, Cursor.among, Cursor.before, Cursor.start,
    List.length_cons, ← hdrop, Prod.mk.injEq, Cursor.mk.injEq, true_and]
  omega

/-- What was read from the last tokens, with the cursor among all of them. -/
def answer {α : Type} (tokens : List String) (r : Except Failure α × List String) :
    Except Halt α × Cursor :=
  (r.1.mapError .failure, Cursor.among tokens r.2)

theorem answer_ok {α : Type} (tokens ts : List String) (a : α) :
    answer tokens (.ok a, ts) = (.ok a, Cursor.among tokens ts) :=
  rfl

theorem ofExcept_among {α : Type} (tokens ts : List String) (r : Except Failure α) :
    ofExcept r (Cursor.among tokens ts) = answer tokens (r, ts) := by
  cases r <;> rfl

/-- With room enough for its calls, the walk reads the expression that the parser reads. -/
theorem expression_among {tokens ts : List String} {depth : Nat} (h : ts <:+ tokens)
    (deep : ts.length < depth) :
    expression depth (Cursor.among tokens ts) = answer tokens (PolishCalc.expression ts) := by
  induction depth generalizing ts with
  | zero => omega
  | succ depth ih =>
    cases ts with
    | nil =>
      simp only [expression, bind_apply, hasMore_among_nil, expression_nil]
      rfl
    | cons t ts =>
      simp only [List.length_cons] at deep
      have hts : ts <:+ tokens := (List.suffix_cons t ts).trans h
      have operand := ih hts (by omega)
      simp only [expression, bind_apply, hasMore_among_cons h, next_among_cons h, if_true,
        expression_cons]
      cases classify t with
      | numeral => exact ofExcept_among tokens ts _
      | identifier => rfl
      | unary op =>
        simp only [bind_apply, operand]
        rcases PolishCalc.expression ts with ⟨_ | e, rest⟩ <;> rfl
      | binary op =>
        simp only [bind_apply, operand]
        rcases read : PolishCalc.expression ts with ⟨f | l, mid⟩
        · rfl
        · -- The right operand is read where the left one ended.
          obtain ⟨used, rfl, left⟩ := derivesExpr_of_expression read
          have hmid : mid <:+ tokens := (List.suffix_append used mid).trans hts
          simp only [List.length_append] at deep
          have right := ih hmid (by omega)
          simp only [answer_ok, right]
          rcases PolishCalc.expression mid with ⟨_ | r, rest⟩ <;> rfl
      | other => rfl

theorem readThen_among {tokens ts : List String} {depth : Nat}
    (make : Expr → Except Failure Action) (h : ts <:+ tokens) (deep : ts.length < depth) :
    (do let e ← expression depth; ofExcept (make e)) (Cursor.among tokens ts) =
      answer tokens (readThen make ts) := by
  simp only [bind_apply, expression_among h deep, readThen]
  rcases PolishCalc.expression ts with ⟨f | e, rest⟩
  · rfl
  · exact ofExcept_among tokens rest (make e)

theorem action_among {tokens ts : List String} {depth : Nat} (h : ts <:+ tokens)
    (deep : ts.length ≤ depth) :
    action depth (Cursor.among tokens ts) = answer tokens (PolishCalc.action ts) := by
  cases ts with
  | nil =>
    simp only [action, bind_apply, hasMore_among_nil]
    rfl
  | cons t ts =>
    have hts : ts <:+ tokens := (List.suffix_cons t ts).trans h
    simp only [List.length_cons] at deep
    simp only [action, bind_apply, hasMore_among_cons h, next_among_cons h, if_true,
      PolishCalc.action]
    by_cases assign : t = ":="
    · simp only [if_pos assign, bind_apply]
      cases ts with
      | nil =>
        simp only [hasMore_among_nil]
        rfl
      | cons name ts =>
        have room : ts.length < depth := by simp only [List.length_cons] at deep; omega
        simp only [hasMore_among_cons hts, if_true, bind_apply, next_among_cons hts]
        exact readThen_among (assignment name) ((List.suffix_cons name ts).trans hts) room
    · by_cases print : t = "#"
      · simp only [if_neg assign, if_pos print, bind_apply]
        cases ts with
        | nil =>
          simp only [hasMore_among_nil]
          rfl
        | cons u ts =>
          simp only [hasMore_among_cons hts, if_true]
          exact readThen_among (fun e => .ok (.print e)) hts deep
      · simp only [if_neg assign, if_neg print]
        rfl

theorem program_among {tokens ts : List String} {depth : Nat} (h : ts <:+ tokens)
    (deep : ts.length < depth) :
    program depth (Cursor.among tokens ts) = answer tokens (actions ts) := by
  induction depth generalizing ts with
  | zero => omega
  | succ depth ih =>
    cases ts with
    | nil =>
      simp only [program, bind_apply, hasMore_among_nil, actions_nil]
      rfl
    | cons t ts =>
      have first := action_among h (Nat.le_of_lt_succ deep)
      simp only [program, bind_apply, hasMore_among_cons h, if_true, first, actions_cons]
      rcases read : PolishCalc.action (t :: ts) with ⟨f | a, rest⟩
      · rfl
      · have hlen := action_length_lt t ts
        obtain ⟨used, hts, _, _⟩ := derivesAction_of_action read
        rw [read] at hlen
        rw [hts] at h
        have others := ih ((List.suffix_append used rest).trans h) (by simp only at hlen; omega)
        simp only [answer_ok, others]
        rcases actions rest with ⟨_ | p, rest'⟩ <;> rfl

/-- Read token by token, a program is never asked for a token behind its last one: the walk stops
for what the parser stops for, and where it does. -/
theorem program_start {ts : List String} {depth : Nat} (deep : ts.length < depth) :
    program depth (Cursor.start ts) =
      ((parse ts).mapError .failure, (Cursor.start ts).parse.2) := by
  have whole := program_among (List.suffix_refl ts) deep
  have start : Cursor.among ts ts = Cursor.start ts := by
    simp [Cursor.among, Cursor.before, Cursor.start]
  rw [start] at whole
  exact whole

end Walk

end PolishCalc
