import PolishCalc.Proofs.RunEndings

namespace PolishCalc

/-- What the first character of an expression in infix form tells about it. -/
inductive Opening
  | number
  | name
  | unary (op : UnaryOp)
  | bracket
  deriving DecidableEq, Repr

def Opening.ofChar (c : Char) : Option Opening :=
  if c = '(' then some .bracket
  else if c = '_' then some (.unary .negate)
  else if c = '%' then some (.unary .root)
  else if c.isAlpha then some .name
  else if c.isDigit || c = '-' then some .number
  else none

def Expr.opening : Expr → Opening
  | .constant _ => .number
  | .variable _ => .name
  | .unary op _ => .unary op
  | .binary .. => .bracket

/-- Variables are identifiers without a blank. -/
def Expr.Legible : Expr → Prop
  | .constant _ => True
  | .variable x => Identifier x ∧ IsWord x
  | .unary _ e => e.Legible
  | .binary _ l r => l.Legible ∧ r.Legible

def Action.Legible : Action → Prop
  | .assign x e => IsWord x ∧ e.Legible
  | .print e => e.Legible

theorem Expr.WellFormed.legible {e : Expr} (wellFormed : e.WellFormed)
    (names : ∀ x ∈ e.reads, IsWord x) : e.Legible := by
  induction e with
  | constant n => trivial
  | «variable» x => exact ⟨wellFormed, names x (by simp [Expr.reads])⟩
  | unary op e ih => exact ih wellFormed names
  | binary op l r ihl ihr =>
    refine ⟨ihl wellFormed.1 fun x hx => ?_, ihr wellFormed.2 fun x hx => ?_⟩
    · exact names x (List.mem_append_left _ hx)
    · exact names x (List.mem_append_right _ hx)

theorem parse_legible {ts : List String} {p : Program} (tokens : ∀ t ∈ ts, IsWord t)
    (parsed : parse ts = .ok p) : ∀ a ∈ p, a.Legible := by
  intro a ha
  have wellFormed := parse_wellFormed parsed a ha
  obtain ⟨reads, target⟩ := parse_names tokens parsed a ha
  cases a with
  | assign x e => exact ⟨target x rfl, wellFormed.2.legible reads⟩
  | print e => exact Expr.WellFormed.legible wellFormed reads

theorem Opening.ofChar_alphanumeric {c : Char} (h : c.isAlpha = true ∨ c.isDigit = true) :
    ofChar c = some (if c.isAlpha then .name else .number) := by
  have bracket : c ≠ '(' := by rintro rfl; exact absurd h (by decide)
  have negate : c ≠ '_' := by rintro rfl; exact absurd h (by decide)
  have root : c ≠ '%' := by rintro rfl; exact absurd h (by decide)
  by_cases letter : c.isAlpha = true
  · simp [ofChar, bracket, negate, root, letter]
  · simp [ofChar, bracket, negate, root, letter, h.resolve_left letter]

theorem isAlpha_of_digit {c : Char} (h : '0' ≤ c ∧ c ≤ '9') : c.isAlpha = false := by
  rw [← Bool.not_eq_true, isAlpha_iff]
  simp only [Char.le_def, UInt32.le_iff_toNat_le] at h ⊢
  simp at h ⊢
  omega

theorem Opening.ofChar_digit {c : Char} (h : '0' ≤ c ∧ c ≤ '9') : ofChar c = some .number := by
  rw [ofChar_alphanumeric (.inr (isDigit_iff.mpr h)), isAlpha_of_digit h]
  rfl

theorem Numeral.opening {t : String} {ds : List Char} {n : Int} (h : Numeral t ds n) :
    ∃ c cs, t.toList = c :: cs ∧ Opening.ofChar c = some .number := by
  cases h with
  | plain _ nonempty digits =>
    obtain ⟨c, cs, rfl⟩ := List.exists_cons_of_ne_nil nonempty
    exact ⟨c, cs, String.toList_ofList, Opening.ofChar_digit (digits c (by simp))⟩
  | negative => exact ⟨'-', ds, String.toList_ofList, by decide⟩

theorem Expr.toList_text_binary (op : BinaryOp) (l r : Expr) :
    (binary op l r).text.toList = '(' :: ' ' :: (l.text.toList ++
      ' ' :: (op.symbol.toList ++ ' ' :: (r.text.toList ++ [' ', ')']))) := by
  simp [text]

/-- The first character says what kind of expression it is. -/
theorem Expr.Legible.opening {e : Expr} (legible : e.Legible) :
    ∃ c cs, e.text.toList = c :: cs ∧ Opening.ofChar c = some e.opening := by
  cases e with
  | constant n => exact (decimal_numeral n).opening
  | «variable» x =>
    obtain ⟨⟨c, cs, hx, letter, _⟩, _⟩ := legible
    have letter := isAlpha_iff.mpr letter
    refine ⟨c, cs, hx, ?_⟩
    rw [Opening.ofChar_alphanumeric (.inl letter), letter]
    rfl
  | unary op e =>
    cases op with
    | negate => exact ⟨'_', e.text.toList, by simp [text, UnaryOp.symbol], rfl⟩
    | root => exact ⟨'%', e.text.toList, by simp [text, UnaryOp.symbol], rfl⟩
  | binary op l r =>
    exact ⟨'(', _, toList_text_binary op l r, rfl⟩

/-- Texts behind an expression: nothing, or a space and more. -/
def Behind (cs : List Char) : Prop :=
  ∀ c ∈ cs.head?, c = ' '

theorem behind_nil : Behind [] := by
  simp [Behind]

theorem behind_space (cs : List Char) : Behind (' ' :: cs) := by
  simp [Behind]

/-- Two words with something behind them are two equal words with the same behind them. -/
theorem word_cancel {w w' rest rest' : List Char} (word : ' ' ∉ w) (word' : ' ' ∉ w')
    (behind : Behind rest) (behind' : Behind rest') (same : w ++ rest = w' ++ rest') :
    w = w' ∧ rest = rest' := by
  induction w generalizing w' with
  | nil =>
    cases w' with
    | nil => exact ⟨rfl, same⟩
    | cons c w' =>
      rw [List.nil_append] at same
      obtain rfl := behind c (by simp [same])
      exact absurd List.mem_cons_self word'
  | cons c w ih =>
    cases w' with
    | nil =>
      rw [List.nil_append] at same
      obtain rfl := behind' c (by simp [← same])
      exact absurd List.mem_cons_self word
    | cons c' w' =>
      obtain ⟨rfl, others⟩ := List.cons.inj same
      obtain ⟨rfl, rest_eq⟩ :=
        ih (List.not_mem_of_not_mem_cons word) (List.not_mem_of_not_mem_cons word') others
      exact ⟨rfl, rest_eq⟩

theorem IsWord.no_space {t : String} (h : IsWord t) : ' ' ∉ t.toList := by
  intro hs
  exact absurd (h.2 ' ' hs) (by decide)

theorem string_cancel {t t' : String} {rest rest' : List Char} (word : IsWord t)
    (word' : IsWord t') (behind : Behind rest) (behind' : Behind rest')
    (same : t.toList ++ rest = t'.toList ++ rest') : t = t' ∧ rest = rest' := by
  obtain ⟨chars, rest_eq⟩ := word_cancel word.no_space word'.no_space behind behind' same
  exact ⟨String.toList_inj.mp chars, rest_eq⟩

theorem decimal_injective {n n' : Int} (same : decimal n = decimal n') : n = n' := by
  rw [← (decimal_numeral n).value_eq, ← (decimal_numeral n').value_eq, same]

theorem BinaryOp.symbol_isWord (op : BinaryOp) : IsWord op.symbol := by
  cases op <;> decide

theorem BinaryOp.symbol_injective {op op' : BinaryOp} (same : op.symbol = op'.symbol) :
    op = op' := by
  have h := op.classify_symbol
  rw [same, op'.classify_symbol] at h
  cases h
  rfl

theorem Action.toList_text_assign (x : String) (e : Expr) :
    (assign x e).text.toList = x.toList ++ ' ' :: ':' :: '=' :: ' ' :: e.text.toList := by
  simp [text]

theorem Action.toList_text_print (e : Expr) :
    (print e).text.toList = "Print".toList ++ ' ' :: e.text.toList := by
  simp [text]

/-- What is read first in two expressions with the same text. -/
theorem Expr.Legible.opening_eq {e e' : Expr} (legible : e.Legible) (legible' : e'.Legible)
    {rest rest' : List Char} (same : e.text.toList ++ rest = e'.text.toList ++ rest') :
    e.opening = e'.opening := by
  obtain ⟨c, cs, first, opening⟩ := legible.opening
  obtain ⟨c', cs', first', opening'⟩ := legible'.opening
  rw [first, first'] at same
  obtain ⟨rfl, _⟩ := List.cons.inj same
  exact Option.some.inj (opening.symm.trans opening')

/-- No expression in infix form is the beginning of another. -/
theorem Expr.Legible.cancel {e e' : Expr} (legible : e.Legible) (legible' : e'.Legible)
    {rest rest' : List Char} (behind : Behind rest) (behind' : Behind rest')
    (same : e.text.toList ++ rest = e'.text.toList ++ rest') : e = e' ∧ rest = rest' := by
  have opening := legible.opening_eq legible' same
  -- The opening leaves one kind for the second expression. In a binary one the induction hypothesis
  -- is used with what stands behind each operand, which begins with a space.
  induction e generalizing e' rest rest' with
  | constant n =>
    cases e' with
    | constant n' =>
      have word := (decimal_numeral n).isWord
      have word' := (decimal_numeral n').isWord
      obtain ⟨decimals, rest_eq⟩ := string_cancel word word' behind behind' same
      exact ⟨congrArg constant (decimal_injective decimals), rest_eq⟩
    | _ => cases opening
  | «variable» x =>
    cases e' with
    | «variable» x' =>
      obtain ⟨rfl, rest_eq⟩ := string_cancel legible.2 legible'.2 behind behind' same
      exact ⟨rfl, rest_eq⟩
    | _ => cases opening
  | unary op e ih =>
    cases e' with
    | unary op' e' =>
      cases opening
      have legible : e.Legible := legible
      have legible' : e'.Legible := legible'
      simp only [text, String.toList_append, List.append_assoc] at same
      have operand := List.append_cancel_left same
      obtain ⟨rfl, rest_eq⟩ :=
        ih legible legible' behind behind' operand (legible.opening_eq legible' operand)
      exact ⟨rfl, rest_eq⟩
    | _ => cases opening
  | binary op l r ihl ihr =>
    cases e' with
    | binary op' l' r' =>
      obtain ⟨legible_l, legible_r⟩ := legible
      obtain ⟨legible_l', legible_r'⟩ := legible'
      simp only [toList_text_binary, List.cons_append, List.append_assoc, List.cons.injEq,
        true_and] at same
      obtain ⟨rfl, middle⟩ := ihl legible_l legible_l' (behind_space _) (behind_space _) same
        (legible_l.opening_eq legible_l' same)
      obtain ⟨symbols, right⟩ := string_cancel op.symbol_isWord op'.symbol_isWord
        (behind_space _) (behind_space _) (List.cons.inj middle).2
      have right := (List.cons.inj right).2
      obtain ⟨rfl, last⟩ := ihr legible_r legible_r' (behind_space _) (behind_space _) right
        (legible_r.opening_eq legible_r' right)
      rw [BinaryOp.symbol_injective symbols]
      exact ⟨rfl, by simpa using last⟩
    | _ => cases opening

theorem Expr.Legible.text_injective {e e' : Expr} (legible : e.Legible) (legible' : e'.Legible)
    (same : e.text.toList = e'.text.toList) : e = e' :=
  (legible.cancel legible' behind_nil behind_nil (by rw [same])).1

/-- What follows the name of an assignment is no expression. -/
theorem Expr.Legible.text_ne_colon {e : Expr} (legible : e.Legible) (cs : List Char) :
    e.text.toList ≠ ':' :: cs := by
  intro h
  obtain ⟨c, _, first, opening⟩ := legible.opening
  rw [first] at h
  cases h
  cases opening

theorem Action.assign_text_ne {x : String} {e e' : Expr} (word : IsWord x)
    (legible' : e'.Legible) : (assign x e).text ≠ (print e').text := by
  intro same
  have same := congrArg String.toList same
  rw [toList_text_assign, toList_text_print] at same
  obtain ⟨_, rest⟩ :=
    string_cancel word (show IsWord "Print" by decide) (behind_space _) (behind_space _) same
  exact legible'.text_ne_colon _ (List.cons.inj rest).2.symm

theorem Action.Legible.text_injective {a a' : Action} (legible : a.Legible)
    (legible' : a'.Legible) (same : a.text = a'.text) : a = a' := by
  cases a with
  | assign x e =>
    cases a' with
    | assign x' e' =>
      have same := congrArg String.toList same
      rw [toList_text_assign, toList_text_assign] at same
      obtain ⟨rfl, rest⟩ :=
        string_cancel legible.1 legible'.1 (behind_space _) (behind_space _) same
      simp only [List.cons.injEq, true_and] at rest
      rw [legible.2.text_injective legible'.2 rest]
    | print e' => exact absurd same (assign_text_ne legible.1 legible')
  | print e =>
    cases a' with
    | assign x' e' => exact absurd same.symm (assign_text_ne legible'.1 legible)
    | print e' =>
      have same := congrArg String.toList same
      rw [toList_text_print, toList_text_print] at same
      have rest := (List.cons.inj (List.append_cancel_left same)).2
      rw [Expr.Legible.text_injective legible legible' rest]

theorem Program.eq_of_map_text_eq {p q : Program} (legible : ∀ a ∈ p, a.Legible)
    (legible' : ∀ a ∈ q, a.Legible) (same : p.map Action.text = q.map Action.text) : p = q := by
  induction p generalizing q with
  | nil => simpa using same.symm
  | cons a p ih =>
    cases q with
    | nil => simp at same
    | cons b q =>
      obtain ⟨first, others⟩ := List.cons.inj same
      obtain ⟨here, there⟩ := List.forall_mem_cons.mp legible
      obtain ⟨here', there'⟩ := List.forall_mem_cons.mp legible'
      rw [here.text_injective here' first, ih there there' others]

namespace Run

def withTokens (ts : List String) (r : Run) : Run :=
  { r with tokens := ts }

/-- The tokens are only carried along. -/
def Carries (ts : List String) (o o' : Run × Option DigitLimit) : Prop :=
  o' = (o.1.withTokens ts, o.2)

theorem stop_carries (ts : List String) (r : Run) (f : Failure) :
    Carries ts (r.stop f) ((r.withTokens ts).stop f) := by
  cases f <;> rfl

theorem onMachine_carries (ts : List String) (r : Run) (is : List Instruction) :
    Carries ts (r.onMachine is) ((r.withTokens ts).onMachine is) := by
  unfold onMachine
  rcases Machine.fresh.execute is with ⟨m, _ | f⟩
  · rfl
  · exact stop_carries ts _ f

theorem onAssembly_carries (ts : List String) (r : Run) (ls : List String) :
    Carries ts (r.onAssembly ls) ((r.withTokens ts).onAssembly ls) := by
  unfold onAssembly
  rcases assemble ls with ⟨f | is, warnings⟩
  · exact stop_carries ts _ f
  · exact onMachine_carries ts _ is

theorem onProgram_carries (ts : List String) (r : Run) (p : Program) :
    Carries ts (r.onProgram p) ((r.withTokens ts).onProgram p) := by
  unfold onProgram
  cases p.display with
  | error l => rfl
  | ok ls =>
    rcases Session.empty.execute p with ⟨s, _ | f⟩
    · cases p.compile with
      | error l => rfl
      | ok ls => exact onAssembly_carries ts _ ls
    · exact stop_carries ts _ f

end Run

/-- Two lists of tokens for one program have the same run but for the tokens. -/
theorem runTokens_withTokens {ts us : List String} {p : Program} (parsed : parse ts = .ok p)
    (parsed' : parse us = .ok p) : runTokens us = (runTokens ts).map (Run.withTokens us) := by
  have carries := Run.onProgram_carries us (Run.start ts) p
  have trace : Run.trace ts = (Run.start ts).onProgram p := by simp [Run.trace, parsed]
  have trace' : Run.trace us = ((Run.start ts).withTokens us).onProgram p := by
    simp [Run.trace, parsed', Run.start, Run.withTokens]
  rw [runTokens, runTokens, trace, trace', carries]
  rcases (Run.start ts).onProgram p with ⟨r, _ | l⟩ <;> rfl

/-- The infix lines of a program can always be written and lose nothing but the spelling of its
numerals: two lists of words with the same lines have the same program, and so the same run. -/
theorem infix_lines_tell_programs_apart {ts us : List String} {p q : Program}
    (tokens : ∀ t ∈ ts, IsWord t) (tokens' : ∀ t ∈ us, IsWord t)
    (parsed : parse ts = .ok p) (parsed' : parse us = .ok q) :
    p.display = .ok (p.map Action.text) ∧
    (p.display = q.display →
      p = q ∧ p.compile = q.compile ∧ runTokens us = (runTokens ts).map (Run.withTokens us)) := by
  have display := (parse_wellFormed parsed).display_eq
  have display' := (parse_wellFormed parsed').display_eq
  refine ⟨display, fun same => ?_⟩
  rw [display, display'] at same
  obtain rfl := Program.eq_of_map_text_eq (parse_legible tokens parsed)
    (parse_legible tokens' parsed') (Except.ok.inj same)
  exact ⟨rfl, rfl, runTokens_withTokens parsed parsed'⟩

/-- Names that look like parts of a line, and a numeral in two spellings. -/
theorem odd_names_told_apart :
    let p : Program := [.assign "Print" (.binary .sub (.constant 7) (.variable "a+")),
      .assign ":=" (.unary .negate (.unary .root (.variable "b)")))]
    let ts := [":=", "Print", "-", "007", "a+", ":=", ":=", "_", "%", "b)"]
    p.display = .ok ["Print := ( 7 - a+ )", ":= := _%b)"] ∧ parse ts = .ok p ∧ ts ≠ p.tokens ∧
      runTokens p.tokens = (runTokens ts).map (Run.withTokens p.tokens) := by
  intro p ts
  have wellFormed : p.WellFormed := by decide +kernel
  have seven : DerivesExpr ["007"] (.constant 7) :=
    .numeral (.plain ['0', '0', '7'] (by simp) (by simp)) (by decide)
  have name : DerivesExpr ["a+"] (.variable "a+") := .identifier (by decide)
  have second : DerivesAction NoNumeral [":=", ":=", "_", "%", "b)"]
      (.assign ":=" (.unary .negate (.unary .root (.variable "b)")))) :=
    .assign (by decide) (.unary .negate (.unary .root (.identifier (by decide))))
  have parsed : parse ts = .ok p :=
    parse_eq_ok_iff.mpr (.cons (.assign (by decide) (.binary .sub seven name)) (.cons second .nil))
  obtain ⟨display, apart⟩ := infix_lines_tell_programs_apart (by decide +kernel)
    (by decide +kernel) parsed (parse_tokens wellFormed)
  exact ⟨display.trans (congrArg Except.ok (by decide +kernel)), parsed, by decide,
    (apart rfl).2.2⟩

-- With a space in a name, two programs can have the same line.
example :
    let p : Program := [.assign "x := a" (.variable "b")]
    let q : Program := [.assign "x" (.variable "a := b")]
    p.WellFormed ∧ q.WellFormed ∧ p ≠ q ∧ p.map Action.text = q.map Action.text := by
  decide +kernel

end PolishCalc
