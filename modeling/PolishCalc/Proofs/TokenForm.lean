import PolishCalc.Proofs.Grammar

namespace PolishCalc

/-- An expression in prefix notation, with constants in decimal. -/
def Expr.tokens : Expr → List String
  | .constant n => [decimal n]
  | .variable x => [x]
  | .unary op e => op.symbol :: e.tokens
  | .binary op l r => op.symbol :: (l.tokens ++ r.tokens)

def Action.tokens : Action → List String
  | .assign x e => ":=" :: x :: e.tokens
  | .print e => "#" :: e.tokens

def Program.tokens (p : Program) : List String :=
  p.flatMap Action.tokens

/-- Constants have few enough digits, and variables are identifiers. -/
def Expr.WellFormed : Expr → Prop
  | .constant n => PolishCalc.writable n = true
  | .variable x => Identifier x
  | .unary _ e => e.WellFormed
  | .binary _ l r => l.WellFormed ∧ r.WellFormed

def Action.WellFormed : Action → Prop
  | .assign x e => NoNumeral x ∧ e.WellFormed
  | .print e => e.WellFormed

def Program.WellFormed (p : Program) : Prop :=
  ∀ a ∈ p, a.WellFormed

instance (t : String) : Decidable (Identifier t) :=
  decidable_of_iff _ isIdentifier_iff

instance (t : String) : Decidable (NoNumeral t) :=
  decidable_of_iff _ isNumeral_eq_false_iff

instance Expr.decidableWellFormed : (e : Expr) → Decidable e.WellFormed
  | .constant n => inferInstanceAs (Decidable (PolishCalc.writable n = true))
  | .variable x => inferInstanceAs (Decidable (Identifier x))
  | .unary _ e => e.decidableWellFormed
  | .binary _ l r =>
    have := l.decidableWellFormed
    have := r.decidableWellFormed
    inferInstanceAs (Decidable (l.WellFormed ∧ r.WellFormed))

instance : (a : Action) → Decidable a.WellFormed
  | .assign x e => inferInstanceAs (Decidable (NoNumeral x ∧ e.WellFormed))
  | .print e => inferInstanceAs (Decidable e.WellFormed)

instance (p : Program) : Decidable p.WellFormed :=
  inferInstanceAs (Decidable (∀ a ∈ p, a.WellFormed))

theorem DerivesExpr.wellFormed {ts : List String} {e : Expr} (h : DerivesExpr ts e) :
    e.WellFormed := by
  induction h with
  | numeral form short => exact form.writable_of_short short
  | identifier form => exact form
  | unary _ _ ih => exact ih
  | binary _ _ _ ihl ihr => exact ⟨ihl, ihr⟩

theorem DerivesAction.wellFormed {ts : List String} {a : Action}
    (h : DerivesAction NoNumeral ts a) : a.WellFormed := by
  cases h with
  | assign target value => exact ⟨target, value.wellFormed⟩
  | print value => exact value.wellFormed

theorem DerivesProgram.wellFormed {ts : List String} {p : Program}
    (h : DerivesProgram NoNumeral ts p) : p.WellFormed := by
  induction h with
  | nil => intro a ha; simp at ha
  | cons first _ ih =>
    intro a ha
    rcases List.mem_cons.mp ha with rfl | ha
    · exact first.wellFormed
    · exact ih a ha

theorem Expr.WellFormed.derivesExpr {e : Expr} (h : e.WellFormed) : DerivesExpr e.tokens e := by
  induction e with
  | constant n =>
    have short := writable_iff_digitCount.mp h
    rw [(decimal_numeral n).digitCount_eq] at short
    exact .numeral (decimal_numeral n) short
  | «variable» x => exact .identifier h
  | unary op e ih => exact .unary op (ih h)
  | binary op l r ihl ihr => exact .binary op (ihl h.1) (ihr h.2)

theorem Action.WellFormed.derivesAction {a : Action} (h : a.WellFormed) :
    DerivesAction NoNumeral a.tokens a := by
  cases a with
  | assign x e => exact .assign h.1 h.2.derivesExpr
  | print e => exact .print (Expr.WellFormed.derivesExpr h)

theorem Program.WellFormed.derivesProgram {p : Program} (h : p.WellFormed) :
    DerivesProgram NoNumeral p.tokens p := by
  induction p with
  | nil => exact .nil
  | cons a p ih =>
    have first := (h a (by simp)).derivesAction
    have others := ih (fun b hb => h b (by simp [hb]))
    exact .cons first others

theorem parse_tokens {p : Program} (h : p.WellFormed) : parse p.tokens = .ok p :=
  parse_eq_ok_iff.mpr h.derivesProgram

theorem parse_wellFormed {ts : List String} {p : Program} (h : parse ts = .ok p) : p.WellFormed :=
  (parse_eq_ok_iff.mp h).wellFormed

/-- The parser gives a program for exactly the token lists of the grammar; no token list has two
programs; and the well-formed programs are those that come back when they are written out. -/
theorem parse_iff_derives_and_written_back :
    (∀ ts p, parse ts = .ok p ↔ DerivesProgram NoNumeral ts p) ∧
    (∀ ts p q, DerivesProgram NoNumeral ts p → DerivesProgram NoNumeral ts q → p = q) ∧
    (∀ p : Program, p.WellFormed → parse p.tokens = .ok p) ∧
    (∀ ts p, parse ts = .ok p → p.WellFormed) := by
  refine ⟨fun ts p => parse_eq_ok_iff, ?_, fun p => parse_tokens, fun ts p => parse_wellFormed⟩
  intro ts p q hp hq
  have hpq := (parse_eq_ok_iff.mpr hp).symm.trans (parse_eq_ok_iff.mpr hq)
  exact Except.ok.inj hpq

/-- Operators as targets, and a minus sign that is no operator. -/
theorem operator_target_written_back :
    let p : Program :=
      [.assign "+" (.binary .sub (.constant (-5)) (.unary .negate (.variable "a+")))]
    p.WellFormed ∧ p.tokens = [":=", "+", "-", "-5", "_", "a+"] ∧ parse p.tokens = .ok p ∧
      DerivesProgram NoNumeral p.tokens p := by
  intro p
  have wellFormed : p.WellFormed := by decide +kernel
  have back := parse_iff_derives_and_written_back.2.2.1 p wellFormed
  exact ⟨wellFormed, by decide, back, (parse_iff_derives_and_written_back.1 _ p).mp back⟩

/-- Tokens that are no numerals short enough to be read. -/
def NoShortNumeral (t : String) : Prop :=
  ∀ ds n, Numeral t ds n → digitLimit < ds.length

theorem parse_numeral_target {x : String} (hx : isNumeral x = true) {ts : List String} {e : Expr}
    (value : DerivesExpr ts e) : parse (":=" :: x :: ts) = .error (.fault (.numeralTarget x)) := by
  have he := value.expression_eq []
  rw [List.append_nil] at he
  simp [parse, actions_cons, action, readThen, he, assignment, hx]

/-- A numeral too long to be read is still a numeral: it cannot be assigned to. -/
theorem long_numeral_target_refused :
    let x := String.ofList (List.replicate (digitLimit + 1) '1')
    DerivesProgram NoShortNumeral [":=", x, "5"] [.assign x (.constant 5)] ∧
      parse [":=", x, "5"] = .error (.fault (.numeralTarget x)) := by
  intro x
  have ones : ∀ c ∈ List.replicate (digitLimit + 1) '1', '0' ≤ c ∧ c ≤ '9' := by
    intro c hc
    rw [List.eq_of_mem_replicate hc]
    decide
  have form := Numeral.plain (List.replicate (digitLimit + 1) '1') (by simp) ones
  have target : NoShortNumeral x := by
    intro ds n h
    rw [← h.digitCount_eq, form.digitCount_eq, List.length_replicate]
    exact Nat.lt_succ_self digitLimit
  have five : DerivesExpr ["5"] (.constant 5) :=
    .numeral (.plain ['5'] (by simp) (by simp)) (by decide)
  have hx : isNumeral x = true := isNumeral_iff.mpr ⟨_, _, form⟩
  exact ⟨.cons (.assign target five) .nil, parse_numeral_target hx five⟩

end PolishCalc
