import PolishCalc.Proofs.Numerals
import PolishCalc.Proofs.StackValue

namespace PolishCalc

/-- Integers whose shortest numeral has too many digits. -/
def Huge (n : Int) : Prop :=
  digitLimit < digitCount (decimal n)

theorem huge_iff {n : Int} : Huge n ↔ writable n = false := by
  rw [Huge, ← Bool.not_eq_true, writable_iff_digitCount]
  omega

/-- What can stop the working out of an expression. -/
inductive Stop
  | unset (name : String)
  | negativeRoot (operand : Int)
  | zeroDivisor (quotient : Expr)
  deriving DecidableEq, Repr

def Stop.failure : Stop → Failure
  | .unset x => .fault (.uninitialized x)
  | .negativeRoot a => (Fault.negativeRoot a).failure
  | .zeroDivisor q => q.divisionFailure

/-- `e.StopsBy t c`: when `e` is worked out with the values in `t`, all goes well up to the first
stop, which is `c`. A division begins with its divisor. -/
inductive Expr.StopsBy (t : Table) : Expr → Stop → Prop
  | unset {x : String} (missing : t.get? x = none) : StopsBy t (.variable x) (.unset x)
  | root {e : Expr} {a : Int} (value : e.evaluate t = .ok a) (negative : a < 0) :
      StopsBy t (.unary .root e) (.negativeRoot a)
  | operand (op : UnaryOp) {e : Expr} {c : Stop} (stops : StopsBy t e c) :
      StopsBy t (.unary op e) c
  | left {op : BinaryOp} (plain : op ≠ .div) {l : Expr} (r : Expr) {c : Stop}
      (stops : StopsBy t l c) : StopsBy t (.binary op l r) c
  | right {op : BinaryOp} (plain : op ≠ .div) {l r : Expr} {a : Int} {c : Stop}
      (value : l.evaluate t = .ok a) (stops : StopsBy t r c) : StopsBy t (.binary op l r) c
  | divisor (l : Expr) {r : Expr} {c : Stop} (stops : StopsBy t r c) :
      StopsBy t (.binary .div l r) c
  | zero (l : Expr) {r : Expr} (value : r.evaluate t = .ok 0) :
      StopsBy t (.binary .div l r) (.zeroDivisor (.binary .div l r))
  | dividend {l r : Expr} {d : Int} {c : Stop} (value : r.evaluate t = .ok d) (nonzero : d ≠ 0)
      (stops : StopsBy t l c) : StopsBy t (.binary .div l r) c

theorem Table.read_eq_error_iff {t : Table} {x : String} {f : Failure} :
    t.read x = .error f ↔ t.get? x = none ∧ f = .fault (.uninitialized x) := by
  unfold read
  cases t.get? x <;> simp [eq_comm]

theorem UnaryOp.apply_eq_error {op : UnaryOp} {a : Int} {f : Failure}
    (h : op.apply a = .error f) : op = .root ∧ a < 0 ∧ (Stop.negativeRoot a).failure = f := by
  cases op with
  | negate => simp [apply] at h
  | root =>
    simp only [apply, squareRoot] at h
    split at h
    next negative => exact ⟨rfl, negative, Except.error.inj h⟩
    next => simp at h

theorem BinaryOp.exists_apply {op : BinaryOp} (plain : op ≠ .div) (a b : Int) :
    ∃ v, op.apply a b = .ok v := by
  cases op with
  | div => exact absurd rfl plain
  | _ => exact ⟨_, rfl⟩

theorem BinaryOp.apply_ne_error {op : BinaryOp} (plain : op ≠ .div) (a b : Int) (f : Failure) :
    op.apply a b ≠ .error f := by
  obtain ⟨v, applied⟩ := exists_apply plain a b
  simp [applied]

theorem Expr.StopsBy.evaluate_eq {t : Table} {e : Expr} {c : Stop} (h : e.StopsBy t c) :
    e.evaluate t = .error c.failure := by
  induction h with
  | unset missing => exact Table.read_eq_error_iff.mpr ⟨missing, rfl⟩
  | root value negative =>
    refine bind_eq_error_iff.mpr (.inr ⟨_, value, ?_⟩)
    simp [UnaryOp.apply, squareRoot, negative, Stop.failure]
  | operand op _ ih => exact bind_eq_error_iff.mpr (.inl ih)
  | left plain r _ ih =>
    rw [evaluate_binary t plain]
    exact bind_eq_error_iff.mpr (.inl ih)
  | right plain value _ ih =>
    rw [evaluate_binary t plain]
    exact bind_eq_error_iff.mpr (.inr ⟨_, value, bind_eq_error_iff.mpr (.inl ih)⟩)
  | divisor l _ ih =>
    rw [evaluate_div]
    exact bind_eq_error_iff.mpr (.inl ih)
  | zero l value =>
    rw [evaluate_div]
    exact bind_eq_error_iff.mpr (.inr ⟨0, value, rfl⟩)
  | dividend value nonzero _ ih =>
    rw [evaluate_div]
    refine bind_eq_error_iff.mpr (.inr ⟨_, value, ?_⟩)
    rw [if_neg nonzero]
    exact bind_eq_error_iff.mpr (.inl ih)

/-- An expression without a value has a first stop. -/
theorem Expr.exists_stopsBy {t : Table} {e : Expr} {f : Failure} (h : e.evaluate t = .error f) :
    ∃ c, e.StopsBy t c ∧ c.failure = f := by
  induction e generalizing f with
  | constant n => simp [evaluate] at h
  | «variable» x =>
    obtain ⟨missing, rfl⟩ := Table.read_eq_error_iff.mp h
    exact ⟨.unset x, .unset missing, rfl⟩
  | unary op e ih =>
    rcases bind_eq_error_iff.mp h with h | ⟨a, value, h⟩
    · obtain ⟨c, stops, hc⟩ := ih h
      exact ⟨c, .operand op stops, hc⟩
    · obtain ⟨rfl, negative, hf⟩ := UnaryOp.apply_eq_error h
      exact ⟨.negativeRoot a, .root value negative, hf⟩
  | binary op l r ihl ihr =>
    by_cases hop : op = .div
    · subst hop
      rw [evaluate_div] at h
      rcases bind_eq_error_iff.mp h with h | ⟨d, value, h⟩
      · obtain ⟨c, stops, hc⟩ := ihr h
        exact ⟨c, .divisor l stops, hc⟩
      · by_cases hd : d = 0
        · subst hd
          rw [if_pos rfl] at h
          exact ⟨.zeroDivisor (.binary .div l r), .zero l value, Except.error.inj h⟩
        · rw [if_neg hd] at h
          rcases bind_eq_error_iff.mp h with h | ⟨a, _, h⟩
          · obtain ⟨c, stops, hc⟩ := ihl h
            exact ⟨c, .dividend value hd stops, hc⟩
          · simp at h
    · rw [evaluate_binary t hop] at h
      rcases bind_eq_error_iff.mp h with h | ⟨a, value, h⟩
      · obtain ⟨c, stops, hc⟩ := ihl h
        exact ⟨c, .left hop r stops, hc⟩
      · rcases bind_eq_error_iff.mp h with h | ⟨b, _, h⟩
        · obtain ⟨c, stops, hc⟩ := ihr h
          exact ⟨c, .right hop value stops, hc⟩
        · exact absurd h (BinaryOp.apply_ne_error hop a b f)

/-- The quotient that is named when a division stops is part of the expression. -/
theorem Expr.StopsBy.quotient_writable {t : Table} {e q : Expr} (h : e.StopsBy t (.zeroDivisor q))
    (writable : e.writable = true) : q.writable = true := by
  generalize hc : Stop.zeroDivisor q = c at h
  induction h with
  | unset => cases hc
  | root => cases hc
  | operand op _ ih => exact ih writable hc
  | left plain r _ ih =>
    simp only [Expr.writable, Bool.and_eq_true] at writable
    exact ih writable.1 hc
  | right plain _ _ ih =>
    simp only [Expr.writable, Bool.and_eq_true] at writable
    exact ih writable.2 hc
  | divisor l _ ih =>
    simp only [Expr.writable, Bool.and_eq_true] at writable
    exact ih writable.2 hc
  | zero => cases hc; exact writable
  | dividend _ _ _ ih =>
    simp only [Expr.writable, Bool.and_eq_true] at writable
    exact ih writable.1 hc

theorem Stop.negativeRoot_failure {a : Int} {l : DigitLimit} :
    (Stop.negativeRoot a).failure = .limit l ↔ Huge a ∧ l = .writing := by
  rw [huge_iff]
  have named : (Fault.negativeRoot a).complaint.writable = PolishCalc.writable a := by
    simp only [Complaint.writable, Fault.complaint, Option.all_some, Datum.writable]
  cases hw : PolishCalc.writable a with
  | true => simp [failure, Fault.failure, named, hw]
  | false => simp [failure, Fault.failure, named, hw, eq_comm]

/-- Only a root can meet the digit limit in an expression whose constants can be written. -/
theorem Expr.evaluate_eq_limit_iff {t : Table} {e : Expr} {l : DigitLimit}
    (writable : e.writable = true) :
    e.evaluate t = .error (.limit l) ↔
      (∃ a, e.StopsBy t (.negativeRoot a) ∧ Huge a) ∧ l = .writing := by
  constructor
  · intro h
    obtain ⟨c, stops, hc⟩ := exists_stopsBy h
    cases c with
    | unset x => simp [Stop.failure] at hc
    | negativeRoot a =>
      obtain ⟨huge, rfl⟩ := Stop.negativeRoot_failure.mp hc
      exact ⟨⟨a, stops, huge⟩, rfl⟩
    | zeroDivisor q =>
      -- The message shows the quotient as it stands in the program, not the values in it.
      have hq := stops.quotient_writable writable
      simp [Stop.failure, divisionFailure, display, hq] at hc
  · rintro ⟨⟨a, stops, huge⟩, rfl⟩
    rw [stops.evaluate_eq, Stop.negativeRoot_failure.mpr ⟨huge, rfl⟩]

theorem printed_eq_limit_iff {v : Int} {l : DigitLimit} :
    printed v = .error (.limit l) ↔ Huge v ∧ l = .writing := by
  rw [huge_iff]
  cases hw : writable v with
  | true => simp [printed, hw]
  | false => simp [printed, hw, eq_comm]

namespace Session

/-- An action meets the digit limit when it prints a huge value or takes the root of a huge negative
one. -/
theorem act_eq_limit_iff {s : Session} {a : Action} {l : DigitLimit}
    (writable : a.expr.writable = true) :
    s.act a = .error (.limit l) ↔
      ((∃ v, a.expr.StopsBy s.symbols (.negativeRoot v) ∧ Huge v) ∨
        ∃ e v, a = .print e ∧ e.evaluate s.symbols = .ok v ∧ Huge v) ∧ l = .writing := by
  cases a with
  | assign x e =>
    have he : e.writable = true := writable
    simp only [act, bind_eq_error_iff, Expr.evaluate_eq_limit_iff he, Action.expr]
    simp
  | print e =>
    have he : e.writable = true := writable
    simp only [act, bind_eq_error_iff, Expr.evaluate_eq_limit_iff he, printed_eq_limit_iff,
      Action.expr]
    constructor
    · rintro (⟨stops, rfl⟩ | ⟨v, value, ⟨huge, rfl⟩ | ⟨line, _, h⟩⟩)
      · exact ⟨.inl stops, rfl⟩
      · exact ⟨.inr ⟨e, v, rfl, value, huge⟩, rfl⟩
      · cases h
    · rintro ⟨stops | ⟨e', v, same, value, huge⟩, rfl⟩
      · exact .inl ⟨stops, rfl⟩
      · cases same
        exact .inr ⟨v, value, .inl ⟨huge, rfl⟩⟩

end Session

end PolishCalc
