import PolishCalc.Session

namespace PolishCalc

theorem bind_eq_ok_iff {α β : Type} {x : Except Failure α} {f : α → Except Failure β} {b : β} :
    (x >>= f) = .ok b ↔ ∃ a, x = .ok a ∧ f a = .ok b := by
  cases x <;> simp [bind, Except.bind]

theorem bind_eq_error_iff {α β : Type} {x : Except Failure α} {f : α → Except Failure β}
    {g : Failure} :
    (x >>= f) = .error g ↔ x = .error g ∨ ∃ a, x = .ok a ∧ f a = .error g := by
  cases x <;> simp [bind, Except.bind]

/-- The value of an expression if the operands of every operator, divisions included, are worked
out once and from left to right. -/
def Expr.stackValue (t : Table) : Expr → Except Failure Int
  | .constant n => .ok n
  | .variable x => t.read x
  | .unary op e => do
    let a ← e.stackValue t
    op.apply a
  | .binary op l r => do
    let a ← l.stackValue t
    let b ← r.stackValue t
    op.apply a b

theorem tdiv_of_same_sign {a b : Int} (same : a < 0 ↔ b < 0) :
    a.tdiv b = (a.natAbs / b.natAbs : Nat) := by
  by_cases ha : a < 0
  · have hb : b < 0 := same.mp ha
    calc a.tdiv b = (-a).tdiv (-b) := (Int.neg_tdiv_neg a b).symm
      _ = ((a.natAbs : Int)).tdiv b.natAbs := by
        rw [Int.ofNat_natAbs_of_nonpos (Int.le_of_lt ha), Int.ofNat_natAbs_of_nonpos (Int.le_of_lt hb)]
      _ = (a.natAbs / b.natAbs : Nat) := (Int.ofNat_tdiv _ _).symm
  · have hb : ¬ b < 0 := fun hb => ha (same.mpr hb)
    rw [Int.ofNat_tdiv, Int.natAbs_of_nonneg (Int.not_lt.mp ha), Int.natAbs_of_nonneg (Int.not_lt.mp hb)]

/-- Turning the divisor round turns the quotient round. -/
theorem tdiv_of_other_sign {a b : Int} (hb : b ≠ 0) (other : ¬ (a < 0 ↔ b < 0)) :
    a.tdiv b = -((a.natAbs / b.natAbs : Nat) : Int) := by
  have same : a < 0 ↔ -b < 0 := by omega
  calc a.tdiv b = -(a.tdiv (-b)) := by rw [Int.tdiv_neg, Int.neg_neg]
    _ = -((a.natAbs / b.natAbs : Nat) : Int) := by rw [tdiv_of_same_sign same, Int.natAbs_neg]

/-- Putting the sign back is cutting off toward zero. -/
theorem signedQuotient_eq_tdiv (a : Int) {b : Int} (hb : b ≠ 0) :
    signedQuotient a b = a.tdiv b := by
  unfold signedQuotient
  by_cases same : a < 0 ↔ b < 0
  · rw [tdiv_of_same_sign same]
    exact if_pos (decide_eq_decide.mpr same)
  · rw [tdiv_of_other_sign hb same]
    exact if_neg (mt decide_eq_decide.mp same)

theorem quotient_of_ne_zero (a : Int) {b : Int} (hb : b ≠ 0) : quotient a b = .ok (a.tdiv b) := by
  rw [quotient, if_neg hb, signedQuotient_eq_tdiv a hb]

/-- In a division every operand needs to be worked out only once, the divisor first. -/
theorem Expr.evaluate_div (t : Table) (l r : Expr) :
    (Expr.binary .div l r).evaluate t = (do
      let d ← r.evaluate t
      if d = 0 then .error (Expr.binary .div l r).divisionFailure
      else
        let a ← l.evaluate t
        .ok (a.tdiv d)) := by
  simp only [evaluate]
  cases hr : r.evaluate t with
  | error f => rfl
  | ok d =>
    by_cases hd : d = 0
    · simp [bind, Except.bind, hd]
    · simp [bind, Except.bind, hd, BinaryOp.apply, quotient_of_ne_zero]

/-- The operators that do not divide work out their operands from left to right. -/
theorem Expr.evaluate_binary (t : Table) {op : BinaryOp} (hop : op ≠ .div) (l r : Expr) :
    (Expr.binary op l r).evaluate t = (do
      let a ← l.evaluate t
      let b ← r.evaluate t
      op.apply a b) := by
  cases op with
  | div => exact absurd rfl hop
  | add => rfl
  | sub => rfl
  | mul => rfl

theorem Expr.evaluate_div_eq_ok_iff {t : Table} {l r : Expr} {v : Int} :
    (Expr.binary .div l r).evaluate t = .ok v ↔
      ∃ a, l.evaluate t = .ok a ∧ ∃ b, r.evaluate t = .ok b ∧ quotient a b = .ok v := by
  rw [evaluate_div, bind_eq_ok_iff]
  constructor
  · rintro ⟨d, hr, h⟩
    by_cases hd : d = 0
    · simp [hd] at h
    · rw [if_neg hd] at h
      obtain ⟨a, hl, h⟩ := bind_eq_ok_iff.mp h
      exact ⟨a, hl, d, hr, (quotient_of_ne_zero a hd).trans h⟩
  · rintro ⟨a, hl, d, hr, h⟩
    have hd : d ≠ 0 := by
      rintro rfl
      simp [quotient] at h
    rw [quotient_of_ne_zero a hd] at h
    refine ⟨d, hr, ?_⟩
    rw [if_neg hd, hl]
    exact h

/-- The order of working out operands decides only which failure comes first. -/
theorem Expr.evaluate_eq_ok_iff {t : Table} {e : Expr} {v : Int} :
    e.evaluate t = .ok v ↔ e.stackValue t = .ok v := by
  induction e generalizing v with
  | constant n => rfl
  | «variable» x => rfl
  | unary op e ih => simp only [evaluate, stackValue, bind_eq_ok_iff, ih]
  | binary op l r ihl ihr =>
    by_cases hop : op = .div
    · subst hop
      simp only [evaluate_div_eq_ok_iff, stackValue, bind_eq_ok_iff, ihl, ihr, BinaryOp.apply]
    · simp only [evaluate_binary t hop, stackValue, bind_eq_ok_iff, ihl, ihr]

def Expr.divides : Expr → Bool
  | .constant _ => false
  | .variable _ => false
  | .unary _ e => e.divides
  | .binary op l r => op = .div || l.divides || r.divides

def Program.divides (p : Program) : Bool :=
  p.any fun a => a.expr.divides

theorem Expr.evaluate_eq_stackValue (t : Table) {e : Expr} (h : e.divides = false) :
    e.evaluate t = e.stackValue t := by
  induction e with
  | constant n => rfl
  | «variable» x => rfl
  | unary op e ih => simp only [evaluate, stackValue, ih h]
  | binary op l r ihl ihr =>
    simp only [divides, Bool.or_eq_false_iff, decide_eq_false_iff_not] at h
    obtain ⟨⟨hop, hl⟩, hr⟩ := h
    rw [evaluate_binary t hop, stackValue, ihl hl, ihr hr]

def Failure.NoUnderflow (f : Failure) : Prop :=
  ∀ g, f = .fault g → g.complaint.kind ≠ .stackUnderflow

theorem Fault.failure_noUnderflow {f : Fault} (h : f.complaint.kind ≠ .stackUnderflow) :
    f.failure.NoUnderflow := by
  intro g hg
  unfold failure at hg
  split at hg
  next =>
    rw [← Failure.fault.inj hg]
    exact h
  next => simp at hg

theorem UnaryOp.apply_noUnderflow {op : UnaryOp} {a : Int} {f : Failure}
    (h : op.apply a = .error f) : f.NoUnderflow := by
  cases op with
  | negate => simp [apply] at h
  | root =>
    simp only [apply, squareRoot] at h
    split at h
    next =>
      rw [← Except.error.inj h]
      exact Fault.failure_noUnderflow (by simp [Fault.complaint])
    next => simp at h

theorem BinaryOp.apply_noUnderflow {op : BinaryOp} {a b : Int} {f : Failure}
    (h : op.apply a b = .error f) : f.NoUnderflow := by
  cases op with
  | add => simp [apply] at h
  | sub => simp [apply] at h
  | mul => simp [apply] at h
  | div =>
    simp only [apply, quotient] at h
    split at h
    next =>
      rw [← Except.error.inj h]
      exact Fault.failure_noUnderflow (by simp [Fault.complaint])
    next => simp at h

theorem Expr.stackValue_noUnderflow {t : Table} {e : Expr} {f : Failure}
    (h : e.stackValue t = .error f) : f.NoUnderflow := by
  induction e generalizing f with
  | constant n => simp [stackValue] at h
  | «variable» x =>
    simp only [stackValue, Table.read] at h
    split at h
    next => simp at h
    next =>
      intro g hg
      rw [← Except.error.inj h] at hg
      simp [← Failure.fault.inj hg, Fault.complaint]
  | unary op e ih =>
    rcases bind_eq_error_iff.mp h with h | ⟨a, _, h⟩
    · exact ih h
    · exact op.apply_noUnderflow h
  | binary op l r ihl ihr =>
    rcases bind_eq_error_iff.mp h with h | ⟨a, _, h⟩
    · exact ihl h
    · rcases bind_eq_error_iff.mp h with h | ⟨b, _, h⟩
      · exact ihr h
      · exact op.apply_noUnderflow h

end PolishCalc
