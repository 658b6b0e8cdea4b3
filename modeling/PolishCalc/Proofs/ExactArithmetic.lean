import Mathlib.Data.Nat.Sqrt
import PolishCalc.Proofs.Numerals
import PolishCalc.Proofs.StackValue

namespace PolishCalc

/-- `CutOff a b q`: what remains of `a` after `q` times `b` is smaller than `b` in size, and it is
zero or has the sign of `a`. -/
def CutOff (a b q : Int) : Prop :=
  ∃ r, a = b * q + r ∧ r.natAbs < b.natAbs ∧ (r = 0 ∨ r.sign = a.sign)

theorem cutOff_tdiv (a : Int) {b : Int} (hb : b ≠ 0) : CutOff a b (a.tdiv b) := by
  refine ⟨a.tmod b, (Int.mul_tdiv_add_tmod a b).symm, ?_, ?_⟩
  · rw [Int.natAbs_tmod]
    exact Nat.mod_lt _ (Int.natAbs_pos.mpr hb)
  · by_cases exact : b ∣ a
    · exact .inl (Int.tmod_eq_zero_of_dvd exact)
    · exact .inr (by rw [Int.sign_tmod, if_neg exact])

theorem CutOff.eq_tdiv {a b q : Int} (h : CutOff a b q) (hb : b ≠ 0) : q = a.tdiv b := by
  obtain ⟨r, split, small, sign⟩ := h
  -- The library knows the quotient by its remainder for one sign of the dividend at a time.
  rcases Int.le_total 0 a with ha | ha
  · have hr : 0 ≤ r := by
      rcases sign with rfl | sign
      · exact Int.le_refl 0
      · rwa [← Int.sign_nonneg_iff, sign, Int.sign_nonneg_iff]
    exact ((Int.tdiv_tmod_unique ha hb).mpr ⟨by omega, hr, by omega⟩).1.symm
  · have hr : r ≤ 0 := by
      rcases sign with rfl | sign
      · exact Int.le_refl 0
      · rwa [← Int.sign_nonpos_iff, sign, Int.sign_nonpos_iff]
    exact ((Int.tdiv_tmod_unique' ha hb).mpr ⟨by omega, by omega, hr⟩).1.symm

theorem cutOff_iff {a b q : Int} (hb : b ≠ 0) : CutOff a b q ↔ q = a.tdiv b := by
  constructor
  · intro h
    exact h.eq_tdiv hb
  · rintro rfl
    exact cutOff_tdiv a hb

theorem CutOff.divisor_ne_zero {a b q : Int} (h : CutOff a b q) : b ≠ 0 := by
  obtain ⟨r, _, small, _⟩ := h
  rintro rfl
  exact Nat.not_lt_zero _ small

theorem rootFrom_eq_iter (n guess : Nat) : rootFrom n guess = Nat.sqrt.iter n guess := by
  fun_induction rootFrom n guess with
  | case1 guess next falls ih =>
    rw [Nat.sqrt.iter]
    split
    next => exact ih
    next stays => exact absurd falls stays
  | case2 guess next stays =>
    rw [Nat.sqrt.iter]
    split
    next falls => exact absurd falls stays
    next => rfl

theorem natRoot_eq_sqrt (n : Nat) : natRoot n = Nat.sqrt n := by
  rw [natRoot, Nat.sqrt, rootFrom_eq_iter]

/-- The root of `n` is the one number whose square `n` has reached without reaching the next. -/
theorem natRoot_eq_iff {n x : Nat} : x = natRoot n ↔ x * x ≤ n ∧ n < (x + 1) * (x + 1) := by
  rw [natRoot_eq_sqrt]
  exact Nat.eq_sqrt

theorem squareRoot_eq_ok {a : Int} (ha : 0 ≤ a) : squareRoot a = .ok (natRoot a.toNat) :=
  if_neg (Int.not_lt.mpr ha)

/-- A fault that names an integer gives way to the digit limit if the integer is too long. -/
theorem Fault.failure_of_integer {f : Fault} {a : Int}
    (named : f.complaint.value = some (.integer a)) :
    f.failure = if writable a then .fault f else .limit .writing := by
  rw [failure, Complaint.writable, named, Option.all_some, Datum.writable]

theorem squareRoot_eq_ok_iff {a : Int} {r : Nat} :
    squareRoot a = .ok r ↔ (r * r : Int) ≤ a ∧ a < (r + 1) * (r + 1) := by
  rcases Int.lt_or_le a 0 with negative | ha
  · have square : (0 : Int) ≤ r * r := Int.mul_nonneg (Int.natCast_nonneg r) (Int.natCast_nonneg r)
    constructor
    · intro ok
      rw [squareRoot, if_pos negative] at ok
      cases ok
    · rintro ⟨reached, _⟩
      omega
  · obtain ⟨n, rfl⟩ := Int.eq_ofNat_of_zero_le ha
    rw [squareRoot_eq_ok ha, Except.ok.injEq, Int.natCast_inj, eq_comm, Int.toNat_natCast,
      natRoot_eq_iff]
    norm_cast

theorem squareRoot_of_neg {a : Int} (ha : a < 0) :
    squareRoot a = .error (if writable a then .fault (.negativeRoot a) else .limit .writing) := by
  rw [squareRoot, if_pos ha, Fault.failure_of_integer rfl]

/-- `op.Yields a r`: what an operator with one operand stands for. A negative integer has no root,
which is told with the integer if it can be written. -/
inductive UnaryOp.Yields : UnaryOp → Int → Except Failure Int → Prop
  | negated (a : Int) : Yields .negate a (.ok (-a))
  | root {a : Int} {r : Nat} (reached : (r * r : Int) ≤ a) (next : a < (r + 1) * (r + 1)) :
      Yields .root a (.ok r)
  | noRoot {a : Int} (negative : a < 0) (short : writable a = true) :
      Yields .root a (.error (.fault (.negativeRoot a)))
  | noLongRoot {a : Int} (negative : a < 0) (long : writable a = false) :
      Yields .root a (.error (.limit .writing))

/-- `op.Yields a b v`: what an operator with two operands stands for, if there is a value. -/
inductive BinaryOp.Yields : BinaryOp → Int → Int → Int → Prop
  | sum (a b : Int) : Yields .add a b (a + b)
  | difference (a b : Int) : Yields .sub a b (a - b)
  | product (a b : Int) : Yields .mul a b (a * b)
  | quotient {a b q : Int} (cut : CutOff a b q) : Yields .div a b q

theorem UnaryOp.yields_iff {op : UnaryOp} {a : Int} {r : Except Failure Int} :
    op.Yields a r ↔ op.apply a = r := by
  constructor
  · intro yields
    cases yields with
    | negated => rfl
    | root reached next => exact squareRoot_eq_ok_iff.mpr ⟨reached, next⟩
    | noRoot negative short => rw [apply, squareRoot_of_neg negative, if_pos short]
    | noLongRoot negative long =>
      rw [apply, squareRoot_of_neg negative, long]
      rfl
  · rintro rfl
    cases op with
    | negate => exact .negated a
    | root =>
      rw [apply]
      rcases Int.lt_or_le a 0 with negative | ha
      · rw [squareRoot_of_neg negative]
        cases short : writable a with
        | true => exact .noRoot negative short
        | false => exact .noLongRoot negative short
      · have value := squareRoot_eq_ok ha
        obtain ⟨reached, next⟩ := squareRoot_eq_ok_iff.mp value
        rw [value]
        exact .root reached next

theorem BinaryOp.yields_iff {op : BinaryOp} {a b v : Int} :
    op.Yields a b v ↔ op.apply a b = .ok v := by
  constructor
  · intro yields
    cases yields with
    | sum => rfl
    | difference => rfl
    | product => rfl
    | quotient cut =>
      have hb := cut.divisor_ne_zero
      rw [apply, quotient_of_ne_zero a hb, cut.eq_tdiv hb]
  · intro applied
    cases op with
    | add =>
      cases applied
      exact .sum a b
    | sub =>
      cases applied
      exact .difference a b
    | mul =>
      cases applied
      exact .product a b
    | div =>
      have hb : b ≠ 0 := by
        rintro rfl
        rw [apply, quotient, if_pos rfl] at applied
        cases applied
      rw [apply, quotient_of_ne_zero a hb] at applied
      cases applied
      exact .quotient (cutOff_tdiv a hb)

/-- A quotient is the only integer that leaves a remainder of the dividend's sign, smaller than the
divisor; it changes its sign with either operand. A root is the only natural number whose square is
not above the operand while the next square is. Nothing is divided by zero, and no negative integer
has a root. -/
theorem quotient_and_root_exact :
    (∀ a b : Int, b ≠ 0 → ∃ q, quotient a b = .ok q ∧ (∀ x, CutOff a b x ↔ x = q) ∧
      quotient (-a) b = .ok (-q) ∧ quotient a (-b) = .ok (-q)) ∧
    (∀ a : Int, quotient a 0 =
      .error (if writable a then .fault (.zeroDivision a) else .limit .writing)) ∧
    (∀ a : Int, 0 ≤ a → ∃ r : Nat, squareRoot a = .ok r ∧
      ∀ x : Nat, (x * x : Int) ≤ a ∧ a < (x + 1) * (x + 1) ↔ x = r) ∧
    ∀ a : Int, a < 0 → squareRoot a =
      .error (if writable a then .fault (.negativeRoot a) else .limit .writing) := by
  refine ⟨?_, ?_, ?_, ?_⟩
  · intro a b hb
    refine ⟨a.tdiv b, quotient_of_ne_zero a hb, fun x => cutOff_iff hb, ?_, ?_⟩
    · rw [quotient_of_ne_zero _ hb, Int.neg_tdiv]
    · rw [quotient_of_ne_zero _ (Int.neg_ne_zero.mpr hb), Int.tdiv_neg]
  · intro a
    rw [quotient, if_pos rfl, Fault.failure_of_integer rfl]
  · intro a ha
    refine ⟨natRoot a.toNat, squareRoot_eq_ok ha, fun x => ?_⟩
    rw [← squareRoot_eq_ok_iff, squareRoot_eq_ok ha, Except.ok.injEq, Int.natCast_inj, eq_comm]
  · intro a ha
    exact squareRoot_of_neg ha

/-- Both signs of a quotient that does not come out even, and a root one below a square. -/
theorem quotient_and_root_below_exact :
    let a : Int := 999999999999999999999999
    quotient (-7) 2 = .ok (-3) ∧ (∀ x, CutOff (-7) 2 x ↔ x = -3) ∧ quotient 7 2 = .ok 3 ∧
      quotient (-7) (-2) = .ok 3 ∧ squareRoot a = .ok 999999999999 ∧
      (∀ x : Nat, (x * x : Int) ≤ a ∧ a < (x + 1) * (x + 1) ↔ x = 999999999999) ∧
      squareRoot (-1) = .error (.fault (.negativeRoot (-1))) := by
  intro a
  obtain ⟨quotients, _, roots, refused⟩ := quotient_and_root_exact
  obtain ⟨q, hq, unique, negated, negated'⟩ := quotients (-7) 2 (by decide)
  obtain rfl : -3 = q := Except.ok.inj hq
  obtain ⟨r, hr, unique'⟩ := roots a (by decide)
  obtain rfl : 999999999999 = r := ((unique' 999999999999).mp (by decide))
  have negative := refused (-1) (by decide)
  rw [if_pos (writable_iff.mpr (by decide +kernel))] at negative
  exact ⟨hq, unique, negated, negated', hr, unique', negative⟩

end PolishCalc
