import PolishCalc.Numeral

namespace PolishCalc

/-- `Numeral t ds n`: the text `t` is one or more of the digits 0 to 9, the list `ds`, with or
without a minus sign in front, and stands for the integer `n`. -/
inductive Numeral : String → List Char → Int → Prop
  | plain (ds : List Char) (nonempty : ds ≠ []) (digits : ∀ c ∈ ds, '0' ≤ c ∧ c ≤ '9') :
      Numeral (String.ofList ds) ds (Nat.ofDigitChars 10 ds 0)
  | negative (ds : List Char) (nonempty : ds ≠ []) (digits : ∀ c ∈ ds, '0' ≤ c ∧ c ≤ '9') :
      Numeral (String.ofList ('-' :: ds)) ds (-(Nat.ofDigitChars 10 ds 0 : Int))

theorem isDigit_iff {c : Char} : c.isDigit = true ↔ '0' ≤ c ∧ c ≤ '9' := by
  simp [Char.isDigit, Char.le_def]

theorem unsigned_of_head_ne {cs : List Char} (h : cs.head? ≠ some '-') : unsigned cs = cs := by
  unfold unsigned
  split
  next => simp at h
  next => rfl

theorem head_ne_minus_of_digits {ds : List Char} (digits : ∀ c ∈ ds, '0' ≤ c ∧ c ≤ '9') :
    ds.head? ≠ some '-' := by
  intro h
  have hm : '-' ∈ ds := List.mem_of_mem_head? (by simp [h])
  exact absurd (digits '-' hm) (by decide)

theorem Numeral.unsigned_eq {t : String} {ds : List Char} {n : Int} (h : Numeral t ds n) :
    unsigned t.toList = ds := by
  cases h with
  | plain _ _ digits =>
    rw [String.toList_ofList, unsigned_of_head_ne (head_ne_minus_of_digits digits)]
  | negative => rw [String.toList_ofList]; rfl

theorem Numeral.digitCount_eq {t : String} {ds : List Char} {n : Int} (h : Numeral t ds n) :
    digitCount t = ds.length := by
  rw [digitCount, h.unsigned_eq]

theorem Numeral.value_eq {t : String} {ds : List Char} {n : Int} (h : Numeral t ds n) :
    numeralValue t = n := by
  cases h with
  | plain _ _ digits =>
    rw [numeralValue, String.toList_ofList]
    split
    next => exact absurd (by simp) (head_ne_minus_of_digits digits)
    next => rfl
  | negative => rw [numeralValue, String.toList_ofList]; rfl

theorem isNumeral_iff {t : String} : isNumeral t = true ↔ ∃ ds n, Numeral t ds n := by
  constructor
  · intro h
    obtain ⟨hne, hd⟩ : unsigned t.toList ≠ [] ∧ ∀ c ∈ unsigned t.toList, '0' ≤ c ∧ c ≤ '9' := by
      simpa [isNumeral, isDigit_iff] using h
    rw [← String.ofList_toList (s := t)]
    unfold unsigned at hne hd
    split at hne
    next cs hcs =>
      rw [hcs] at hd ⊢
      exact ⟨cs, _, .negative cs hne hd⟩
    next => exact ⟨t.toList, _, .plain t.toList hne (by simp_all)⟩
  · rintro ⟨ds, n, h⟩
    have hu := h.unsigned_eq
    cases h <;> simp_all [isNumeral, isDigit_iff]

theorem isNumeral_eq_false_iff {t : String} :
    isNumeral t = false ↔ ∀ ds n, ¬ Numeral t ds n := by
  rw [← Bool.not_eq_true, isNumeral_iff]
  simp

theorem toDigits_digits (k : Nat) : ∀ c ∈ Nat.toDigits 10 k, '0' ≤ c ∧ c ≤ '9' := by
  intro c hc
  exact isDigit_iff.mp (Nat.isDigit_of_mem_toDigits (by decide) (by decide) hc)

theorem decimal_numeral (n : Int) : Numeral (decimal n) (Nat.toDigits 10 n.natAbs) n := by
  cases n with
  | ofNat k =>
    have h := Numeral.plain (Nat.toDigits 10 k) Nat.toDigits_ne_nil (toDigits_digits k)
    rw [Nat.ofDigitChars_ten_toDigits, ← Nat.repr_eq_ofList_toDigits] at h
    exact h
  | negSucc k =>
    have h :=
      Numeral.negative (Nat.toDigits 10 (k + 1)) Nat.toDigits_ne_nil (toDigits_digits (k + 1))
    have ht : decimal (.negSucc k) = String.ofList ('-' :: Nat.toDigits 10 (k + 1)) := by
      simp [decimal, Nat.repr_eq_ofList_toDigits]
    rw [Nat.ofDigitChars_ten_toDigits] at h
    rw [ht]
    exact h

theorem isNumeral_decimal (n : Int) : isNumeral (decimal n) = true :=
  isNumeral_iff.mpr ⟨_, n, decimal_numeral n⟩

theorem writable_iff {n : Int} : writable n = true ↔ n.natAbs < Nat.pow 10 digitLimit := by
  rw [writable, decide_eq_true_iff]

/-- An integer can be written where its shortest numeral can be read. -/
theorem writable_iff_digitCount {n : Int} :
    writable n = true ↔ digitCount (decimal n) ≤ digitLimit := by
  rw [(decimal_numeral n).digitCount_eq, writable_iff, Nat.pow_eq]
  exact (Nat.length_toDigits_le_iff (by decide) (by decide)).symm

theorem readNumeral_eq_ok_iff {t : String} {ds : List Char} {n : Int} (h : Numeral t ds n)
    {m : Int} :
    readNumeral t = .ok m ↔ ds.length ≤ digitLimit ∧ m = n := by
  unfold readNumeral
  rw [h.digitCount_eq, h.value_eq]
  by_cases short : ds.length ≤ digitLimit
  · simp [short, eq_comm]
  · simp [short]

theorem readNumeral_decimal {n : Int} (h : writable n = true) :
    readNumeral (decimal n) = .ok n := by
  apply (readNumeral_eq_ok_iff (decimal_numeral n)).mpr
  rw [← (decimal_numeral n).digitCount_eq]
  exact ⟨writable_iff_digitCount.mp h, rfl⟩

theorem digit_value_lt {c : Char} (h : '0' ≤ c ∧ c ≤ '9') : c.toNat - '0'.toNat < 10 := by
  have hc : c.toNat ≤ '9'.toNat := h.2
  have h9 : '9'.toNat = 57 := rfl
  have h0 : '0'.toNat = 48 := rfl
  omega

theorem ofDigitChars_lt {ds : List Char} (digits : ∀ c ∈ ds, '0' ≤ c ∧ c ≤ '9') :
    Nat.ofDigitChars 10 ds 0 < Nat.pow 10 ds.length := by
  rw [Nat.pow_eq]
  induction ds with
  | nil => simp
  | cons c ds ih =>
    have hc := digit_value_lt (digits c (by simp))
    have ht := ih (fun d hd => digits d (by simp [hd]))
    rw [Nat.ofDigitChars_cons, Nat.ofDigitChars_eq_ofDigitChars_zero, List.length_cons,
      Nat.pow_succ]
    have hm : 10 ^ ds.length * (10 * 0 + (c.toNat - '0'.toNat)) ≤ 10 ^ ds.length * 9 :=
      Nat.mul_le_mul_left _ (by omega)
    omega

theorem ofDigitChars_lt_of_length_le {ds : List Char} {k : Nat}
    (digits : ∀ c ∈ ds, '0' ≤ c ∧ c ≤ '9') (short : ds.length ≤ k) :
    Nat.ofDigitChars 10 ds 0 < Nat.pow 10 k := by
  have hlt := ofDigitChars_lt digits
  rw [Nat.pow_eq] at hlt ⊢
  exact Nat.lt_of_lt_of_le hlt (Nat.pow_le_pow_right (by decide) short)

/-- What can be read can be written again. -/
theorem Numeral.writable_of_short {t : String} {ds : List Char} {n : Int} (h : Numeral t ds n)
    (short : ds.length ≤ digitLimit) : writable n = true := by
  rw [writable_iff]
  cases h with
  | plain _ _ digits => simpa using ofDigitChars_lt_of_length_le digits short
  | negative _ _ digits => simpa using ofDigitChars_lt_of_length_le digits short

end PolishCalc
