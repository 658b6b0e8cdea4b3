import PolishCalc.Parser
import PolishCalc.Proofs.Numerals

namespace PolishCalc

/-- A letter from A to Z in either case, and after it anything but a line feed. -/
def Identifier (t : String) : Prop :=
  ∃ c cs, t.toList = c :: cs ∧ (('A' ≤ c ∧ c ≤ 'Z') ∨ ('a' ≤ c ∧ c ≤ 'z')) ∧ '\n' ∉ cs

/-- Tokens that are no numerals, of whatever length. -/
def NoNumeral (t : String) : Prop :=
  ∀ ds n, ¬ Numeral t ds n

theorem isAlpha_iff {c : Char} :
    c.isAlpha = true ↔ ('A' ≤ c ∧ c ≤ 'Z') ∨ ('a' ≤ c ∧ c ≤ 'z') := by
  have hletter : c.isAlpha = (decide ('A'.val ≤ c.val ∧ c.val ≤ 'Z'.val) ||
      decide ('a'.val ≤ c.val) && decide (c.val ≤ 'z'.val)) := rfl
  simp [hletter, Char.le_def]

theorem isIdentifier_iff {t : String} : isIdentifier t = true ↔ Identifier t := by
  unfold isIdentifier Identifier
  cases t.toList with
  | nil => simp
  | cons c cs =>
    simp only [Bool.and_eq_true, isAlpha_iff, List.all_eq_true, bne_iff_ne, List.cons.injEq]
    constructor
    · rintro ⟨hc, hcs⟩
      exact ⟨c, cs, ⟨rfl, rfl⟩, hc, fun hn => hcs '\n' hn rfl⟩
    · rintro ⟨d, ds, ⟨rfl, rfl⟩, hc, hcs⟩
      refine ⟨hc, ?_⟩
      rintro d hd rfl
      exact hcs hd

theorem Identifier.noNumeral {t : String} (h : Identifier t) : NoNumeral t := by
  intro ds n hn
  obtain ⟨c, cs, ht, hc, _⟩ := h
  cases hn with
  | plain _ _ digits =>
    rw [String.toList_ofList] at ht
    have hd := digits c (by simp [ht])
    simp only [Char.le_def, UInt32.le_iff_toNat_le] at hc hd
    simp at hc hd
    omega
  | negative =>
    rw [String.toList_ofList] at ht
    cases ht
    exact absurd hc (by decide)

theorem classify_of_numeral {t : String} (h : isNumeral t = true) : classify t = .numeral := by
  simp [classify, h]

theorem Identifier.classify_eq {t : String} (h : Identifier t) : classify t = .identifier := by
  simp [classify, isNumeral_eq_false_iff.mpr h.noNumeral, isIdentifier_iff.mpr h]

theorem UnaryOp.classify_symbol (op : UnaryOp) : classify op.symbol = .unary op := by
  cases op <;> decide

theorem BinaryOp.classify_symbol (op : BinaryOp) : classify op.symbol = .binary op := by
  cases op <;> decide

theorem UnaryOp.ofSymbol?_eq_some {t : String} {op : UnaryOp} (h : ofSymbol? t = some op) :
    t = op.symbol := by
  unfold ofSymbol? at h
  split at h
  next ht => cases Option.some.inj h; exact ht
  next =>
    split at h
    next ht => cases Option.some.inj h; exact ht
    next => simp at h

theorem BinaryOp.ofSymbol?_eq_some {t : String} {op : BinaryOp} (h : ofSymbol? t = some op) :
    t = op.symbol := by
  unfold ofSymbol? at h
  split at h
  next ht => cases Option.some.inj h; exact ht
  next =>
    split at h
    next ht => cases Option.some.inj h; exact ht
    next =>
      split at h
      next ht => cases Option.some.inj h; exact ht
      next =>
        split at h
        next ht => cases Option.some.inj h; exact ht
        next => simp at h

theorem classify_cases (t : String) :
    (classify t = .numeral ∧ isNumeral t = true) ∨ (classify t = .identifier ∧ Identifier t) ∨
      (∃ op : UnaryOp, classify t = .unary op ∧ t = op.symbol) ∨
      (∃ op : BinaryOp, classify t = .binary op ∧ t = op.symbol) ∨ classify t = .other := by
  unfold classify
  split
  next hn => exact .inl ⟨rfl, hn⟩
  next =>
    split
    next hi => exact .inr (.inl ⟨rfl, isIdentifier_iff.mp hi⟩)
    next =>
      split
      next op hu => exact .inr (.inr (.inl ⟨op, rfl, UnaryOp.ofSymbol?_eq_some hu⟩))
      next =>
        split
        next op hb => exact .inr (.inr (.inr (.inl ⟨op, rfl, BinaryOp.ofSymbol?_eq_some hb⟩)))
        next => exact .inr (.inr (.inr (.inr rfl)))

end PolishCalc
