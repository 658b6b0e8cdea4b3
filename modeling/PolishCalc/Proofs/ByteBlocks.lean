import PolishCalc.Utf8

namespace PolishCalc

/-- The bytes of one character, and its code point. -/
inductive ByteSequence : List UInt8 → Nat → Prop
  | one {a : UInt8} (high : a < 0x80) : ByteSequence [a] a.toNat
  | two {a b : UInt8} (low : ¬ a < 0xC2) (high : a < 0xE0) (second : isTail b = true) :
      ByteSequence [a, b] (bits a 32 1 + bits b 64 0)
  | three {a b c : UInt8} (low : ¬ a < 0xE0) (high : a < 0xF0) (second : isSecond a b = true)
      (third : isTail c = true) :
      ByteSequence [a, b, c] (bits a 16 2 + bits b 64 1 + bits c 64 0)
  | four {a b c d : UInt8} (low : ¬ a < 0xF0) (high : a < 0xF5) (second : isSecond a b = true)
      (third : isTail c = true) (fourth : isTail d = true) :
      ByteSequence [a, b, c, d] (bits a 8 3 + bits b 64 2 + bits c 64 1 + bits d 64 0)

/-- Bytes that make up the given characters, one sequence after the other. -/
inductive Decodes : List UInt8 → List Char → Prop
  | nil : Decodes [] []
  | cons {bs bytes : List UInt8} {code : Nat} {cs : List Char} (first : ByteSequence bs code)
      (others : Decodes bytes cs) : Decodes (bs ++ bytes) (Char.ofNat code :: cs)

theorem not_lt_of_le {a low : UInt8} (h : ¬ a < low) (bound : UInt8) (below : bound ≤ low) :
    ¬ a < bound := by
  rw [UInt8.not_lt] at h ⊢
  exact UInt8.le_trans below h

theorem isTail_iff {b : UInt8} : isTail b = true ↔ 0x80 ≤ b.toNat ∧ b.toNat ≤ 0xBF := by
  simp only [isTail, Bool.and_eq_true, decide_eq_true_eq, UInt8.le_iff_toNat_le]
  rfl

theorem isSecond_iff {a b : UInt8} : isSecond a b = true ↔
    (if a.toNat = 0xE0 then 0xA0 else if a.toNat = 0xF0 then 0x90 else 0x80) ≤ b.toNat ∧
      b.toNat ≤ (if a.toNat = 0xED then 0x9F else if a.toNat = 0xF4 then 0x8F else 0xBF) := by
  have same (n : UInt8) : a = n ↔ a.toNat = n.toNat := UInt8.toNat_inj.symm
  simp only [isSecond, same, Bool.and_eq_true, decide_eq_true_eq, UInt8.le_iff_toNat_le,
    apply_ite UInt8.toNat]
  rfl

theorem isTail_of_isSecond {a b : UInt8} (h : isSecond a b = true) : isTail b = true := by
  rw [isSecond_iff] at h
  rw [isTail_iff]
  grind

theorem ByteSequence.decodeAt_append {bs : List UInt8} {code : Nat} (h : ByteSequence bs code)
    (n : Nat) (rest : List UInt8) :
    decodeAt n (bs ++ rest) = (Char.ofNat code :: (decodeAt (n + bs.length) rest).1,
      (decodeAt (n + bs.length) rest).2) := by
  rw [decodeAt.eq_def]
  cases h with
  | one high => simp [high]
  | two low high second =>
    have ascii := not_lt_of_le low 0x80 (by decide)
    simp [ascii, low, high, second]
  | three low high second third =>
    have ascii := not_lt_of_le low 0x80 (by decide)
    have start := not_lt_of_le low 0xC2 (by decide)
    simp [ascii, start, low, high, second, third]
  | four low high second third fourth =>
    have ascii := not_lt_of_le low 0x80 (by decide)
    have start := not_lt_of_le low 0xC2 (by decide)
    have two := not_lt_of_le low 0xE0 (by decide)
    simp [ascii, start, two, low, high, second, third, fourth]

theorem awaitsMore_of_ended {f : Utf8Fault} {bytes : List UInt8} (ended : f.reason = .ended)
    (second : ∀ a b, bytes = [a, b] → isTail b = true) : awaitsMore f bytes = true := by
  unfold awaitsMore
  split
  next b => exact second _ b rfl
  next => exact decide_eq_true ended

/-- The first bytes of a sequence are no character yet, but can still become one. -/
theorem ByteSequence.decodeAt_take {bs : List UInt8} {code k : Nat} (h : ByteSequence bs code)
    (n : Nat) (positive : 0 < k) (short : k < bs.length) :
    ∃ f, decodeAt n (bs.take k) = ([], some f) ∧ f.offset = n ∧
      awaitsMore f (bs.take k) = true := by
  rw [decodeAt.eq_def]
  cases h with
  | one high =>
    simp only [List.length_singleton] at short
    omega
  | @two a b low high second =>
    simp only [List.length_cons, List.length_nil] at short
    have ascii := not_lt_of_le low 0x80 (by decide)
    obtain rfl : k = 1 := by omega
    exact ⟨⟨a, n, 1, .ended⟩, by simp [ascii, low, high], rfl, awaitsMore_of_ended rfl (by simp)⟩
  | @three a b c low high second third =>
    simp only [List.length_cons, List.length_nil] at short
    have ascii := not_lt_of_le low 0x80 (by decide)
    have start := not_lt_of_le low 0xC2 (by decide)
    obtain rfl | rfl : k = 1 ∨ k = 2 := by omega
    · exact ⟨⟨a, n, 1, .ended⟩, by simp [ascii, start, low, high], rfl,
        awaitsMore_of_ended rfl (by simp)⟩
    · exact ⟨⟨a, n, 2, .ended⟩, by simp [ascii, start, low, high, second], rfl,
        awaitsMore_of_ended rfl (by simp [isTail_of_isSecond second])⟩
  | @four a b c d low high second third fourth =>
    simp only [List.length_cons, List.length_nil] at short
    have ascii := not_lt_of_le low 0x80 (by decide)
    have start := not_lt_of_le low 0xC2 (by decide)
    have two := not_lt_of_le low 0xE0 (by decide)
    obtain rfl | rfl | rfl : k = 1 ∨ k = 2 ∨ k = 3 := by omega
    · exact ⟨⟨a, n, 1, .ended⟩, by simp [ascii, start, two, low, high], rfl,
        awaitsMore_of_ended rfl (by simp)⟩
    · exact ⟨⟨a, n, 2, .ended⟩, by simp [ascii, start, two, low, high, second], rfl,
        awaitsMore_of_ended rfl (by simp [isTail_of_isSecond second])⟩
    · exact ⟨⟨a, n, 3, .ended⟩, by simp [ascii, start, two, low, high, second, third], rfl,
        awaitsMore_of_ended rfl (by simp)⟩

theorem Decodes.decodeAt_append {bytes : List UInt8} {cs : List Char} (h : Decodes bytes cs)
    (n : Nat) (rest : List UInt8) :
    decodeAt n (bytes ++ rest) = (cs ++ (decodeAt (n + bytes.length) rest).1,
      (decodeAt (n + bytes.length) rest).2) := by
  induction h generalizing n with
  | nil => rfl
  | cons first _ ih =>
    rw [List.append_assoc, first.decodeAt_append, ih, List.length_append, Nat.add_assoc]
    rfl

theorem decodes_of_decodeAt {n : Nat} {bytes : List UInt8} (h : (decodeAt n bytes).2 = none) :
    Decodes bytes (decodeAt n bytes).1 := by
  fun_induction decodeAt n bytes
  case case1 => exact .nil
  case case2 high ih => exact .cons (.one high) (ih h)
  case case5 low high _ _ second ih => exact .cons (.two low high second) (ih h)
  case case10 low high _ second _ _ third ih =>
    exact .cons (.three low high (by simpa using second) third) (ih h)
  case case17 low high _ second _ third _ _ fourth ih =>
    exact .cons (.four low high (by simpa using second) (by simpa using third) fourth) (ih h)
  -- All other cases are faults.
  all_goals cases h

theorem decodes_iff {n : Nat} {bytes : List UInt8} {cs : List Char} :
    Decodes bytes cs ↔ decodeAt n bytes = (cs, none) := by
  constructor
  · intro h
    simpa [decodeAt] using h.decodeAt_append n []
  · intro h
    have decoded : Decodes bytes (decodeAt n bytes).1 := decodes_of_decodeAt (by rw [h])
    rwa [h] at decoded

/-- Where bytes are cut in two, the first part is whole characters and perhaps the first bytes of
one more. -/
theorem Decodes.cut {bytes front back : List UInt8} {cs : List Char} (h : Decodes bytes cs)
    (split : bytes = front ++ back) :
    ∃ done begun cs₁ cs₂, front = done ++ begun ∧ cs = cs₁ ++ cs₂ ∧ Decodes done cs₁ ∧
      Decodes (begun ++ back) cs₂ ∧
      (begun = [] ∨ ∃ bs code k, ByteSequence bs code ∧ 0 < k ∧ k < bs.length ∧
        begun = bs.take k) := by
  induction h generalizing front with
  | nil =>
    obtain ⟨rfl, rfl⟩ := List.append_eq_nil_iff.mp split.symm
    exact ⟨[], [], [], [], rfl, rfl, .nil, .nil, .inl rfl⟩
  | @cons bs bytes code cs first others ih =>
    rcases List.append_eq_append_iff.mp split with ⟨front', rfl, rfl⟩ | ⟨later, rfl, rfl⟩
    · obtain ⟨done, begun, cs₁, cs₂, rfl, rfl, whole, behind, cutOff⟩ := ih rfl
      exact ⟨bs ++ done, begun, _, cs₂, by simp, rfl, .cons first whole, behind, cutOff⟩
    · by_cases ended : later = []
      · subst ended
        refine ⟨front, [], [Char.ofNat code], cs, by simp, rfl, ?_, others, .inl rfl⟩
        simpa using Decodes.cons first .nil
      · -- The cut is inside the first character, or right in front of it.
        have behind := Decodes.cons first others
        rw [List.append_assoc] at behind
        refine ⟨[], front, [], _, rfl, rfl, .nil, behind, ?_⟩
        by_cases begun : front = []
        · exact .inl begun
        · have missing := List.length_pos_iff.mpr ended
          refine .inr ⟨_, code, front.length, first, List.length_pos_iff.mpr begun, ?_, ?_⟩
          · rw [List.length_append]
            omega
          · rw [List.take_left]

/-- Text that arrives in blocks is decoded as if it had come at once. -/
theorem decodeBlocks_eq {pending : List UInt8} {blocks : List (List UInt8)} {cs : List Char}
    (h : Decodes (pending ++ blocks.flatten) cs) : decodeBlocks pending blocks = (cs, none) := by
  induction blocks generalizing pending cs with
  | nil => exact decodes_iff.mp (by simpa using h)
  | cons block blocks ih =>
    have split : pending ++ (block :: blocks).flatten = (pending ++ block) ++ blocks.flatten := by
      simp
    obtain ⟨done, begun, cs₁, cs₂, front, rfl, whole, behind, cutOff⟩ := h.cut split
    have later := ih behind
    have now := whole.decodeAt_append 0 begun
    rw [← front, Nat.zero_add] at now
    rcases cutOff with rfl | ⟨bs, code, k, first, positive, short, rfl⟩
    · simp [decodeBlocks, now, decodeAt, later]
    · obtain ⟨f, stopped, offset, awaits⟩ := first.decodeAt_take done.length positive short
      have waiting : (pending ++ block).drop f.offset = bs.take k := by
        rw [front, offset, List.drop_left]
      simp [decodeBlocks, now, stopped, waiting, awaits, later]

theorem flatten_blocksOf {fuel : Nat} {bytes : List UInt8} (enough : bytes.length ≤ fuel) :
    (blocksOf fuel bytes).flatten = bytes := by
  induction fuel generalizing bytes with
  | zero =>
    have none_left : bytes = [] := List.length_eq_zero_iff.mp (by omega)
    simp [blocksOf, none_left]
  | succ fuel ih =>
    by_cases empty : bytes = []
    · simp [blocksOf, empty]
    · have fewer : (bytes.drop blockSize).length ≤ fuel := by
        rw [List.length_drop, blockSize]
        omega
      rw [blocksOf, if_neg (by simpa using empty), List.flatten_cons, ih fewer,
        List.take_append_drop]

theorem decodeText_eq_ok {bytes : List UInt8} {s : String} (h : decodeText bytes = .ok s) :
    ∃ cs, Decodes bytes cs ∧ s = String.ofList (unifyNewlines cs) := by
  unfold decodeText at h
  split at h
  next cs decoded => exact ⟨cs, decodes_iff.mpr decoded, (Except.ok.inj h).symm⟩
  next => cases h

/-- A text on standard input has the lines that it has in a file. -/
theorem LineStream.ofBytes_eq {bytes : List UInt8} {s : String} (h : decodeText bytes = .ok s) :
    LineStream.ofBytes bytes = ⟨(newlineLines s.toList).1.map String.ofList,
      String.ofList (newlineLines s.toList).2, none⟩ := by
  obtain ⟨cs, decodes, rfl⟩ := decodeText_eq_ok h
  rw [← flatten_blocksOf (Nat.le_refl bytes.length)] at decodes
  have decoded : decodeBlocks [] (blocksOf bytes.length bytes) = (cs, none) :=
    decodeBlocks_eq decodes
  simp [ofBytes, decoded]

theorem bits_ofNat {n : Nat} (byte : n < 256) (mask places : Nat) :
    bits (UInt8.ofNat n) mask places = n % mask * Nat.pow 64 places := by
  rw [bits, UInt8.toNat_ofNat_of_lt' byte]

theorem ofNat_lt_iff {n m : Nat} (byte : n < 256) (bound : m < 256) :
    UInt8.ofNat n < UInt8.ofNat m ↔ n < m := by
  rw [UInt8.lt_iff_toNat_lt, UInt8.toNat_ofNat_of_lt' byte, UInt8.toNat_ofNat_of_lt' bound]

theorem isTail_ofNat {n : Nat} (low : 0x80 ≤ n) (high : n ≤ 0xBF) :
    isTail (UInt8.ofNat n) = true := by
  rw [isTail_iff, UInt8.toNat_ofNat_of_lt' (show n < 256 by omega)]
  exact ⟨low, high⟩

theorem ByteSequence.encode_two {v : Nat} (low : 0x80 ≤ v) (high : v < 0x800) :
    ByteSequence [UInt8.ofNat (v / 64 % 32 + 192), UInt8.ofNat (v % 64 + 128)] v := by
  have first : v / 64 % 32 + 192 < 256 := by omega
  have last : v % 64 + 128 < 256 := by omega
  have sequence := ByteSequence.two
    (mt (ofNat_lt_iff first (m := 0xC2) (by decide)).mp (by omega))
    ((ofNat_lt_iff first (m := 0xE0) (by decide)).mpr (by omega))
    (isTail_ofNat (n := v % 64 + 128) (by omega) (by omega))
  have value :
      (v / 64 % 32 + 192) % 32 * Nat.pow 64 1 + (v % 64 + 128) % 64 * Nat.pow 64 0 = v := by
    simp only [Nat.pow_eq, Nat.reducePow]
    omega
  rwa [bits_ofNat first, bits_ofNat last, value] at sequence

theorem ByteSequence.encode_three {v : Nat} (low : 0x800 ≤ v) (high : v < 0x10000)
    (valid : v < 0xD800 ∨ 0xDFFF < v) :
    ByteSequence [UInt8.ofNat (v / 4096 % 16 + 224), UInt8.ofNat (v / 64 % 64 + 128),
      UInt8.ofNat (v % 64 + 128)] v := by
  have first : v / 4096 % 16 + 224 < 256 := by omega
  have second : v / 64 % 64 + 128 < 256 := by omega
  have last : v % 64 + 128 < 256 := by omega
  have limits :
      isSecond (UInt8.ofNat (v / 4096 % 16 + 224)) (UInt8.ofNat (v / 64 % 64 + 128)) = true := by
    rw [isSecond_iff, UInt8.toNat_ofNat_of_lt' first, UInt8.toNat_ofNat_of_lt' second]
    constructor <;> (repeat' split) <;> omega
  have sequence := ByteSequence.three
    (mt (ofNat_lt_iff first (m := 0xE0) (by decide)).mp (by omega))
    ((ofNat_lt_iff first (m := 0xF0) (by decide)).mpr (by omega)) limits
    (isTail_ofNat (n := v % 64 + 128) (by omega) (by omega))
  have value : (v / 4096 % 16 + 224) % 16 * Nat.pow 64 2 + (v / 64 % 64 + 128) % 64 * Nat.pow 64 1 +
      (v % 64 + 128) % 64 * Nat.pow 64 0 = v := by
    simp only [Nat.pow_eq, Nat.reducePow]
    omega
  rwa [bits_ofNat first, bits_ofNat second, bits_ofNat last, value] at sequence

theorem ByteSequence.encode_four {v : Nat} (low : 0x10000 ≤ v) (high : v < 0x110000) :
    ByteSequence [UInt8.ofNat (v / 262144 % 8 + 240), UInt8.ofNat (v / 4096 % 64 + 128),
      UInt8.ofNat (v / 64 % 64 + 128), UInt8.ofNat (v % 64 + 128)] v := by
  have first : v / 262144 % 8 + 240 < 256 := by omega
  have second : v / 4096 % 64 + 128 < 256 := by omega
  have third : v / 64 % 64 + 128 < 256 := by omega
  have last : v % 64 + 128 < 256 := by omega
  have limits :
      isSecond (UInt8.ofNat (v / 262144 % 8 + 240)) (UInt8.ofNat (v / 4096 % 64 + 128)) = true := by
    rw [isSecond_iff, UInt8.toNat_ofNat_of_lt' first, UInt8.toNat_ofNat_of_lt' second]
    constructor <;> (repeat' split) <;> omega
  have sequence := ByteSequence.four
    (mt (ofNat_lt_iff first (m := 0xF0) (by decide)).mp (by omega))
    ((ofNat_lt_iff first (m := 0xF5) (by decide)).mpr (by omega)) limits
    (isTail_ofNat (n := v / 64 % 64 + 128) (by omega) (by omega))
    (isTail_ofNat (n := v % 64 + 128) (by omega) (by omega))
  have value : (v / 262144 % 8 + 240) % 8 * Nat.pow 64 3 +
      (v / 4096 % 64 + 128) % 64 * Nat.pow 64 2 + (v / 64 % 64 + 128) % 64 * Nat.pow 64 1 +
      (v % 64 + 128) % 64 * Nat.pow 64 0 = v := by
    simp only [Nat.pow_eq, Nat.reducePow]
    omega
  rwa [bits_ofNat first, bits_ofNat second, bits_ofNat third, bits_ofNat last, value] at sequence

theorem utf8EncodeChar_sequence (c : Char) : ByteSequence (String.utf8EncodeChar c) c.toNat := by
  have valid : c.toNat < 0xD800 ∨ (0xDFFF < c.toNat ∧ c.toNat < 0x110000) := c.valid
  have value : c.val.toNat = c.toNat := rfl
  change ByteSequence (if c.val.toNat ≤ 0x7F then _ else _) c.toNat
  simp only [value]
  split
  next ascii =>
    have byte : c.toNat < 256 := by omega
    have sequence := ByteSequence.one ((ofNat_lt_iff byte (m := 0x80) (by decide)).mpr (by omega))
    rwa [UInt8.toNat_ofNat_of_lt' byte] at sequence
  next =>
    split
    next => exact .encode_two (by omega) (by omega)
    next =>
      split
      next => exact .encode_three (by omega) (by omega) (by omega)
      next => exact .encode_four (by omega) (by omega)

theorem decodes_utf8 (s : String) : Decodes s.toByteArray.data.toList s.toList := by
  have bytes : s.toByteArray.data.toList = s.toList.flatMap String.utf8EncodeChar := by
    rw [← String.utf8Encode_toList]
    change (s.toList.flatMap String.utf8EncodeChar).toByteArray.data.toList = _
    simp
  rw [bytes]
  induction s.toList with
  | nil => exact .nil
  | cons c cs ih =>
    have sequence := Decodes.cons (utf8EncodeChar_sequence c) ih
    rwa [Char.ofNat_toNat] at sequence

end PolishCalc
