import PolishCalc.Assembly
import PolishCalc.Proofs.LineBreaks
import PolishCalc.Proofs.Numerals
import PolishCalc.Proofs.Words

namespace PolishCalc

/-- Constants have few enough digits, and names are as asked for and no numerals. -/
def Instruction.WellFormed (Name : String → Prop) : Instruction → Prop
  | .push n => writable n = true
  | .load x => Name x ∧ isNumeral x = false
  | .store x => Name x ∧ isNumeral x = false
  | _ => True

theorem isBlank_of_digit {c : Char} (h : '0' ≤ c ∧ c ≤ '9') : isBlank c = false := by
  have h0 : 48 ≤ c.toNat := h.1
  have h9 : c.toNat ≤ 57 := h.2
  simp [isBlank]
  omega

theorem Numeral.isWord {t : String} {ds : List Char} {n : Int} (h : Numeral t ds n) : IsWord t := by
  cases h with
  | plain _ nonempty digits =>
    refine ⟨by simpa [← String.toList_inj] using nonempty, ?_⟩
    intro c hc
    exact isBlank_of_digit (digits c (by simpa using hc))
  | negative _ nonempty digits =>
    refine ⟨by simp [← String.toList_inj], ?_⟩
    intro c hc
    rw [String.toList_ofList] at hc
    rcases List.mem_cons.mp hc with rfl | hc
    · decide
    · exact isBlank_of_digit (digits c hc)

theorem decodeLine_operand {m : String} (hm : m ∈ ["PUSH", "LOAD", "STORE"])
    (operands : List String) :
    decodeLine m operands = match operands with
      | [] => .malformed (.fault (.missingOperand m))
      | y :: _ =>
        if m = "PUSH" then pushLine y
        else if m = "LOAD" then nameLine m y .load
        else nameLine m y .store := by
  have known : ∀ m ∈ ["PUSH", "LOAD", "STORE"],
      plainInstruction? m = none ∧ isMnemonic m = true := by decide
  obtain ⟨hp, hi⟩ := known m hm
  cases operands <;> simp [decodeLine, hp, hi]

theorem readLine_operand {m : String} (hm : m ∈ ["PUSH", "LOAD", "STORE"]) (x : String) :
    readLine (m ++ " " ++ x) = match words x with
      | [] => .malformed (.fault (.missingOperand m))
      | y :: _ =>
        if m = "PUSH" then pushLine y
        else if m = "LOAD" then nameLine m y .load
        else nameLine m y .store := by
  have known : ∀ m ∈ ["PUSH", "LOAD", "STORE"], IsWord m ∧ m ≠ "." := by decide
  obtain ⟨hw, hne⟩ := known m hm
  rw [← decodeLine_operand hm]
  simp [readLine, words_append_space, words_of_isWord hw, hne]

theorem Instruction.text_operand (x : String) :
    "PUSH " ++ x = "PUSH" ++ " " ++ x ∧ "LOAD " ++ x = "LOAD" ++ " " ++ x ∧
      "STORE " ++ x = "STORE" ++ " " ++ x := by
  simp

/-- An instruction whose names are words is read back from its line. -/
theorem Instruction.readLine_text {i : Instruction} (h : i.WellFormed IsWord) :
    readLine i.text = .instruction i := by
  cases i with
  | push n =>
    rw [text, (text_operand _).1, readLine_operand (by decide),
      words_of_isWord (decimal_numeral n).isWord]
    simp [pushLine, isNumeral_decimal, readNumeral_decimal h]
  | load x =>
    rw [text, (text_operand x).2.1, readLine_operand (by decide), words_of_isWord h.1]
    simp [nameLine, h.2]
  | store x =>
    rw [text, (text_operand x).2.2, readLine_operand (by decide), words_of_isWord h.1]
    simp [nameLine, h.2]
  | unary op => cases op <;> decide
  | binary op => cases op <;> decide
  | print => decide

/-- Lines that hold an instruction or that lack a proper operand. -/
def Line.Known : Line → Prop
  | .instruction _ => True
  | .malformed f => ∃ g, f = .fault g
  | _ => False

theorem nameLine_known (m y : String) (make : String → Instruction) :
    (nameLine m y make).Known := by
  unfold nameLine
  split
  · exact ⟨_, rfl⟩
  · trivial

theorem readLine_name_known {m : String} (hm : m ∈ ["LOAD", "STORE"]) (x : String) :
    (readLine (m ++ " " ++ x)).Known := by
  have hne : m ≠ "PUSH" := by
    rintro rfl
    simp at hm
  rw [readLine_operand (List.mem_cons_of_mem _ hm)]
  split
  · exact ⟨_, rfl⟩
  · rw [if_neg hne]
    split <;> exact nameLine_known _ _ _

theorem Instruction.readLine_text_known {Name : String → Prop} {i : Instruction}
    (h : i.WellFormed Name) : (readLine i.text).Known := by
  cases i with
  | load x =>
    rw [text, (text_operand x).2.1]
    exact readLine_name_known (by decide) x
  | store x =>
    rw [text, (text_operand x).2.2]
    exact readLine_name_known (by decide) x
  | push n =>
    rw [readLine_text (i := .push n) h]
    trivial
  | unary op =>
    rw [readLine_text (i := .unary op) trivial]
    trivial
  | binary op =>
    rw [readLine_text (i := .binary op) trivial]
    trivial
  | print =>
    rw [readLine_text (i := .print) trivial]
    trivial

theorem assembleFrom_text {is : List Instruction} (h : ∀ i ∈ is, i.WellFormed IsWord) (n : Nat) :
    assembleFrom n (is.map Instruction.text) = ⟨.ok is, []⟩ := by
  induction is generalizing n with
  | nil => rfl
  | cons i is ih =>
    have hi := Instruction.readLine_text (h i (by simp))
    have his := ih (fun j hj => h j (by simp [hj])) (n + 1)
    simp [assembleFrom, hi, his, Assembled.cons, Except.map]

/-- Lines of instructions raise no warning, and only a fault can make them unreadable. -/
theorem assembleFrom_text_known {Name : String → Prop} {is : List Instruction}
    (h : ∀ i ∈ is, i.WellFormed Name) (n : Nat) :
    (assembleFrom n (is.map Instruction.text)).warnings = [] ∧
      ∀ f, (assembleFrom n (is.map Instruction.text)).result = .error f → ∃ g, f = .fault g := by
  induction is generalizing n with
  | nil => simp [assembleFrom]
  | cons i is ih =>
    have known := i.readLine_text_known (h i (by simp))
    obtain ⟨warnings, faults⟩ := ih (fun j hj => h j (by simp [hj])) (n + 1)
    simp only [List.map_cons, assembleFrom]
    cases hl : readLine i.text with
    | instruction j =>
      refine ⟨warnings, fun f hf => ?_⟩
      cases hr : (assembleFrom (n + 1) (is.map Instruction.text)).result with
      | ok js => simp [Assembled.cons, hr, Except.map] at hf
      | error g =>
        simp only [Assembled.cons, hr, Except.map, Except.error.injEq] at hf
        exact faults f (by rw [hr, hf])
    | malformed g =>
      rw [hl] at known
      refine ⟨rfl, fun f hf => ?_⟩
      rw [← Except.error.inj hf]
      exact known
    | ending => simp [hl, Line.Known] at known
    | blank => simp [hl, Line.Known] at known
    | unknown m => simp [hl, Line.Known] at known

theorem Instruction.text_ne_empty (i : Instruction) : i.text ≠ "" := by
  cases i with
  | push n => simp [text]
  | load x => simp [text]
  | store x => simp [text]
  | unary op => cases op <;> decide
  | binary op => cases op <;> decide
  | print => decide

theorem not_isLineBreak_of_isWord {x : String} (h : IsWord x) :
    ∀ c ∈ x.toList, isLineBreak c = false := by
  intro c hc
  cases hb : isLineBreak c with
  | false => rfl
  | true =>
    have hblank := isBlank_of_isLineBreak hb
    simp [h.2 c hc] at hblank

theorem unbroken_of_all {s : String} (h : s.toList.all (fun c => !isLineBreak c) = true) :
    ∀ c ∈ s.toList, isLineBreak c = false := by
  simpa using h

theorem Instruction.text_unbroken {i : Instruction} (h : i.WellFormed IsWord) :
    ∀ c ∈ i.text.toList, isLineBreak c = false := by
  have known : ∀ m ∈ ["PUSH ", "LOAD ", "STORE "],
      m.toList.all (fun c => !isLineBreak c) = true := by decide
  have operand : ∀ m ∈ ["PUSH ", "LOAD ", "STORE "], ∀ x, IsWord x →
      ∀ c ∈ (m ++ x).toList, isLineBreak c = false := by
    intro m hm x hx c hc
    rw [String.toList_append] at hc
    rcases List.mem_append.mp hc with hc | hc
    · exact unbroken_of_all (known m hm) c hc
    · exact not_isLineBreak_of_isWord hx c hc
  cases i with
  | push n => exact operand "PUSH " (by decide) _ (decimal_numeral n).isWord
  | load x => exact operand "LOAD " (by decide) x h.1
  | store x => exact operand "STORE " (by decide) x h.1
  | unary op => exact unbroken_of_all (by cases op <;> decide)
  | binary op => exact unbroken_of_all (by cases op <;> decide)
  | print => exact unbroken_of_all (by decide)

/-- Assembly text whose names are words means the same as one text and as a list of lines. -/
theorem toLines_joinLines_text {is : List Instruction} (h : ∀ i ∈ is, i.WellFormed IsWord) :
    (AssemblySource.text (joinLines (is.map Instruction.text))).toLines =
      is.map Instruction.text := by
  apply textLines_joinLines
  · intro l hl
    obtain ⟨i, hi, rfl⟩ := List.mem_map.mp hl
    exact Instruction.text_unbroken (h i hi)
  · rw [List.getLast?_map]
    intro hlast
    obtain ⟨i, _, he⟩ := Option.map_eq_some_iff.mp hlast
    exact i.text_ne_empty he

end PolishCalc
