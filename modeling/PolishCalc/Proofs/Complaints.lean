import PolishCalc.Proofs.InfixForm
import PolishCalc.Proofs.Reassembly

namespace PolishCalc

/-- The forms that a character can have between quotes. -/
inductive Escape (quote c : Char) : List Char → Prop
  | marked (special : c = '\\' ∨ c = quote) : Escape quote c ['\\', c]
  | named {d : Char} (name : (c, d) ∈ [('\n', 'n'), ('\r', 'r'), ('\t', 't')]) :
      Escape quote c ['\\', d]
  | plain (shows : isPrintable c = true) (common : c ≠ '\\') : Escape quote c [c]
  | coded {mark : Char} {width : Nat} (form : (mark, width) ∈ [('x', 2), ('u', 4), ('U', 8)])
      (fits : c.toNat < Nat.pow 16 width) :
      Escape quote c ('\\' :: mark :: hexDigits width c.toNat)

theorem escapeChar_form (quote c : Char) : Escape quote c (escapeChar quote c) := by
  unfold escapeChar
  split
  next special => exact .marked (by simpa using special)
  next common =>
  split
  next h => exact .named (by simp [h])
  next =>
  split
  next h => exact .named (by simp [h])
  next =>
  split
  next h => exact .named (by simp [h])
  next =>
  split
  next shows => exact .plain shows (by simp_all)
  next =>
  split
  next short => exact .coded (by simp) short
  next =>
  split
  next short => exact .coded (by simp) short
  next =>
    have bound : c.toNat < 0x110000 := by
      have valid := c.valid
      simp only [UInt32.isValidChar, Nat.isValidChar] at valid
      simp only [Char.toNat]
      omega
    exact .coded (by simp) (Nat.lt_of_lt_of_le bound (by decide))

def hexNumber? (cs : List Char) : Option Nat :=
  cs.foldlM (fun n c => (hexValue? c).map (16 * n + ·)) 0

/-- The character whose code has the given number of digits. -/
def readCode (width : Nat) (cs : List Char) : Option (Char × List Char) :=
  (hexNumber? (cs.take width)).map fun n => (Char.ofNat n, cs.drop width)

def readEscape : List Char → Option (Char × List Char)
  | [] => none
  | c :: cs =>
    if c = 'n' then some ('\n', cs)
    else if c = 'r' then some ('\r', cs)
    else if c = 't' then some ('\t', cs)
    else if c = 'x' then readCode 2 cs
    else if c = 'u' then readCode 4 cs
    else if c = 'U' then readCode 8 cs
    else some (c, cs)

/-- The first character of a text that stands between quotes. -/
def readQuoted : List Char → Option (Char × List Char)
  | [] => none
  | c :: cs => if c = '\\' then readEscape cs else some (c, cs)

theorem hexValue?_digitChar : ∀ n < 16, hexValue? n.digitChar = some n := by
  decide

theorem length_hexDigits (width n : Nat) : (hexDigits width n).length = width := by
  induction width generalizing n with
  | zero => rfl
  | succ width ih => simp [hexDigits, ih]

theorem hexNumber?_hexDigits {width n : Nat} (fits : n < Nat.pow 16 width) :
    hexNumber? (hexDigits width n) = some n := by
  induction width generalizing n with
  | zero =>
    have zero : n = 0 := Nat.lt_one_iff.mp fits
    rw [zero]
    rfl
  | succ width ih =>
    have shorter : n / 16 < Nat.pow 16 width := Nat.div_lt_of_lt_mul (Nat.mul_comm .. ▸ fits)
    have front := ih shorter
    have last := hexValue?_digitChar (n % 16) (Nat.mod_lt n (by decide))
    have whole : 16 * (n / 16) + n % 16 = n := Nat.div_add_mod n 16
    unfold hexNumber? at front ⊢
    simp [hexDigits, List.foldlM_append, front, last, whole]

theorem readCode_hexDigits {width : Nat} {c : Char} (fits : c.toNat < Nat.pow 16 width)
    (cs : List Char) : readCode width (hexDigits width c.toNat ++ cs) = some (c, cs) := by
  have hlen := length_hexDigits width c.toNat
  rw [readCode, List.take_left' hlen, List.drop_left' hlen, hexNumber?_hexDigits fits,
    Option.map_some, Char.ofNat_toNat]

theorem quoteFor_cases (cs : List Char) :
    quoteFor cs = singleQuote ∨ quoteFor cs = doubleQuote := by
  unfold quoteFor
  split
  · exact .inr rfl
  · exact .inl rfl

/-- Every form of a character is read as that character, whatever follows. -/
theorem Escape.readQuoted_append {quote c : Char} {form : List Char} (h : Escape quote c form)
    (known : quote = singleQuote ∨ quote = doubleQuote) (cs : List Char) :
    readQuoted (form ++ cs) = some (c, cs) := by
  cases h with
  | marked special =>
    rcases special with rfl | rfl
    · rfl
    · rcases known with rfl | rfl <;> rfl
  | named name =>
    simp only [List.mem_cons, Prod.mk.injEq, List.not_mem_nil, or_false] at name
    rcases name with ⟨rfl, rfl⟩ | ⟨rfl, rfl⟩ | ⟨rfl, rfl⟩ <;> rfl
  | plain shows common => simp [readQuoted, common]
  | coded form fits =>
    simp only [List.mem_cons, Prod.mk.injEq, List.not_mem_nil, or_false] at form
    rcases form with ⟨rfl, rfl⟩ | ⟨rfl, rfl⟩ | ⟨rfl, rfl⟩ <;> exact readCode_hexDigits fits cs

theorem escaped_injective {quote : Char} (known : quote = singleQuote ∨ quote = doubleQuote)
    {cs ds : List Char} (same : cs.flatMap (escapeChar quote) = ds.flatMap (escapeChar quote)) :
    cs = ds := by
  have read (c : Char) (cs : List Char) :
      readQuoted ((c :: cs).flatMap (escapeChar quote)) = some (c, cs.flatMap (escapeChar quote)) :=
    (escapeChar_form quote c).readQuoted_append known _
  induction cs generalizing ds with
  | nil =>
    cases ds with
    | nil => rfl
    | cons d ds =>
      have first := read d ds
      rw [← same] at first
      cases first
  | cons c cs ih =>
    have first := read c cs
    rw [same] at first
    cases ds with
    | nil => cases first
    | cons d ds =>
      simp only [read, Option.some.injEq, Prod.mk.injEq] at first
      obtain ⟨rfl, rest⟩ := first
      rw [ih rest.symm]

/-- The opening quote tells how the rest is to be read. -/
theorem quoted_injective {s s' : String} (same : quoted s = quoted s') : s = s' := by
  have chars := String.ofList_inj.mp same
  unfold quotedChars at chars
  obtain ⟨quote, rest⟩ := List.cons.inj chars
  rw [quote] at rest
  have known := quoteFor_cases s'.toList
  exact String.toList_inj.mp (escaped_injective known (List.append_cancel_right rest))

theorem isNumeral_quoted (s : String) : isNumeral (quoted s) = false := by
  have chars : (quoted s).toList = quotedChars s.toList := String.toList_ofList
  unfold isNumeral
  rw [chars, quotedChars]
  rcases quoteFor_cases s.toList with quote | quote <;> rw [quote] <;> rfl

/-- No text looks like an integer, not even one of digits. -/
theorem Datum.shown_injective {d d' : Datum} (same : d.shown = d'.shown) : d = d' := by
  cases d with
  | text s =>
    cases d' with
    | text s' => exact congrArg text (quoted_injective same)
    | integer n' =>
      have numeral := isNumeral_decimal n'
      rw [show decimal n' = quoted s from same.symm, isNumeral_quoted] at numeral
      cases numeral
  | integer n =>
    cases d' with
    | text s' =>
      have numeral := isNumeral_decimal n
      rw [show decimal n = quoted s' from same, isNumeral_quoted] at numeral
      cases numeral
    | integer n' => exact congrArg integer (decimal_injective same)

namespace Complaint

theorem ne_append_value (heading shown : String) : heading ≠ heading ++ ": " ++ shown := by
  intro same
  have hlen := congrArg String.length same
  have colon : ": ".length = 2 := rfl
  rw [String.length_append, String.length_append] at hlen
  omega

theorem text_injective {kind : ErrorKind} {note : Option String} {v w : Option Datum}
    (same : text ⟨kind, v, note⟩ = text ⟨kind, w, note⟩) : v = w := by
  -- The heading does not depend on the value.
  have headings : heading ⟨kind, v, note⟩ = heading ⟨kind, w, note⟩ := rfl
  cases v with
  | none =>
    cases w with
    | none => rfl
    | some d => exact absurd same (ne_append_value _ d.shown)
  | some d =>
    cases w with
    | none => exact absurd same.symm (ne_append_value _ d.shown)
    | some d' =>
      simp only [text, headings, String.append_right_inj] at same
      exact congrArg some (Datum.shown_injective same)

theorem report_eq_iff {kind : ErrorKind} {note : Option String} {v w : Option Datum} :
    report ⟨kind, v, note⟩ = report ⟨kind, w, note⟩ ↔
      text ⟨kind, v, note⟩ = text ⟨kind, w, note⟩ :=
  String.append_right_inj _

end Complaint

theorem isPrintable_of_isLineBreak {c : Char} (h : isLineBreak c = true) :
    isPrintable c = false := by
  have code : c.toNat < 0x20 ∨ c.toNat = 0x85 ∨ c.toNat = 0x2028 ∨ c.toNat = 0x2029 := by
    simp only [isLineBreak, Bool.or_eq_true, Bool.and_eq_true, decide_eq_true_eq, beq_iff_eq] at h
    omega
  unfold isPrintable
  rcases code with control | code | code | code
  · simp only [show c.toNat < 0x7F by omega, if_true, decide_eq_false_iff_not]
    omega
  all_goals
    rw [code]
    decide +kernel

theorem digitChar_not_isLineBreak : ∀ n < 16, isLineBreak n.digitChar = false := by
  decide

theorem hexDigits_unbroken (width n : Nat) : ∀ c ∈ hexDigits width n, isLineBreak c = false := by
  induction width generalizing n with
  | zero => simp [hexDigits]
  | succ width ih =>
    intro c hc
    rcases List.mem_append.mp hc with front | last
    · exact ih (n / 16) c front
    · rw [List.mem_singleton.mp last]
      exact digitChar_not_isLineBreak (n % 16) (Nat.mod_lt n (by decide))

theorem forall_unbroken_of_all {cs : List Char} (h : cs.all (fun c => !isLineBreak c) = true) :
    ∀ c ∈ cs, isLineBreak c = false := by
  simpa using h

theorem Escape.unbroken {quote c : Char} {form : List Char} (h : Escape quote c form)
    (known : quote = singleQuote ∨ quote = doubleQuote) : ∀ d ∈ form, isLineBreak d = false := by
  cases h with
  | marked special =>
    apply forall_unbroken_of_all
    rcases special with rfl | rfl
    · decide
    · rcases known with rfl | rfl <;> decide
  | named name =>
    apply forall_unbroken_of_all
    simp only [List.mem_cons, Prod.mk.injEq, List.not_mem_nil, or_false] at name
    rcases name with ⟨rfl, rfl⟩ | ⟨rfl, rfl⟩ | ⟨rfl, rfl⟩ <;> decide
  | plain shows _ =>
    intro d hd
    rw [List.mem_singleton.mp hd, ← Bool.not_eq_true]
    intro ends
    rw [isPrintable_of_isLineBreak ends] at shows
    cases shows
  | @coded mark width form _ =>
    have marks : ∀ m ∈ [('x', 2), ('u', 4), ('U', 8)], isLineBreak m.1 = false := by decide
    intro d hd
    rcases List.mem_cons.mp hd with rfl | hd
    · decide
    rcases List.mem_cons.mp hd with rfl | hd
    · exact marks (d, width) form
    · exact hexDigits_unbroken width c.toNat d hd

theorem quoted_unbroken (s : String) : ∀ c ∈ (quoted s).toList, isLineBreak c = false := by
  have known := quoteFor_cases s.toList
  have quote : isLineBreak (quoteFor s.toList) = false := by
    rcases known with h | h <;> rw [h] <;> decide
  intro c hc
  rw [quoted, String.toList_ofList, quotedChars] at hc
  rcases List.mem_cons.mp hc with rfl | hc
  · exact quote
  rcases List.mem_append.mp hc with hc | hc
  · obtain ⟨d, _, written⟩ := List.mem_flatMap.mp hc
    exact (escapeChar_form _ d).unbroken known c written
  · rw [List.mem_singleton.mp hc]
    exact quote

theorem Datum.shown_unbroken (d : Datum) : ∀ c ∈ d.shown.toList, isLineBreak c = false := by
  cases d with
  | text s => exact quoted_unbroken s
  | integer n => exact not_isLineBreak_of_isWord (decimal_numeral n).isWord

theorem append_unbroken {s s' : String} (front : ∀ c ∈ s.toList, isLineBreak c = false)
    (back : ∀ c ∈ s'.toList, isLineBreak c = false) :
    ∀ c ∈ (s ++ s').toList, isLineBreak c = false := by
  rw [String.toList_append]
  exact List.forall_mem_append.mpr ⟨front, back⟩

theorem ErrorKind.name_unbroken (kind : ErrorKind) :
    ∀ c ∈ kind.name.toList, isLineBreak c = false := by
  apply unbroken_of_all
  cases kind <;> decide

namespace Complaint

theorem heading_unbroken {c : Complaint}
    (note : ∀ s ∈ c.note, ∀ d ∈ s.toList, isLineBreak d = false) :
    ∀ d ∈ c.heading.toList, isLineBreak d = false := by
  unfold heading
  split
  · exact c.kind.name_unbroken
  next s found =>
    split
    · exact c.kind.name_unbroken
    · exact note s found

theorem text_unbroken {c : Complaint}
    (note : ∀ s ∈ c.note, ∀ d ∈ s.toList, isLineBreak d = false) :
    ∀ d ∈ c.text.toList, isLineBreak d = false := by
  have heading := c.heading_unbroken note
  unfold text
  split
  · exact heading
  next value _ =>
    have colon : ∀ d ∈ ": ".toList, isLineBreak d = false := unbroken_of_all (by decide)
    exact append_unbroken (append_unbroken heading colon) value.shown_unbroken

theorem report_unbroken {c : Complaint}
    (note : ∀ s ∈ c.note, ∀ d ∈ s.toList, isLineBreak d = false) :
    ∀ d ∈ c.report.toList, isLineBreak d = false :=
  append_unbroken (append_unbroken c.kind.name_unbroken (unbroken_of_all (by decide)))
    (c.text_unbroken note)

end Complaint

/-- A text, or an integer of at most so many digits. -/
def Datum.Short (limit : Nat) : Datum → Prop
  | .text _ => True
  | .integer n => (Nat.toDigits 10 n.natAbs).length ≤ limit

theorem Datum.Short.writable_eq {d : Datum} (h : d.Short 4300) : d.writable = true := by
  cases d with
  | text s => rfl
  | integer n =>
    rw [writable, writable_iff_digitCount, (decimal_numeral n).digitCount_eq]
    exact h

theorem Complaint.message_of_short {kind : ErrorKind} {note : Option String} {v : Option Datum}
    (short : ∀ d ∈ v, d.Short 4300) :
    message ⟨kind, v, note⟩ = .ok (text ⟨kind, v, note⟩) := by
  have written : writable ⟨kind, v, note⟩ = true := by
    cases v with
    | none => rfl
    | some d => exact (short d rfl).writable_eq
  rw [message, if_pos written]

/-- The message of an error tells what its value is, and keeps to one line: of two errors that
differ in their values at most, the messages and the reports are the same exactly if the values are;
and they have no line break but those of the note, whatever the value. -/
theorem complaint_identifies_value (kind : ErrorKind) (note : Option String) :
    (∀ v w : Option Datum, (∀ d ∈ v, d.Short 4300) → (∀ d ∈ w, d.Short 4300) →
      ∃ m m', Complaint.message ⟨kind, v, note⟩ = .ok m ∧
        Complaint.message ⟨kind, w, note⟩ = .ok m' ∧ (m = m' ↔ v = w) ∧
        (Complaint.report ⟨kind, v, note⟩ = Complaint.report ⟨kind, w, note⟩ ↔ v = w)) ∧
    ((∀ s ∈ note, ∀ c ∈ s.toList, isLineBreak c = false) → ∀ v : Option Datum,
      (∀ m, Complaint.message ⟨kind, v, note⟩ = .ok m → ∀ c ∈ m.toList, isLineBreak c = false) ∧
      ∀ c ∈ (Complaint.report ⟨kind, v, note⟩).toList, isLineBreak c = false) := by
  constructor
  · intro v w short short'
    have texts : Complaint.text ⟨kind, v, note⟩ = Complaint.text ⟨kind, w, note⟩ ↔ v = w :=
      ⟨Complaint.text_injective, fun same => by rw [same]⟩
    exact ⟨_, _, Complaint.message_of_short short, Complaint.message_of_short short', texts,
      Complaint.report_eq_iff.trans texts⟩
  · intro unbroken v
    refine ⟨?_, Complaint.report_unbroken unbroken⟩
    intro m written
    unfold Complaint.message at written
    split at written
    · cases written
      exact Complaint.text_unbroken unbroken
    · cases written

/-- Digits as a text and as an integer, and a line feed beside the two characters that stand for
one. -/
theorem expected_expression_identifies_value :
    let note := some "Expected an expression"
    let digits : Complaint := ⟨.illegalValue, some (.text "12"), note⟩
    let number : Complaint := ⟨.illegalValue, some (.integer 12), note⟩
    let broken : Complaint := ⟨.illegalValue, some (.text "\n\\n"), note⟩
    digits.text = "Expected an expression: '12'" ∧ number.text = "Expected an expression: 12" ∧
      digits.message ≠ number.message ∧ digits.report ≠ number.report ∧
      broken.text = "Expected an expression: '\\n\\\\n'" ∧
      ∀ c ∈ broken.report.toList, isLineBreak c = false := by
  intro note digits number broken
  have two : (Nat.toDigits 10 12).length ≤ 4300 := by decide
  have short : ∀ d ∈ some (Datum.integer 12), d.Short 4300 := by
    rintro d ⟨⟩
    exact two
  obtain ⟨identified, unbroken⟩ := complaint_identifies_value .illegalValue note
  obtain ⟨m, m', written, written', messages, reports⟩ :=
    identified (some (.text "12")) (some (.integer 12)) (by rintro d ⟨⟩; trivial) short
  have plain : ∀ s ∈ some "Expected an expression", ∀ c ∈ s.toList, isLineBreak c = false := by
    rintro s ⟨⟩
    exact unbroken_of_all (by decide)
  have differ : some (Datum.text "12") ≠ some (.integer 12) := by decide
  refine ⟨by decide +kernel, by decide +kernel, ?_, fun same => differ (reports.mp same),
    by decide +kernel, (unbroken plain _).2⟩
  rw [written, written']
  intro same
  exact differ (messages.mp (Except.ok.inj same))

end PolishCalc
