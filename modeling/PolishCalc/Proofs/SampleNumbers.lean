import Mathlib.Data.Nat.Digits.Defs
import PolishCalc.Proofs.FolderRuns

namespace PolishCalc

/-- `DigitOf c d`: the character stands `d` places behind the zero of some script. -/
def DigitOf (c : Char) (d : Nat) : Prop :=
  d < 10 ∧ ∃ z ∈ decimalZeros, c.toNat = z + d

/-- `DecimalText s n`: the characters of the text are decimal digits, of one script or several, and
make up the number `n`. -/
def DecimalText (s : String) (n : Nat) : Prop :=
  ∃ ds, List.Forall₂ DigitOf s.toList ds ∧ n = Nat.ofDigits 10 ds.reverse

theorem decimalZeros_apart : ∀ z ∈ decimalZeros, ∀ y ∈ decimalZeros,
    z < y + 10 → y < z + 10 → z = y := by
  decide +kernel

theorem decimalDigit?_eq_some_iff {c : Char} {d : Nat} :
    decimalDigit? c = some d ↔ DigitOf c d := by
  unfold decimalDigit?
  constructor
  · intro h
    obtain ⟨z, found, rfl⟩ := Option.map_eq_some_iff.mp h
    have near : z ≤ c.toNat ∧ c.toNat < z + 10 := by simpa using List.find?_some found
    exact ⟨by omega, z, List.mem_of_find?_eq_some found, by omega⟩
  · rintro ⟨small, z, zero, place⟩
    have any : (decimalZeros.find? fun z => z ≤ c.toNat && c.toNat < z + 10).isSome = true := by
      rw [List.find?_isSome]
      exact ⟨z, zero, by simp; omega⟩
    obtain ⟨y, found⟩ := Option.isSome_iff_exists.mp any
    have near : y ≤ c.toNat ∧ c.toNat < y + 10 := by simpa using List.find?_some found
    have same : z = y :=
      decimalZeros_apart z zero y (List.mem_of_find?_eq_some found) (by omega) (by omega)
    rw [found, Option.map_some, Option.some.injEq]
    omega

theorem exists_digits_iff {cs : List Char} :
    (∃ ds, List.Forall₂ DigitOf cs ds) ↔ ∀ c ∈ cs, ∃ d, DigitOf c d := by
  induction cs with
  | nil => simp
  | cons c cs ih =>
    rw [List.forall_mem_cons, ← ih]
    constructor
    · rintro ⟨_, digits⟩
      obtain ⟨d, ds, digit, others, _⟩ := List.forall₂_cons_left_iff.mp digits
      exact ⟨⟨d, digit⟩, ds, others⟩
    · rintro ⟨⟨d, digit⟩, ds, others⟩
      exact ⟨d :: ds, .cons digit others⟩

namespace Console

/-- Digits are worth ten times more with each that follows. -/
theorem foldlM_digits_iff {cs : List Char} {m n : Nat} :
    cs.foldlM (fun n c => (decimalDigit? c).map (10 * n + ·)) m = some n ↔
      ∃ ds, List.Forall₂ DigitOf cs ds ∧ n = ds.foldl (fun m d => d + 10 * m) m := by
  induction cs generalizing m with
  | nil => simp [eq_comm]
  | cons c cs ih =>
    rw [List.foldlM_cons]
    constructor
    · intro h
      obtain ⟨k, first, rest⟩ := Option.bind_eq_some_iff.mp h
      obtain ⟨d, digit, rfl⟩ := Option.map_eq_some_iff.mp first
      obtain ⟨ds, others, value⟩ := ih.mp rest
      refine ⟨d :: ds, .cons (decimalDigit?_eq_some_iff.mp digit) others, ?_⟩
      rw [value, List.foldl_cons, Nat.add_comm]
    · rintro ⟨_, digits, value⟩
      obtain ⟨d, ds, digit, others, rfl⟩ := List.forall₂_cons_left_iff.mp digits
      rw [decimalDigit?_eq_some_iff.mpr digit]
      refine ih.mpr ⟨ds, others, ?_⟩
      rw [value, List.foldl_cons, Nat.add_comm]

theorem decimalValue?_eq_some_iff {s : String} {n : Nat} :
    decimalValue? s.toList = some n ↔ DecimalText s n := by
  rw [decimalValue?, foldlM_digits_iff]
  simp only [DecimalText, Nat.ofDigits_eq_foldr, List.foldr_reverse, Nat.cast_id]

theorem sampleNumber_of_short {s : String} (short : s.length ≤ digitLimit) :
    sampleNumber s = match decimalValue? s.toList with
      | none => .error (.notDecimal s)
      | some n => .ok (if n < samples.length then some n else none) := by
  let isDecimal (c : Char) : Bool := (decimalDigit? c).isSome
  have front : (s.toList.takeWhile isDecimal).length ≤ s.toList.length :=
    (List.takeWhile_sublist isDecimal).length_le
  rw [String.length_toList] at front
  exact if_neg (Nat.not_lt.mpr (Nat.le_trans front short))

theorem withSample_of_decimal {s : String} {n : Nat} (short : s.length ≤ digitLimit)
    (decimal : DecimalText s n) (next : Nat → Transcript) :
    withSample s next = if n < samples.length then next n else
      Transcript.complain ("Test number out of range: " ++ s) 2 := by
  rw [withSample, sampleNumber_of_short short, decimalValue?_eq_some_iff.mpr decimal]
  by_cases known : n < samples.length <;> simp [known]

theorem withSample_of_other {s : String} {c : Char} (short : s.length ≤ digitLimit)
    (mem : c ∈ s.toList) (other : ∀ d, ¬ DigitOf c d) (next : Nat → Transcript) :
    withSample s next = Transcript.crash (.notDecimal s) := by
  have unread : decimalValue? s.toList = none := by
    apply Option.eq_none_iff_forall_ne_some.mpr
    intro n read
    obtain ⟨ds, digits, _⟩ := decimalValue?_eq_some_iff.mp read
    obtain ⟨d, digit⟩ := exists_digits_iff.mp ⟨ds, digits⟩ c mem
    exact other d digit
  rw [withSample, sampleNumber_of_short short, unread]

/-- No sample meets the digit limit, and only the last seven fail. -/
theorem samples_shown : ∀ n < samples.length,
    (shownRun? (samples[n]?.getD [])).map (fun run => run.1.errors.isEmpty) =
      some (decide (n < 13)) := by
  decide +kernel

theorem runSample_ending (level : String) {n : Nat} (known : n < samples.length) :
    (runSample level n).ending = .ok (if n < 13 then 0 else 1) := by
  obtain ⟨⟨r, ls⟩, shown, clean⟩ := Option.map_eq_some_iff.mp (samples_shown n known)
  obtain ⟨ran, listed⟩ := shownRun?_eq_some_iff.mp shown
  have ending := (runProgram_of_ok ran listed level).2
  rw [runSample, Transcript.andThen_of_ok rfl, ending, clean]
  by_cases first : n < 13 <;> simp [first, Except.map]

theorem language_sample {v : Invocation} {s : String} (alone : v.arguments = [s])
    (digits : isDigitText s = true) :
    language v = withSample s (runSample (logLevel v.level "WARNING")) := by
  simp only [language, alone, digits, if_true]

end Console

/-- An argument of digits that is short enough to be read. If all of them are decimal digits, it is a
number: it runs the sample of that number to its end, or is refused because there is none. If one of
them is a digit of another kind, the program crashes. -/
theorem digit_argument_handled_iff_decimal {v : Invocation} {s : String}
    (alone : v.arguments = [s]) (digits : isDigitText s = true) (short : s.length ≤ digitLimit) :
    let t := Console.language v
    (∀ n sample, DecimalText s n → samples[n]? = some sample →
      t = (Transcript.say ("TEST #" ++ n.repr ++ "\n")).andThen
        (Console.runProgram (logLevel v.level "WARNING") sample) ∧
      t.ending = .ok (if n < 13 then 0 else 1)) ∧
    (∀ n, DecimalText s n → samples.length ≤ n →
      t = Transcript.complain ("Test number out of range: " ++ s) 2) ∧
    ((∃ c ∈ s.toList, ∀ d, ¬ DigitOf c d) → t = Transcript.crash (.notDecimal s)) ∧
    ((∃ status, t.ending = .ok status) ↔ ∃ n, DecimalText s n) := by
  intro t
  have handled : t = Console.withSample s (Console.runSample (logLevel v.level "WARNING")) :=
    Console.language_sample alone digits
  have run {n : Nat} (decimal : DecimalText s n) (known : n < samples.length) :
      t = Console.runSample (logLevel v.level "WARNING") n := by
    rw [handled, Console.withSample_of_decimal short decimal, if_pos known]
  have refused {n : Nat} (decimal : DecimalText s n) (unknown : samples.length ≤ n) :
      t = Transcript.complain ("Test number out of range: " ++ s) 2 := by
    rw [handled, Console.withSample_of_decimal short decimal, if_neg (Nat.not_lt.mpr unknown)]
  have crashed {c : Char} (mem : c ∈ s.toList) (other : ∀ d, ¬ DigitOf c d) :
      t = Transcript.crash (.notDecimal s) := by
    rw [handled, Console.withSample_of_other short mem other]
  refine ⟨?_, fun n => refused, fun ⟨c, mem, other⟩ => crashed mem other, ?_, ?_⟩
  · intro n sample decimal found
    obtain ⟨known, _⟩ := List.getElem?_eq_some_iff.mp found
    rw [run decimal known, Console.runSample_ending _ known, Console.runSample, found]
    exact ⟨rfl, rfl⟩
  · rintro ⟨status, ended⟩
    have all : ∀ c ∈ s.toList, ∃ d, DigitOf c d := by
      intro c mem
      apply Classical.byContradiction
      intro other
      rw [crashed mem (not_exists.mp other)] at ended
      cases ended
    obtain ⟨ds, digits⟩ := exists_digits_iff.mpr all
    exact ⟨_, ds, digits, rfl⟩
  · rintro ⟨n, decimal⟩
    by_cases known : n < samples.length
    · exact ⟨_, by rw [run decimal known, Console.runSample_ending _ known]⟩
    · exact ⟨2, by rw [refused decimal (Nat.not_lt.mp known)]; rfl⟩

/-- The digits of two scripts that make up thirteen, which is a sample that fails. -/
theorem mixed_digits_run_failing_sample :
    let v : Invocation := ⟨["1٣"], [], false, none, (Entry.folder []).disk⟩
    let t := Console.language v
    isDigitText "1٣" = true ∧ "1٣".length ≤ digitLimit ∧ DecimalText "1٣" 13 ∧
      samples[13]? = some ["#", "/", "5", "0"] ∧
      t = (Transcript.say "TEST #13\n").andThen
        (Console.runProgram "WARNING" ["#", "/", "5", "0"]) ∧
      t.ending = .ok 1 := by
  intro v t
  have digits : isDigitText "1٣" = true := by decide +kernel
  have short : "1٣".length ≤ digitLimit := by decide +kernel
  have decimal : DecimalText "1٣" 13 :=
    Console.decimalValue?_eq_some_iff.mp (by decide +kernel)
  have found : samples[13]? = some ["#", "/", "5", "0"] := rfl
  obtain ⟨run, _⟩ := digit_argument_handled_iff_decimal (v := v) rfl digits short
  obtain ⟨shown, ending⟩ := run 13 _ decimal found
  have heading : "TEST #" ++ Nat.repr 13 ++ "\n" = "TEST #13\n" := by decide +kernel
  have level : logLevel v.level "WARNING" = "WARNING" := by decide +kernel
  rw [heading, level] at shown
  exact ⟨digits, short, decimal, found, shown, ending⟩

/-- A superscript is taken for a number and cannot be read as one. -/
theorem superscript_argument_crashes :
    let t := Console.language ⟨["²"], [], false, none, (Entry.folder []).disk⟩
    isDigitText "²" = true ∧ "²".length ≤ digitLimit ∧
      t.ending = .error (.notDecimal "²") ∧ t.out = "" ∧ t.err = "" := by
  decide +kernel

end PolishCalc
