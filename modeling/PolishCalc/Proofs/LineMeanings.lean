import Mathlib.Data.List.DropRight
import Mathlib.Data.List.Forall2
import PolishCalc.Proofs.Reassembly
import PolishCalc.Proofs.TokenClasses

namespace PolishCalc

/-- A text without the blanks at its two ends. -/
def stripped (s : String) : String :=
  String.ofList ((s.toList.dropWhile isBlank).rdropWhile isBlank)

theorem wordsOf_dropWhile (cs : List Char) : wordsOf (cs.dropWhile isBlank) = wordsOf cs := by
  induction cs with
  | nil => rfl
  | cons c cs ih =>
    by_cases hc : isBlank c = true
    · rw [List.dropWhile_cons_of_pos hc, ih]
      exact (wordsOf_append_blank [] cs hc).symm
    · rw [List.dropWhile_cons_of_neg hc]

theorem wordsOf_rdropWhile (cs : List Char) : wordsOf (cs.rdropWhile isBlank) = wordsOf cs := by
  induction cs using List.reverseRecOn with
  | nil => rfl
  | append_singleton cs c ih =>
    by_cases hc : isBlank c = true
    · rw [List.rdropWhile_concat_pos _ _ _ hc, ih, wordsOf_append_blank cs [] hc]
      exact (List.append_nil _).symm
    · rw [List.rdropWhile_concat_neg _ _ _ hc]

theorem blank_of_splitWord {cs : List Char} (h : splitWord cs = ([], [])) :
    ∀ c ∈ cs, isBlank c = true := by
  induction cs with
  | nil => simp
  | cons c cs ih =>
    rcases split : splitWord cs with ⟨w, ws⟩
    simp only [splitWord, split] at h
    split at h
    next hc =>
      have none_left : w = [] ∧ ws = [] := by
        cases w <;> simp [closeWord] at h
        exact ⟨rfl, h⟩
      intro d hd
      rcases List.mem_cons.mp hd with rfl | hd
      · exact hc
      · exact ih (by rw [split, none_left.1, none_left.2]) d hd
    next => simp at h

theorem dot_among_blanks {cs : List Char} (h : wordsOf cs = [['.']]) :
    ∃ front back, cs = front ++ '.' :: back ∧ (∀ c ∈ front, isBlank c = true) ∧
      ∀ c ∈ back, isBlank c = true := by
  induction cs with
  | nil => cases h
  | cons c cs ih =>
    by_cases hc : isBlank c = true
    · have tail : wordsOf cs = [['.']] := (wordsOf_append_blank [] cs hc).symm.trans h
      obtain ⟨front, back, rfl, blank, blank'⟩ := ih tail
      refine ⟨c :: front, back, rfl, ?_, blank'⟩
      intro d hd
      rcases List.mem_cons.mp hd with rfl | hd
      · exact hc
      · exact blank d hd
    · rcases split : splitWord cs with ⟨w, ws⟩
      simp only [wordsOf, splitWord, split, if_neg hc, closeWord] at h
      simp at h
      obtain ⟨⟨rfl, rfl⟩, rfl⟩ := h
      exact ⟨[], cs, rfl, by simp, blank_of_splitWord split⟩

/-- A line holds nothing but a dot if and only if the dot is its only word. -/
theorem stripped_eq_dot_iff {s : String} : stripped s = "." ↔ words s = ["."] := by
  constructor
  · intro h
    have chars : (s.toList.dropWhile isBlank).rdropWhile isBlank = ['.'] := by
      simpa [stripped, ← String.toList_inj] using h
    have same := (wordsOf_rdropWhile _).trans (wordsOf_dropWhile s.toList)
    rw [chars] at same
    rw [words, ← same]
    rfl
  · intro h
    obtain ⟨w, one, dot⟩ := List.map_eq_singleton_iff.mp h
    have hw : w = ['.'] := by
      rw [← String.toList_ofList (l := w), dot]
      rfl
    rw [hw] at one
    obtain ⟨front, back, chars, blank, blank'⟩ := dot_among_blanks one
    have right : ('.' :: back).rdropWhile isBlank = ['.'] := by
      have reversed : ∀ c ∈ back.reverse, isBlank c = true := by simpa using blank'
      rw [List.rdropWhile, List.reverse_cons, List.dropWhile_append_of_pos reversed]
      rfl
    rw [stripped, chars, List.dropWhile_append_of_pos blank,
      List.dropWhile_cons_of_neg (by decide), right]

/-- All words that can begin an instruction. -/
def mnemonics : List String :=
  ["PUSH", "LOAD", "STORE", "ADD", "SUB", "MUL", "DIV", "NEG", "SQRT", "PRINT"]

/-- The instruction of a line with the given words. What follows the words that it needs is
ignored. -/
inductive Encodes : List String → Instruction → Prop
  | push {t : String} {ds : List Char} {n : Int} (form : Numeral t ds n)
      (short : ds.length ≤ digitLimit) (ws : List String) : Encodes ("PUSH" :: t :: ws) (.push n)
  | load {x : String} (name : NoNumeral x) (ws : List String) : Encodes ("LOAD" :: x :: ws) (.load x)
  | store {x : String} (name : NoNumeral x) (ws : List String) :
      Encodes ("STORE" :: x :: ws) (.store x)
  | unary (op : UnaryOp) (ws : List String) : Encodes (op.mnemonic :: ws) (.unary op)
  | binary (op : BinaryOp) (ws : List String) : Encodes (op.mnemonic :: ws) (.binary op)
  | print (ws : List String) : Encodes ("PRINT" :: ws) .print

/-- What is wrong with a line of the given words, which begins like an instruction. -/
inductive Offends : List String → Failure → Prop
  | missing {m : String} (operand : m ∈ ["PUSH", "LOAD", "STORE"]) :
      Offends [m] (.fault (.missingOperand m))
  | notInteger {t : String} (name : NoNumeral t) (ws : List String) :
      Offends ("PUSH" :: t :: ws) (.fault (.operandNotInteger t))
  | tooLong {t : String} {ds : List Char} {n : Int} (form : Numeral t ds n)
      (long : digitLimit < ds.length) (ws : List String) :
      Offends ("PUSH" :: t :: ws) (.limit (.reading ds.length))
  | notName {m t : String} {ds : List Char} {n : Int} (named : m ∈ ["LOAD", "STORE"])
      (form : Numeral t ds n) (ws : List String) :
      Offends (m :: t :: ws) (.fault (.operandNotName m t))

theorem readNumeral_of_long {t : String} {ds : List Char} {n : Int} (form : Numeral t ds n)
    (long : digitLimit < ds.length) : readNumeral t = .error (.reading ds.length) := by
  rw [readNumeral, form.digitCount_eq, if_neg (by omega)]

theorem Encodes.decodeLine_eq {m : String} {ws : List String} {i : Instruction}
    (h : Encodes (m :: ws) i) : decodeLine m ws = .instruction i := by
  cases h with
  | @push t ds n form short ws =>
    have numeral := isNumeral_iff.mpr ⟨ds, n, form⟩
    have value := (readNumeral_eq_ok_iff form).mpr ⟨short, rfl⟩
    rw [decodeLine_operand (by decide)]
    simp [pushLine, numeral, value]
  | @load x name ws =>
    have plain := isNumeral_eq_false_iff.mpr name
    rw [decodeLine_operand (by decide)]
    simp [nameLine, plain]
  | @store x name ws =>
    have plain := isNumeral_eq_false_iff.mpr name
    rw [decodeLine_operand (by decide)]
    simp [nameLine, plain]
  | unary op => cases op <;> rfl
  | binary op => cases op <;> rfl
  | print => rfl

theorem Offends.decodeLine_eq {m : String} {ws : List String} {f : Failure}
    (h : Offends (m :: ws) f) : decodeLine m ws = .malformed f := by
  cases h with
  | missing operand => exact decodeLine_operand operand []
  | @notInteger t name ws =>
    have plain := isNumeral_eq_false_iff.mpr name
    rw [decodeLine_operand (by decide)]
    simp [pushLine, plain]
  | @tooLong t ds n form long ws =>
    have numeral := isNumeral_iff.mpr ⟨ds, n, form⟩
    rw [decodeLine_operand (by decide)]
    simp [pushLine, numeral, readNumeral_of_long form long]
  | @notName m t ds n named form ws =>
    have numeral := isNumeral_iff.mpr ⟨ds, n, form⟩
    have hm : m ≠ "PUSH" := by
      rintro rfl
      simp at named
    rw [decodeLine_operand (List.mem_cons_of_mem _ named)]
    simp [nameLine, numeral, hm]

theorem decodeLine_unknown {m : String} (unknown : m ∉ mnemonics) (ws : List String) :
    decodeLine m ws = .unknown m := by
  simp only [mnemonics, List.mem_cons, List.not_mem_nil, or_false, not_or] at unknown
  simp [decodeLine, isMnemonic, plainInstruction?, unknown]

/-- A line that begins like an instruction is one, or something is wrong with it. -/
theorem encodes_or_offends {m : String} (known : m ∈ mnemonics) (ws : List String) :
    (∃ i, Encodes (m :: ws) i) ∨ ∃ f, Offends (m :: ws) f := by
  have kinds : m ∈ ["PUSH", "LOAD", "STORE"] ∨ (∃ op : UnaryOp, m = op.mnemonic) ∨
      (∃ op : BinaryOp, m = op.mnemonic) ∨ m = "PRINT" := by
    simp only [mnemonics, List.mem_cons, List.not_mem_nil, or_false] at known
    rcases known with rfl | rfl | rfl | rfl | rfl | rfl | rfl | rfl | rfl | rfl
    · exact .inl (by decide)
    · exact .inl (by decide)
    · exact .inl (by decide)
    · exact .inr (.inr (.inl ⟨.add, rfl⟩))
    · exact .inr (.inr (.inl ⟨.sub, rfl⟩))
    · exact .inr (.inr (.inl ⟨.mul, rfl⟩))
    · exact .inr (.inr (.inl ⟨.div, rfl⟩))
    · exact .inr (.inl ⟨.negate, rfl⟩)
    · exact .inr (.inl ⟨.root, rfl⟩)
    · exact .inr (.inr (.inr rfl))
  rcases kinds with operand | ⟨op, rfl⟩ | ⟨op, rfl⟩ | rfl
  · cases ws with
    | nil => exact .inr ⟨_, .missing operand⟩
    | cons t ws =>
      by_cases numeral : isNumeral t = true
      · obtain ⟨ds, n, form⟩ := isNumeral_iff.mp numeral
        rcases List.mem_cons.mp operand with rfl | named
        · by_cases short : ds.length ≤ digitLimit
          · exact .inl ⟨_, .push form short ws⟩
          · exact .inr ⟨_, .tooLong form (by omega) ws⟩
        · exact .inr ⟨_, .notName named form ws⟩
      · have name : NoNumeral t := isNumeral_eq_false_iff.mp (by simpa using numeral)
        simp only [List.mem_cons, List.not_mem_nil, or_false] at operand
        rcases operand with rfl | rfl | rfl
        · exact .inr ⟨_, .notInteger name ws⟩
        · exact .inl ⟨_, .load name ws⟩
        · exact .inl ⟨_, .store name ws⟩
  · exact .inl ⟨_, .unary op ws⟩
  · exact .inl ⟨_, .binary op ws⟩
  · exact .inl ⟨_, .print ws⟩

/-- The lines in front of the first that holds nothing but a dot. -/
def bodyLines (ls : List String) : List String :=
  ls.takeWhile fun s => decide (stripped s ≠ ".")

/-- Lines that begin with a mnemonic. -/
def BeginsKnown (s : String) : Prop :=
  ∃ m ∈ (words s).head?, m ∈ mnemonics

instance (s : String) : Decidable (BeginsKnown s) :=
  inferInstanceAs (Decidable (∃ m ∈ (words s).head?, m ∈ mnemonics))

/-- The first word of a line that does not begin with a mnemonic. -/
def unknownWord? (s : String) : Option String :=
  (words s).head?.filter fun m => decide (m ∉ mnemonics)

/-- The warnings about lines of which the first has the given number. -/
def unknownLines (n : Nat) (ls : List String) : List Warning :=
  (ls.zipIdx n).filterMap fun p => (unknownWord? p.1).map fun m => ⟨p.2, m⟩

/-- The five kinds of lines, told from their words. -/
inductive LineMeans (s : String) : Line → Prop
  | ending (stop : stripped s = ".") : LineMeans s .ending
  | blank (goesOn : stripped s ≠ ".") (empty : words s = []) : LineMeans s .blank
  | unknown {m : String} (goesOn : stripped s ≠ ".") (ws : List String) (items : words s = m :: ws)
      (unknown : m ∉ mnemonics) : LineMeans s (.unknown m)
  | instruction {i : Instruction} (goesOn : stripped s ≠ ".") (encodes : Encodes (words s) i) :
      LineMeans s (.instruction i)
  | malformed {f : Failure} (goesOn : stripped s ≠ ".") (offends : Offends (words s) f) :
      LineMeans s (.malformed f)

theorem readLine_means (s : String) : LineMeans s (readLine s) := by
  unfold readLine
  cases items : words s with
  | nil =>
    refine .blank (fun stop => ?_) items
    simp [stripped_eq_dot_iff.mp stop] at items
  | cons m ws =>
    by_cases stop : m = "." ∧ ws = []
    · obtain ⟨rfl, rfl⟩ := stop
      exact .ending (stripped_eq_dot_iff.mpr items)
    · have goesOn : stripped s ≠ "." := by
        rw [Ne, stripped_eq_dot_iff, items]
        simpa using stop
      have decoded : (m = "." && ws.isEmpty) = false := by simpa using stop
      simp only [decoded]
      by_cases known : m ∈ mnemonics
      · rcases encodes_or_offends known ws with ⟨i, encodes⟩ | ⟨f, offends⟩
        · rw [encodes.decodeLine_eq]
          exact .instruction goesOn (items ▸ encodes)
        · rw [offends.decodeLine_eq]
          exact .malformed goesOn (items ▸ offends)
      · rw [decodeLine_unknown known]
        exact .unknown goesOn ws items known

theorem bodyLines_of_stop {s : String} (stop : stripped s = ".") (ls : List String) :
    bodyLines (s :: ls) = [] := by
  simp [bodyLines, stop]

theorem bodyLines_cons {s : String} (goesOn : stripped s ≠ ".") (ls : List String) :
    bodyLines (s :: ls) = s :: bodyLines ls := by
  simp [bodyLines, goesOn]

theorem unknownLines_cons (n : Nat) (s : String) (ls : List String) :
    unknownLines n (s :: ls) =
      ((unknownWord? s).map fun m => ⟨n, m⟩).toList ++ unknownLines (n + 1) ls := by
  cases h : unknownWord? s <;> simp [unknownLines, h]

theorem beginsKnown_iff {s m : String} {ws : List String} (items : words s = m :: ws) :
    BeginsKnown s ↔ m ∈ mnemonics := by
  simp [BeginsKnown, items]

theorem not_beginsKnown_of_blank {s : String} (empty : words s = []) : ¬ BeginsKnown s := by
  simp [BeginsKnown, empty]

theorem beginsKnown_of_decodeLine {s m : String} {ws : List String} (items : words s = m :: ws)
    (h : decodeLine m ws ≠ .unknown m) : BeginsKnown s := by
  rw [beginsKnown_iff items]
  by_contra unknown
  exact h (decodeLine_unknown unknown ws)

theorem Offends.beginsKnown {s : String} {f : Failure} (h : Offends (words s) f) :
    BeginsKnown s := by
  cases items : words s with
  | nil =>
    rw [items] at h
    cases h
  | cons m ws =>
    rw [items] at h
    exact beginsKnown_of_decodeLine items (by simp [h.decodeLine_eq])

theorem Encodes.beginsKnown {s : String} {i : Instruction} (h : Encodes (words s) i) :
    BeginsKnown s := by
  cases items : words s with
  | nil =>
    rw [items] at h
    cases h
  | cons m ws =>
    rw [items] at h
    exact beginsKnown_of_decodeLine items (by simp [h.decodeLine_eq])

theorem Encodes.not_offends {ws : List String} {i : Instruction} (h : Encodes ws i) (f : Failure) :
    ¬ Offends ws f := by
  intro offends
  cases ws with
  | nil => cases h
  | cons m ws =>
    have instruction := h.decodeLine_eq
    rw [offends.decodeLine_eq] at instruction
    cases instruction

theorem unknownWord?_of_unknown {s m : String} {ws : List String} (items : words s = m :: ws)
    (unknown : m ∉ mnemonics) : unknownWord? s = some m := by
  rw [unknownWord?, items, List.head?_cons, Option.filter_some, if_pos (by simpa using unknown)]

theorem unknownWord?_of_known {s : String} (known : BeginsKnown s) : unknownWord? s = none := by
  obtain ⟨m, first, hm⟩ := known
  rw [unknownWord?, Option.mem_def.mp first]
  simp [hm]

/-- How the lines in front of the end are read, the first of which has the given number. Either
nothing is wrong with any of them, and there is one instruction for every line that begins with a
mnemonic and a warning for every other that is not blank; or the first line that something is wrong
with gives the failure, and there are the warnings about the lines before it. -/
inductive ReadFrom (n : Nat) (body : List String) : Assembled → Prop
  | whole {is : List Instruction} (sound : ∀ s ∈ body, ∀ f, ¬ Offends (words s) f)
      (instructions : List.Forall₂ (fun s i => Encodes (words s) i)
        (body.filter fun s => decide (BeginsKnown s)) is) :
      ReadFrom n body ⟨.ok is, unknownLines n body⟩
  | stopped {before after : List String} {s : String} {f : Failure}
      (split : body = before ++ s :: after) (offends : Offends (words s) f)
      (first : ∀ l ∈ before, ∀ g, ¬ Offends (words l) g) :
      ReadFrom n body ⟨.error f, unknownLines n before⟩

/-- What was read, with instructions and warnings put in front of it. -/
def Assembled.behind (is : List Instruction) (ws : List Warning) (a : Assembled) : Assembled :=
  ⟨a.result.map (is ++ ·), ws ++ a.warnings⟩

theorem Assembled.behind_nil (a : Assembled) : a.behind [] [] = a := by
  rcases a with ⟨_ | is, ws⟩ <;> rfl

theorem Assembled.behind_warning (w : Warning) (a : Assembled) : a.behind [] [w] = a.warn w := by
  rcases a with ⟨_ | is, ws⟩ <;> rfl

/-- One more line in front, with nothing wrong with it. -/
theorem ReadFrom.line {n : Nat} {body : List String} {a : Assembled} {s : String}
    (h : ReadFrom (n + 1) body a) (sound : ∀ f, ¬ Offends (words s) f) {is : List Instruction}
    (instructions : List.Forall₂ (fun s i => Encodes (words s) i)
      ([s].filter fun s => decide (BeginsKnown s)) is) :
    ReadFrom n (s :: body) (a.behind is ((unknownWord? s).map fun m => ⟨n, m⟩).toList) := by
  have all_sound : ∀ {ls : List String}, (∀ l ∈ ls, ∀ f, ¬ Offends (words l) f) →
      ∀ l ∈ s :: ls, ∀ f, ¬ Offends (words l) f := by
    intro ls others l hl
    rcases List.mem_cons.mp hl with rfl | hl
    · exact sound
    · exact others l hl
  cases h with
  | whole others instructions' =>
    rw [Assembled.behind, ← unknownLines_cons]
    refine .whole (all_sound others) ?_
    rw [← List.singleton_append, List.filter_append]
    exact List.rel_append instructions instructions'
  | stopped split offends first =>
    rw [Assembled.behind, ← unknownLines_cons]
    exact .stopped (congrArg (s :: ·) split) offends (all_sound first)

theorem ReadFrom.skip {n : Nat} {body : List String} {a : Assembled} {s : String}
    (h : ReadFrom (n + 1) body a) (unknown : ¬ BeginsKnown s) :
    ReadFrom n (s :: body) (a.behind [] ((unknownWord? s).map fun m => ⟨n, m⟩).toList) := by
  refine h.line (fun f offends => unknown offends.beginsKnown) ?_
  simp [unknown]

theorem ReadFrom.instruction {n : Nat} {body : List String} {a : Assembled} {s : String}
    {i : Instruction} (h : ReadFrom (n + 1) body a) (encodes : Encodes (words s) i) :
    ReadFrom n (s :: body) (a.cons i) := by
  have known := encodes.beginsKnown
  have instructions : List.Forall₂ (fun s i => Encodes (words s) i)
      ([s].filter fun s => decide (BeginsKnown s)) [i] := by
    simpa [known] using encodes
  have next := h.line encodes.not_offends instructions
  rwa [unknownWord?_of_known known] at next

theorem assembleFrom_readFrom (n : Nat) (ls : List String) :
    ReadFrom n (bodyLines ls) (assembleFrom n ls) := by
  induction ls generalizing n with
  | nil => exact .whole (by simp [bodyLines]) .nil
  | cons s ls ih =>
    have means := readLine_means s
    have others := ih (n + 1)
    rw [assembleFrom]
    generalize readLine s = line at means
    cases means with
    | ending stop =>
      rw [bodyLines_of_stop stop]
      exact .whole (by simp) .nil
    | blank goesOn empty =>
      have next := others.skip (not_beginsKnown_of_blank empty)
      rw [bodyLines_cons goesOn]
      simpa [unknownWord?, empty, Assembled.behind_nil] using next
    | unknown goesOn ws items unknown =>
      have next := others.skip (mt (beginsKnown_iff items).mp unknown)
      rw [bodyLines_cons goesOn]
      rw [unknownWord?_of_unknown items unknown] at next
      simp only [Option.map_some, Option.toList_some, Assembled.behind_warning] at next
      exact next
    | instruction goesOn encodes =>
      rw [bodyLines_cons goesOn]
      exact others.instruction encodes
    | malformed goesOn offends =>
      have stopped : ReadFrom n (s :: bodyLines ls) ⟨.error _, unknownLines n []⟩ :=
        .stopped rfl offends (by simp)
      rw [bodyLines_cons goesOn]
      exact stopped

/-- Lines that add nothing can be left away at the end. -/
theorem assembleFrom_append {tail : List String} (nothing : ∀ n, assembleFrom n tail = ⟨.ok [], []⟩)
    (n : Nat) (ls : List String) : assembleFrom n (ls ++ tail) = assembleFrom n ls := by
  induction ls generalizing n with
  | nil => exact nothing n
  | cons s ls ih => simp only [List.cons_append, assembleFrom, ih]

theorem assemble_append_stop {stop : String} (h : stripped stop = ".") (ls after : List String) :
    assemble (ls ++ stop :: after) = assemble ls := by
  refine assembleFrom_append (fun n => ?_) 1 ls
  have ending : readLine stop = .ending := by
    simp [readLine, stripped_eq_dot_iff.mp h]
  rw [assembleFrom, ending]

theorem assemble_joinLines {ls : List String}
    (unbroken : ∀ l ∈ ls, ∀ c ∈ l.toList, isLineBreak c = false) :
    assemble (AssemblySource.text (joinLines ls)).toLines = assemble ls := by
  change assemble (textLines (joinLines ls)) = assemble ls
  by_cases last : ls.getLast? = some ""
  · obtain ⟨init, rfl⟩ := List.getLast?_eq_some_iff.mp last
    rw [textLines_joinLines_empty fun l hl => unbroken l (by simp [hl])]
    exact (assembleFrom_append (fun _ => rfl) 1 init).symm
  · rw [textLines_joinLines unbroken last]

/-- The loop over the lines, with the instructions so far. The texts of its warnings go to the end
of a list, if it was given one. -/
def assembleInto (given : Option (List String)) (read : List Instruction) :
    List String → Except Failure (List Instruction) × Option (List String)
  | [] => (.ok read, given)
  | s :: ls =>
    match readLine s with
    | .ending => (.ok read, given)
    | .blank => assembleInto given read ls
    | .unknown m => assembleInto (given.map (· ++ ["Illegal assembly instr " ++ m])) read ls
    | .instruction i => assembleInto given (read ++ [i]) ls
    | .malformed f => (.error f, given)

theorem assembleInto_eq (given : Option (List String)) (read : List Instruction) (n : Nat)
    (ls : List String) :
    assembleInto given read ls = ((assembleFrom n ls).result.map (read ++ ·),
      given.map (· ++ (assembleFrom n ls).warnings.map Warning.text)) := by
  induction ls generalizing given read n with
  | nil => cases given <;> simp [assembleInto, assembleFrom, Except.map]
  | cons s ls ih =>
    rw [assembleInto, assembleFrom]
    cases readLine s with
    | ending => cases given <;> simp [Except.map]
    | blank => exact ih given read (n + 1)
    | unknown m =>
      simp only [ih _ read (n + 1), Assembled.warn]
      cases given with
      | none => rfl
      | some ws =>
        have text : (⟨n, m⟩ : Warning).text = "Illegal assembly instr " ++ m := rfl
        simp only [Option.map_some, List.map_cons, text, List.append_assoc, List.singleton_append]
    | instruction i =>
      simp only [ih given _ (n + 1), Assembled.cons]
      cases (assembleFrom (n + 1) ls).result <;> simp [Except.map]
    | malformed f => cases given <;> simp [Except.map]

/-- What assembly text means. Only the lines in front of the first that holds nothing but a dot
count. They are read one by one up to the first that begins like an instruction and has something
wrong with it, and reading fails if and only if there is such a line. A list for the warnings is
only ever added to, and without one the result is the same. Lines that have no line break in them
can be joined to one text. -/
theorem assembly_read_line_by_line (ls : List String) :
    ReadFrom 1 (bodyLines ls) (assemble ls) ∧
    ((∃ f, (assemble ls).result = .error f) ↔ ∃ s ∈ bodyLines ls, ∃ f, Offends (words s) f) ∧
    (∀ given, assembleInto given [] ls =
      ((assemble ls).result, given.map (· ++ (assemble ls).warnings.map Warning.text))) ∧
    (∀ stop after, stripped stop = "." → assemble (ls ++ stop :: after) = assemble ls) ∧
    ((∀ l ∈ ls, ∀ c ∈ l.toList, isLineBreak c = false) →
      assemble (AssemblySource.text (joinLines ls)).toLines = assemble ls) := by
  have read : ReadFrom 1 (bodyLines ls) (assemble ls) := assembleFrom_readFrom 1 ls
  refine ⟨read, ?_, fun given => ?_, fun stop after h => assemble_append_stop h ls after,
    assemble_joinLines⟩
  · generalize assemble ls = a at read
    cases read with
    | whole sound _ => simpa using sound
    | stopped split offends _ => simpa using ⟨_, by simp [split], _, offends⟩
  · rw [assembleInto_eq given [] 1 ls, assemble]
    rcases assembleFrom 1 ls with ⟨_ | is, ws⟩ <;> rfl

/-- A dot with a word behind it is no end, a numeral is no name, and nothing behind either the line
that is to blame or a dot alone counts. -/
theorem numeral_name_ends_reading :
    let ls := ["PUSH -07 x", ". x", "\tSTORE .", "LOAD 7", "FOO", "PUSH"]
    let ks := ["PUSH -07 x", ". x", "\tSTORE ."]
    let f := Failure.fault (.operandNotName "LOAD" "7")
    (∃ s ∈ bodyLines ls, ∃ f, Offends (words s) f) ∧ ReadFrom 1 (bodyLines ls) (assemble ls) ∧
      assembleInto (some ["?"]) [] ls = (.error f, some ["?", "Illegal assembly instr ."]) ∧
      assembleInto none [] ls = (.error f, none) ∧
      assemble (AssemblySource.text (joinLines ls)).toLines = assemble ls ∧
      assemble (ks ++ " .\t" :: ls) = ⟨.ok [.push (-7), .store "."], [⟨2, "."⟩]⟩ := by
  intro ls ks f
  obtain ⟨read, fails, given, _, joined⟩ := assembly_read_line_by_line ls
  obtain ⟨_, _, _, stop, _⟩ := assembly_read_line_by_line ks
  have stopped : assemble ls = ⟨.error f, [⟨2, "."⟩]⟩ := by rfl
  have complete : assemble ks = ⟨.ok [.push (-7), .store "."], [⟨2, "."⟩]⟩ := by rfl
  have unbroken : ls.all (fun l => l.toList.all fun c => !isLineBreak c) = true := by decide +kernel
  refine ⟨fails.mp ⟨f, by rw [stopped]⟩, read, ?_, ?_, joined (by simpa using unbroken), ?_⟩
  · rw [given, stopped]
    rfl
  · rw [given, stopped]
    rfl
  · rw [stop " .\t" ls (by decide +kernel), complete]

end PolishCalc
