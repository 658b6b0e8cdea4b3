import PolishCalc.Console
import PolishCalc.Proofs.ByteBlocks
import PolishCalc.Proofs.LineMeanings
import PolishCalc.Proofs.Requests

namespace PolishCalc

/-- `Spaced ts cs`: the characters `cs` are the words `ts` in order, each with a gap of blanks
behind it, which is empty at most behind the last word. -/
inductive Spaced : List String → List Char → Prop
  | nil : Spaced [] []
  | cons {t : String} {ts : List String} {gap cs : List Char} (word : IsWord t)
      (blank : ∀ c ∈ gap, isBlank c = true) (apart : ts ≠ [] → gap ≠ []) (others : Spaced ts cs) :
      Spaced (t :: ts) (t.toList ++ gap ++ cs)

theorem wordsOf_blanks {gap : List Char} (blank : ∀ c ∈ gap, isBlank c = true) (cs : List Char) :
    wordsOf (gap ++ cs) = wordsOf cs := by
  rw [← wordsOf_dropWhile, List.dropWhile_append_of_pos blank, wordsOf_dropWhile]

theorem Spaced.wordsOf_eq {ts : List String} {cs : List Char} (h : Spaced ts cs) :
    wordsOf cs = ts.map String.toList := by
  induction h with
  | nil => rfl
  | @cons t ts gap cs word blank apart others ih =>
    have one : wordsOf t.toList = [t.toList] := by
      have nonempty : t.toList ≠ [] := by simpa using word.1
      simp [wordsOf, splitWord_of_not_blank word.2, closeWord, nonempty]
    cases gap with
    | nil =>
      -- Without a gap this is the last word.
      obtain rfl : ts = [] := Classical.byContradiction fun more => apart more rfl
      cases others
      simpa using one
    | cons c gap =>
      have rest : wordsOf (gap ++ cs) = wordsOf cs :=
        wordsOf_blanks (fun d hd => blank d (by simp [hd])) cs
      rw [List.append_assoc, List.cons_append, wordsOf_append_blank _ _ (blank c (by simp)), one,
        rest, ih]
      rfl

/-- Every text is its words with gaps between them. -/
theorem exists_spaced (cs : List Char) :
    ∃ ts lead body, cs = lead ++ body ∧ (∀ c ∈ lead, isBlank c = true) ∧ Spaced ts body := by
  induction cs with
  | nil => exact ⟨[], [], [], rfl, by simp, .nil⟩
  | cons c cs ih =>
    obtain ⟨ts, lead, body, rfl, blank, spaced⟩ := ih
    by_cases hc : isBlank c = true
    · exact ⟨ts, c :: lead, body, rfl, List.forall_mem_cons.mpr ⟨hc, blank⟩, spaced⟩
    · have letter : isBlank c = false := by simpa using hc
      have single : IsWord (String.ofList [c]) := by simp [IsWord, letter]
      by_cases apart : ts ≠ [] → lead ≠ []
      · refine ⟨String.ofList [c] :: ts, [], c :: (lead ++ body), rfl, by simp, ?_⟩
        simpa using Spaced.cons single blank apart spaced
      · -- The letter belongs to the first word of what follows.
        obtain ⟨more, rfl⟩ : ts ≠ [] ∧ lead = [] := by simpa using apart
        cases spaced with
        | nil => exact absurd rfl more
        | @cons t ts gap cs word blank apart' others =>
          have longer : IsWord (String.ofList (c :: t.toList)) := by
            refine ⟨by simp, ?_⟩
            rw [String.toList_ofList]
            exact List.forall_mem_cons.mpr ⟨letter, word.2⟩
          refine ⟨String.ofList (c :: t.toList) :: ts, [], _, rfl, by simp, ?_⟩
          simpa using Spaced.cons longer blank apart' others

theorem words_eq_iff {s : String} {ts : List String} : words s = ts ↔
    ∃ lead body, s.toList = lead ++ body ∧ (∀ c ∈ lead, isBlank c = true) ∧ Spaced ts body := by
  have read {us : List String} {lead body : List Char} (text : s.toList = lead ++ body)
      (blank : ∀ c ∈ lead, isBlank c = true) (spaced : Spaced us body) : words s = us := by
    rw [words, text, wordsOf_blanks blank, spaced.wordsOf_eq, List.map_map]
    exact List.map_id'' (fun t => String.ofList_toList) us
  constructor
  · rintro rfl
    obtain ⟨us, lead, body, text, blank, spaced⟩ := exists_spaced s.toList
    rw [read text blank spaced]
    exact ⟨lead, body, text, blank, spaced⟩
  · rintro ⟨lead, body, text, blank, spaced⟩
    exact read text blank spaced

/-- The lines of a text, which only line feeds divide. -/
def rows (s : String) : List String :=
  (s.toList.splitOn '\n').map String.ofList

/-- No line of the text is a dot among blanks. -/
def Unstopped (s : String) : Prop :=
  ∀ l ∈ rows s, stripped l ≠ "."

instance (s : String) : Decidable (Unstopped s) :=
  inferInstanceAs (Decidable (∀ l ∈ rows s, stripped l ≠ "."))

theorem joinLines_rows (s : String) : joinLines (rows s) = s := by
  have chars : (rows s).map String.toList = s.toList.splitOn '\n' := by
    rw [rows, List.map_map]
    exact List.map_id'' (fun l => String.toList_ofList) _
  rw [← String.toList_inj, joinLines, String.toList_intercalate, chars]
  exact List.intercalate_splitOn '\n'

theorem joinLines_cons (l : String) {ls : List String} (more : ls ≠ []) :
    joinLines (l :: ls) = l ++ "\n" ++ joinLines ls :=
  String.intercalate_cons_of_ne_nil more

theorem words_append_newline (s u : String) : words (s ++ "\n" ++ u) = words s ++ words u := by
  have h := wordsOf_append_blank s.toList u.toList (show isBlank '\n' = true by decide)
  simp [words, String.toList_append, h]

theorem words_joinLines (ls : List String) : words (joinLines ls) = ls.flatMap words := by
  induction ls with
  | nil => rfl
  | cons l ls ih =>
    by_cases more : ls = []
    · simp [more, joinLines]
    · rw [joinLines_cons l more, words_append_newline, ih, List.flatMap_cons]

/-- What stands in front of a line has the words of the lines before it. -/
theorem exists_front (before : List String) (line : String) (after : List String) :
    ∃ front, joinLines (before ++ line :: after) = front ++ joinLines (line :: after) ∧
      words front = before.flatMap words := by
  induction before with
  | nil => exact ⟨"", by simp, rfl⟩
  | cons l before ih =>
    obtain ⟨front, text, read⟩ := ih
    refine ⟨l ++ "\n" ++ front, ?_, ?_⟩
    · rw [List.cons_append, joinLines_cons l (by simp), text, ← String.append_assoc]
    · rw [words_append_newline, read, List.flatMap_cons]

theorem newlineLines_eq_splitOn (cs : List Char) :
    (newlineLines cs).1 ++ [(newlineLines cs).2] = cs.splitOn '\n' := by
  induction cs with
  | nil => rfl
  | cons c cs ih =>
    rw [List.splitOn_cons_eq_if_modifyHead, ← ih]
    rcases split : newlineLines cs with ⟨ls, last⟩
    by_cases hc : c = '\n'
    · simp [newlineLines, split, hc]
    · cases ls <;> simp [newlineLines, split, hc]

theorem unifyNewlines_of_unused {cs : List Char} (unused : '\r' ∉ cs) : unifyNewlines cs = cs := by
  induction cs with
  | nil => rfl
  | cons c cs ih =>
    obtain ⟨other, rest⟩ : '\r' ≠ c ∧ '\r' ∉ cs := by simpa using unused
    rw [unifyNewlines]
    · rw [if_neg (Ne.symm other), ih rest]
    · intro _ h
      exact absurd h.symm other

/-- Every text without carriage returns can stand in a file. -/
theorem decodeText_utf8 {s : String} (unused : '\r' ∉ s.toList) :
    decodeText s.toByteArray.data.toList = .ok s := by
  have decoded := decodes_iff (n := 0).mp (decodes_utf8 s)
  simp only [decodeText, decoded, unifyNewlines_of_unused unused, String.ofList_toList]

namespace Console

theorem endsInput_iff {l : String} : endsInput l = true ↔ stripped l = "." := by
  rw [endsInput, decide_eq_true_iff, stripped_eq_dot_iff]

theorem readTokens_fst (ls : List String) :
    (readTokens ls).1 = (ls.takeWhile fun l => !endsInput l).flatMap words := by
  induction ls with
  | nil => rfl
  | cons l ls ih =>
    by_cases stop : endsInput l = true
    · simp [readTokens, stop]
    · simp [readTokens, stop, ih]

theorem all_not_endsInput {ls : List String} (unstopped : ∀ l ∈ ls, stripped l ≠ ".") :
    ∀ l ∈ ls, (!endsInput l) = true := by
  intro l hl
  simpa using mt endsInput_iff.mp (unstopped l hl)

theorem readTokens_of_unstopped {ls : List String} (unstopped : ∀ l ∈ ls, stripped l ≠ ".") :
    (readTokens ls).1 = ls.flatMap words := by
  rw [readTokens_fst, List.takeWhile_eq_self_iff.mpr (all_not_endsInput unstopped)]

theorem readTokens_of_stopped {before after : List String} {line : String}
    (unstopped : ∀ l ∈ before, stripped l ≠ ".") (stop : stripped line = ".") :
    (readTokens (before ++ line :: after)).1 = before.flatMap words := by
  have all := all_not_endsInput unstopped
  rw [readTokens_fst, List.takeWhile_append_of_pos all, List.takeWhile_cons_of_neg]
  · simp
  · simpa using endsInput_iff.mpr stop

/-- A last line that is empty adds nothing. -/
theorem readTokens_append_empty (ls : List String) :
    (readTokens (ls ++ [""])).1 = (readTokens ls).1 := by
  induction ls with
  | nil => rfl
  | cons l ls ih =>
    by_cases stop : endsInput l = true
    · simp [readTokens, stop]
    · simp [readTokens, stop, ih]

/-- Standard input is read line by line as the text of a file would be. -/
theorem interactive_eq (level : String) (terminal : Bool) {bytes : List UInt8} {s : String}
    (text : decodeText bytes = .ok s) :
    ∃ k, interactive level terminal bytes =
      (⟨if terminal then String.join (List.replicate k prompt) else "", "", .ok 0⟩ :
        Transcript).andThen (runProgram level (readTokens (rows s)).1) := by
  let lines := (newlineLines s.toList).1.map String.ofList
  let last := String.ofList (newlineLines s.toList).2
  have split : rows s = lines ++ [last] := by
    rw [rows, ← newlineLines_eq_splitOn, List.map_append]
    rfl
  have fed : (readTokens (if (!last.isEmpty) = true then lines ++ [last] else lines)).1 =
      (readTokens (rows s)).1 := by
    rw [split]
    split
    next => rfl
    next empty =>
      have none_left : last = "" := by simpa using empty
      rw [none_left, readTokens_append_empty]
  simp only [interactive, LineStream.ofBytes_eq text, Option.isNone_none, Bool.true_and]
  exact ⟨_, congrArg (fun ts => Transcript.andThen _ (runProgram level ts)) fed⟩

theorem language_input {v : Invocation} {s : String} (alone : v.arguments = [])
    (text : decodeText v.input = .ok s) :
    ∃ k, language v =
      (⟨if v.terminal then String.join (List.replicate k prompt) else "", "", .ok 0⟩ :
        Transcript).andThen
          (runProgram (logLevel v.level "WARNING") (readTokens (rows s)).1) := by
  simp only [language, alone]
  exact interactive_eq _ v.terminal text

/-- What is in a folder has its turn among the rest. -/
theorem language_folder {v : Invocation} {path : String} {entries : List (String × Option Reading)}
    {entry : String × Option Reading} (alone : v.arguments = [path])
    (plain : isDigitText path = false) (found : v.disk.folder? path = some entries)
    (inside : entry ∈ entries) :
    ∃ before after, (before ++ entry :: after).Perm entries ∧
      language v = Transcript.inTurn ((before ++ entry :: after).map fun e =>
        runEntry (logLevel v.level "WARNING") path e.1 e.2) := by
  let byName (d e : String × Option Reading) : Bool := decide (d.1 ≤ e.1)
  have sorted : entry ∈ entries.mergeSort byName := List.mem_mergeSort.mpr inside
  obtain ⟨before, after, turn⟩ := List.append_of_mem sorted
  refine ⟨before, after, turn ▸ List.mergeSort_perm entries byName, ?_⟩
  simp only [language, alone, plain, found, runFolder, ← turn]
  rfl

theorem runFile_eq (level path name : String) {bytes : List UInt8} {s : String}
    (text : decodeText bytes = .ok s) :
    runFile level path name (.ok bytes) =
      (Transcript.say ("\nTest File " ++ name ++ ":\n")).andThen
        ((runProgram level (words s)).andThen rule) := by
  simp only [runFile, text]

end Console

/-- A text is read as the same tokens on every way in. Line by line it is read up to the first line
that is a dot among blanks; if there is none, standard input and a file of a folder run the same
program. The words of a text are what stands between its blanks, so that a client can post the text
as well as its words. -/
theorem entry_paths_read_alike (s : String) :
    (Unstopped s → (Console.readTokens (rows s)).1 = words s) ∧
    (∀ before line after, rows s = before ++ line :: after → (∀ l ∈ before, stripped l ≠ ".") →
      stripped line = "." → ∃ front, s = front ++ joinLines (line :: after) ∧
        (Console.readTokens (rows s)).1 = words front) ∧
    ('\r' ∉ s.toList → decodeText s.toByteArray.data.toList = .ok s) ∧
    (∀ bytes, decodeText bytes = .ok s → Unstopped s →
      (∀ v : Invocation, v.arguments = [] → v.input = bytes → ∃ k, Console.language v =
        (⟨if v.terminal then String.join (List.replicate k Console.prompt) else "", "", .ok 0⟩ :
          Transcript).andThen (Console.runProgram (logLevel v.level "WARNING") (words s))) ∧
      ∀ (v : Invocation) path entries name, v.arguments = [path] → isDigitText path = false →
        v.disk.folder? path = some entries → (name, some (.ok bytes)) ∈ entries →
        let run := fun e : String × Option Reading =>
          Console.runEntry (logLevel v.level "WARNING") path e.1 e.2
        ∃ before after, (before ++ (name, some (.ok bytes)) :: after).Perm entries ∧
          Console.language v = Transcript.inTurn (before.map run ++
            (Transcript.say ("\nTest File " ++ name ++ ":\n")).andThen
              ((Console.runProgram (logLevel v.level "WARNING") (words s)).andThen Console.rule) ::
            after.map run)) ∧
    (∀ t ∈ words s, IsWord t) ∧
    (∀ ts, words s = ts ↔ ∃ lead body, s.toList = lead ++ body ∧
      (∀ c ∈ lead, isBlank c = true) ∧ Spaced ts body) ∧
    ∀ r r' data data', r.Posts "/run" data → data.member? "tokens" = none →
      data.member? "code" = some (.text s) → r'.Posts "/run" data' →
      data'.member? "tokens" = some (.texts (words s)) →
      Service.respond r = .ok (Service.runProgram (words s)) ∧
        Service.respond r' = Service.respond r := by
  have whole (unstopped : Unstopped s) : (Console.readTokens (rows s)).1 = words s := by
    rw [Console.readTokens_of_unstopped unstopped, ← words_joinLines, joinLines_rows]
  refine ⟨whole, ?_, decodeText_utf8, ?_, fun t => isWord_of_mem_words, fun ts => words_eq_iff, ?_⟩
  · intro before line after split unstopped stop
    obtain ⟨front, text, read⟩ := exists_front before line after
    rw [← split, joinLines_rows] at text
    refine ⟨front, text, ?_⟩
    rw [split, Console.readTokens_of_stopped unstopped stop, read]
  · intro bytes text unstopped
    refine ⟨?_, ?_⟩
    · rintro v alone rfl
      have input := Console.language_input alone text
      rwa [whole unstopped] at input
    · intro v path entries name alone plain found inside run
      obtain ⟨before, after, perm, turns⟩ := Console.language_folder alone plain found inside
      refine ⟨before, after, perm, ?_⟩
      rw [turns, List.map_append, List.map_cons, Console.runEntry,
        Console.runFile_eq _ path name text]
  · intro r r' data data' posts tokenless carried posts' carried'
    have answer := Service.respond_run_code posts tokenless carried
    exact ⟨answer, (Service.respond_run_tokens posts' carried').trans answer.symm⟩

/-- A text that came with other line ends, on standard input, in a folder and in requests, and a
text with a dot among wide blanks. -/
theorem line_ends_and_dots_read_alike :
    let s := "# 2\n # a\n"
    let bytes := "# 2\r\n # a\r".toByteArray.data.toList
    let disk := (Entry.folder [("d", .folder [("q", .broken), ("p", .file bytes)])]).disk
    let program := Console.runProgram (logLevel none "WARNING") ["#", "2", "#", "a"]
    let u := "# 5\n\u3000.\t\n# 6"
    decodeText bytes = .ok s ∧ Unstopped s ∧
      Console.language ⟨[], bytes, false, none, disk⟩ =
        (⟨"", "", .ok 0⟩ : Transcript).andThen program ∧
      (∃ before after, Console.language ⟨["d"], [], false, none, disk⟩ = Transcript.inTurn
        (before ++ (Transcript.say "\nTest File p:\n").andThen (program.andThen Console.rule) ::
          after)) ∧
      (∃ front, u = front ++ "\u3000.\t\n# 6" ∧ (Console.readTokens (rows u)).1 = words front) ∧
      Service.respond (.posting "/run" "\x7b\"tokens\":[\"#\",\"2\",\"#\",\"a\"]\x7d") =
        Service.respond (.posting "/run" "\x7b\"code\":\"# 2\\n # a\\n\"\x7d") := by
  intro s bytes disk program u
  have text : decodeText bytes = .ok s := rfl
  have unstopped : Unstopped s := by decide +kernel
  have tokens : words s = ["#", "2", "#", "a"] := by decide +kernel
  obtain ⟨_, _, _, runs, _, _, posted⟩ := entry_paths_read_alike s
  rw [tokens] at runs posted
  obtain ⟨input, folder⟩ := runs bytes text unstopped
  obtain ⟨k, read⟩ := input ⟨[], bytes, false, none, disk⟩ rfl rfl
  obtain ⟨before, after, _, turns⟩ := folder ⟨["d"], [], false, none, disk⟩ "d"
    [("q", some (.error .unreadable)), ("p", some (.ok bytes))] "p" rfl (by decide +kernel) (by rfl) (by simp)
  have code : (Request.posting "/run" "\x7b\"code\":\"# 2\\n # a\\n\"\x7d").Posts "/run"
      (.object [("code", .text s)]) := Request.posts_posting (by decide +kernel)
  have list : (Request.posting "/run" "\x7b\"tokens\":[\"#\",\"2\",\"#\",\"a\"]\x7d").Posts "/run"
      (.object [("tokens", .texts ["#", "2", "#", "a"])]) :=
    Request.posts_posting (by decide +kernel)
  obtain ⟨_, stopped, _⟩ := entry_paths_read_alike u
  have split : rows u = ["# 5"] ++ "\u3000.\t" :: ["# 6"] := by decide +kernel
  have front := stopped ["# 5"] "\u3000.\t" ["# 6"] split (by decide +kernel) (by decide +kernel)
  exact ⟨text, unstopped, read, ⟨_, _, turns⟩, front, (posted _ _ _ _ code rfl rfl list rfl).2⟩

end PolishCalc
