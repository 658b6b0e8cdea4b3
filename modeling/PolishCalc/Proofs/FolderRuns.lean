import PolishCalc.Proofs.EntryPaths

namespace PolishCalc

/-- Texts in the order of their code points: the first difference decides, and a text comes before
its continuations. -/
inductive InOrder : List Char → List Char → Prop
  | nil (cs : List Char) : InOrder [] cs
  | lower {c d : Char} (lower : c.toNat < d.toNat) (cs ds : List Char) :
      InOrder (c :: cs) (d :: ds)
  | same (c : Char) {cs ds : List Char} (rest : InOrder cs ds) : InOrder (c :: cs) (c :: ds)

theorem inOrder_of_not_lex {cs ds : List Char} (h : ¬ List.Lex (· < ·) ds cs) :
    InOrder cs ds := by
  induction cs generalizing ds with
  | nil => exact .nil ds
  | cons c cs ih =>
    cases ds with
    | nil => exact absurd List.Lex.nil h
    | cons d ds =>
      rcases Nat.lt_trichotomy c.toNat d.toNat with lower | same | higher
      · exact .lower lower cs ds
      · obtain rfl := Char.toNat_inj.mp same
        exact .same c (ih fun lex => h (.cons lex))
      · exact absurd (.rel higher) h

theorem inOrder_of_le {s t : String} (h : s ≤ t) : InOrder s.toList t.toList :=
  inOrder_of_not_lex h

namespace Transcript

theorem andThen_of_ok {t : Transcript} {n : Nat} (ended : t.ending = .ok n) (next : Transcript) :
    t.andThen next = ⟨t.out ++ next.out, t.err ++ next.err, next.ending.map (max n)⟩ := by
  rw [andThen, ended]

theorem nothing_andThen (t : Transcript) : nothing.andThen t = t := by
  obtain ⟨out, err, _ | n⟩ := t <;> simp [nothing, andThen, Except.map]

/-- Programs that all come to their end show one thing after the other, and fail together if one of
them fails. -/
theorem inTurn_of_ended {α : Type} {xs : List α} {run : α → Transcript} {failed : α → Bool}
    (ended : ∀ x ∈ xs, (run x).ending = .ok (failed x).toNat) :
    (inTurn (xs.map run)).out = String.join (xs.map fun x => (run x).out) ∧
      (inTurn (xs.map run)).ending = .ok (xs.any failed).toNat := by
  induction xs with
  | nil => exact ⟨rfl, rfl⟩
  | cons x xs ih =>
    obtain ⟨first, others⟩ := List.forall_mem_cons.mp ended
    obtain ⟨out, ending⟩ := ih others
    have turn : inTurn ((x :: xs).map run) = (run x).andThen (inTurn (xs.map run)) := rfl
    rw [turn, andThen_of_ok first, out, ending]
    refine ⟨by simp, ?_⟩
    rw [List.any_cons]
    cases failed x <;> cases xs.any failed <;> rfl

end Transcript

theorem toOption_eq_some_iff {ε α : Type} {x : Except ε α} {a : α} :
    x.toOption = some a ↔ x = .ok a := by
  cases x <;> simp [Except.toOption]

/-- What is in a folder without what is no regular file. -/
def regularFiles (entries : List (String × Option Reading)) : List (String × Reading) :=
  entries.filterMap fun e => e.2.map (e.1, ·)

theorem mem_regularFiles {entries : List (String × Option Reading)} {name : String}
    {reading : Reading} :
    (name, reading) ∈ regularFiles entries ↔ (name, some reading) ∈ entries := by
  simp [regularFiles]

theorem regular_names_sublist (entries : List (String × Option Reading)) :
    ((regularFiles entries).map Prod.fst).Sublist (entries.map Prod.fst) := by
  induction entries with
  | nil => exact .slnil
  | cons entry entries ih =>
    obtain ⟨name, _ | reading⟩ := entry
    · exact ih.cons _
    · exact ih.cons_cons _

/-- The run of a program and its listing, if neither meets the digit limit. -/
def shownRun? (ts : List String) : Option (Run × List String) := do
  let r ← (runTokens ts).toOption
  let ls ← r.listing.toOption
  some (r, ls)

theorem shownRun?_eq_some_iff {ts ls : List String} {r : Run} :
    shownRun? ts = some (r, ls) ↔ runTokens ts = .ok r ∧ r.listing = .ok ls := by
  simp [shownRun?, Option.bind_eq_some_iff, toOption_eq_some_iff]

/-- The run of what is in a file and its listing, if there is a text in it. -/
def fileRun? : Reading → Option (Run × List String)
  | .error _ => none
  | .ok bytes => do
    let text ← (decodeText bytes).toOption
    shownRun? (words text)

/-- What stands above the listing of a file. -/
def fileHeading (name : String) : String :=
  "\nTest File " ++ name ++ ":\n\n"

/-- What is shown of a file. -/
def fileBlock (name : String) (reading : Reading) : String :=
  match fileRun? reading with
  | some (_, ls) => fileHeading name ++ (joinLines ls ++ "\n") ++ Console.rule.out
  | none => fileHeading name

def fileFailed (reading : Reading) : Bool :=
  (fileRun? reading).any fun run => !run.1.errors.isEmpty

/-- The bytes are a text whose run and whose listing do not meet the digit limit. -/
structure RunsTo (bytes : List UInt8) (text : String) (r : Run) (ls : List String) : Prop where
  decoded : decodeText bytes = .ok text
  ran : runText text = .ok r
  listed : r.listing = .ok ls

theorem fileRun?_eq_some_iff {bytes : List UInt8} {r : Run} {ls : List String} :
    fileRun? (.ok bytes) = some (r, ls) ↔ ∃ text, RunsTo bytes text r ls := by
  have form (text : String) : RunsTo bytes text r ls ↔
      decodeText bytes = .ok text ∧ runTokens (words text) = .ok r ∧ r.listing = .ok ls :=
    ⟨fun h => ⟨h.decoded, h.ran, h.listed⟩, fun h => ⟨h.1, h.2.1, h.2.2⟩⟩
  simp [fileRun?, form, Option.bind_eq_some_iff, toOption_eq_some_iff, shownRun?_eq_some_iff]

theorem RunsTo.fileRun?_eq {bytes : List UInt8} {text : String} {r : Run} {ls : List String}
    (h : RunsTo bytes text r ls) : fileRun? (.ok bytes) = some (r, ls) :=
  fileRun?_eq_some_iff.mpr ⟨text, h⟩

theorem RunsTo.fileFailed_iff {bytes : List UInt8} {text : String} {r : Run} {ls : List String}
    (h : RunsTo bytes text r ls) : fileFailed (.ok bytes) = true ↔ r.errors ≠ [] := by
  simp [fileFailed, h.fileRun?_eq]

namespace Console

theorem runProgram_of_ok {ts ls : List String} {r : Run} (ran : runTokens ts = .ok r)
    (shown : r.listing = .ok ls) (level : String) :
    (runProgram level ts).out = joinLines ls ++ "\n" ∧
      (runProgram level ts).ending = .ok (!r.errors.isEmpty).toNat := by
  unfold runTokens at ran
  split at ran
  next => cases ran
  next r' traced =>
    cases ran
    have run : runProgram level ts =
        listed (logText level r.log) (r.errors.map Fault.report) (.ok ls) := by
      simp only [runProgram, traced, shown]
    rw [run]
    refine ⟨rfl, ?_⟩
    rw [listed, List.isEmpty_map]
    cases r.errors.isEmpty <;> rfl

theorem say_heading (name : String) :
    Transcript.say ("\nTest File " ++ name ++ ":\n") = ⟨fileHeading name, "", .ok 0⟩ := by
  simp [Transcript.say, fileHeading, ← String.toList_inj]

theorem runFile_of_runsTo {bytes : List UInt8} {text : String} {r : Run} {ls : List String}
    (runs : RunsTo bytes text r ls) (level path name : String) :
    (runFile level path name (.ok bytes)).out = fileBlock name (.ok bytes) ∧
      (runFile level path name (.ok bytes)).ending = .ok (fileFailed (.ok bytes)).toNat := by
  obtain ⟨out, ending⟩ := runProgram_of_ok runs.ran runs.listed level
  rw [runFile_eq level path name runs.decoded, say_heading, Transcript.andThen_of_ok rfl,
    Transcript.andThen_of_ok ending, out]
  simp only [fileBlock, fileFailed, runs.fileRun?_eq, Option.any_some]
  refine ⟨(String.append_assoc ..).symm, ?_⟩
  cases r.errors.isEmpty <;> rfl

/-- What one file shows and whether it fails does not depend on the folder or on other files. -/
theorem runFile_of_runnable {reading : Reading}
    (runnable : ∀ bytes, reading = .ok bytes → ∃ text r ls, RunsTo bytes text r ls)
    (level path name : String) :
    (runFile level path name reading).out = fileBlock name reading ∧
      (runFile level path name reading).ending = .ok (fileFailed reading).toNat := by
  cases reading with
  | ok bytes =>
    obtain ⟨text, r, ls, runs⟩ := runnable bytes rfl
    exact runFile_of_runsTo runs level path name
  | error e =>
    rw [runFile, say_heading]
    exact ⟨String.append_empty, rfl⟩

/-- What is no regular file has no turn. -/
theorem inTurn_runEntry (level path : String) (entries : List (String × Option Reading)) :
    Transcript.inTurn (entries.map fun e => runEntry level path e.1 e.2) =
      Transcript.inTurn ((regularFiles entries).map fun f => runFile level path f.1 f.2) := by
  induction entries with
  | nil => rfl
  | cons e entries ih =>
    obtain ⟨name, _ | reading⟩ := e
    · exact (Transcript.nothing_andThen _).trans ih
    · exact congrArg (runFile level path name reading).andThen ih

/-- The regular files of a folder are visited in the order of their names. -/
theorem runFolder_eq (level path : String) (entries : List (String × Option Reading)) :
    ∃ visited : List (String × Reading), visited.Perm (regularFiles entries) ∧
      visited.Pairwise (fun f g => InOrder f.1.toList g.1.toList) ∧
      runFolder level path (some entries) =
        Transcript.inTurn (visited.map fun f => runFile level path f.1 f.2) := by
  let byName (d e : String × Option Reading) : Bool := decide (d.1 ≤ e.1)
  have trans : ∀ d e f, byName d e = true → byName e f = true → byName d f = true := by
    intro d e f de ef
    exact decide_eq_true (String.le_trans (of_decide_eq_true de) (of_decide_eq_true ef))
  have total : ∀ d e, (byName d e || byName e d) = true := by
    intro d e
    simpa [byName] using String.le_total d.1 e.1
  have sorted := List.pairwise_mergeSort trans total entries
  refine ⟨regularFiles (entries.mergeSort byName),
    (List.mergeSort_perm entries byName).filterMap _, ?_, inTurn_runEntry level path _⟩
  refine sorted.filterMap _ fun d e le f hf g hg => ?_
  obtain ⟨reading, _, rfl⟩ := Option.map_eq_some_iff.mp hf
  obtain ⟨reading', _, rfl⟩ := Option.map_eq_some_iff.mp hg
  exact inOrder_of_le (of_decide_eq_true le)

end Console

namespace Entry

theorem regular?_eq_ok_iff {e : Entry} {bytes : List UInt8} :
    e.regular? = some (.ok bytes) ↔ e = .file bytes := by
  cases e <;> simp [regular?]

theorem regular?_eq_error_iff {e : Entry} {f : FileError} :
    e.regular? = some (.error f) ↔ e = .broken ∧ f = .unreadable := by
  cases e <;> simp [regular?, eq_comm]

/-- What a folder in memory gives as its regular files. Other folders and devices are none. -/
theorem disk_folder {root : Entry} {path : String} {inner : List (String × Entry)}
    {entries : List (String × Option Reading)} (inside : root.find path = .ok (.folder inner))
    (found : root.disk.folder? path = some entries) :
    entries.map Prod.fst = inner.map Prod.fst ∧
      (∀ name bytes, (name, .ok bytes) ∈ regularFiles entries ↔ (name, .file bytes) ∈ inner) ∧
      ∀ name e, (name, .error e) ∈ regularFiles entries ↔
        (name, .broken) ∈ inner ∧ e = .unreadable := by
  simp only [disk, inside, Option.some.injEq] at found
  subst found
  refine ⟨by simp, ?_, ?_⟩
  · intro name bytes
    simp [mem_regularFiles, regular?_eq_ok_iff]
  · intro name e
    simp [mem_regularFiles, regular?_eq_error_iff]

end Entry

/-- A folder fails with one of the files that can be read. -/
theorem any_fileFailed_iff {files : List (String × Reading)}
    (runnable : ∀ name bytes, (name, .ok bytes) ∈ files → ∃ text r ls, RunsTo bytes text r ls) :
    (files.any fun f => fileFailed f.2) = true ↔ ∃ name bytes text r ls,
      (name, .ok bytes) ∈ files ∧ RunsTo bytes text r ls ∧ r.errors ≠ [] := by
  rw [List.any_eq_true]
  constructor
  · rintro ⟨⟨name, e | bytes⟩, file, failed⟩
    · cases failed
    · obtain ⟨text, r, ls, runs⟩ := runnable name bytes file
      exact ⟨name, bytes, text, r, ls, file, runs, runs.fileFailed_iff.mp failed⟩
  · rintro ⟨name, bytes, text, r, ls, file, runs, failed⟩
    exact ⟨(name, .ok bytes), file, runs.fileFailed_iff.mpr failed⟩

/-- The files of a folder are run in the order of their names, and each as if it were alone. What is
shown is one block for each of them, which depends on the name and on what is in the file, or on
that it cannot be read; what is no regular file is left out; and the folder fails if and only if the
run of one of its files does. -/
theorem folder_files_run_independently {disk : Disk} {path : String}
    {entries : List (String × Option Reading)} (found : disk.folder? path = some entries)
    (runnable : ∀ name bytes, (name, some (.ok bytes)) ∈ entries →
      ∃ text r ls, RunsTo bytes text r ls) (level : String) :
    let t := Console.runFolder level path (disk.folder? path)
    let files := regularFiles entries
    (∃ visited : List (String × Reading), visited.Perm files ∧
      visited.Pairwise (fun f g => InOrder f.1.toList g.1.toList) ∧
      t.out = String.join (visited.map fun f => fileBlock f.1 f.2)) ∧
    (∀ name e, fileBlock name (.error e) = fileHeading name) ∧
    (∀ name bytes text r ls, RunsTo bytes text r ls → ∀ level',
      (Console.runProgram level' (words text)).out = joinLines ls ++ "\n" ∧
      fileBlock name (.ok bytes) = fileHeading name ++
        (Console.runProgram level' (words text)).out ++ Console.rule.out) ∧
    (t.ending = .ok 0 ∨ t.ending = .ok 1) ∧
    (t.ending = .ok 1 ↔ ∃ name bytes text r ls, (name, .ok bytes) ∈ files ∧
      RunsTo bytes text r ls ∧ r.errors ≠ []) ∧
    (∀ name reading, (name, reading) ∈ files ↔ (name, some reading) ∈ entries) ∧
    (files.map Prod.fst).Sublist (entries.map Prod.fst) ∧
    ∀ root inner, disk = Entry.disk root → root.find path = .ok (.folder inner) →
      entries.map Prod.fst = inner.map Prod.fst ∧
      (∀ name bytes, (name, .ok bytes) ∈ files ↔ (name, .file bytes) ∈ inner) ∧
      ∀ name e, (name, .error e) ∈ files ↔ (name, .broken) ∈ inner ∧ e = .unreadable := by
  intro t files
  have runnable : ∀ name bytes, (name, .ok bytes) ∈ files → ∃ text r ls, RunsTo bytes text r ls :=
    fun name bytes file => runnable name bytes (mem_regularFiles.mp file)
  obtain ⟨visited, perm, sorted, turns⟩ := Console.runFolder_eq level path entries
  have alone : ∀ f ∈ visited, (Console.runFile level path f.1 f.2).out = fileBlock f.1 f.2 ∧
      (Console.runFile level path f.1 f.2).ending = .ok (fileFailed f.2).toNat := by
    intro f hf
    refine Console.runFile_of_runnable (fun bytes read => runnable f.1 bytes ?_) level path f.1
    rw [← read]
    exact perm.mem_iff.mp hf
  obtain ⟨out, ending⟩ := Transcript.inTurn_of_ended fun f hf => (alone f hf).2
  have ht : t = Transcript.inTurn (visited.map fun f => Console.runFile level path f.1 f.2) := by
    rw [← turns, ← found]
  rw [ht, out, ending, perm.any_eq]
  refine ⟨⟨visited, perm, sorted, ?_⟩, fun name e => rfl, ?_, ?_, ?_,
    fun name reading => mem_regularFiles, regular_names_sublist entries, ?_⟩
  · rw [List.map_congr_left fun f hf => (alone f hf).1]
  · intro name bytes text r ls runs level'
    have shown := (Console.runProgram_of_ok runs.ran runs.listed level').1
    refine ⟨shown, ?_⟩
    rw [shown, fileBlock, runs.fileRun?_eq]
  · cases files.any fun f => fileFailed f.2 <;> simp
  · rw [← any_fileFailed_iff runnable]
    cases files.any fun f => fileFailed f.2 <;> simp
  · rintro root inner rfl inside
    exact Entry.disk_folder inside found

/-- A folder with a file that cannot be read, one that fails, one that does not, and a folder. -/
theorem folder_with_broken_and_failing_file :
    let good := "# 2".toByteArray.data.toList
    let bad := "# y".toByteArray.data.toList
    let entries : List (String × Option Reading) :=
      [("z", some (.error .unreadable)), ("sub", none), ("b", some (.ok bad)),
        ("B", some (.ok good))]
    let files : List (String × Reading) :=
      [("z", .error .unreadable), ("b", .ok bad), ("B", .ok good)]
    let root := Entry.folder [("d", .folder
      [("z", .broken), ("sub", .folder []), ("b", .file bad), ("B", .file good)])]
    let t := Console.runFolder "WARNING" "d" (root.disk.folder? "d")
    root.disk.folder? "d" = some entries ∧
      (∃ visited : List (String × Reading), visited.Perm files ∧
        visited.Pairwise (fun f g => InOrder f.1.toList g.1.toList) ∧
        t.out = String.join (visited.map fun f => fileBlock f.1 f.2)) ∧
      t.ending = .ok 1 := by
  intro good bad entries files root t
  have found : root.disk.folder? "d" = some entries := by rfl
  have runs (bytes : List UInt8) (h : (fileRun? (.ok bytes)).isSome = true) :
      ∃ text r ls, RunsTo bytes text r ls := by
    obtain ⟨⟨r, ls⟩, run⟩ := Option.isSome_iff_exists.mp h
    obtain ⟨text, runs⟩ := fileRun?_eq_some_iff.mp run
    exact ⟨text, r, ls, runs⟩
  have runnable : ∀ name bytes, (name, some (.ok bytes)) ∈ entries →
      ∃ text r ls, RunsTo bytes text r ls := by
    intro name bytes file
    have known : name = "b" ∧ bytes = bad ∨ name = "B" ∧ bytes = good := by
      simpa [entries] using file
    rcases known with ⟨_, rfl⟩ | ⟨_, rfl⟩
    · exact runs bad (by decide +kernel)
    · exact runs good (by decide +kernel)
  obtain ⟨blocks, _, _, _, fails, _⟩ := folder_files_run_independently found runnable "WARNING"
  obtain ⟨text, r, ls, ran⟩ := runnable "b" bad (by simp [entries])
  have failed : fileFailed (.ok bad) = true := by decide +kernel
  exact ⟨found, blocks, fails.mpr ⟨"b", bad, text, r, ls, by simp [regularFiles, entries], ran,
    ran.fileFailed_iff.mp failed⟩⟩

end PolishCalc
