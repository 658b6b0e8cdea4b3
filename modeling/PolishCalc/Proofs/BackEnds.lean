import PolishCalc.Proofs.RunEndings
import PolishCalc.Proofs.StackCode

namespace PolishCalc

/-- The assembly text of a program whose names are words gives its code back, as a list of lines
and as one text. -/
theorem assemble_compiled {p : Program} (wellFormed : p.WellFormed) (names : p.Names IsWord) :
    assemble (p.code.map Instruction.text) = ⟨.ok p.code, []⟩ ∧
      assemble (AssemblySource.text (joinLines (p.code.map Instruction.text))).toLines =
        ⟨.ok p.code, []⟩ := by
  have readable := Program.code_wellFormed wellFormed names
  rw [toLines_joinLines_text readable]
  exact ⟨assembleFrom_text readable 1, assembleFrom_text readable 1⟩

theorem Machine.execute_eq (m : Machine) (is : List Instruction) :
    m.execute is = ⟨{ (Session.empty.machine.steps is).state with running := false },
      (Session.empty.machine.steps is).failure⟩ := rfl

theorem execute_code_of_done {s s' : Session} {p : Program} (h : s.run p = ⟨s', none⟩)
    (m : Machine) : m.execute p.code = ⟨⟨[], s'.symbols, s'.output, false⟩, none⟩ := by
  have hsteps : Session.empty.machine.steps p.code = ⟨s'.machine, none⟩ :=
    Session.steps_program_of_done h
  rw [Machine.execute_eq, hsteps]
  rfl

theorem execute_code_of_failed {s s' : Session} {p : Program} {f : Failure}
    (h : s.run p = ⟨s', some f⟩) (m : Machine) :
    ∃ rest g, m.execute p.code = ⟨⟨rest, s'.symbols, s'.output, false⟩, some g⟩ ∧
      g.NoUnderflow ∧ (p.divides = false → g = f) := by
  have hsteps : Session.empty.execute p = ⟨s', some f⟩ := h
  obtain ⟨rest, g, hr, hg⟩ := Session.steps_program_of_failed hsteps
  refine ⟨rest, g, ?_, hg⟩
  rw [Machine.execute_eq, hr]
  rfl

/-- Programs made of words that the interpreter completes. Their assembly text is read back without
a warning, as lines and as one text, and the machine then prints and stores what the interpreter
does and ends with an empty stack. -/
theorem completed_program_runs_on_machine {ts : List String} {p : Program} {s : Session}
    (source : (∃ text, ts = words text) ∨ ∀ t ∈ ts, IsWord t) (parsed : parse ts = .ok p)
    (completed : Session.empty.run p = ⟨s, none⟩) :
    ∃ ls, p.compile = .ok ls ∧
      assemble (AssemblySource.lines ls).toLines = ⟨.ok p.code, []⟩ ∧
      assemble (AssemblySource.text (joinLines ls)).toLines = ⟨.ok p.code, []⟩ ∧
      Machine.fresh.execute p.code = ⟨⟨[], s.symbols, s.output, false⟩, none⟩ ∧
      ∃ r, runTokens ts = .ok r ∧ (∀ text, ts = words text → runText text = .ok r) ∧
        r.phases = [.parse, .interpret, .compile, .execute] ∧ r.errors = [] ∧ r.warnings = [] ∧
        r.output = s.output ∧ r.machineOutput = s.output ∧
        r.symbols = s.symbols ∧ r.machineSymbols = s.symbols ∧ r.stackDepth = some 0 := by
  have tokens : ∀ t ∈ ts, IsWord t := by
    rcases source with ⟨text, rfl⟩ | tokens
    · exact fun t ht => isWord_of_mem_words ht
    · exact tokens
  have wellFormed := parse_wellFormed parsed
  have compiled := wellFormed.compile_eq
  obtain ⟨hlines, htext⟩ := assemble_compiled wellFormed (parse_names tokens parsed)
  have executed := execute_code_of_done completed Machine.fresh
  refine ⟨_, compiled, hlines, htext, executed, ?_⟩
  obtain ⟨log, run⟩ :=
    runTokens_of_complete parsed completed (congrArg Assembled.result hlines) executed
  refine ⟨_, run, ?_, rfl, rfl, rfl, rfl, rfl, rfl, rfl, rfl⟩
  rintro text rfl
  exact run

/-- A mnemonic and the sign that ends assembly text, both as names. -/
theorem mnemonic_target_runs_on_machine :
    let ts := [":=", "PUSH", "/", "-7", "2", ":=", ".", "_", "PUSH", "#", "PUSH"]
    let p : Program := [.assign "PUSH" (.binary .div (.constant (-7)) (.constant 2)),
      .assign "." (.unary .negate (.variable "PUSH")), .print (.variable "PUSH")]
    let s : Session := ⟨[("PUSH", -3), (".", 3)], ["=== -3"]⟩
    (∀ t ∈ ts, IsWord t) ∧ parse ts = .ok p ∧ Session.empty.run p = ⟨s, none⟩ ∧
      Machine.fresh.execute p.code = ⟨⟨[], s.symbols, s.output, false⟩, none⟩ ∧
      ∃ r, runTokens ts = .ok r ∧ r.errors = [] ∧ r.stackDepth = some 0 := by
  intro ts p s
  have tokens : ∀ t ∈ ts, IsWord t := by decide
  have parsed : parse p.tokens = .ok p := parse_tokens (by decide +kernel)
  rw [show p.tokens = ts by decide] at parsed
  have state : (Session.empty.run p).state = s := by decide +kernel
  have failure : (Session.empty.run p).failure = none := by decide +kernel
  have completed : Session.empty.run p = ⟨s, none⟩ := by
    rw [← state, ← failure]
  obtain ⟨_, _, _, _, executed, r, run, _, _, errors, _, _, _, _, _, depth⟩ :=
    completed_program_runs_on_machine (.inr tokens) parsed completed
  exact ⟨tokens, parsed, completed, executed, r, run, errors, depth⟩

/-- Programs made of words on which the interpreter or the machine fails. If one does, so does the
other, with the same lines printed and the same table; the machine never runs out of operands; and
only a division can make the two fail for different reasons. -/
theorem back_ends_fail_together {ts : List String} {p : Program} (tokens : ∀ t ∈ ts, IsWord t)
    (parsed : parse ts = .ok p) :
    ∃ ls, p.compile = .ok ls ∧ assemble ls = ⟨.ok p.code, []⟩ ∧
      ((Session.empty.run p).failure ≠ none ↔ (Machine.fresh.execute p.code).failure ≠ none) ∧
      ((Session.empty.run p).failure ≠ none →
        (Session.empty.run p).state.output = (Machine.fresh.execute p.code).state.output ∧
        (Session.empty.run p).state.symbols = (Machine.fresh.execute p.code).state.table) ∧
      (∀ f, (Machine.fresh.execute p.code).failure = some (.fault f) →
        f.complaint.kind ≠ .stackUnderflow) ∧
      (p.divides = false →
        (Session.empty.run p).failure = (Machine.fresh.execute p.code).failure) := by
  have wellFormed := parse_wellFormed parsed
  have assembled := (assemble_compiled wellFormed (parse_names tokens parsed)).1
  refine ⟨_, wellFormed.compile_eq, assembled, ?_⟩
  cases run : Session.empty.run p with
  | mk s failure =>
    cases failure with
    | none =>
      rw [execute_code_of_done run Machine.fresh]
      simp
    | some f =>
      obtain ⟨rest, g, executed, underflow, same⟩ := execute_code_of_failed run Machine.fresh
      rw [executed]
      refine ⟨by simp, fun _ => ⟨rfl, rfl⟩, ?_, ?_⟩
      · intro h hg
        exact underflow h (Option.some.inj hg)
      · intro hd
        rw [same hd]

/-- The interpreter complains of the divisor, the machine of the dividend. -/
theorem undefined_dividend_fails_on_both :
    let ts := ["#", "4", "#", "/", "x", "0"]
    let p : Program := [.print (.constant 4), .print (.binary .div (.variable "x") (.constant 0))]
    (∀ t ∈ ts, IsWord t) ∧ parse ts = .ok p ∧
      (Session.empty.run p).failure = some (.fault (.zeroDivisor "( x / 0 )")) ∧
      (Machine.fresh.execute p.code).failure = some (.fault (.uninitialized "x")) ∧
      (Machine.fresh.execute p.code).state.output = (Session.empty.run p).state.output := by
  intro ts p
  have tokens : ∀ t ∈ ts, IsWord t := by decide
  have parsed : parse p.tokens = .ok p := parse_tokens (by decide +kernel)
  rw [show p.tokens = ts by decide] at parsed
  have failure : (Session.empty.run p).failure = some (.fault (.zeroDivisor "( x / 0 )")) := by
    decide +kernel
  obtain ⟨_, _, _, _, same, _, _⟩ := back_ends_fail_together tokens parsed
  exact ⟨tokens, parsed, failure, by decide +kernel, (same (by simp [failure])).1.symm⟩

end PolishCalc
