import PolishCalc.Proofs.BackEnds
import PolishCalc.Proofs.Reads
import PolishCalc.Proofs.Unchecked

namespace PolishCalc

/-- How far a run came, what it holds from there on, and why it came no further. -/
structure Run.Shape (ts : List String) (r : Run) : Prop where
  tokens : r.tokens = ts
  phases : r.phases = [] ∨ r.phases = [.parse] ∨ r.phases = [.parse, .interpret, .compile] ∨
    r.phases = [.parse, .interpret, .compile, .execute]
  errors_eq_nil : r.errors = [] ↔ r.phases = [.parse, .interpret, .compile, .execute]
  depth_known : r.errors = [] ↔ r.stackDepth ≠ none
  one_error : r.errors ≠ [] → ∃ f, r.errors = [f]
  warnings : r.warnings = []
  unparsed : .parse ∉ r.phases →
    r.program = none ∧ r.display = [] ∧ r.output = [] ∧ r.symbols = []
  parsed : .parse ∈ r.phases →
    ∃ p, parse ts = .ok p ∧ r.program = some p ∧ r.display = p.map Action.text
  uncompiled : .compile ∉ r.phases →
    r.assembly = [] ∧ r.machineOutput = [] ∧ r.machineSymbols = []
  unassembled : ∀ f, (assemble r.assembly).result = .error f →
    r.machineOutput = [] ∧ r.machineSymbols = []
  unexecuted : r.phases = [.parse, .interpret, .compile] →
    ∃ p x e, parse ts = .ok p ∧ .assign x e ∈ p ∧ [":=", x] <:+: ts ∧
      (x = "" ∨ ∃ c ∈ x.toList, isBlank c = true)

/-- The digit limit met in a numeral, by the interpreter, or by the machine on code that the
interpreter has completed. -/
def Run.Limited (ts : List String) (l : DigitLimit) : Prop :=
  parse ts = .error (.limit l) ∨
    ∃ p, parse ts = .ok p ∧
      ((Session.empty.execute p).failure = some (.limit l) ∨
        (Session.empty.execute p).failure = none ∧
        ∃ is, (assemble (p.code.map Instruction.text)).result = .ok is ∧
          (Machine.fresh.execute is).failure = some (.limit l))

/-- No phase meets a node, an operator or an instruction that it has no rule for: the unchecked
tree of the program and the unchecked orders of its code do what the program and its code do. -/
structure Program.Handled (p : Program) : Prop where
  displayed : p.tree.display = .ok (.block (p.map fun a => .line a.text))
  executed : ∀ s, Tree.execute s p.tree =
    ((s.execute p).state, (s.execute p).failure.map TreeFailure.failure)
  compiled : p.tree.compile = .ok (p.code.map Instruction.text)
  obeyed : ∀ is, (assemble (p.code.map Instruction.text)).result = .ok is →
    Bench.fresh.execute (is.map Instruction.order) =
      ((Machine.fresh.execute is).state.bench,
        (Machine.fresh.execute is).failure.map OrderFailure.failure)

theorem Program.WellFormed.handled {p : Program} (h : p.WellFormed) : p.Handled :=
  ⟨p.display_tree h.writable_eq, p.execute_tree, p.compile_tree h.writable_eq,
    fun is _ => Machine.fresh.bench_execute is⟩

/-- Code of a completed program that the assembler does not give back has a target to blame. -/
theorem exists_target_not_isWord {ts : List String} {p : Program} {s : Session}
    (parsed : parse ts = .ok p) (interpreted : Session.empty.execute p = ⟨s, none⟩)
    (changed : (assemble (p.code.map Instruction.text)).result ≠ .ok p.code) :
    ∃ p x e, parse ts = .ok p ∧ .assign x e ∈ p ∧ [":=", x] <:+: ts ∧
      (x = "" ∨ ∃ c ∈ x.toList, isBlank c = true) := by
  by_cases targets : ∀ x ∈ p.targets, IsWord x
  · have names := names_of_completed interpreted targets
    have same := (assemble_compiled (parse_wellFormed parsed) names).1
    exact absurd (congrArg Assembled.result same) changed
  · simp only [Classical.not_forall] at targets
    obtain ⟨x, hx, hw⟩ := targets
    obtain ⟨a, ha, ht⟩ := List.mem_filterMap.mp hx
    obtain ⟨e, rfl⟩ := Action.target?_eq_some ht
    have place := ((parse_eq_ok_iff.mp parsed).names_mem ha).2 x ht
    exact ⟨p, x, e, parsed, ha, place, not_isWord_iff.mp hw⟩

theorem Run.Ending.shape {ts : List String} {r : Run} (h : Run.Ending ts (.ok r)) : r.Shape ts := by
  cases h with
  | unparsed =>
    exact {
      tokens := rfl, phases := .inl rfl, warnings := rfl
      errors_eq_nil := by simp [start], depth_known := by simp [start]
      one_error := fun _ => ⟨_, rfl⟩
      unparsed := fun _ => ⟨rfl, rfl, rfl, rfl⟩, parsed := by simp [start]
      uncompiled := fun _ => ⟨rfl, rfl, rfl⟩, unassembled := fun _ _ => ⟨rfl, rfl⟩
      unexecuted := by simp [start] }
  | @interrupted p s f log parsed interpreted =>
    exact {
      tokens := rfl, phases := .inr (.inl rfl), warnings := rfl
      errors_eq_nil := by simp, depth_known := by simp [start]
      one_error := fun _ => ⟨_, rfl⟩
      unparsed := by simp, parsed := fun _ => ⟨p, parsed, rfl, rfl⟩
      uncompiled := fun _ => ⟨rfl, rfl, rfl⟩, unassembled := fun _ _ => ⟨rfl, rfl⟩
      unexecuted := by simp }
  | @unassembled p s f log parsed interpreted assembled =>
    have changed : (assemble (p.code.map Instruction.text)).result ≠ .ok p.code := by
      simp [assembled]
    exact {
      tokens := rfl, phases := .inr (.inr (.inl rfl)), warnings := rfl
      errors_eq_nil := by simp, depth_known := by simp [start]
      one_error := fun _ => ⟨_, rfl⟩
      unparsed := by simp, parsed := fun _ => ⟨p, parsed, rfl, rfl⟩
      uncompiled := by simp, unassembled := fun _ _ => ⟨rfl, rfl⟩
      unexecuted := fun _ => exists_target_not_isWord parsed interpreted changed }
  | @halted p s is m f log parsed interpreted assembled executed =>
    -- Unchanged code would do what the interpreter has done, and so not stop.
    have changed : (assemble (p.code.map Instruction.text)).result ≠ .ok p.code := by
      intro same
      rw [Except.ok.inj (assembled.symm.trans same)] at executed
      have done := execute_code_of_done (s := Session.empty) interpreted Machine.fresh
      simp [executed] at done
    exact {
      tokens := rfl, phases := .inr (.inr (.inl rfl)), warnings := rfl
      errors_eq_nil := by simp, depth_known := by simp [start]
      one_error := fun _ => ⟨_, rfl⟩
      unparsed := by simp, parsed := fun _ => ⟨p, parsed, rfl, rfl⟩
      uncompiled := by simp, unassembled := by simp [assembled]
      unexecuted := fun _ => exists_target_not_isWord parsed interpreted changed }
  | @complete p s is m log parsed interpreted assembled executed =>
    exact {
      tokens := rfl, phases := .inr (.inr (.inr rfl)), warnings := rfl
      errors_eq_nil := by simp [start], depth_known := by simp [start]
      one_error := by simp [start]
      unparsed := by simp, parsed := fun _ => ⟨p, parsed, rfl, rfl⟩
      uncompiled := by simp, unassembled := by simp [assembled]
      unexecuted := by simp }

theorem Run.Ending.limited {ts : List String} {l : DigitLimit} (h : Run.Ending ts (.error l)) :
    Run.Limited ts l := by
  cases h with
  | unparsedLimit parsed => exact .inl parsed
  | @interruptedLimit p s l parsed interpreted =>
    exact .inr ⟨p, parsed, .inl (by rw [interpreted])⟩
  | @haltedLimit p s is m l parsed interpreted assembled executed =>
    exact .inr ⟨p, parsed, .inr ⟨by rw [interpreted], is, assembled, by rw [executed]⟩⟩

/-- Every list of tokens gives a run of the right shape unless a numeral or a value has too many
digits, and no phase is ever asked for what it cannot handle. -/
theorem runTokens_shape_or_limited (ts : List String) :
    ((∃ r, runTokens ts = .ok r ∧ r.Shape ts) ∨ ∃ l, runTokens ts = .error l ∧ Run.Limited ts l) ∧
      ∀ p, parse ts = .ok p → p.Handled := by
  refine ⟨?_, fun p parsed => (parse_wellFormed parsed).handled⟩
  have ending := runTokens_ending ts
  cases outcome : runTokens ts with
  | ok r =>
    rw [outcome] at ending
    exact .inl ⟨r, rfl, ending.shape⟩
  | error l =>
    rw [outcome] at ending
    exact .inr ⟨l, rfl, ending.limited⟩

/-- An empty name is assigned to by the interpreter but is no operand. -/
theorem empty_target_run_not_executed :
    let ts := ["#", "2", ":=", "", "5"]
    let p : Program := [.print (.constant 2), .assign "" (.constant 5)]
    parse ts = .ok p ∧ p.Handled ∧
      ∃ r, runTokens ts = .ok r ∧ r.Shape ts ∧ r.phases = [.parse, .interpret, .compile] ∧
        r.errors = [.missingOperand "STORE"] := by
  intro ts p
  have parsed : parse p.tokens = .ok p := parse_tokens (by decide +kernel)
  rw [show p.tokens = ts by decide] at parsed
  have held : (runTokens ts).toOption.map (fun r => (r.phases, r.errors)) =
      some ([.parse, .interpret, .compile], [.missingOperand "STORE"]) := by
    simp only [runTokens, Run.trace, parsed]
    decide +kernel
  obtain ⟨outcome, handled⟩ := runTokens_shape_or_limited ts
  rcases outcome with ⟨r, run, shape⟩ | ⟨l, run, _⟩
  · simp only [run, Except.toOption, Option.map_some, Option.some.injEq, Prod.mk.injEq] at held
    exact ⟨parsed, handled p parsed, r, run, shape, held⟩
  · simp [run, Except.toOption] at held

end PolishCalc
