import PolishCalc.Run
import PolishCalc.Proofs.Names

namespace PolishCalc

theorem Expr.WellFormed.writable_eq {e : Expr} (h : e.WellFormed) : e.writable = true := by
  induction e with
  | constant n => exact h
  | «variable» x => rfl
  | unary op e ih => exact ih h
  | binary op l r ihl ihr => simp [writable, ihl h.1, ihr h.2]

theorem Program.WellFormed.writable_eq {p : Program} (h : p.WellFormed) : p.writable = true := by
  apply List.all_eq_true.mpr
  intro a ha
  have hw := h a ha
  cases a with
  | assign x e => exact hw.2.writable_eq
  | print e => exact Expr.WellFormed.writable_eq hw

theorem Program.WellFormed.display_eq {p : Program} (h : p.WellFormed) :
    p.display = .ok (p.map Action.text) := by
  simp [display, h.writable_eq]

theorem Program.WellFormed.compile_eq {p : Program} (h : p.WellFormed) :
    p.compile = .ok (p.code.map Instruction.text) := by
  simp [compile, h.writable_eq]

theorem Program.WellFormed.assembled_known {p : Program} (h : p.WellFormed) :
    (assemble (p.code.map Instruction.text)).warnings = [] ∧
      ∀ f, (assemble (p.code.map Instruction.text)).result = .error f → ∃ g, f = .fault g := by
  have any : p.Names fun _ => True := fun _ _ => ⟨fun _ _ => trivial, fun _ _ => trivial⟩
  exact assembleFrom_text_known (p.code_wellFormed h any) 1

/-- All the ways in which a run can end, with what each leaves behind. A fault in a phase ends the
run and is its only error; the digit limit leaves no run at all. -/
inductive Run.Ending (ts : List String) : Except DigitLimit Run → Prop
  | unparsed {f : Fault} {log : List LogEvent} (parsed : parse ts = .error (.fault f)) :
      Ending ts (.ok { start ts with errors := [f], log := log })
  | unparsedLimit {l : DigitLimit} (parsed : parse ts = .error (.limit l)) : Ending ts (.error l)
  | interrupted {p : Program} {s : Session} {f : Fault} {log : List LogEvent}
      (parsed : parse ts = .ok p)
      (interpreted : Session.empty.execute p = ⟨s, some (.fault f)⟩) :
      Ending ts (.ok { start ts with
        program := some p, display := p.map Action.text, output := s.output, symbols := s.symbols
        phases := [.parse], errors := [f], log := log })
  | interruptedLimit {p : Program} {s : Session} {l : DigitLimit} (parsed : parse ts = .ok p)
      (interpreted : Session.empty.execute p = ⟨s, some (.limit l)⟩) : Ending ts (.error l)
  | unassembled {p : Program} {s : Session} {f : Fault} {log : List LogEvent}
      (parsed : parse ts = .ok p) (interpreted : Session.empty.execute p = ⟨s, none⟩)
      (assembled : (assemble (p.code.map Instruction.text)).result = .error (.fault f)) :
      Ending ts (.ok { start ts with
        program := some p, display := p.map Action.text, output := s.output, symbols := s.symbols
        assembly := p.code.map Instruction.text
        phases := [.parse, .interpret, .compile], errors := [f], log := log })
  | halted {p : Program} {s : Session} {is : List Instruction} {m : Machine} {f : Fault}
      {log : List LogEvent} (parsed : parse ts = .ok p)
      (interpreted : Session.empty.execute p = ⟨s, none⟩)
      (assembled : (assemble (p.code.map Instruction.text)).result = .ok is)
      (executed : Machine.fresh.execute is = ⟨m, some (.fault f)⟩) :
      Ending ts (.ok { start ts with
        program := some p, display := p.map Action.text, output := s.output, symbols := s.symbols
        assembly := p.code.map Instruction.text
        machineOutput := m.output, machineSymbols := m.table
        phases := [.parse, .interpret, .compile], errors := [f], log := log })
  | haltedLimit {p : Program} {s : Session} {is : List Instruction} {m : Machine} {l : DigitLimit}
      (parsed : parse ts = .ok p) (interpreted : Session.empty.execute p = ⟨s, none⟩)
      (assembled : (assemble (p.code.map Instruction.text)).result = .ok is)
      (executed : Machine.fresh.execute is = ⟨m, some (.limit l)⟩) : Ending ts (.error l)
  | complete {p : Program} {s : Session} {is : List Instruction} {m : Machine}
      {log : List LogEvent} (parsed : parse ts = .ok p)
      (interpreted : Session.empty.execute p = ⟨s, none⟩)
      (assembled : (assemble (p.code.map Instruction.text)).result = .ok is)
      (executed : Machine.fresh.execute is = ⟨m, none⟩) :
      Ending ts (.ok { start ts with
        program := some p, display := p.map Action.text, output := s.output, symbols := s.symbols
        assembly := p.code.map Instruction.text
        machineOutput := m.output, stackDepth := some m.stack.length, machineSymbols := m.table
        phases := [.parse, .interpret, .compile, .execute], log := log })

theorem runTokens_ending (ts : List String) : Run.Ending ts (runTokens ts) := by
  unfold runTokens Run.trace
  cases parsed : parse ts with
  | error e =>
    cases e with
    | fault f => exact .unparsed parsed
    | limit l => exact .unparsedLimit parsed
  | ok p =>
    have wellFormed := parse_wellFormed parsed
    obtain ⟨warnings, faults⟩ := wellFormed.assembled_known
    simp only [Run.onProgram, wellFormed.display_eq, wellFormed.compile_eq]
    cases interpreted : Session.empty.execute p with
    | mk s failure =>
      cases failure with
      | some e =>
        cases e with
        | fault f => exact .interrupted parsed interpreted
        | limit l => exact .interruptedLimit parsed interpreted
      | none =>
        simp only [Run.onAssembly, warnings]
        cases assembled : (assemble (p.code.map Instruction.text)).result with
        | error e =>
          obtain ⟨f, rfl⟩ := faults e assembled
          exact .unassembled parsed interpreted assembled
        | ok is =>
          simp only [Run.onMachine]
          cases executed : Machine.fresh.execute is with
          | mk m failure =>
            cases failure with
            | some e =>
              cases e with
              | fault f => exact .halted parsed interpreted assembled executed
              | limit l => exact .haltedLimit parsed interpreted assembled executed
            | none => exact .complete parsed interpreted assembled executed

theorem runTokens_of_complete {ts : List String} {p : Program} {s : Session}
    {is : List Instruction} {m : Machine} (parsed : parse ts = .ok p)
    (interpreted : Session.empty.execute p = ⟨s, none⟩)
    (assembled : (assemble (p.code.map Instruction.text)).result = .ok is)
    (executed : Machine.fresh.execute is = ⟨m, none⟩) :
    ∃ log, runTokens ts = .ok { Run.start ts with
      program := some p, display := p.map Action.text, output := s.output, symbols := s.symbols
      assembly := p.code.map Instruction.text
      machineOutput := m.output, stackDepth := some m.stack.length, machineSymbols := m.table
      phases := [.parse, .interpret, .compile, .execute], log := log } := by
  have wellFormed := parse_wellFormed parsed
  simp only [runTokens, Run.trace, parsed, Run.onProgram, wellFormed.display_eq, interpreted,
    wellFormed.compile_eq, Run.onAssembly, wellFormed.assembled_known.1, assembled, Run.onMachine,
    executed]
  exact ⟨_, rfl⟩

end PolishCalc
