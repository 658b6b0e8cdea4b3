import PolishCalc.Proofs.BackEnds
import PolishCalc.Proofs.Disassembly

namespace PolishCalc

/-- The record of a run through all phases. -/
def Run.completed (ts : List String) (p : Program) (s : Session) (log : List LogEvent) : Run :=
  { start ts with
    program := some p, display := p.map Action.text, output := s.output, symbols := s.symbols
    assembly := p.code.map Instruction.text
    machineOutput := s.output, stackDepth := some 0, machineSymbols := s.symbols
    phases := [.parse, .interpret, .compile, .execute], log := log }

/-- The record of a run that a fault ended while the program was interpreted. -/
def Run.interrupted (ts : List String) (p : Program) (s : Session) (f : Fault)
    (log : List LogEvent) : Run :=
  { start ts with
    program := some p, display := p.map Action.text, output := s.output, symbols := s.symbols
    phases := [.parse], errors := [f], log := log }

/-- How a run of tokens that are words can end: only the parser and the interpreter stop it. -/
inductive Run.WordEnding (ts : List String) : Except DigitLimit Run → Prop
  | unparsed {f : Fault} {log : List LogEvent} (parsed : parse ts = .error (.fault f)) :
      WordEnding ts (.ok { start ts with errors := [f], log := log })
  | unparsedLimit {l : DigitLimit} (parsed : parse ts = .error (.limit l)) :
      WordEnding ts (.error l)
  | interrupted {p : Program} {s : Session} {f : Fault} {log : List LogEvent}
      (parsed : parse ts = .ok p)
      (interpreted : Session.empty.execute p = ⟨s, some (.fault f)⟩) :
      WordEnding ts (.ok (Run.interrupted ts p s f log))
  | interruptedLimit {p : Program} {s : Session} {l : DigitLimit} (parsed : parse ts = .ok p)
      (interpreted : Session.empty.execute p = ⟨s, some (.limit l)⟩) : WordEnding ts (.error l)
  | complete {p : Program} {s : Session} {log : List LogEvent} (parsed : parse ts = .ok p)
      (interpreted : Session.empty.execute p = ⟨s, none⟩) :
      WordEnding ts (.ok (Run.completed ts p s log))

theorem execute_assembled_of_done {ts : List String} {p : Program} {s : Session}
    {is : List Instruction} (tokens : ∀ t ∈ ts, IsWord t) (parsed : parse ts = .ok p)
    (interpreted : Session.empty.execute p = ⟨s, none⟩)
    (assembled : (assemble (p.code.map Instruction.text)).result = .ok is) :
    Machine.fresh.execute is = ⟨⟨[], s.symbols, s.output, false⟩, none⟩ := by
  have names := parse_names tokens parsed
  have same := (assemble_compiled (parse_wellFormed parsed) names).1
  rw [same] at assembled
  cases assembled
  exact execute_code_of_done (s := .empty) interpreted Machine.fresh

theorem runTokens_wordEnding {ts : List String} (tokens : ∀ t ∈ ts, IsWord t) :
    Run.WordEnding ts (runTokens ts) := by
  have ending := runTokens_ending ts
  generalize runTokens ts = outcome at ending ⊢
  cases ending with
  | unparsed parsed => exact .unparsed parsed
  | unparsedLimit parsed => exact .unparsedLimit parsed
  | interrupted parsed interpreted => exact .interrupted parsed interpreted
  | interruptedLimit parsed interpreted => exact .interruptedLimit parsed interpreted
  -- The text of names that are words is read back, and what is read does what the program did.
  | unassembled parsed interpreted assembled =>
    have names := parse_names tokens parsed
    rw [(assemble_compiled (parse_wellFormed parsed) names).1] at assembled
    cases assembled
  | halted parsed interpreted assembled executed =>
    rw [execute_assembled_of_done tokens parsed interpreted assembled] at executed
    cases executed
  | haltedLimit parsed interpreted assembled executed =>
    rw [execute_assembled_of_done tokens parsed interpreted assembled] at executed
    cases executed
  | complete parsed interpreted assembled executed =>
    rw [execute_assembled_of_done tokens parsed interpreted assembled] at executed
    cases executed
    exact .complete parsed interpreted

theorem Expr.json_writable (e : Expr) : e.tree.json.writable = e.writable := by
  induction e with
  | constant n => simp [tree, Tree.json, Json.writable, Json.membersWritable, writable]
  | «variable» x => simp [tree, Tree.json, Json.writable, Json.membersWritable, writable]
  | unary op e ih => simp [tree, Tree.json, Json.writable, Json.membersWritable, writable, ih]
  | binary op l r ihl ihr =>
    simp [tree, Tree.json, Json.writable, Json.membersWritable, writable, ihl, ihr]

theorem Action.json_writable (a : Action) : a.tree.json.writable = a.expr.writable := by
  cases a <;> simp [tree, Tree.json, Json.writable, Json.membersWritable, Expr.json_writable, expr]

theorem Program.json_writable (p : Program) : p.tree.json.writable = p.writable := by
  have actions : Json.allWritable (Tree.jsonAll (p.map Action.tree)) = p.writable := by
    rw [writable]
    induction p with
    | nil => rfl
    | cons a p ih => simp [Tree.jsonAll, Json.allWritable, Action.json_writable, ih]
  simp [tree, Tree.json, Json.writable, Json.membersWritable, actions]

namespace Service

/-- What can keep the record of a run from being written. -/
theorem runJson_writable (r : Run) (errors : List String) :
    (runJson r errors).writable = ((programJson r.program).writable && (r.symbols.writable &&
      ((depthJson r.stackDepth).writable && r.machineSymbols.writable))) := by
  simp [runJson, Json.writable, Json.membersWritable, texts_writable, tableJson_writable]

theorem programJson_writable {ts : List String} {p : Program} (parsed : parse ts = .ok p) :
    (programJson (some p)).writable = true := by
  simp only [programJson]
  split
  · rfl
  · rw [p.json_writable]
    exact (parse_wellFormed parsed).writable_eq

theorem depthJson_zero_writable : (depthJson (some 0)).writable = true := by
  decide +kernel

/-- If no phase of a run meets the digit limit, only its symbol table can still do so in the
answer. -/
theorem runProgram_of_ok {ts : List String} {r : Run} (tokens : ∀ t ∈ ts, IsWord t)
    (run : runTokens ts = .ok r) :
    runProgram ts = if r.symbols.writable then answer 200 (runJson r (r.errors.map Fault.report))
      else brokenRun ts .writing := by
  have ending := runTokens_wordEnding tokens
  rw [run] at ending
  have writable : (runJson r (r.errors.map Fault.report)).writable = r.symbols.writable := by
    rw [runJson_writable]
    cases ending with
    | unparsed => rfl
    | interrupted parsed _ =>
      simp [Run.interrupted, Run.start, programJson_writable parsed, depthJson, Json.writable,
        Table.writable]
    | complete parsed _ =>
      simp [Run.completed, programJson_writable parsed, depthJson_zero_writable]
  simp only [runProgram, run, writable]

theorem runProgram_of_error {ts : List String} {l : DigitLimit} (run : runTokens ts = .error l) :
    runProgram ts = brokenRun ts l := by
  simp only [runProgram, run]

theorem texts_injective {ss us : List String} (h : some (Json.texts ss) = some (.texts us)) :
    ss = us := by
  simp only [Json.texts, Option.some.injEq, Json.list.injEq] at h
  exact (List.map_inj_right (fun s u => Json.text.inj)).mp h

/-- An answer without errors to tokens that are words comes from a run through all phases. -/
theorem runProgram_clean {ts : List String} {answer : Json} (tokens : ∀ t ∈ ts, IsWord t)
    (answered : runProgram ts = ⟨200, some answer⟩)
    (clean : answer.member? "errors" = some (.texts [])) :
    ∃ p s log, parse ts = .ok p ∧ Session.empty.execute p = ⟨s, none⟩ ∧
      s.symbols.writable = true ∧ answer = runJson (Run.completed ts p s log) [] := by
  cases run : runTokens ts with
  | error l =>
    rw [runProgram_of_error run] at answered
    cases answered
  | ok r =>
    have ending := runTokens_wordEnding tokens
    rw [run] at ending
    rw [runProgram_of_ok tokens run] at answered
    split at answered
    next writable =>
      cases answered
      have errors : r.errors.map Fault.report = [] := texts_injective clean
      cases ending with
      | unparsed => simp at errors
      | interrupted => simp [Run.interrupted] at errors
      | @complete p s log parsed interpreted =>
        exact ⟨p, s, log, parsed, interpreted, writable, rfl⟩
    next => cases answered

theorem runProgram_of_done {ts : List String} {p : Program} {s : Session}
    (tokens : ∀ t ∈ ts, IsWord t) (parsed : parse ts = .ok p)
    (interpreted : Session.empty.execute p = ⟨s, none⟩) (writable : s.symbols.writable = true) :
    ∃ log, runProgram ts = ⟨200, some (runJson (Run.completed ts p s log) [])⟩ := by
  have assembled := (assemble_compiled (parse_wellFormed parsed) (parse_names tokens parsed)).1
  have executed := execute_code_of_done (s := .empty) interpreted Machine.fresh
  obtain ⟨log, run⟩ :=
    runTokens_of_complete parsed interpreted (congrArg Assembled.result assembled) executed
  refine ⟨log, ?_⟩
  rw [runProgram_of_ok tokens run]
  simp only [writable, if_true]
  rfl

theorem executeSource_code_of_done {p : Program} {s : Session} {source : AssemblySource}
    (interpreted : Session.empty.execute p = ⟨s, none⟩)
    (assembled : assemble source.toLines = ⟨.ok p.code, []⟩) :
    executeSource source =
      ⟨p.code.map Instruction.text, [], s.output, some 0, s.symbols, none⟩ := by
  have executed := execute_code_of_done (s := .empty) interpreted Machine.fresh
  simp [executeSource, assembled, executed]

end Service

/-- The assembly text of a program made of words is the text of the instructions that are read from
it, and of the orders to carry these out; and a client that sends the assembly text of a run without errors to be executed is told the
same instructions, output and table again. -/
theorem run_assembly_executes_alike :
    (∀ ts p, (∀ t ∈ ts, IsWord t) → parse ts = .ok p →
      ∃ ls is, p.compile = .ok ls ∧ assemble ls = ⟨.ok is, []⟩ ∧ is.map Instruction.text = ls ∧
        (is.map fun i => i.order.text) = ls) ∧
    ∀ text r data answer, r.Posts "/run" data → data.member? "tokens" = none →
      data.member? "code" = some (.text text) → Service.respond r = .ok ⟨200, some answer⟩ →
      answer.member? "errors" = some (.texts []) →
      ∃ ls, answer.member? "assembly" = some (.texts ls) ∧
        ∀ r' data', r'.Posts "/execute" data' →
          (data'.member? "assembly" = answer.member? "assembly" ∨
            data'.member? "assembly" = some (.text (joinLines ls))) →
          ∃ answer', Service.respond r' = .ok ⟨200, some answer'⟩ ∧
            answer'.member? "instructions" = answer.member? "assembly" ∧
            answer'.member? "warnings" = some (.texts []) ∧
            answer'.member? "output" = answer.member? "machine_output" ∧
            answer'.member? "output" = answer.member? "output" ∧
            answer'.member? "symbol_table" = answer.member? "machine_symbol_table" ∧
            answer'.member? "symbol_table" = answer.member? "symbol_table" ∧
            answer'.member? "stack_depth" = some (.integer 0) ∧
            answer'.member? "errors" = some (.texts []) := by
  constructor
  · intro ts p tokens parsed
    have wellFormed := parse_wellFormed parsed
    have assembled := (assemble_compiled wellFormed (parse_names tokens parsed)).1
    refine ⟨_, _, wellFormed.compile_eq, assembled, rfl, ?_⟩
    simp only [Instruction.text_order]
  · intro text r data answer posts tokenless carried responded clean
    rw [Service.respond_run_code posts tokenless carried, Except.ok.injEq] at responded
    have tokens : ∀ t ∈ words text, IsWord t := fun t ht => isWord_of_mem_words ht
    obtain ⟨p, s, log, parsed, interpreted, writable, rfl⟩ :=
      Service.runProgram_clean tokens responded clean
    refine ⟨p.code.map Instruction.text, rfl, ?_⟩
    intro r' data' posts' sent
    let source := AssemblySource.lines (p.code.map Instruction.text)
    have assembled : assemble source.toLines = ⟨.ok p.code, []⟩ :=
      (assemble_compiled (parse_wellFormed parsed) (parse_names tokens parsed)).1
    have execution := Service.executeSource_code_of_done interpreted assembled
    have writable' : (Service.executeSource source).json.writable = true := by
      rw [Service.Execution.json_writable, execution]
      simp [Service.depthJson_zero_writable, writable]
    have result : (assemble source.toLines).result = .ok p.code := by rw [assembled]
    have responded' := Service.respond_written result writable' posts' sent
    rw [execution] at responded'
    exact ⟨_, responded', rfl, rfl, rfl, rfl, rfl, rfl, rfl, rfl⟩

/-- A mnemonic as a name, and the assembly text sent back as one text. -/
theorem mnemonic_name_executes_alike :
    let p : Program :=
      [.assign "PUSH" (.unary .negate (.constant 3)), .print (.variable "PUSH")]
    let r := Request.posting "/run" "\x7b\"code\":\":= PUSH _ 3 # PUSH\"\x7d"
    let r' := Request.posting "/execute"
      "\x7b\"assembly\":\"PUSH 3\\nNEG\\nSTORE PUSH\\nLOAD PUSH\\nPRINT\"\x7d"
    let ls := ["PUSH 3", "NEG", "STORE PUSH", "LOAD PUSH", "PRINT"]
    parse [":=", "PUSH", "_", "3", "#", "PUSH"] = .ok p ∧
      (∃ ls is, p.compile = .ok ls ∧ assemble ls = ⟨.ok is, []⟩ ∧ is.map Instruction.text = ls ∧
        (is.map fun i => i.order.text) = ls) ∧
      ∃ answer answer', Service.respond r = .ok ⟨200, some answer⟩ ∧
        answer.member? "errors" = some (.texts []) ∧
        answer.member? "assembly" = some (.texts ls) ∧
        Service.respond r' = .ok ⟨200, some answer'⟩ ∧
        answer'.member? "instructions" = some (.texts ls) ∧
        answer'.member? "output" = some (.texts ["=== -3"]) ∧
        answer'.member? "stack_depth" = some (.integer 0) := by
  intro p r r' ls
  have hwords : words ":= PUSH _ 3 # PUSH" = p.tokens := by decide +kernel
  have tokens : ∀ t ∈ words ":= PUSH _ 3 # PUSH", IsWord t := fun t ht => isWord_of_mem_words ht
  have parsed : parse p.tokens = .ok p := parse_tokens (by decide +kernel)
  have state : (Session.empty.execute p).state = ⟨[("PUSH", -3)], ["=== -3"]⟩ := by
    decide +kernel
  have failure : (Session.empty.execute p).failure = none := by decide +kernel
  have interpreted : Session.empty.execute p = ⟨⟨[("PUSH", -3)], ["=== -3"]⟩, none⟩ := by
    rw [← state, ← failure]
  rw [hwords] at tokens
  obtain ⟨log, answered⟩ :=
    Service.runProgram_of_done tokens parsed interpreted (by decide +kernel)
  have posts : r.Posts "/run" (.object [("code", .text ":= PUSH _ 3 # PUSH")]) :=
    Request.posts_posting (by decide +kernel)
  have posts' : r'.Posts "/execute" (.object [("assembly", .text (joinLines ls))]) :=
    Request.posts_posting (by decide +kernel)
  have responded := Service.respond_run_code posts rfl rfl
  rw [hwords, answered] at responded
  obtain ⟨readBack, alike⟩ := run_assembly_executes_alike
  obtain ⟨ls', listed, executes⟩ := alike _ r _ _ posts rfl rfl responded rfl
  have same : ls = ls' := Service.texts_injective listed
  obtain ⟨answer', responded', instructions, _, _, output, _, _, depth, _⟩ :=
    executes r' _ posts' (.inr (by rw [← same]; rfl))
  exact ⟨parsed, readBack _ p tokens parsed, _, answer', responded, rfl, rfl, responded',
    instructions, output, depth⟩

end PolishCalc
