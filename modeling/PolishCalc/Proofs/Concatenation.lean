import PolishCalc.Generator
import PolishCalc.Proofs.LeadingWords
import PolishCalc.Proofs.Unchecked

namespace PolishCalc

theorem Program.code_append (p q : Program) :
    Program.code (p ++ q) = Program.code p ++ Program.code q :=
  List.flatMap_append

theorem Program.targets_append (p q : Program) :
    Program.targets (p ++ q) = Program.targets p ++ Program.targets q :=
  List.filterMap_append

theorem Program.WellFormed.append {p q : Program} (hp : p.WellFormed) (hq : q.WellFormed) :
    Program.WellFormed (p ++ q) := by
  intro a ha
  rcases List.mem_append.mp ha with ha | ha
  · exact hp a ha
  · exact hq a ha

namespace Generator

theorem emit_eq {i : Instruction} (h : i.operandWritable = true) (g : Generator) :
    g.emit i = ⟨⟨g.lines ++ [i.text]⟩, none⟩ := by
  simp [emit, h]

/-- What is written for an expression does not depend on what stands before it. -/
theorem expression_eq {e : Expr} (h : e.writable = true) (g : Generator) :
    g.expression e = ⟨⟨g.lines ++ e.code.map Instruction.text⟩, none⟩ := by
  induction e generalizing g with
  | constant n =>
    have hn : PolishCalc.writable n = true := h
    exact emit_eq (i := .push n) (by simp only [Instruction.operandWritable, hn]) g
  | «variable» x => exact emit_eq (i := .load x) rfl g
  | unary op e ih =>
    rw [expression, ih h, Outcome.andThen, emit_eq rfl]
    simp [Expr.code]
  | binary op l r ihl ihr =>
    simp only [Expr.writable, Bool.and_eq_true] at h
    rw [expression, ihl h.1, Outcome.andThen, ihr h.2, Outcome.andThen, emit_eq rfl]
    simp [Expr.code]

theorem action_eq {a : Action} (h : a.expr.writable = true) (g : Generator) :
    g.action a = ⟨⟨g.lines ++ a.code.map Instruction.text⟩, none⟩ := by
  cases a with
  | assign x e =>
    rw [action, expression_eq (e := e) h, Outcome.andThen, emit_eq rfl]
    simp [Action.code]
  | print e =>
    rw [action, expression_eq (e := e) h, Outcome.andThen, emit_eq rfl]
    simp [Action.code]

theorem program_eq {p : Program} (h : p.writable = true) (g : Generator) :
    g.program p = ⟨⟨g.lines ++ p.code.map Instruction.text⟩, none⟩ := by
  induction p generalizing g with
  | nil => simp [program, Program.code]
  | cons a p ih =>
    obtain ⟨ha, hp⟩ := Program.writable_cons.mp h
    rw [program, action_eq ha, Outcome.andThen, ih hp]
    simp [Program.code]

end Generator

namespace Machine

theorem step_running_unnamed {i : Instruction} (unnamed : i.name? = none) (m : Machine) (b : Bool) :
    ({ m with running := b } : Machine).step i =
      ⟨{ (m.step i).state with running := b }, (m.step i).failure⟩ := by
  simp only [(step_keeps unnamed m).1]
  exact step_frame unnamed m m.table b

/-- No instruction looks at whether the machine is running. -/
theorem step_running (m : Machine) (b : Bool) (i : Instruction) :
    ({ m with running := b } : Machine).step i =
      ⟨{ (m.step i).state with running := b }, (m.step i).failure⟩ := by
  cases i with
  | load x =>
    simp only [step]
    cases m.table.read x <;> rfl
  | store x =>
    obtain ⟨_ | ⟨a, rest⟩, table, output, running⟩ := m <;> rfl
  | _ => exact step_running_unnamed rfl m b

theorem steps_running (m : Machine) (b : Bool) (is : List Instruction) :
    ({ m with running := b } : Machine).steps is =
      ⟨{ (m.steps is).state with running := b }, (m.steps is).failure⟩ := by
  induction is generalizing m with
  | nil => rfl
  | cons i is ih =>
    simp only [steps, step_running]
    cases h : m.step i with
    | mk m' failure =>
      cases failure with
      | none => exact ih m'
      | some f => rfl

/-- Code is executed in two parts by executing the first and going on with the second, without a
reset between them. -/
theorem execute_append (m : Machine) (is js : List Instruction) :
    m.execute (is ++ js) = (m.execute is).andThen fun m' => m'.steps js := by
  simp only [execute, steps_append]
  cases h : ({ m.reset with running := true } : Machine).steps is with
  | mk m' failure =>
    cases failure with
    | none => exact (steps_running m' false js).symm
    | some f => rfl

end Machine

/-- Between two programs nothing is on the stack of the machine. -/
theorem execute_code_stack {p : Program} {m : Machine}
    (completed : (m.execute p.code).failure = none) : (m.execute p.code).state.stack = [] := by
  cases run : Session.empty.run p with
  | mk s failure =>
    cases failure with
    | none => rw [execute_code_of_done run m]
    | some f =>
      obtain ⟨rest, g, executed, _⟩ := execute_code_of_failed run m
      rw [executed] at completed
      cases completed

/-- The lines of two programs are assembled one after the other; the first fault counts. -/
theorem assemble_code_append {p q : Program} (hp : p.WellFormed) (hq : q.WellFormed) :
    (assemble (p.code.map Instruction.text ++ q.code.map Instruction.text)).result = (do
      let is ← (assemble (p.code.map Instruction.text)).result
      let js ← (assemble (q.code.map Instruction.text)).result
      .ok (is ++ js)) := by
  have both := assemble_code_leading (hp.append hq)
  rw [Program.code_append, List.map_append, Program.targets_append, List.findSome?_append] at both
  rw [both, assemble_code_leading hp, assemble_code_leading hq]
  cases p.targets.findSome? (nameFault? "STORE") with
  | some f => rfl
  | none =>
    cases q.targets.findSome? (nameFault? "STORE") with
    | some f => rfl
    | none => simp [bind, Except.bind]

/-- A program and more tokens behind it. They are a program if and only if the tokens behind are
one; otherwise the failure is that of those tokens. Every phase then does with the two programs what
it does with one after the other: the lines of the second follow those of the first, and the
interpreter and the machine go on with the second where the first has left them, if it has not
failed. -/
theorem appended_program_follows_in_every_phase {ts : List String} {p : Program}
    (parsed : parse ts = .ok p) (us : List String) :
    parse (ts ++ us) = (parse us).map (p ++ ·) ∧
      ∀ q, parse us = .ok q →
        (∃ ds es, p.display = .ok ds ∧ q.display = .ok es ∧
          Program.display (p ++ q) = .ok (ds ++ es)) ∧
        (∀ s : Session, s.run (p ++ q) = (s.run p).andThen fun s' => s'.execute q) ∧
        ∃ ls ms, p.compile = .ok ls ∧ q.compile = .ok ms ∧
          Program.compile (p ++ q) = .ok (ls ++ ms) ∧
          Generator.empty.program p = ⟨⟨ls⟩, none⟩ ∧
          Generator.program ⟨ls⟩ q = ⟨⟨ls ++ ms⟩, none⟩ ∧
          (assemble (ls ++ ms)).result = (do
            let is ← (assemble ls).result
            let js ← (assemble ms).result
            .ok (is ++ js)) ∧
          (∀ is js, (assemble ls).result = .ok is → (assemble ms).result = .ok js →
            ∀ m : Machine, m.execute (is ++ js) = (m.execute is).andThen fun m' => m'.steps js) ∧
          (p.Names IsWord → q.Names IsWord →
            assemble ls = ⟨.ok p.code, []⟩ ∧ assemble ms = ⟨.ok q.code, []⟩ ∧
            ∀ m : Machine, (m.execute p.code).failure = none →
              (m.execute p.code).state.stack = []) := by
  refine ⟨parse_append parsed us, fun q parsed' => ?_⟩
  have hp := parse_wellFormed parsed
  have hq := parse_wellFormed parsed'
  have hpq := hp.append hq
  refine ⟨⟨_, _, hp.display_eq, hq.display_eq, ?_⟩, fun s => Session.execute_append .empty p q, ?_⟩
  · rw [hpq.display_eq, List.map_append]
  refine ⟨_, _, hp.compile_eq, hq.compile_eq, ?_, ?_, Generator.program_eq hq.writable_eq _,
    assemble_code_append hp hq, fun is js _ _ m => m.execute_append is js, ?_⟩
  · rw [hpq.compile_eq, Program.code_append, List.map_append]
  · exact Generator.program_eq hp.writable_eq .empty
  · intro names names'
    exact ⟨(assemble_compiled hp names).1, (assemble_compiled hq names').1,
      fun m => execute_code_stack⟩

/-- A quotient that fails, and an action that is not there, behind an assignment. -/
theorem quotient_follows_assignment :
    let p : Program := [.assign "x" (.constant 6)]
    let q : Program := [.print (.variable "x"), .print (.binary .div (.variable "x") (.constant 0))]
    let ts := [":=", "x", "6"]
    let us := ["#", "x", "#", "/", "x", "0"]
    parse ts = .ok p ∧ parse us = .ok q ∧ parse (ts ++ us) = .ok (p ++ q) ∧
      parse (ts ++ ["#"]) = .error (.fault (.nothingFollows "#")) ∧
      Session.empty.run (p ++ q) = (Session.empty.run p).andThen (fun s => s.execute q) ∧
      (Session.empty.run (p ++ q)).failure = some (.fault (.zeroDivisor "( x / 0 )")) ∧
      Machine.fresh.execute (p.code ++ q.code) =
        (Machine.fresh.execute p.code).andThen (fun m => m.steps q.code) ∧
      (Machine.fresh.execute (p.code ++ q.code)).failure = some (.fault (.zeroDivision 6)) := by
  intro p q ts us
  have parsed : parse p.tokens = .ok p := parse_tokens (by decide +kernel)
  have parsed' : parse q.tokens = .ok q := parse_tokens (by decide +kernel)
  rw [show p.tokens = ts by decide] at parsed
  rw [show q.tokens = us by decide] at parsed'
  have words : ∀ t ∈ ts ++ us, IsWord t := by decide
  have names := parse_names (fun t ht => words t (List.mem_append_left us ht)) parsed
  have names' := parse_names (fun t ht => words t (List.mem_append_right ts ht)) parsed'
  obtain ⟨whole, phases⟩ := appended_program_follows_in_every_phase parsed us
  obtain ⟨ended, _⟩ := appended_program_follows_in_every_phase parsed ["#"]
  obtain ⟨_, run, ls, ms, _, _, _, _, _, _, executes, assembled⟩ := phases q parsed'
  obtain ⟨hls, hms, _⟩ := assembled names names'
  have unparsed : parse ["#"] = .error (.fault (.nothingFollows "#")) := by
    simp [parse, actions_cons, action]
  refine ⟨parsed, parsed', ?_, ?_, run .empty, by decide +kernel, ?_, by decide +kernel⟩
  · rw [parsed'] at whole
    exact whole
  · rw [unparsed] at ended
    exact ended
  · exact executes _ _ (congrArg Assembled.result hls) (congrArg Assembled.result hms) .fresh

end PolishCalc
