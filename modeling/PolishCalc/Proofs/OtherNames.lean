import PolishCalc.Proofs.Renaming
import PolishCalc.Proofs.RunAnswers

namespace PolishCalc

namespace Machine

def rename (f : String → String) (m : Machine) : Machine :=
  { m with table := m.table.rename f }

theorem pushResult_rename (f : String → String) (m : Machine) {r r' : Except Failure Int}
    (same : r'.mapError Failure.kind = r.mapError Failure.kind) :
    (m.pushResult r).AlikeUnder (rename f) ((m.rename f).pushResult r') := by
  cases r with
  | ok v =>
    rw [mapError_eq_ok same]
    exact ⟨rfl, rfl⟩
  | error g =>
    obtain ⟨g', rfl, kind⟩ := mapError_eq_error same
    exact ⟨rfl, congrArg some kind⟩

theorem step_rename_unnamed {i : Instruction} (unnamed : i.name? = none) (f : String → String)
    (m : Machine) : (m.step i).AlikeUnder (rename f) ((m.rename f).step i) := by
  obtain ⟨table, running⟩ := step_keeps unnamed m
  have frame := step_frame unnamed m (m.table.rename f) m.running
  rw [Outcome.AlikeUnder, rename, frame]
  simp only [rename, table, running, and_self]

/-- An instruction under another name does the same to the stack and the output. -/
theorem step_rename {f : String → String} {xs : List String} {m : Machine} {i : Instruction}
    (apart : KeepsApart f xs) (known : m.table.names ⊆ xs) (name : i.WellFormed (· ∈ xs)) :
    (m.step i).AlikeUnder (rename f) ((m.rename f).step (i.rename f)) := by
  cases i with
  | load x =>
    have read := Table.read_rename (fun y hy => apart y (known hy) x name.1)
    exact pushResult_rename f m read
  | store x =>
    obtain ⟨_ | ⟨a, rest⟩, table, output, running⟩ := m
    · exact ⟨rfl, rfl⟩
    · have set := Table.set_rename a (fun y hy => apart y (known hy) x name.1)
      refine ⟨?_, rfl⟩
      simp only [step, popThen_cons, rename, Instruction.rename, setVariable, set]
  | _ => exact step_rename_unnamed rfl f m

theorem step_names {xs : List String} {m : Machine} {i : Instruction}
    (known : m.table.names ⊆ xs) (name : i.WellFormed (· ∈ xs)) :
    (m.step i).state.table.names ⊆ xs := by
  cases i with
  | load x =>
    simp only [step]
    cases m.table.read x <;> exact known
  | store x =>
    obtain ⟨_ | ⟨a, rest⟩, table, output, running⟩ := m
    · exact known
    · intro y hy
      rcases Table.mem_names_set.mp hy with hy | rfl
      · exact known hy
      · exact name.1
  | _ => rwa [(step_keeps rfl m).1]

theorem steps_rename {f : String → String} {xs : List String} {m : Machine}
    {is : List Instruction} (apart : KeepsApart f xs) (known : m.table.names ⊆ xs)
    (names : ∀ i ∈ is, i.WellFormed (· ∈ xs)) :
    (m.steps is).AlikeUnder (rename f) ((m.rename f).steps (is.map (Instruction.rename f))) := by
  induction is generalizing m with
  | nil => exact ⟨rfl, rfl⟩
  | cons i is ih =>
    obtain ⟨name, names⟩ := List.forall_mem_cons.mp names
    have known' := step_names known name
    have first := step_rename apart known name
    simp only [List.map_cons, steps]
    generalize m.step i = o at first known' ⊢
    rcases o with ⟨m₁, _ | g⟩
    · rw [first.done]
      exact ih known' names
    · obtain ⟨g', failed, kind⟩ := first.failed
      rw [failed]
      exact ⟨rfl, congrArg some kind⟩

/-- Under other names that are kept apart the machine ends in the same stack and output, and in the
same table under the new names, whether the code completes or not. -/
theorem execute_rename {f : String → String} {xs : List String} {is : List Instruction}
    (apart : KeepsApart f xs) (names : ∀ i ∈ is, i.WellFormed (· ∈ xs)) :
    (fresh.execute is).AlikeUnder (rename f)
      (fresh.execute (is.map (Instruction.rename f))) := by
  obtain ⟨state, failure⟩ :=
    steps_rename (m := { fresh with running := true }) apart (List.nil_subset xs) names
  refine ⟨?_, failure⟩
  exact congrArg (fun m : Machine => { m with running := false }) state

end Machine

def Program.names (p : Program) : List String :=
  p.flatMap fun a => a.expr.reads ++ a.target?.toList

/-- Other names for those of a program, which the parser takes in their place. -/
structure Program.Renaming (p : Program) (f : String → String) : Prop where
  apart : KeepsApart f p.names
  words : ∀ x ∈ p.names, IsWord (f x)
  identifiers : ∀ x ∈ p.names, Identifier x → Identifier (f x)
  others : ∀ x ∈ p.names, ¬ Identifier x → NoNumeral (f x)

theorem Program.names_mem (p : Program) : p.Names (· ∈ p.names) := by
  intro a ha
  refine ⟨fun x hx => ?_, fun x hx => ?_⟩
  · exact List.mem_flatMap.mpr ⟨a, ha, List.mem_append_left _ hx⟩
  · exact List.mem_flatMap.mpr ⟨a, ha, List.mem_append_right _ (by simp [hx])⟩

theorem Expr.reads_rename (f : String → String) (e : Expr) :
    (e.rename f).reads = e.reads.map f := by
  induction e with
  | constant n => rfl
  | «variable» x => rfl
  | unary op e ih => exact ih
  | binary op l r ihl ihr => simp [rename, reads, ihl, ihr]

theorem Action.names_rename (f : String → String) (a : Action) :
    (a.rename f).expr = a.expr.rename f ∧ (a.rename f).target? = a.target?.map f := by
  cases a <;> exact ⟨rfl, rfl⟩

theorem Program.Names.rename {p : Program} {Name : String → Prop} {f : String → String}
    (names : p.Names fun x => Name (f x)) : (p.rename f).Names Name := by
  intro b hb
  obtain ⟨a, ha, rfl⟩ := List.mem_map.mp hb
  obtain ⟨reads, target⟩ := names a ha
  obtain ⟨expr, target'⟩ := a.names_rename f
  rw [expr, target', Expr.reads_rename]
  refine ⟨fun y hy => ?_, fun y hy => ?_⟩
  · obtain ⟨x, hx, rfl⟩ := List.mem_map.mp hy
    exact reads x hx
  · obtain ⟨x, hx, rfl⟩ := Option.map_eq_some_iff.mp hy
    exact target x hx

theorem Expr.WellFormed.rename {e : Expr} {f : String → String} (wellFormed : e.WellFormed)
    (identifiers : ∀ x ∈ e.reads, Identifier x → Identifier (f x)) :
    (e.rename f).WellFormed := by
  induction e with
  | constant n => exact wellFormed
  | «variable» x => exact identifiers x (by simp [reads]) wellFormed
  | unary op e ih => exact ih wellFormed identifiers
  | binary op l r ihl ihr =>
    have left := ihl wellFormed.1 (fun x hx => identifiers x (List.mem_append_left _ hx))
    have right := ihr wellFormed.2 (fun x hx => identifiers x (List.mem_append_right _ hx))
    exact ⟨left, right⟩

theorem Program.Renaming.noNumeral {p : Program} {f : String → String} (renamed : p.Renaming f)
    {x : String} (hx : x ∈ p.names) : NoNumeral (f x) := by
  by_cases form : Identifier x
  · exact (renamed.identifiers x hx form).noNumeral
  · exact renamed.others x hx form

theorem Program.Renaming.wellFormed {p : Program} {f : String → String} (renamed : p.Renaming f)
    (wellFormed : p.WellFormed) : (p.rename f).WellFormed := by
  intro b hb
  obtain ⟨a, ha, rfl⟩ := List.mem_map.mp hb
  obtain ⟨reads, target⟩ := p.names_mem a ha
  have identifiers := fun x hx => renamed.identifiers x (reads x hx)
  cases a with
  | assign x e =>
    have whole : NoNumeral x ∧ e.WellFormed := wellFormed _ ha
    exact ⟨renamed.noNumeral (target x rfl), whole.2.rename identifiers⟩
  | print e =>
    have whole : e.WellFormed := wellFormed _ ha
    exact whole.rename identifiers

theorem Program.Renaming.names {p : Program} {f : String → String} (renamed : p.Renaming f) :
    (p.rename f).Names IsWord := by
  refine Program.Names.rename fun a ha => ?_
  obtain ⟨reads, target⟩ := p.names_mem a ha
  exact ⟨fun x hx => renamed.words x (reads x hx), fun x hx => renamed.words x (target x hx)⟩

theorem Expr.tokens_isWord {e : Expr} (names : ∀ x ∈ e.reads, IsWord x) :
    ∀ t ∈ e.tokens, IsWord t := by
  have unary : ∀ op : UnaryOp, IsWord op.symbol := by intro op; cases op <;> decide
  have binary : ∀ op : BinaryOp, IsWord op.symbol := by intro op; cases op <;> decide
  induction e with
  | constant n =>
    intro t ht
    cases List.mem_singleton.mp ht
    exact (decimal_numeral n).isWord
  | «variable» x => exact names
  | unary op e ih => exact List.forall_mem_cons.mpr ⟨unary op, ih names⟩
  | binary op l r ihl ihr =>
    obtain ⟨left, right⟩ := List.forall_mem_append.mp names
    exact List.forall_mem_cons.mpr
      ⟨binary op, List.forall_mem_append.mpr ⟨ihl left, ihr right⟩⟩

theorem Program.tokens_isWord {p : Program} (names : p.Names IsWord) :
    ∀ t ∈ p.tokens, IsWord t := by
  have signs : IsWord ":=" ∧ IsWord "#" := by decide
  intro t ht
  obtain ⟨a, ha, ht⟩ := List.mem_flatMap.mp ht
  obtain ⟨reads, target⟩ := names a ha
  cases a with
  | assign x e =>
    rcases List.mem_cons.mp ht with rfl | ht
    · exact signs.1
    · rcases List.mem_cons.mp ht with rfl | ht
      · exact target _ rfl
      · exact Expr.tokens_isWord reads t ht
  | print e =>
    rcases List.mem_cons.mp ht with rfl | ht
    · exact signs.2
    · exact Expr.tokens_isWord reads t ht

/-- Two records of runs that differ in the names only. -/
structure Run.SameButNames (f : String → String) (r r' : Run) : Prop where
  program : r'.program = r.program.map (Program.rename f)
  output : r'.output = r.output
  symbols : r'.symbols = r.symbols.rename f
  warnings : r'.warnings = r.warnings
  machineOutput : r'.machineOutput = r.machineOutput
  stackDepth : r'.stackDepth = r.stackDepth
  machineSymbols : r'.machineSymbols = r.machineSymbols.rename f
  phases : r'.phases = r.phases
  errors : r'.errors.map (·.complaint.kind) = r.errors.map (·.complaint.kind)

/-- Runs that differ in the names only, or that the digit limit ends in the same way. -/
inductive Run.AlikeUnder (f : String → String) :
    Except DigitLimit Run → Except DigitLimit Run → Prop
  | ended {r r' : Run} (same : SameButNames f r r') : AlikeUnder f (.ok r) (.ok r')
  | limited (l : DigitLimit) : AlikeUnder f (.error l) (.error l)

/-- What a run of words comes to, by how its program was interpreted. -/
def Run.ofInterpreted (ts : List String) (p : Program) (log : List LogEvent) :
    Outcome Session → Except DigitLimit Run
  | ⟨s, none⟩ => .ok (completed ts p s log)
  | ⟨s, some (.fault f)⟩ => .ok (interrupted ts p s f log)
  | ⟨_, some (.limit l)⟩ => .error l

theorem runTokens_of_parsed {ts : List String} {p : Program} (tokens : ∀ t ∈ ts, IsWord t)
    (parsed : parse ts = .ok p) :
    ∃ log, runTokens ts = Run.ofInterpreted ts p log (Session.empty.execute p) := by
  have ending := runTokens_wordEnding tokens
  generalize runTokens ts = outcome at ending ⊢
  cases ending with
  | unparsed failed => rw [parsed] at failed; cases failed
  | unparsedLimit failed => rw [parsed] at failed; cases failed
  | @interrupted q s f log parsed' interpreted =>
    rw [parsed] at parsed'
    cases parsed'
    exact ⟨log, by rw [interpreted, Run.ofInterpreted]⟩
  | interruptedLimit parsed' interpreted =>
    rw [parsed] at parsed'
    cases parsed'
    exact ⟨[], by rw [interpreted, Run.ofInterpreted]⟩
  | @complete q s log parsed' interpreted =>
    rw [parsed] at parsed'
    cases parsed'
    exact ⟨log, by rw [interpreted, Run.ofInterpreted]⟩

theorem Failure.kind_eq_fault {g : Failure} {f : Fault} (same : g.kind = (Failure.fault f).kind) :
    ∃ f', g = .fault f' ∧ f'.complaint.kind = f.complaint.kind := by
  cases g with
  | fault f' => exact ⟨f', rfl, Except.ok.inj same⟩
  | limit l => cases same

theorem Failure.kind_eq_limit {g : Failure} {l : DigitLimit}
    (same : g.kind = (Failure.limit l).kind) : g = .limit l := by
  cases g with
  | fault f' => cases same
  | limit l' => rw [Except.error.inj same]

theorem Run.ofInterpreted_alike {f : String → String} {p : Program} {ts us : List String}
    {log log' : List LogEvent} {o o' : Outcome Session}
    (alike : o.AlikeUnder (Session.rename f) o') :
    Run.AlikeUnder f (ofInterpreted ts p log o) (ofInterpreted us (p.rename f) log' o') := by
  rcases o with ⟨s, _ | fault | l⟩
  · rw [alike.done]
    exact .ended ⟨rfl, rfl, rfl, rfl, rfl, rfl, rfl, rfl, rfl⟩
  · obtain ⟨g, rfl, same⟩ := alike.failed
    obtain ⟨fault', rfl, kind⟩ := Failure.kind_eq_fault same
    exact .ended ⟨rfl, rfl, rfl, rfl, rfl, rfl, rfl, rfl, congrArg ([·]) kind⟩
  · obtain ⟨g, rfl, same⟩ := alike.failed
    cases Failure.kind_eq_limit same
    exact .limited l

/-- Names carry no meaning. If the names of a program are replaced by others that are kept apart,
the new program can be written too, and the interpreter, the code read back from the assembly text,
the machine and a run through all phases do to it what they did to the first, with the names
replaced in the tables and in the instructions, whether or not they fail. -/
theorem names_carry_no_meaning {ts : List String} {p : Program} {f : String → String}
    (tokens : ∀ t ∈ ts, IsWord t) (parsed : parse ts = .ok p) (renamed : p.Renaming f) :
    (∃ us, (∀ t ∈ us, IsWord t) ∧ parse us = .ok (p.rename f)) ∧
    (Session.empty.execute p).AlikeUnder (Session.rename f)
      (Session.empty.execute (p.rename f)) ∧
    (∃ ls ls' is, p.compile = .ok ls ∧ (p.rename f).compile = .ok ls' ∧
      assemble ls = ⟨.ok is, []⟩ ∧ assemble ls' = ⟨.ok (is.map (Instruction.rename f)), []⟩ ∧
      (Machine.fresh.execute is).AlikeUnder (Machine.rename f)
        (Machine.fresh.execute (is.map (Instruction.rename f)))) ∧
    ∀ us, (∀ t ∈ us, IsWord t) → parse us = .ok (p.rename f) →
      Run.AlikeUnder f (runTokens ts) (runTokens us) := by
  have wellFormed := parse_wellFormed parsed
  have wellFormed' := renamed.wellFormed wellFormed
  have interpreted : (Session.empty.execute p).AlikeUnder (Session.rename f)
      (Session.empty.execute (p.rename f)) :=
    Session.execute_rename (s := .empty) renamed.apart (List.nil_subset _) p.names_mem
  refine ⟨⟨_, Program.tokens_isWord renamed.names, parse_tokens wellFormed'⟩, interpreted, ?_, ?_⟩
  · have assembled := (assemble_compiled wellFormed (parse_names tokens parsed)).1
    have assembled' := (assemble_compiled wellFormed' renamed.names).1
    rw [p.code_rename f] at assembled'
    have executed := Machine.execute_rename renamed.apart
      (Program.code_wellFormed wellFormed p.names_mem)
    refine ⟨_, _, p.code, wellFormed.compile_eq, wellFormed'.compile_eq, assembled, ?_, executed⟩
    rw [p.code_rename f]
    exact assembled'
  · intro us words parsed'
    obtain ⟨log, run⟩ := runTokens_of_parsed tokens parsed
    obtain ⟨log', run'⟩ := runTokens_of_parsed words parsed'
    rw [run, run']
    exact Run.ofInterpreted_alike interpreted

/-- A division by zero after an assignment to the assignment sign, with a mnemonic and the sign that
ends assembly text as the new names. -/
theorem names_of_failing_program_replaced :
    let p : Program := [.assign "x" (.constant 5), .assign ":=" (.constant 3),
      .print (.binary .div (.variable "x") (.binary .sub (.variable "x") (.constant 5)))]
    let f : String → String := fun x => if x = "x" then "PUSH" else "."
    let ts := [":=", "x", "5", ":=", ":=", "3", "#", "/", "x", "-", "x", "5"]
    let us := [":=", "PUSH", "5", ":=", ".", "3", "#", "/", "PUSH", "-", "PUSH", "5"]
    parse ts = .ok p ∧ p.Renaming f ∧ parse us = .ok (p.rename f) ∧
      (Session.empty.execute p).failure = some (.fault (.zeroDivisor "( x / ( x - 5 ) )")) ∧
      (Session.empty.execute (p.rename f)).failure.map Failure.kind = some (.ok .divideByZero) ∧
      (Session.empty.execute (p.rename f)).state.symbols = [("PUSH", 5), (".", 3)] ∧
      Run.AlikeUnder f (runTokens ts) (runTokens us) := by
  intro p f ts us
  have parsed : parse p.tokens = .ok p := parse_tokens (by decide +kernel)
  have parsed' : parse (p.rename f).tokens = .ok (p.rename f) := parse_tokens (by decide +kernel)
  rw [show p.tokens = ts by decide] at parsed
  rw [show (p.rename f).tokens = us by decide] at parsed'
  have tokens : ∀ t ∈ ts, IsWord t := by decide
  have renamed : p.Renaming f := ⟨by decide, by decide, by decide +kernel, by decide +kernel⟩
  obtain ⟨_, interpreted, _, runs⟩ := names_carry_no_meaning tokens parsed renamed
  have symbols : (Session.empty.execute p).state.symbols = [("x", 5), (":=", 3)] := by
    decide +kernel
  have failure : (Session.empty.execute p).failure =
      some (.fault (.zeroDivisor "( x / ( x - 5 ) )")) := by
    decide +kernel
  refine ⟨parsed, renamed, parsed', failure, ?_, ?_, runs us (by decide) parsed'⟩
  · rw [interpreted.2, failure]
    rfl
  · rw [interpreted.1, Session.rename, symbols]
    rfl

end PolishCalc
