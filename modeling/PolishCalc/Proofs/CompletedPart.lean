import PolishCalc.Proofs.Disassembly
import PolishCalc.Proofs.OnePass
import PolishCalc.Proofs.StackDepth

namespace PolishCalc

/-- A stack that at most two items were taken from. -/
structure TakenFrom {α : Type} (stack rest : List α) : Prop where
  bottom : rest <:+ stack
  few : stack.length ≤ rest.length + 2

namespace Bench

/-- All that an order that fails can have done is to take its operands off the stack. -/
structure Spent (b b' : Bench) : Prop where
  table : b'.table = b.table
  output : b'.output = b.output
  stack : TakenFrom b.stack b'.stack

/-- The same with a bound on the number of operands. -/
structure Took (k : Nat) (b b' : Bench) : Prop where
  table : b'.table = b.table
  output : b'.output = b.output
  bottom : b'.stack <:+ b.stack
  few : b.stack.length ≤ b'.stack.length + k

theorem took_nothing (k : Nat) (b : Bench) : Took k b b :=
  ⟨rfl, rfl, List.suffix_refl b.stack, Nat.le_add_right _ k⟩

theorem Took.spent {k : Nat} {b b' : Bench} (h : Took k b b') (few : k ≤ 2) : b.Spent b' :=
  ⟨h.table, h.output, h.bottom, by have := h.few; omega⟩

theorem pushResult_failed {b b' : Bench} {r : Except OrderFailure Item} {f : OrderFailure}
    (h : b.pushResult r = (b', some f)) : Took 0 b b' := by
  cases r with
  | ok v => cases h
  | error g =>
    cases h
    exact took_nothing 0 b

theorem popThen_failed {k : Nat} {next : Item → Bench → Bench × Option OrderFailure}
    (takes : ∀ {a : Item} {b b' : Bench} {f : OrderFailure},
      next a b = (b', some f) → Took k b b') {b b' : Bench} {f : OrderFailure}
    (h : b.popThen next = (b', some f)) : Took (k + 1) b b' := by
  obtain ⟨_ | ⟨a, rest⟩, table, output, running⟩ := b
  · cases h
    exact took_nothing _ _
  · have later : Took k ⟨rest, table, output, running⟩ b' := takes h
    have few := later.few
    refine ⟨later.table, later.output, later.bottom.trans (List.suffix_cons a rest), ?_⟩
    simp only [List.length_cons] at few ⊢
    omega

theorem operate_failed {b b' : Bench} {o : Order} {i : Option Instruction} {f : OrderFailure}
    (h : b.operate o i = (b', some f)) : b.Spent b' := by
  rcases i with _ | ⟨n⟩ | ⟨x⟩ | ⟨x⟩ | ⟨op⟩ | ⟨op⟩ | _
  case some.unary => exact (popThen_failed pushResult_failed h).spent (by omega)
  case some.binary =>
    exact (popThen_failed (fun h => popThen_failed pushResult_failed h) h).spent (by omega)
  case some.print =>
    refine (popThen_failed (k := 0) (fun h => ?_) h).spent (by omega)
    split at h
    next => cases h
    next =>
      cases h
      exact took_nothing 0 _
  all_goals
    cases h
    exact (took_nothing 0 b).spent (by omega)

theorem obey_failed {b b' : Bench} {o : Order} {f : OrderFailure}
    (h : b.obey o = (b', some f)) : b.Spent b' := by
  unfold obey at h
  split at h
  next => cases h
  next =>
    split at h
    next => exact (pushResult_failed h).spent (by omega)
    next =>
      split at h
      next => exact (popThen_failed (k := 0) (fun h => by cases h) h).spent (by omega)
      next => exact operate_failed h

end Bench

theorem Item.ofInt_inj {m n : Int} : Item.ofInt m = Item.ofInt n ↔ m = n := by
  simp [Item.ofInt]

theorem Table.items_inj {t u : Table} : t.items = u.items ↔ t = u := by
  refine List.map_inj_right fun p q same => ?_
  obtain ⟨name, value⟩ := Prod.mk.inj same
  exact Prod.ext (Item.ofText_inj.mp name) (Item.ofInt_inj.mp value)

namespace Machine

/-- The same for an instruction: nothing is stored or printed when it fails. -/
structure Spent (m m' : Machine) : Prop where
  table : m'.table = m.table
  output : m'.output = m.output
  stack : TakenFrom m.stack m'.stack

theorem spent_of_bench {m m' : Machine} (h : m.bench.Spent m'.bench) : m.Spent m' := by
  have bottom : m'.stack.map Item.ofInt <:+ m.stack.map Item.ofInt := h.stack.bottom
  have few : (m.stack.map Item.ofInt).length ≤ (m'.stack.map Item.ofInt).length + 2 := h.stack.few
  simp only [List.length_map] at few
  have inj : ∀ a b, Item.ofInt a = Item.ofInt b → a = b := fun a b => Item.ofInt_inj.mp
  exact ⟨Table.items_inj.mp h.table, h.output,
    (List.suffix_map_iff_of_injective inj).mp bottom, few⟩

theorem step_failed {m m' : Machine} {i : Instruction} {f : Failure}
    (h : m.step i = ⟨m', some f⟩) : m.Spent m' := by
  have obeyed := m.bench_obey i
  rw [h] at obeyed
  exact spent_of_bench (Bench.obey_failed obeyed)

/-- What an execution has stored and printed when it ends is what the longest part of it that
completes has. -/
theorem exists_longestDone (m : Machine) (is : List Instruction) :
    ∃ before, LongestDone (fun js => (m.execute js).failure = none) is before ∧
      (m.execute is).state.table = (m.execute before).state.table ∧
      (m.execute is).state.output = (m.execute before).state.output := by
  have keeps : ∀ (m m' : Machine) (i : Instruction) (f : Failure),
      (m.step i).parts = (m', some f) → (m'.table, m'.output) = (m.table, m.output) := by
    intro m m' i f failed
    have spent := step_failed (Outcome.parts_eq_iff.mp failed)
    rw [spent.table, spent.output]
  obtain ⟨before, longest, kept⟩ := inTurn_steps.exists_longestDone keeps Session.empty.machine is
  obtain ⟨table, output⟩ := Prod.mk.inj kept
  exact ⟨before, longest, table, output⟩

end Machine

namespace Session

/-- An action on a session that can be written to at any time; what is written stays there if the
action fails later. -/
def perform (late : Int → Failure) : Action → ExceptT Failure (StateM Session) Unit
  | .assign x e => do
    let v ← e.work late
    modify fun s => { s with symbols := s.symbols.set x v }
  | .print e => do
    let v ← e.work late
    let line ← ExceptT.mk (pure (printed v))
    modify fun s => { s with output := s.output ++ [line] }

def performAll (late : Int → Failure) : Program → ExceptT Failure (StateM Session) Unit
  | [] => pure ()
  | a :: p => do
    perform late a
    performAll late p

theorem perform_of_ok {late : Int → Failure} {s s' : Session} {a : Action} (h : s.act a = .ok s') :
    (perform late a).run.run s = (.ok (), s') := by
  cases a with
  | assign x e =>
    obtain ⟨v, value, h⟩ := bind_eq_ok_iff.mp h
    cases h
    have worked := e.work_eq late s
    rw [value] at worked
    rw [perform, Expr.run_bind_of_value worked]
    rfl
  | print e =>
    obtain ⟨v, value, h⟩ := bind_eq_ok_iff.mp h
    obtain ⟨line, shown, h⟩ := bind_eq_ok_iff.mp h
    cases h
    have worked := e.work_eq late s
    rw [value] at worked
    rw [perform, Expr.run_bind_of_value worked, shown]
    rfl

/-- Whatever makes an action fail, it has written nothing. -/
theorem perform_of_error {late : Int → Failure} {s : Session} {a : Action} {f : Failure}
    (h : s.act a = .error f) : (perform late a).run.run s = (.error f, s) := by
  cases a with
  | assign x e =>
    rcases bind_eq_error_iff.mp h with h | ⟨v, _, h⟩
    · have worked := e.work_eq late s
      rw [h] at worked
      exact Expr.run_bind_of_failure worked _
    · cases h
  | print e =>
    have worked := e.work_eq late s
    rcases bind_eq_error_iff.mp h with h | ⟨v, value, h⟩
    · rw [h] at worked
      exact Expr.run_bind_of_failure worked _
    · rcases bind_eq_error_iff.mp h with h | ⟨line, _, h⟩
      · rw [value] at worked
        rw [perform, Expr.run_bind_of_value worked, h]
        rfl
      · cases h

theorem performAll_eq (late : Int → Failure) (s : Session) (p : Program) :
    (performAll late p).run.run s =
      ((s.execute p).failure.elim (.ok ()) .error, (s.execute p).state) := by
  induction p generalizing s with
  | nil => rfl
  | cons a p ih =>
    cases acted : s.act a with
    | ok s₁ =>
      rw [performAll, Expr.run_bind_of_value (perform_of_ok acted), ih]
      simp only [execute, acted]
    | error f =>
      rw [performAll, Expr.run_bind_of_failure (perform_of_error acted)]
      simp only [execute, acted, Option.elim_some]

end Session

theorem runTokens_unparsed {ts : List String} {r : Run} {f : Failure}
    (run : runTokens ts = .ok r) (parsed : parse ts = .error f) : r.symbols = [] ∧ r.output = [] := by
  have ending := runTokens_ending ts
  rw [run] at ending
  cases ending with
  | unparsed => exact ⟨rfl, rfl⟩
  | interrupted parsed'
  | unassembled parsed'
  | halted parsed'
  | complete parsed' => cases parsed.symm.trans parsed'

theorem runTokens_interpreted {ts : List String} {r : Run} {p : Program}
    (run : runTokens ts = .ok r) (parsed : parse ts = .ok p) :
    r.symbols = (Session.empty.execute p).state.symbols ∧
      r.output = (Session.empty.execute p).state.output := by
  have ending := runTokens_ending ts
  rw [run] at ending
  cases ending with
  | unparsed parsed' =>
    rw [parsed] at parsed'
    cases parsed'
  | interrupted parsed' interpreted
  | unassembled parsed' interpreted
  | halted parsed' interpreted
  | complete parsed' interpreted =>
    cases parsed.symm.trans parsed'
    rw [interpreted]
    exact ⟨rfl, rfl⟩

/-- A run without assembly text has executed no instruction. -/
theorem runTokens_executed {ts : List String} {r : Run} {is : List Instruction}
    (run : runTokens ts = .ok r) (assembled : (assemble r.assembly).result = .ok is) :
    r.machineSymbols = (Machine.fresh.execute is).state.table ∧
      r.machineOutput = (Machine.fresh.execute is).state.output := by
  have ending := runTokens_ending ts
  rw [run] at ending
  cases ending with
  | unparsed | interrupted =>
    cases assembled
    exact ⟨rfl, rfl⟩
  | unassembled _ _ assembled' => cases assembled.symm.trans assembled'
  | halted _ _ assembled' executed
  | complete _ _ assembled' executed =>
    cases assembled.symm.trans assembled'
    rw [executed]
    exact ⟨rfl, rfl⟩

theorem runTokens_unassembled {ts : List String} {r : Run} {f : Failure}
    (run : runTokens ts = .ok r) (assembled : (assemble r.assembly).result = .error f) :
    r.machineSymbols = [] ∧ r.machineOutput = [] := by
  have ending := runTokens_ending ts
  rw [run] at ending
  cases ending with
  | unparsed | interrupted | unassembled => exact ⟨rfl, rfl⟩
  | halted _ _ assembled'
  | complete _ _ assembled' => cases assembled.symm.trans assembled'

namespace Service

theorem executed_of_respond {r : Request} {data : Json} {source : AssemblySource} {status : Nat}
    {answer : Json} (posts : r.Posts "/execute" data)
    (carried : data.member? "assembly" = some source.json)
    (responded : respond r = .ok ⟨status, some answer⟩) : answer = (executeSource source).json := by
  rw [respond_execute posts carried, executeProgram, Except.ok.injEq] at responded
  split at responded
  next =>
    cases responded
    rfl
  next => cases responded

end Service

/-- What is left when something fails. A program fails in one of its actions and leaves the session
that the actions before it leave, also where every step could have written to it. Instructions, and
orders that nobody has checked, fail in one of them and leave the table and the output as those
before it did, and the stack with at most two items taken from it; and an execution is over then.
So a run and an answer hold what the longest part that completes has stored and printed. -/
theorem failure_leaves_completed_part :
    (∀ (s s' : Session) (p : Program) (f : Failure), s.execute p = ⟨s', some f⟩ →
      (∃ before a after, p = before ++ a :: after ∧ s.execute before = ⟨s', none⟩ ∧
        s'.act a = .error f) ∧
      ∀ late, (Session.performAll late p).run.run s = (.error f, s')) ∧
    (∀ (m m' : Machine) (is : List Instruction) (f : Failure), m.steps is = ⟨m', some f⟩ →
      ∃ before i after m₁, is = before ++ i :: after ∧ m.steps before = ⟨m₁, none⟩ ∧
        m₁.step i = ⟨m', some f⟩ ∧ m₁.Spent m') ∧
    (∀ (b b' : Bench) (os : List Order) (f : OrderFailure), b.obeyAll os = (b', some f) →
      ∃ before o after b₁, os = before ++ o :: after ∧ b.obeyAll before = (b₁, none) ∧
        b₁.obey o = (b', some f) ∧ b₁.Spent b') ∧
    (∀ (m : Machine) (is : List Instruction), (m.execute is).failure ≠ none →
      (m.execute is).state.running = false) ∧
    (∀ ts r, runTokens ts = .ok r →
      (∀ f, parse ts = .error f → r.symbols = [] ∧ r.output = []) ∧
      (∀ p, parse ts = .ok p →
        ∃ before, LongestDone (fun q => (Session.empty.run q).failure = none) p before ∧
          r.symbols = (Session.empty.run before).state.symbols ∧
          r.output = (Session.empty.run before).state.output) ∧
      (∀ f, (assemble r.assembly).result = .error f →
        r.machineSymbols = [] ∧ r.machineOutput = []) ∧
      (∀ is, (assemble r.assembly).result = .ok is →
        ∃ before, LongestDone (fun js => (Machine.fresh.execute js).failure = none) is before ∧
          r.machineSymbols = (Machine.fresh.execute before).state.table ∧
          r.machineOutput = (Machine.fresh.execute before).state.output)) ∧
    ∀ r data source status answer, r.Posts "/execute" data →
      data.member? "assembly" = some (AssemblySource.json source) →
      Service.respond r = .ok ⟨status, some answer⟩ →
      (∀ is, (assemble source.toLines).result = .ok is →
        ∃ before, LongestDone (fun js => (Machine.fresh.execute js).failure = none) is before ∧
          answer.member? "symbol_table" =
            some (Service.tableJson (Machine.fresh.execute before).state.table) ∧
          answer.member? "output" =
            some (.texts (Machine.fresh.execute before).state.output)) ∧
      ∀ f, (assemble source.toLines).result = .error f →
        answer.member? "symbol_table" = some (Service.tableJson []) ∧
        answer.member? "output" = some (.texts []) := by
  refine ⟨?_, ?_, ?_, fun _ _ _ => rfl, ?_, ?_⟩
  · intro s s' p f failed
    refine ⟨Session.execute_eq_failed_iff.mp failed, fun late => ?_⟩
    rw [Session.performAll_eq, failed]
    rfl
  · intro m m' is f failed
    obtain ⟨before, i, after, m₁, split, done, stops⟩ := Machine.steps_eq_failed_iff.mp failed
    exact ⟨before, i, after, m₁, split, done, stops, Machine.step_failed stops⟩
  · intro b b' os f failed
    obtain ⟨before, o, after, b₁, split, done, stops⟩ := Bench.inTurn_obeyAll.eq_failed_iff.mp failed
    exact ⟨before, o, after, b₁, split, done, stops, Bench.obey_failed stops⟩
  · intro ts r run
    refine ⟨fun f => runTokens_unparsed run, fun p parsed => ?_, fun f => runTokens_unassembled run,
      fun is assembled => ?_⟩
    · obtain ⟨symbols, output⟩ := runTokens_interpreted run parsed
      obtain ⟨before, longest, state⟩ := Session.empty.exists_longestDone p
      rw [state] at symbols output
      exact ⟨before, longest, symbols, output⟩
    · obtain ⟨table, output⟩ := runTokens_executed run assembled
      obtain ⟨before, longest, table', output'⟩ := Machine.fresh.exists_longestDone is
      exact ⟨before, longest, table.trans table', output.trans output'⟩
  · intro r data source status answer posts carried responded
    have answered := Service.executed_of_respond posts carried responded
    refine ⟨fun is assembled => ?_, fun f assembled => ?_⟩
    · obtain ⟨before, longest, table, output⟩ := Machine.fresh.exists_longestDone is
      refine ⟨before, longest, ?_, ?_⟩
      · rw [answered, ← table]
        simp only [Service.executeSource, assembled]
        rfl
      · rw [answered, ← output]
        simp only [Service.executeSource, assembled]
        rfl
    · rw [answered]
      simp only [Service.executeSource, assembled]
      exact ⟨rfl, rfl⟩

/-- A division by zero behind a value that was stored and printed, on a session and on a machine with
something there before, and one that a client sends. -/
theorem zero_division_leaves_completed_part :
    let s : Session := ⟨[("z", 1)], ["=== 1"]⟩
    let s' : Session := ⟨[("z", 1), ("x", 6)], ["=== 1", "=== 6"]⟩
    let p : Program := [.assign "x" (.constant 6), .print (.variable "x"),
      .assign "x" (.binary .div (.constant 5) (.constant 0)), .print (.variable "x")]
    let m : Machine := ⟨[7], s.symbols, s.output, false⟩
    let m' : Machine := ⟨[7], s'.symbols, s'.output, false⟩
    let r := Request.posting "/execute" "\x7b\"assembly\":\"PUSH 6\\nPRINT\\nADD\"\x7d"
    s.execute p = ⟨s', some (.fault (.zeroDivisor "( 5 / 0 )"))⟩ ∧
      (∃ before a after, p = before ++ a :: after ∧ s.execute before = ⟨s', none⟩ ∧
        s'.act a = .error (.fault (.zeroDivisor "( 5 / 0 )"))) ∧
      m.steps p.code = ⟨m', some (.fault (.zeroDivision 5))⟩ ∧
      (∃ before i after m₁, p.code = before ++ i :: after ∧ m.steps before = ⟨m₁, none⟩ ∧
        m₁.step i = ⟨m', some (.fault (.zeroDivision 5))⟩ ∧ m₁.Spent m') ∧
      ∃ answer, Service.respond r = .ok ⟨200, some answer⟩ ∧
        answer.member? "output" = some (.texts ["=== 6"]) ∧
        ∃ before, LongestDone (fun js => (Machine.fresh.execute js).failure = none)
            [.push 6, .print, .binary .add] before ∧
          answer.member? "output" = some (.texts (Machine.fresh.execute before).state.output) := by
  intro s s' p m m' r
  obtain ⟨program, machine, _, _, _, service⟩ := failure_leaves_completed_part
  have state : (s.execute p).state = s' := by decide +kernel
  have failure : (s.execute p).failure = some (.fault (.zeroDivisor "( 5 / 0 )")) := by
    decide +kernel
  have failed : s.execute p = ⟨s', some (.fault (.zeroDivisor "( 5 / 0 )"))⟩ := by
    rw [← state, ← failure]
  have left : (m.steps p.code).state = m' := by decide +kernel
  have reason : (m.steps p.code).failure = some (.fault (.zeroDivision 5)) := by decide +kernel
  have halted : m.steps p.code = ⟨m', some (.fault (.zeroDivision 5))⟩ := by
    rw [← left, ← reason]
  let source := AssemblySource.text "PUSH 6\nPRINT\nADD"
  have posts : r.Posts "/execute" (.object [("assembly", source.json)]) :=
    Request.posts_posting (by decide +kernel)
  have carried : (Json.object [("assembly", source.json)]).member? "assembly" =
      some source.json := rfl
  have writable : (Service.executeSource source).json.writable = true := by decide +kernel
  have status : (Service.executeSource source).status = 200 := by decide +kernel
  have printed : (Service.executeSource source).output = ["=== 6"] := by decide +kernel
  have responded : Service.respond r = .ok ⟨200, some (Service.executeSource source).json⟩ := by
    rw [Service.respond_execute_of_writable posts carried writable, status]
  have read : (assemble source.toLines).result.toOption = some [.push 6, .print, .binary .add] := by
    decide +kernel
  have assembled : (assemble source.toLines).result = .ok [.push 6, .print, .binary .add] := by
    cases result : (assemble source.toLines).result with
    | error f => simp [result, Except.toOption] at read
    | ok is => simpa [result, Except.toOption] using read
  obtain ⟨before, longest, _, output⟩ := (service r _ source _ _ posts carried responded).1 _ assembled
  refine ⟨failed, (program s s' p _ failed).1, halted, machine m m' _ _ halted, _, responded, ?_,
    before, longest, output⟩
  rw [← printed]
  rfl

end PolishCalc
