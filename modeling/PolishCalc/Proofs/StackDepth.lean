import Mathlib.Data.List.Induction
import PolishCalc.Proofs.Concatenation

namespace PolishCalc

namespace Instruction

/-- How many operands an instruction takes off the stack. -/
def need : Instruction → Nat
  | .push _ => 0
  | .load _ => 0
  | .store _ => 1
  | .unary _ => 1
  | .binary _ => 2
  | .print => 1

/-- By how much an instruction changes the depth of the stack. -/
def effect : Instruction → Int
  | .push _ => 1
  | .load _ => 1
  | .store _ => -1
  | .unary _ => 0
  | .binary _ => -1
  | .print => -1

def stored? : Instruction → Option String
  | .store x => some x
  | _ => none

end Instruction

/-- The sum of the effects: the depth that instructions leave, counted from an empty stack. -/
def depthAfter : List Instruction → Int
  | [] => 0
  | i :: is => i.effect + depthAfter is

theorem depthAfter_singleton (i : Instruction) : depthAfter [i] = i.effect :=
  Int.add_zero _

theorem depthAfter_append (is js : List Instruction) :
    depthAfter (is ++ js) = depthAfter is + depthAfter js := by
  induction is with
  | nil => exact (Int.zero_add _).symm
  | cons i is ih =>
    simp only [List.cons_append, depthAfter, ih]
    omega

/-- A name goes to the end of a list that it is not in yet. -/
def noteName (xs : List String) (x : String) : List String :=
  if x ∈ xs then xs else xs ++ [x]

theorem Table.names_set (t : Table) (x : String) (v : Int) :
    (t.set x v).names = noteName t.names x := by
  induction t with
  | nil => rfl
  | cons q t ih =>
    obtain ⟨y, u⟩ := q
    by_cases hy : y = x
    · simp [set, names, noteName, hy]
    · have hx : x ≠ y := fun h => hy h.symm
      simp only [names, noteName] at ih
      by_cases hm : x ∈ t.map Prod.fst
      · simp [set, names, noteName, hy, ih, hm]
      · simp [set, names, noteName, hy, hx, ih, hm]

/-- Names that are noted one after the other stand in the order in which they first occur. -/
theorem foldl_noteName (xs : List String) : xs.foldl noteName [] = xs.eraseDups := by
  induction xs using List.reverseRecOn with
  | nil => rfl
  | append_singleton xs x ih =>
    rw [List.foldl_append, ih, List.eraseDups_append]
    by_cases hx : x ∈ xs <;> simp [noteName, List.removeAll, List.eraseDups_cons, hx]

namespace Machine

/-- What an instruction that succeeds does to the depth of the stack, the number of lines and the
names in the table. -/
structure Advances (m : Machine) (is : List Instruction) (m' : Machine) : Prop where
  depth : (m'.stack.length : Int) = m.stack.length + depthAfter is
  printed : m'.output.length = m.output.length + is.count .print
  names : m'.table.names = (is.filterMap Instruction.stored?).foldl noteName m.table.names

theorem Advances.trans {m m₁ m₂ : Machine} {is js : List Instruction} (first : m.Advances is m₁)
    (second : m₁.Advances js m₂) : m.Advances (is ++ js) m₂ where
  depth := by
    have h₁ := first.depth
    have h₂ := second.depth
    rw [depthAfter_append]
    omega
  printed := by
    rw [second.printed, first.printed, List.count_append]
    omega
  names := by rw [second.names, first.names, List.filterMap_append, List.foldl_append]

/-- The three ways in which an instruction can end. -/
inductive StepEnds (m : Machine) (i : Instruction) : Outcome Machine → Prop
  | short {m' : Machine} (lacking : m.stack.length < i.need) :
      StepEnds m i ⟨m', some (.fault .stackUnderflow)⟩
  | failed {m' : Machine} {f : Failure} (supplied : i.need ≤ m.stack.length)
      (other : f.NoUnderflow) : StepEnds m i ⟨m', some f⟩
  | done {m' : Machine} (supplied : i.need ≤ m.stack.length) (advances : m.Advances [i] m') :
      StepEnds m i ⟨m', none⟩

/-- Instructions that push a result once their operands are off the stack. -/
theorem pushResult_ends {m n : Machine} {i : Instruction} {r : Except Failure Int}
    (operands : m.stack.length = n.stack.length + i.need) (table : n.table = m.table)
    (output : n.output = m.output) (value : i.effect = 1 - i.need) (silent : i ≠ .print)
    (unstored : i.stored? = none) (other : ∀ f, r = .error f → f.NoUnderflow) :
    m.StepEnds i (n.pushResult r) := by
  have supplied : i.need ≤ m.stack.length := by omega
  cases r with
  | error f => exact .failed supplied (other f rfl)
  | ok v =>
    refine .done supplied ⟨?_, ?_, ?_⟩
    · simp only [push, List.length_cons, depthAfter_singleton]
      omega
    · simp [push, output, silent]
    · simp [push, table, unstored]

theorem depth_taken (a : Int) (rest : List Int) :
    (rest.length : Int) = (a :: rest).length + (-1) := by
  simp only [List.length_cons]
  omega

theorem step_ends (m : Machine) (i : Instruction) : m.StepEnds i (m.step i) := by
  obtain ⟨stack, table, output, running⟩ := m
  cases i with
  | push v =>
    exact pushResult_ends (r := .ok v) (n := ⟨stack, table, output, running⟩) rfl rfl rfl rfl
      (by simp) rfl (by simp)
  | load x =>
    refine pushResult_ends rfl rfl rfl rfl (by simp) rfl fun f failed => ?_
    exact Expr.stackValue_noUnderflow (e := .variable x) failed
  | store x =>
    cases stack with
    | nil => exact .short (Nat.zero_lt_succ 0)
    | cons a rest =>
      refine .done (by simp [Instruction.need]) ⟨?_, rfl, Table.names_set table x a⟩
      rw [depthAfter_singleton]
      exact depth_taken a rest
  | unary op =>
    cases stack with
    | nil => exact .short (Nat.zero_lt_succ 0)
    | cons a rest =>
      exact pushResult_ends (n := ⟨rest, table, output, running⟩) rfl rfl rfl rfl (by simp) rfl
        fun f failed => op.apply_noUnderflow failed
  | binary op =>
    rcases stack with _ | ⟨b, _ | ⟨a, rest⟩⟩
    · exact .short (by simp [Instruction.need])
    · exact .short (by simp [Instruction.need])
    · exact pushResult_ends (n := ⟨rest, table, output, running⟩) rfl rfl rfl rfl (by simp) rfl
        fun f failed => op.apply_noUnderflow failed
  | print =>
    cases stack with
    | nil => exact .short (Nat.zero_lt_succ 0)
    | cons a rest =>
      simp only [step, popThen_cons]
      cases line : printed a with
      | error f => exact .failed (by simp [Instruction.need]) (Session.printed_noUnderflow line)
      | ok s =>
        refine .done (by simp [Instruction.need]) ⟨?_, by simp, rfl⟩
        rw [depthAfter_singleton]
        exact depth_taken a rest

/-- An instruction runs out of operands if and only if there are too few of them. -/
theorem step_underflow_iff {m : Machine} {i : Instruction} :
    (m.step i).failure = some (.fault .stackUnderflow) ↔ m.stack.length < i.need := by
  have ends := m.step_ends i
  generalize m.step i = o at ends ⊢
  cases ends with
  | short lacking => simp [lacking]
  | failed supplied other =>
    refine ⟨fun h => ?_, fun lacking => ?_⟩
    · exact absurd rfl (other _ (Option.some.inj h))
    · omega
  | done supplied => simp [supplied]

theorem step_done {m m' : Machine} {i : Instruction} (h : m.step i = ⟨m', none⟩) :
    i.need ≤ m.stack.length ∧ m.Advances [i] m' := by
  have ends := m.step_ends i
  rw [h] at ends
  cases ends with
  | done supplied advances => exact ⟨supplied, advances⟩

/-- Instructions that all succeed change the depth, the output and the names by what each of them
does. -/
theorem steps_done {m m' : Machine} {is : List Instruction} (h : m.steps is = ⟨m', none⟩) :
    m.Advances is m' := by
  induction is generalizing m with
  | nil =>
    cases h
    exact ⟨by simp [depthAfter], rfl, rfl⟩
  | cons i is ih =>
    simp only [steps] at h
    split at h
    next m₁ first => exact (step_done first).2.trans (ih h)
    next => cases h

/-- No instruction that succeeds was short of operands. -/
theorem steps_supplied {m m' : Machine} {bs cs : List Instruction} {j : Instruction}
    (h : m.steps (bs ++ j :: cs) = ⟨m', none⟩) :
    (j.need : Int) ≤ m.stack.length + depthAfter bs := by
  rcases first : m.steps bs with ⟨m₁, _ | f⟩
  · rw [steps_append_of_done first] at h
    simp only [steps] at h
    split at h
    next next_step =>
      have supplied := (step_done next_step).1
      have depth := (steps_done first).depth
      omega
    next => cases h
  · rw [steps_append_of_failed first] at h
    cases h

theorem depth_of_done {m' : Machine} {is : List Instruction}
    (done : Session.empty.machine.steps is = ⟨m', none⟩) :
    (m'.stack.length : Int) = depthAfter is := by
  have depth := (steps_done done).depth
  have empty : Session.empty.machine.stack.length = 0 := rfl
  omega

theorem execute_done_iff {m : Machine} {is : List Instruction} :
    (m.execute is).failure = none ↔ ∃ m', Session.empty.machine.steps is = ⟨m', none⟩ := by
  rw [execute_eq]
  rcases Session.empty.machine.steps is with ⟨m', failure⟩
  simp

theorem execute_underflow_iff {m : Machine} {is : List Instruction} :
    (m.execute is).failure = some (.fault .stackUnderflow) ↔
      ∃ before i after m₁, is = before ++ i :: after ∧
        Session.empty.machine.steps before = ⟨m₁, none⟩ ∧ m₁.stack.length < i.need := by
  rw [execute_eq]
  constructor
  · intro h
    rcases steps : Session.empty.machine.steps is with ⟨m', failure⟩
    rw [steps] at h
    cases h
    obtain ⟨before, i, after, m₁, split, done, failed⟩ := steps_eq_failed_iff.mp steps
    exact ⟨before, i, after, m₁, split, done, step_underflow_iff.mp (by rw [failed])⟩
  · rintro ⟨before, i, after, m₁, split, done, lacking⟩
    rcases failed : m₁.step i with ⟨m', failure⟩
    have underflow := step_underflow_iff.mpr lacking
    rw [failed] at underflow
    cases underflow
    rw [steps_eq_failed_iff.mpr ⟨before, i, after, m₁, split, done, failed⟩]

end Machine

/-- The first instruction of a list that needs more operands than those before it leave. -/
structure FirstShort (is before : List Instruction) (i : Instruction) (after : List Instruction) :
    Prop where
  split : is = before ++ i :: after
  short : depthAfter before < i.need
  first : ∀ bs j cs, before = bs ++ j :: cs → (j.need : Int) ≤ depthAfter bs

/-- What is known about the machine before it executes anything. On a machine with any history,
instructions do what their orders do without a check, so none is of a kind that cannot be handled.
They run out of operands if and only if there is a first one that is short of them and nothing
before it fails for another reason. If they complete, the depth of the stack is the sum of their
effects, there is a line for every print, and the table holds the names that they store to, in the
order in which these first occur. -/
theorem stack_depth_is_static (m : Machine) (is : List Instruction) :
    (∀ b : Bench, b.execute (is.map Instruction.order) =
      ((m.execute is).state.bench, (m.execute is).failure.map OrderFailure.failure)) ∧
    ((m.execute is).failure = some (.fault .stackUnderflow) ↔
      ∃ before i after, FirstShort is before i after ∧ (m.execute before).failure = none) ∧
    ((m.execute is).failure = none →
      ((m.execute is).state.stack.length : Int) = depthAfter is ∧
      (m.execute is).state.output.length = is.count .print ∧
      (m.execute is).state.table.names = (is.filterMap Instruction.stored?).eraseDups) := by
  refine ⟨fun b => m.bench_execute is, ?_, fun completed => ?_⟩
  · rw [Machine.execute_underflow_iff]
    constructor
    · rintro ⟨before, i, after, m₁, split, done, lacking⟩
      have depth := Machine.depth_of_done done
      refine ⟨before, i, after, ⟨split, by omega, ?_⟩, Machine.execute_done_iff.mpr ⟨m₁, done⟩⟩
      -- Nothing before can have been short as well, since it was carried out.
      rintro bs j cs rfl
      have supplied : (j.need : Int) ≤ 0 + depthAfter bs := Machine.steps_supplied done
      omega
    · rintro ⟨before, i, after, short, completed⟩
      obtain ⟨m₁, done⟩ := Machine.execute_done_iff.mp completed
      have depth := Machine.depth_of_done done
      have lacking := short.short
      exact ⟨before, i, after, m₁, short.split, done, by omega⟩
  · obtain ⟨m', done⟩ := Machine.execute_done_iff.mp completed
    have advances := Machine.steps_done done
    have depth := Machine.depth_of_done done
    have printed : m'.output.length = 0 + is.count .print := advances.printed
    rw [Machine.execute_eq, done]
    refine ⟨depth, printed.trans (Nat.zero_add _), ?_⟩
    rw [← foldl_noteName]
    exact advances.names

/-- An addition that is short of an operand, one that is not reached because of a name without a
value, and a list that completes and stores to one name twice. -/
theorem short_addition_underflows :
    let is : List Instruction := [.push 1, .binary .add, .load "x"]
    let js : List Instruction := [.push 1, .load "x", .binary .add, .binary .add]
    let ks : List Instruction := [.push 4, .store "y", .push 1, .push 2, .store "x", .push 3,
      .store "y", .load "x", .print]
    (Machine.fresh.execute is).failure = some (.fault .stackUnderflow) ∧
      FirstShort is [.push 1] (.binary .add) [.load "x"] ∧
      (Machine.fresh.execute js).failure = some (.fault (.uninitialized "x")) ∧
      (Machine.fresh.execute ks).failure = none ∧
      ((Machine.fresh.execute ks).state.stack.length : Int) = 1 ∧
      (Machine.fresh.execute ks).state.output.length = 1 ∧
      (Machine.fresh.execute ks).state.table.names = ["y", "x"] := by
  intro is js ks
  have short : FirstShort is [.push 1] (.binary .add) [.load "x"] := by
    refine ⟨rfl, by decide, fun bs j cs split => ?_⟩
    rcases bs with _ | ⟨b, bs⟩
    · cases split
      decide
    · simp at split
  obtain ⟨_, underflow, _⟩ := stack_depth_is_static Machine.fresh is
  obtain ⟨_, _, complete⟩ := stack_depth_is_static Machine.fresh ks
  have completed : (Machine.fresh.execute ks).failure = none := by decide +kernel
  obtain ⟨depth, printed, names⟩ := complete completed
  have failed : (Machine.fresh.execute [.push 1]).failure = none := by decide
  exact ⟨underflow.mpr ⟨_, _, _, short, failed⟩, short, by decide +kernel, completed,
    depth.trans (by decide), printed.trans (by decide), names.trans (by decide)⟩

end PolishCalc
