import PolishCalc.Proofs.Unchecked

namespace PolishCalc

/-- The reply in the state that is left behind, unless there was a failure. -/
def answered {σ ε ρ : Type} (reply : σ → ρ) (r : σ × Option ε) : σ × Except ε ρ :=
  match r with
  | (s, none) => (s, .ok (reply s))
  | (s, some f) => (s, .error f)

theorem answered_fst {σ ε ρ : Type} (reply : σ → ρ) (r : σ × Option ε) :
    (answered reply r).1 = r.1 := by
  obtain ⟨s, _ | f⟩ := r <;> rfl

namespace Bench

/-- What can be asked of a machine from outside. -/
inductive Call
  | push (a : Item)
  | pop
  | read (x : Item)
  | store (x v : Item)
  | obey (o : Order)
  | reset
  | execute (os : List Order)
  deriving DecidableEq, Repr

/-- What a call that succeeds gives back; after an execution, what it has printed, the number of
items that it has left on the stack, and its table. -/
inductive Reply
  | done
  | item (a : Item)
  | executed (output : List String) (depth : Nat) (table : List (Item × Item))
  deriving DecidableEq, Repr

def call (b : Bench) : Call → Bench × Except OrderFailure Reply
  | .push a => (b.push a, .ok .done)
  | .pop => (b.pop.2, b.pop.1.map .item)
  | .read x => (b, (b.read x).map .item)
  | .store x v => (b.store x v, .ok .done)
  | .obey o => answered (fun _ => .done) (b.obey o)
  | .reset => (b.reset, .ok .done)
  | .execute os =>
    answered (fun b => .executed b.output b.stack.length b.table) (b.execute os)

/-- The bench after a history of calls, which goes on after those that fail. -/
def after (b : Bench) (cs : List Call) : Bench :=
  cs.foldl (fun b c => (b.call c).1) b

theorem pushResult_running (b : Bench) (r : Except OrderFailure Item) :
    (b.pushResult r).1.running = b.running := by
  cases r <;> rfl

theorem popThen_running {next : Item → Bench → Bench × Option OrderFailure}
    (keeps : ∀ a b, (next a b).1.running = b.running) (b : Bench) :
    (b.popThen next).1.running = b.running := by
  obtain ⟨_ | ⟨a, rest⟩, table, output, running⟩ := b
  · rfl
  · exact keeps a ⟨rest, table, output, running⟩

theorem operate_running (b : Bench) (o : Order) (i : Option Instruction) :
    (b.operate o i).1.running = b.running := by
  rcases i with _ | ⟨n⟩ | ⟨x⟩ | ⟨x⟩ | ⟨op⟩ | ⟨op⟩ | _
  case some.unary => exact popThen_running (fun a b => pushResult_running b _) b
  case some.binary =>
    exact popThen_running (fun r b => popThen_running (fun l b => pushResult_running b _) b) b
  case some.print =>
    refine popThen_running (fun a b => ?_) b
    split <;> rfl
  all_goals rfl

/-- No order starts or stops the machine. -/
theorem obey_running (b : Bench) (o : Order) : (b.obey o).1.running = b.running := by
  unfold obey
  split
  · rfl
  · split
    · exact pushResult_running b _
    · split
      · exact popThen_running (fun a b => rfl) b
      · exact operate_running b o _

theorem call_running {b : Bench} (idle : b.running = false) (c : Call) :
    (b.call c).1.running = false := by
  cases c with
  | push a => exact idle
  | pop =>
    simp only [call, pop]
    split <;> exact idle
  | read x => exact idle
  | store x v => exact idle
  | obey o => rw [call, answered_fst, obey_running, idle]
  | reset => rfl
  | execute os =>
    rw [call, answered_fst]
    rfl

/-- Between calls the machine is never running. -/
theorem after_running {b : Bench} (idle : b.running = false) (cs : List Call) :
    (b.after cs).running = false := by
  induction cs generalizing b with
  | nil => exact idle
  | cons c cs ih => exact ih (call_running idle c)

end Bench

namespace Session

/-- What can be asked of an interpreter from outside, with any tree. -/
inductive Call
  | run (t : Tree)
  | execute (t : Tree)
  | evaluate (t : Tree)
  deriving Repr

inductive Reply
  | done
  | output (lines : List String)
  | value (v : Int)
  deriving DecidableEq, Repr

/-- To run is to execute with nothing stored and nothing printed. -/
def call (s : Session) : Call → Session × Except TreeFailure Reply
  | .run t => answered (fun s => .output s.output) (t.execute empty)
  | .execute t => answered (fun _ => .done) (t.execute s)
  | .evaluate t => (s, (t.evaluate s.symbols).map .value)

def after (s : Session) (cs : List Call) : Session :=
  cs.foldl (fun s c => (s.call c).1) s

end Session

/-- Machines and interpreters with any history of calls, of which any may have failed. No machine is
left running; and what is executed or run next ends as it does on a new machine or interpreter, with
the same reply or failure and in the same state. -/
theorem history_leaves_no_trace (cs : List Bench.Call) (ds : List Session.Call) :
    (Bench.fresh.after cs).running = false ∧
      (∀ os, (Bench.fresh.after cs).call (.execute os) = Bench.fresh.call (.execute os)) ∧
      (∀ is : List Instruction, (Bench.fresh.after cs).execute (is.map Instruction.order) =
        ((Machine.fresh.execute is).state.bench,
          (Machine.fresh.execute is).failure.map OrderFailure.failure)) ∧
      (∀ m : Machine, m.bench = Bench.fresh.after cs →
        m.running = false ∧ ∀ is, m.execute is = Machine.fresh.execute is) ∧
      (∀ t, (Session.empty.after ds).call (.run t) = Session.empty.call (.run t)) ∧
      ∀ p : Program, (Session.empty.after ds).run p = Session.empty.run p ∧
        (Session.empty.after ds).call (.run p.tree) =
          answered (fun s => .output s.output) ((Session.empty.run p).state,
            (Session.empty.run p).failure.map TreeFailure.failure) := by
  have idle : (Bench.fresh.after cs).running = false := Bench.after_running rfl cs
  refine ⟨idle, fun os => rfl, fun is => Machine.fresh.bench_execute is, ?_, fun t => rfl, ?_⟩
  · intro m hm
    have running : m.running = m.bench.running := rfl
    rw [running, hm]
    exact ⟨idle, fun is => rfl⟩
  · intro p
    refine ⟨rfl, ?_⟩
    rw [Session.call, Program.execute_tree]
    rfl

/-- An execution that failed in the middle, with a value stored and an operand left on the stack. -/
theorem failed_division_leaves_no_trace :
    let is : List Instruction :=
      [.push 4, .store "x", .push 1, .push 5, .push 0, .binary .div, .print]
    let m : Machine := ⟨[1], [("x", 4)], [], false⟩
    m.bench = Bench.fresh.after [.pop, .execute (is.map Instruction.order)] ∧
      m.execute [.load "x"] = Machine.fresh.execute [.load "x"] ∧
      (m.execute [.load "x"]).failure = some (.fault (.uninitialized "x")) := by
  intro is m
  have left : m.bench = Bench.fresh.after [.pop, .execute (is.map Instruction.order)] := by
    decide +kernel
  obtain ⟨_, _, _, machine, _⟩ :=
    history_leaves_no_trace [.pop, .execute (is.map Instruction.order)] []
  exact ⟨left, (machine m left).2 _, by decide +kernel⟩

end PolishCalc
