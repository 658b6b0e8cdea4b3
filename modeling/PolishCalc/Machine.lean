import PolishCalc.Instruction
import PolishCalc.Session

namespace PolishCalc

/-- A stack machine; the top of its stack comes first. -/
structure Machine where
  stack : List Int
  table : Table
  output : List String
  running : Bool
  deriving DecidableEq, Repr

namespace Machine

def fresh : Machine := ⟨[], [], [], false⟩

def reset (_ : Machine) : Machine := fresh

def push (m : Machine) (n : Int) : Machine := { m with stack := n :: m.stack }

def pop (m : Machine) : Except Failure Int × Machine :=
  match m.stack with
  | [] => (.error (.fault .stackUnderflow), m)
  | a :: rest => (.ok a, { m with stack := rest })

/-- Goes on with what is popped, or stops where nothing is there to pop. -/
def popThen (m : Machine) (next : Int → Machine → Outcome Machine) : Outcome Machine :=
  match m.pop with
  | (.ok a, m') => next a m'
  | (.error f, m') => ⟨m', some f⟩

@[simp]
theorem popThen_cons (next : Int → Machine → Outcome Machine) (a : Int) (rest : List Int) (t : Table)
    (output : List String) (running : Bool) :
    (⟨a :: rest, t, output, running⟩ : Machine).popThen next =
      next a ⟨rest, t, output, running⟩ := rfl

@[simp]
theorem popThen_push (next : Int → Machine → Outcome Machine) (m : Machine) (a : Int) :
    (m.push a).popThen next = next a m := rfl

def setVariable (m : Machine) (x : String) (v : Int) : Machine :=
  { m with table := m.table.set x v }

/-- Pushes a result, or stops with the failure in its place. -/
def pushResult (m : Machine) : Except Failure Int → Outcome Machine
  | .ok v => ⟨m.push v, none⟩
  | .error f => ⟨m, some f⟩

/-- One instruction. Operands that were taken off the stack are gone even if it fails. -/
def step (m : Machine) : Instruction → Outcome Machine
  | .push n => ⟨m.push n, none⟩
  | .load x => m.pushResult (m.table.read x)
  | .store x => m.popThen fun a m => ⟨m.setVariable x a, none⟩
  | .unary op => m.popThen fun a m => m.pushResult (op.apply a)
  | .binary op => m.popThen fun b m => m.popThen fun a m => m.pushResult (op.apply a b)
  | .print => m.popThen fun a m =>
    match printed a with
    | .ok line => ⟨{ m with output := m.output ++ [line] }, none⟩
    | .error f => ⟨m, some f⟩

/-- The instructions in turn, up to the first that fails. -/
def steps : Machine → List Instruction → Outcome Machine
  | m, [] => ⟨m, none⟩
  | m, i :: is =>
    match m.step i with
    | ⟨m', none⟩ => steps m' is
    | ⟨m', some f⟩ => ⟨m', some f⟩

/-- A list of instructions on a machine that has been reset. -/
def execute (m : Machine) (is : List Instruction) : Outcome Machine :=
  let o := steps { m.reset with running := true } is
  { o with state := { o.state with running := false } }

end Machine

end PolishCalc
