import PolishCalc.Listing
import PolishCalc.Order

namespace PolishCalc

/-- A machine that takes orders nobody has checked, so that its stack and its table can hold
anything that an order can carry. The top of the stack comes first. -/
structure Bench where
  stack : List Item
  table : List (Item × Item)
  output : List String
  running : Bool
  deriving DecidableEq, Repr

def Table.items (t : Table) : List (Item × Item) :=
  t.map fun p => (Item.ofText p.1, Item.ofInt p.2)

/-- A machine is a bench with nothing but integers and names on it. -/
def Machine.bench (m : Machine) : Bench :=
  ⟨m.stack.map Item.ofInt, m.table.items, m.output, m.running⟩

namespace Bench

def fresh : Bench := ⟨[], [], [], false⟩

def reset (_ : Bench) : Bench := fresh

def push (b : Bench) (a : Item) : Bench := { b with stack := a :: b.stack }

/-- A new name goes to the end of a table; a known one keeps its place. -/
def setEntry : List (Item × Item) → Item → Item → List (Item × Item)
  | [], x, v => [(x, v)]
  | (y, w) :: t, x, v => if y = x then (y, v) :: t else (y, w) :: setEntry t x v

def getEntry? : List (Item × Item) → Item → Option Item
  | [], _ => none
  | (y, w) :: t, x => if y = x then some w else getEntry? t x

def store (b : Bench) (x v : Item) : Bench := { b with table := setEntry b.table x v }

/-- The value of a name that is a text, or of something else that was stored to. -/
def read (b : Bench) (x : Item) : Except OrderFailure Item :=
  match getEntry? b.table x with
  | some v => .ok v
  | none =>
    match x with
    | some (.text s) => .error (.failure (.fault (.uninitialized s)))
    | x => .error (aboutItem .uninitialized x)

def underflow : OrderFailure := .failure (.fault .stackUnderflow)

def pop (b : Bench) : Except OrderFailure Item × Bench :=
  match b.stack with
  | [] => (.error underflow, b)
  | a :: rest => (.ok a, { b with stack := rest })

/-- Goes on with what is popped, or stops where nothing is there to pop. -/
def popThen (b : Bench) (next : Item → Bench → Bench × Option OrderFailure) :
    Bench × Option OrderFailure :=
  match b.pop with
  | (.ok a, b') => next a b'
  | (.error f, b') => (b', some f)

/-- Pushes a result, or stops with the failure in its place. -/
def pushResult (b : Bench) : Except OrderFailure Item → Bench × Option OrderFailure
  | .ok v => (b.push v, none)
  | .error f => (b, some f)

/-- An operation of the machine that needs no operand of its own. -/
def operate (b : Bench) (o : Order) : Option Instruction → Bench × Option OrderFailure
  | some (.unary op) => b.popThen fun a b => b.pushResult (Item.apply₁ op a)
  | some (.binary op) =>
    b.popThen fun r b => b.popThen fun l b => b.pushResult (Item.apply₂ op l r)
  | some .print => b.popThen fun a b =>
    if a.writable then ({ b with output := b.output ++ ["=== " ++ a.text] }, none)
    else (b, some (.failure (.limit .writing)))
  | _ =>
    (b, some (if o.operand.writable then .unhandled o else .failure (.limit .writing)))

/-- Carries out an order. Items that were taken off the stack are gone even if it fails. -/
def obey (b : Bench) (o : Order) : Bench × Option OrderFailure :=
  if o.mnemonic = "PUSH" then (b.push o.operand, none)
  else if o.mnemonic = "LOAD" then b.pushResult (b.read o.operand)
  else if o.mnemonic = "STORE" then b.popThen fun a b => (b.store o.operand a, none)
  else b.operate o (plainInstruction? o.mnemonic)

/-- Carries out orders in turn, up to the first that fails. -/
def obeyAll : Bench → List Order → Bench × Option OrderFailure
  | b, [] => (b, none)
  | b, o :: os =>
    match b.obey o with
    | (b', none) => b'.obeyAll os
    | (b', some f) => (b', some f)

/-- Carries out orders on a bench that has been reset. -/
def execute (b : Bench) (os : List Order) : Bench × Option OrderFailure :=
  let (b', f) := ({ b.reset with running := true } : Bench).obeyAll os
  ({ b' with running := false }, f)

/-- What is said about an execution that left the bench as it is. -/
def listing (b : Bench) : Except DigitLimit (List String) :=
  if b.table.all fun p => p.1.writable && p.2.writable then
    .ok (executionLines b.output b.stack.length
      (Table.heading ++ b.table.map fun p => p.1.text ++ " :   " ++ p.2.text))
  else .error .writing

end Bench

theorem Item.ofText_inj {x y : String} : Item.ofText x = Item.ofText y ↔ x = y := by
  simp [Item.ofText]

theorem Bench.setEntry_items (t : Table) (x : String) (v : Int) :
    setEntry t.items (Item.ofText x) (Item.ofInt v) = (t.set x v).items := by
  induction t with
  | nil => rfl
  | cons p t ih =>
    obtain ⟨y, w⟩ := p
    simp only [Table.items, List.map_cons, setEntry, Table.set, Item.ofText_inj] at ih ⊢
    split
    · simp
    · simp [ih]

theorem Bench.getEntry?_items (t : Table) (x : String) :
    getEntry? t.items (Item.ofText x) = (t.get? x).map Item.ofInt := by
  induction t with
  | nil => rfl
  | cons p t ih =>
    obtain ⟨y, w⟩ := p
    simp only [Table.items, List.map_cons, getEntry?, Table.get?, Item.ofText_inj] at ih ⊢
    split
    · rfl
    · exact ih

theorem Machine.bench_pushResult (m : Machine) (r : Except Failure Int) :
    m.bench.pushResult (Item.lift r) =
      ((m.pushResult r).state.bench, (m.pushResult r).failure.map OrderFailure.failure) := by
  cases r <;> rfl

theorem Bench.read_bench (m : Machine) (x : String) :
    m.bench.read (Item.ofText x) = Item.lift (m.table.read x) := by
  simp only [read, Machine.bench, getEntry?_items, Table.read]
  cases m.table.get? x <;> rfl

theorem Machine.bench_popThen (m : Machine) {next : Int → Machine → Outcome Machine}
    {next' : Item → Bench → Bench × Option OrderFailure}
    (same : ∀ a m, next' (Item.ofInt a) m.bench =
      ((next a m).state.bench, (next a m).failure.map OrderFailure.failure)) :
    m.bench.popThen next' =
      ((m.popThen next).state.bench, (m.popThen next).failure.map OrderFailure.failure) := by
  obtain ⟨stack, table, output, running⟩ := m
  cases stack with
  | nil => rfl
  | cons a rest => exact same a ⟨rest, table, output, running⟩

/-- Orders made from instructions do on a bench what the instructions do on a machine. -/
theorem Machine.bench_obey (m : Machine) (i : Instruction) :
    m.bench.obey i.order = ((m.step i).state.bench, (m.step i).failure.map OrderFailure.failure) := by
  cases i with
  | push n => rfl
  | load x =>
    have read : m.bench.obey (Instruction.load x).order =
      m.bench.pushResult (m.bench.read (Item.ofText x)) := rfl
    rw [read, Bench.read_bench]
    exact bench_pushResult _ _
  | store x =>
    refine bench_popThen m fun a m => ?_
    simp only [Bench.store, bench, Instruction.order, Bench.setEntry_items, setVariable]
    rfl
  | unary op =>
    have unary : m.bench.obey (Instruction.unary op).order =
        m.bench.popThen fun a b => b.pushResult (Item.apply₁ op a) := by
      cases op <;> rfl
    rw [unary]
    refine bench_popThen m fun a m => ?_
    rw [Item.apply₁_ofInt]
    exact bench_pushResult m _
  | binary op =>
    have binary : m.bench.obey (Instruction.binary op).order =
        m.bench.popThen fun r b => b.popThen fun l b => b.pushResult (Item.apply₂ op l r) := by
      cases op <;> rfl
    rw [binary]
    refine bench_popThen m fun b m => bench_popThen m fun a m => ?_
    rw [Item.apply₂_ofInt]
    exact bench_pushResult m _
  | print =>
    refine bench_popThen m fun a m => ?_
    by_cases h : writable a = true
    · simp [h, printed, bench, Item.writable, Item.ofInt, Datum.writable, Item.text]
    · simp [h, printed, Item.writable, Item.ofInt, Datum.writable]

end PolishCalc
