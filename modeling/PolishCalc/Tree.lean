import PolishCalc.Instruction
import PolishCalc.Json
import PolishCalc.Session

namespace PolishCalc

/-- A syntax tree that nobody has checked: any node may stand in any place, operators may be any
text, and nodes may be missing or bare. -/
inductive Tree
  | missing
  | bare
  | program (actions : List Tree)
  | assign (name : String) (value : Tree)
  | print (value : Tree)
  | constant (n : Int)
  | variable (name : String)
  | unary (op : String) (operand : Tree)
  | binary (op : String) (left right : Tree)
  deriving Repr

def Expr.tree : Expr → Tree
  | .constant n => .constant n
  | .variable x => .variable x
  | .unary op e => .unary op.symbol e.tree
  | .binary op l r => .binary op.symbol l.tree r.tree

def Action.tree : Action → Tree
  | .assign x e => .assign x e.tree
  | .print e => .print e.tree

def Program.tree (p : Program) : Tree :=
  .program (p.map Action.tree)

/-- What can be asked of a tree. -/
inductive TreeUse
  | display
  | execute
  | evaluate
  | compile
  deriving DecidableEq, Repr

def TreeUse.word : TreeUse → String
  | .display => "display"
  | .execute => "execute"
  | .evaluate => "evaluate"
  | .compile => "compile"

/-- Why a tree cannot be used. -/
inductive TreeFailure
  | failure (f : Failure)
  | misplaced (use : TreeUse) (node : String)
  | unknownOperator (op : String)
  deriving DecidableEq, Repr

/-- What a tree looks like in infix form: a line, or for a program one entry for each action. -/
inductive Shown
  | line (s : String)
  | block (entries : List Shown)
  deriving Repr

mutual

/-- An entry of a program inside another line. -/
def Shown.literal : Shown → String
  | .line s => quoted s
  | .block entries => "[" ++ ", ".intercalate (Shown.literals entries) ++ "]"

def Shown.literals : List Shown → List String
  | [] => []
  | s :: ss => s.literal :: Shown.literals ss

end

def Shown.text : Shown → String
  | .line s => s
  | s => s.literal

namespace Tree

/-- The name of the kind of node at the top. -/
def nodeName : Tree → String
  | .missing => "NoneType"
  | .bare => "Node"
  | .program _ => "Program"
  | .assign .. => "Assign"
  | .print _ => "Print"
  | .constant _ => "Constant"
  | .variable _ => "Variable"
  | .unary .. => "UnaryOp"
  | .binary .. => "BinaryOp"

/-- The failure of a computation that knows nothing of trees. -/
def lift {α : Type} : Except Failure α → Except TreeFailure α
  | .ok a => .ok a
  | .error f => .error (.failure f)

mutual

/-- Names that are assigned to are no numerals; the first that is one, parts before the whole. -/
def check : Tree → Except Failure Unit
  | .program actions => checkAll actions
  | .assign name e => do
    e.check
    if isNumeral name then .error (.fault (.numeralTarget name)) else .ok ()
  | .print e => e.check
  | .unary _ e => e.check
  | .binary _ l r => do
    l.check
    r.check
  | _ => .ok ()

def checkAll : List Tree → Except Failure Unit
  | [] => .ok ()
  | t :: ts => do
    t.check
    checkAll ts

end

mutual

/-- A tree in infix form. -/
def display : Tree → Except TreeFailure Shown
  | .program actions => do
    let entries ← displayAll actions
    .ok (.block entries)
  | .assign name e => do
    let s ← e.display
    .ok (.line (name ++ " := " ++ s.text))
  | .print e => do
    let s ← e.display
    .ok (.line ("Print " ++ s.text))
  | .constant n => if writable n then .ok (.line (decimal n)) else .error (.failure (.limit .writing))
  | .variable x => .ok (.line x)
  | .unary op e => do
    let s ← e.display
    .ok (.line (op ++ s.text))
  | .binary op l r => do
    let s ← l.display
    let s' ← r.display
    .ok (.line ("( " ++ s.text ++ " " ++ op ++ " " ++ s'.text ++ " )"))
  | .missing => .error (.misplaced .display "NoneType")
  | .bare => .error (.misplaced .display "Node")

def displayAll : List Tree → Except TreeFailure (List Shown)
  | [] => .ok []
  | t :: ts => do
    let s ← t.display
    let ss ← displayAll ts
    .ok (s :: ss)

end

/-- The failure of a quotient with divisor zero. -/
def divisionFailure (t : Tree) : TreeFailure :=
  match t.display with
  | .ok s => .failure (.fault (.zeroDivisor s.text))
  | .error f => f

/-- The value of a tree. Every unary operator but the negation takes the root, and every binary
operator but the first three divides. -/
def evaluate (t : Table) : Tree → Except TreeFailure Int
  | .constant n => .ok n
  | .variable x => lift (t.read x)
  | .unary op e => do
    let a ← e.evaluate t
    lift ((if op = "_" then UnaryOp.negate else UnaryOp.root).apply a)
  | .binary op l r =>
    let plain (op : BinaryOp) : Except TreeFailure Int := do
      let a ← l.evaluate t
      let b ← r.evaluate t
      lift (op.apply a b)
    if op = "+" then plain .add
    else if op = "-" then plain .sub
    else if op = "*" then plain .mul
    else do
      let d ← r.evaluate t
      if d = 0 then .error (Tree.binary op l r).divisionFailure else plain .div
  | e => .error (.misplaced .evaluate e.nodeName)

mutual

/-- Carries out a tree: the state in which it ends, and what stopped it. -/
def execute : Session → Tree → Session × Option TreeFailure
  | s, .program actions => executeAll s actions
  | s, .assign x e =>
    match e.evaluate s.symbols with
    | .ok v => ({ s with symbols := s.symbols.set x v }, none)
    | .error f => (s, some f)
  | s, .print e =>
    match e.evaluate s.symbols >>= fun v => lift (printed v) with
    | .ok line => ({ s with output := s.output ++ [line] }, none)
    | .error f => (s, some f)
  | s, t => (s, some (.misplaced .execute t.nodeName))

def executeAll : Session → List Tree → Session × Option TreeFailure
  | s, [] => (s, none)
  | s, t :: ts =>
    match execute s t with
    | (s', none) => executeAll s' ts
    | (s', some f) => (s', some f)

end

/-- The mnemonic of an operator, whatever its number of operands. -/
def mnemonic (op : String) : Except TreeFailure String :=
  match UnaryOp.ofSymbol? op with
  | some u => .ok u.mnemonic
  | none =>
    match BinaryOp.ofSymbol? op with
    | some b => .ok b.mnemonic
    | none => .error (.unknownOperator op)

mutual

/-- The assembly text of a tree. -/
def compile : Tree → Except TreeFailure (List String)
  | .program actions => compileAll actions
  | .assign x e => do
    let ls ← e.compile
    .ok (ls ++ [(Instruction.store x).text])
  | .print e => do
    let ls ← e.compile
    .ok (ls ++ [Instruction.print.text])
  | .constant n =>
    if writable n then .ok [(Instruction.push n).text] else .error (.failure (.limit .writing))
  | .variable x => .ok [(Instruction.load x).text]
  | .unary op e => do
    let ls ← e.compile
    let m ← mnemonic op
    .ok (ls ++ [m])
  | .binary op l r => do
    let ls ← l.compile
    let ls' ← r.compile
    let m ← mnemonic op
    .ok (ls ++ ls' ++ [m])
  | .missing => .error (.misplaced .compile "NoneType")
  | .bare => .error (.misplaced .compile "Node")

def compileAll : List Tree → Except TreeFailure (List String)
  | [] => .ok []
  | t :: ts => do
    let ls ← t.compile
    let ls' ← compileAll ts
    .ok (ls ++ ls')

end

mutual

/-- A tree as a JSON value. -/
def json : Tree → Json
  | .missing => .null
  | .bare => .object [("type", .text "Node")]
  | .program actions => .object [("type", .text "Program"), ("actions", .list (jsonAll actions))]
  | .assign x e => .object [("type", .text "Assign"), ("name", .text x), ("expr", e.json)]
  | .print e => .object [("type", .text "Print"), ("expr", e.json)]
  | .constant n => .object [("type", .text "Constant"), ("value", .integer n)]
  | .variable x => .object [("type", .text "Variable"), ("name", .text x)]
  | .unary op e => .object [("type", .text "UnaryOp"), ("op", .text op), ("operand", e.json)]
  | .binary op l r =>
    .object [("type", .text "BinaryOp"), ("op", .text op), ("left", l.json), ("right", r.json)]

def jsonAll : List Tree → List Json
  | [] => []
  | t :: ts => t.json :: jsonAll ts

end

end Tree

def TreeFailure.message : TreeFailure → String
  | .failure (.fault f) => f.message
  | .failure (.limit l) => l.message
  | .misplaced use node => "Cannot " ++ use.word ++ " " ++ node
  | .unknownOperator op => quoted op

end PolishCalc
