import PolishCalc.Instruction

namespace PolishCalc

/-- Operands first, then the operator. -/
def Expr.code : Expr → List Instruction
  | .constant n => [.push n]
  | .variable x => [.load x]
  | .unary op e => e.code ++ [.unary op]
  | .binary op l r => l.code ++ r.code ++ [.binary op]

def Action.code : Action → List Instruction
  | .assign x e => e.code ++ [.store x]
  | .print e => e.code ++ [.print]

def Program.code (p : Program) : List Instruction :=
  p.flatMap Action.code

/-- The assembly text of a program, if its constants can be written. -/
def Program.compile (p : Program) : Except DigitLimit (List String) :=
  if p.writable then .ok (p.code.map Instruction.text) else .error .writing

/-- Assembly text that is being written, one line after the other. -/
structure Generator where
  lines : List String
  deriving DecidableEq, Repr

namespace Generator

def empty : Generator := ⟨[]⟩

/-- The line of an instruction goes to the end, if its operand can be written. -/
def emit (g : Generator) (i : Instruction) : Outcome Generator :=
  if i.operandWritable then ⟨⟨g.lines ++ [i.text]⟩, none⟩ else ⟨g, some (.limit .writing)⟩

def expression : Generator → Expr → Outcome Generator
  | g, .constant n => g.emit (.push n)
  | g, .variable x => g.emit (.load x)
  | g, .unary op e => (g.expression e).andThen fun g => g.emit (.unary op)
  | g, .binary op l r =>
    ((g.expression l).andThen fun g => g.expression r).andThen fun g => g.emit (.binary op)

def action (g : Generator) : Action → Outcome Generator
  | .assign x e => (g.expression e).andThen fun g => g.emit (.store x)
  | .print e => (g.expression e).andThen fun g => g.emit .print

/-- The lines of a program behind those that are there already. -/
def program : Generator → Program → Outcome Generator
  | g, [] => ⟨g, none⟩
  | g, a :: p => (g.action a).andThen fun g => g.program p

end Generator

end PolishCalc
