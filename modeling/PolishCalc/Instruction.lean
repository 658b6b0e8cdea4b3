import PolishCalc.Fault
import PolishCalc.Program

namespace PolishCalc

inductive Instruction
  | push (n : Int)
  | load (name : String)
  | store (name : String)
  | unary (op : UnaryOp)
  | binary (op : BinaryOp)
  | print
  deriving DecidableEq, Repr

def UnaryOp.mnemonic : UnaryOp → String
  | .negate => "NEG"
  | .root => "SQRT"

def BinaryOp.mnemonic : BinaryOp → String
  | .add => "ADD"
  | .sub => "SUB"
  | .mul => "MUL"
  | .div => "DIV"

/-- An instruction as a line of assembly text. -/
def Instruction.text : Instruction → String
  | .push n => "PUSH " ++ decimal n
  | .load x => "LOAD " ++ x
  | .store x => "STORE " ++ x
  | .unary op => op.mnemonic
  | .binary op => op.mnemonic
  | .print => "PRINT"

/-- Whether the operand can be written. -/
def Instruction.operandWritable : Instruction → Bool
  | .push n => PolishCalc.writable n
  | _ => true

/-- The operations that take no operand, by mnemonic. -/
def plainInstruction? (mnemonic : String) : Option Instruction :=
  if mnemonic = "ADD" then some (.binary .add)
  else if mnemonic = "SUB" then some (.binary .sub)
  else if mnemonic = "MUL" then some (.binary .mul)
  else if mnemonic = "DIV" then some (.binary .div)
  else if mnemonic = "NEG" then some (.unary .negate)
  else if mnemonic = "SQRT" then some (.unary .root)
  else if mnemonic = "PRINT" then some .print
  else none

def isMnemonic (m : String) : Bool :=
  m = "PUSH" || m = "LOAD" || m = "STORE" || (plainInstruction? m).isSome

end PolishCalc
