import PolishCalc.Numeral

namespace PolishCalc

inductive UnaryOp
  | negate
  | root
  deriving DecidableEq, Repr

inductive BinaryOp
  | add
  | sub
  | mul
  | div
  deriving DecidableEq, Repr

/-- Whatever goes through an expression (its text, its value, its code, its tree as data) goes as deep
as the expression does: calls are taken to be nested without a bound. The parser alone has an account
of how deep its calls are nested (`Walk`). -/
inductive Expr
  | constant (value : Int)
  | variable (name : String)
  | unary (op : UnaryOp) (operand : Expr)
  | binary (op : BinaryOp) (left right : Expr)
  deriving DecidableEq, Repr

inductive Action
  | assign (target : String) (value : Expr)
  | print (value : Expr)
  deriving DecidableEq, Repr

abbrev Program := List Action

def UnaryOp.symbol : UnaryOp → String
  | .negate => "_"
  | .root => "%"

def BinaryOp.symbol : BinaryOp → String
  | .add => "+"
  | .sub => "-"
  | .mul => "*"
  | .div => "/"

def UnaryOp.ofSymbol? (t : String) : Option UnaryOp :=
  if t = "_" then some .negate else if t = "%" then some .root else none

def BinaryOp.ofSymbol? (t : String) : Option BinaryOp :=
  if t = "+" then some .add else if t = "-" then some .sub
  else if t = "*" then some .mul else if t = "/" then some .div else none

/-- An identifier is a letter from A to Z in either case, and after it anything but a line feed. -/
def isIdentifier (t : String) : Bool :=
  match t.toList with
  | [] => false
  | c :: cs => c.isAlpha && cs.all (· != '\n')

/-- Whether all constants can be written. -/
def Expr.writable : Expr → Bool
  | .constant n => PolishCalc.writable n
  | .variable _ => true
  | .unary _ e => e.writable
  | .binary _ l r => l.writable && r.writable

def Action.expr : Action → Expr
  | .assign _ e => e
  | .print e => e

def Program.writable (p : Program) : Bool :=
  p.all fun a => a.expr.writable

/-- An expression with every binary operator between its operands, in brackets. -/
def Expr.text : Expr → String
  | .constant n => decimal n
  | .variable x => x
  | .unary op e => op.symbol ++ e.text
  | .binary op l r => "( " ++ l.text ++ " " ++ op.symbol ++ " " ++ r.text ++ " )"

def Action.text : Action → String
  | .assign x e => x ++ " := " ++ e.text
  | .print e => "Print " ++ e.text

/-- The infix text of an expression, if its constants can be written. -/
def Expr.display (e : Expr) : Except DigitLimit String :=
  if e.writable then .ok e.text else .error .writing

/-- One line for each action. -/
def Program.display (p : Program) : Except DigitLimit (List String) :=
  if p.writable then .ok (p.map Action.text) else .error .writing

end PolishCalc
