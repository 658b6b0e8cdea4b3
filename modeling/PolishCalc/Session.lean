import PolishCalc.Program
import PolishCalc.Table

namespace PolishCalc

/-- The quotient of the sizes, with a sign if only one of the two integers has one. -/
def signedQuotient (a b : Int) : Int :=
  let q : Int := (a.natAbs / b.natAbs : Nat)
  if decide (a < 0) = decide (b < 0) then q else -q

def quotient (a b : Int) : Except Failure Int :=
  if b = 0 then .error (Fault.zeroDivision a).failure else .ok (signedQuotient a b)

/-- Newton's iteration from a guess that is not below the root: it stops where the guess no longer
falls. The core library, on which alone the programs are built, has no root of integers. -/
def rootFrom (n guess : Nat) : Nat :=
  let next := (guess + n / guess) / 2
  if next < guess then rootFrom n next else guess
termination_by guess

/-- The greatest natural number whose square does not exceed `n`. -/
def natRoot (n : Nat) : Nat :=
  if n ≤ 1 then n else rootFrom n (1 <<< (n.log2 / 2 + 1))

/-- The square root cut off to an integer. -/
def squareRoot (a : Int) : Except Failure Int :=
  if a < 0 then .error (Fault.negativeRoot a).failure else .ok (natRoot a.toNat)

def UnaryOp.apply : UnaryOp → Int → Except Failure Int
  | .negate, a => .ok (-a)
  | .root, a => squareRoot a

def BinaryOp.apply : BinaryOp → Int → Int → Except Failure Int
  | .add, a, b => .ok (a + b)
  | .sub, a, b => .ok (a - b)
  | .mul, a, b => .ok (a * b)
  | .div, a, b => quotient a b

/-- A line of output. -/
def printed (n : Int) : Except Failure String :=
  if writable n then .ok ("=== " ++ decimal n) else .error (.limit .writing)

/-- Why a quotient with divisor zero has no value. -/
def Expr.divisionFailure (e : Expr) : Failure :=
  match e.display with
  | .ok s => .fault (.zeroDivisor s)
  | .error l => .limit l

/-- The value of an expression. A division tests its divisor before it works out its operands
from left to right. -/
def Expr.evaluate (t : Table) : Expr → Except Failure Int
  | .constant n => .ok n
  | .variable x => t.read x
  | .unary op e => do
    let a ← e.evaluate t
    op.apply a
  | .binary .div l r => do
    let d ← r.evaluate t
    if d = 0 then .error (Expr.binary .div l r).divisionFailure
    else
      let a ← l.evaluate t
      let b ← r.evaluate t
      BinaryOp.div.apply a b
  | .binary op l r => do
    let a ← l.evaluate t
    let b ← r.evaluate t
    op.apply a b

/-- What a program has stored and printed so far. -/
structure Session where
  symbols : Table
  output : List String
  deriving DecidableEq, Repr

namespace Session

def empty : Session := ⟨[], []⟩

/-- An action either succeeds or changes nothing. -/
def act (s : Session) : Action → Except Failure Session
  | .assign x e => do
    let v ← e.evaluate s.symbols
    .ok { s with symbols := s.symbols.set x v }
  | .print e => do
    let v ← e.evaluate s.symbols
    let line ← printed v
    .ok { s with output := s.output ++ [line] }

/-- The actions in turn, up to the first that fails. -/
def execute : Session → Program → Outcome Session
  | s, [] => ⟨s, none⟩
  | s, a :: p =>
    match s.act a with
    | .ok s' => execute s' p
    | .error f => ⟨s, some f⟩

/-- A program from the beginning: what was stored or printed before is forgotten. -/
def run (_ : Session) (p : Program) : Outcome Session := empty.execute p

end Session

end PolishCalc
