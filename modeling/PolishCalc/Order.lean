import PolishCalc.Instruction
import PolishCalc.Session

namespace PolishCalc

/-- What an order can carry: nothing, a text or an integer. -/
abbrev Item := Option Datum

namespace Item

def ofInt (n : Int) : Item := some (.integer n)

def ofText (s : String) : Item := some (.text s)

def writable (a : Item) : Bool := a.all Datum.writable

/-- An item as it is printed. -/
def text : Item → String
  | none => "None"
  | some (.text s) => s
  | some (.integer n) => decimal n

/-- What kind of thing an item is. -/
def kind : Item → String
  | none => "NoneType"
  | some (.text _) => "str"
  | some (.integer _) => "int"

end Item

/-- An instruction as someone outside hands it over: a mnemonic with any operand. -/
structure Order where
  mnemonic : String
  operand : Item
  deriving DecidableEq, Repr

namespace Order

/-- Only known mnemonics are accepted. -/
def make (mnemonic : String) (operand : Item) : Except Failure Order :=
  if isMnemonic mnemonic then .ok ⟨mnemonic, operand⟩
  else .error (.fault (.unknownMnemonic mnemonic))

def text (o : Order) : String :=
  match o.operand with
  | none => o.mnemonic
  | a => o.mnemonic ++ " " ++ a.text

end Order

/-- The order to carry out an instruction. -/
def Instruction.order : Instruction → Order
  | .push n => ⟨"PUSH", Item.ofInt n⟩
  | .load x => ⟨"LOAD", Item.ofText x⟩
  | .store x => ⟨"STORE", Item.ofText x⟩
  | .unary op => ⟨op.mnemonic, none⟩
  | .binary op => ⟨op.mnemonic, none⟩
  | .print => ⟨"PRINT", none⟩

/-- An order is written as the line of assembly text that it comes from. -/
@[simp]
theorem Instruction.text_order (i : Instruction) : i.order.text = i.text := by
  cases i with
  | push n => rfl
  | load x => rfl
  | store x => rfl
  | unary op => rfl
  | binary op => rfl
  | print => rfl

/-- Why an order cannot be carried out. -/
inductive OrderFailure
  | failure (f : Failure)
  | complaint (c : Complaint)
  | unhandled (o : Order)
  | unsupported (symbol : String) (left right : Item)
  | notJoined (right : Item)
  | notRepeated (count : Item)
  | notOrdered (operand : Item)
  | badOperand (operation : String) (operand : Item)
  | countTooLarge
  | textTooLong
  | outOfMemory
  deriving DecidableEq, Repr

/-- Kinds are named in single quotes. -/
def Item.quotedKind (a : Item) : String := quoted a.kind

def OrderFailure.message : OrderFailure → String
  | .failure (.fault f) => f.message
  | .failure (.limit l) => l.message
  | .complaint c => c.text
  | .unhandled o => "Unhandled instruction " ++ o.text
  | .unsupported symbol l r =>
    "unsupported operand type(s) for " ++ symbol ++ ": " ++ l.quotedKind ++ " and " ++ r.quotedKind
  | .notJoined r => "can only concatenate str (not \"" ++ r.kind ++ "\") to str"
  | .notRepeated count =>
    "can" ++ String.singleton singleQuote ++ "t multiply sequence by non-int of type " ++
      count.quotedKind
  | .notOrdered a =>
    quoted "<" ++ " not supported between instances of " ++ a.quotedKind ++ " and " ++ quoted "int"
  | .badOperand operation a => "bad operand type for " ++ operation ++ ": " ++ a.quotedKind
  | .countTooLarge => "cannot fit " ++ quoted "int" ++ " into an index-sized integer"
  | .textTooLong => "repeated string is too long"
  | .outOfMemory => ""

/-- A complaint of a kind about an item, which has to be written in it. -/
def aboutItem (kind : ErrorKind) (a : Item) : OrderFailure :=
  if a.writable then .complaint ⟨kind, a, kind.note⟩ else .failure (.limit .writing)

namespace Item

/-- The failure of a computation with integers. -/
def lift : Except Failure Int → Except OrderFailure Item
  | .ok n => .ok (ofInt n)
  | .error f => .error (.failure f)

/-- The numbers below which a count can be used. -/
def countLimit : Nat := 0x8000000000000000

/-- The longest text that there is room for. -/
def roomLimit : Nat := 0x100000000

/-- A text so many times in a row. -/
def copies (s : String) (n : Int) : Except OrderFailure Item :=
  if n < -countLimit || (countLimit : Int) ≤ n then .error .countTooLarge
  else if s.isEmpty then .ok (ofText "")
  else if countLimit ≤ n.toNat * s.length then .error .textTooLong
  else if roomLimit < n.toNat * s.length then .error .outOfMemory
  else .ok (ofText (String.join (List.replicate n.toNat s)))

def add : Item → Item → Except OrderFailure Item
  | some (.integer a), some (.integer b) => lift (BinaryOp.add.apply a b)
  | some (.text s), some (.text t) => .ok (ofText (s ++ t))
  | some (.text _), b => .error (.notJoined b)
  | a, b => .error (.unsupported "+" a b)

def sub : Item → Item → Except OrderFailure Item
  | some (.integer a), some (.integer b) => lift (BinaryOp.sub.apply a b)
  | a, b => .error (.unsupported "-" a b)

def mul : Item → Item → Except OrderFailure Item
  | some (.integer a), some (.integer b) => lift (BinaryOp.mul.apply a b)
  | some (.text s), some (.integer n) => copies s n
  | some (.integer n), some (.text s) => copies s n
  | some (.text _), b => .error (.notRepeated b)
  | a, some (.text _) => .error (.notRepeated a)
  | a, b => .error (.unsupported "*" a b)

/-- Zero as a divisor is found before anything else is. -/
def div : Item → Item → Except OrderFailure Item
  | some (.integer a), some (.integer b) => lift (BinaryOp.div.apply a b)
  | a, some (.integer b) =>
    .error (if b = 0 then aboutItem .divideByZero a else .badOperand "abs()" a)
  | some (.integer _), b => .error (.badOperand "abs()" b)
  | a, _ => .error (.badOperand "abs()" a)

/-- An operation on two items. -/
def apply₂ : BinaryOp → Item → Item → Except OrderFailure Item
  | .add => add
  | .sub => sub
  | .mul => mul
  | .div => div

/-- An operation on one item. -/
def apply₁ : UnaryOp → Item → Except OrderFailure Item
  | op, some (.integer a) => lift (op.apply a)
  | .negate, a => .error (.badOperand "unary -" a)
  | .root, a => .error (.notOrdered a)

theorem apply₁_ofInt (op : UnaryOp) (a : Int) : apply₁ op (ofInt a) = lift (op.apply a) := by
  cases op <;> rfl

theorem apply₂_ofInt (op : BinaryOp) (a b : Int) :
    apply₂ op (ofInt a) (ofInt b) = lift (op.apply a b) := by
  cases op <;> rfl

end Item

end PolishCalc
