namespace PolishCalc

/-- The most digits that an integer may have where it is read from text or written as text. -/
def digitLimit : Nat := 4300

/-- What can go wrong between integers and their texts. -/
inductive DigitLimit
  | reading (digits : Nat)
  | writing
  deriving DecidableEq, Repr

def DigitLimit.message : DigitLimit → String
  | .reading digits =>
    "Exceeds the limit (" ++ digitLimit.repr ++ " digits) for integer string conversion: value has " ++
      digits.repr ++ " digits; use sys.set_int_max_str_digits() to increase the limit"
  | .writing =>
    "Exceeds the limit (" ++ digitLimit.repr ++ " digits) for integer string conversion; " ++
      "use sys.set_int_max_str_digits() to increase the limit"

/-- A minus sign in front of a numeral is not one of its digits. -/
def unsigned : List Char → List Char
  | '-' :: cs => cs
  | cs => cs

/-- Numerals are an optional minus sign and one or more of the digits 0 to 9. -/
def isNumeral (t : String) : Bool :=
  !(unsigned t.toList).isEmpty && (unsigned t.toList).all Char.isDigit

/-- The number of digits of a numeral, leading zeros included. -/
def digitCount (t : String) : Nat :=
  (unsigned t.toList).length

/-- The integer that a numeral stands for. -/
def numeralValue (t : String) : Int :=
  match t.toList with
  | '-' :: ds => -(Nat.ofDigitChars 10 ds 0 : Int)
  | ds => (Nat.ofDigitChars 10 ds 0 : Int)

/-- The integer that a numeral stands for, if the numeral is short enough to be read. -/
def readNumeral (t : String) : Except DigitLimit Int :=
  if digitCount t ≤ digitLimit then .ok (numeralValue t) else .error (.reading (digitCount t))

/-- The shortest numeral of an integer. -/
def decimal : Int → String
  | .ofNat n => n.repr
  | .negSucc n => "-" ++ (n + 1).repr

/-- Whether an integer has few enough digits to be written. -/
def writable (n : Int) : Bool :=
  n.natAbs < Nat.pow 10 digitLimit

def writeInteger (n : Int) : Except DigitLimit String :=
  if writable n then .ok (decimal n) else .error .writing

end PolishCalc
