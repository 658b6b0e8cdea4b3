import PolishCalc.Numeral
import PolishCalc.Quoted

namespace PolishCalc

inductive ErrorKind
  | general
  | prematureEnd
  | illegalValue
  | divideByZero
  | uninitialized
  | stackUnderflow
  deriving DecidableEq, Repr

def ErrorKind.name : ErrorKind → String
  | .general => "Error"
  | .prematureEnd => "PrematureEnd"
  | .illegalValue => "IllegalValue"
  | .divideByZero => "DivideByZero"
  | .uninitialized => "Uninitialized"
  | .stackUnderflow => "StackUnderflow"

/-- What an error of a kind says when nothing more is known. -/
def ErrorKind.note : ErrorKind → Option String
  | .general => none
  | .prematureEnd => some "Premature end of program"
  | .illegalValue => some "Illegal value"
  | .divideByZero => some "Division by zero"
  | .uninitialized => some "Uninitialized variable"
  | .stackUnderflow => some "Operand stack is empty"

/-- Kinds are nested: every kind is general, and an empty stack is an illegal value. -/
def ErrorKind.isA (kind other : ErrorKind) : Bool :=
  kind = other || other = .general || (kind = .stackUnderflow && other = .illegalValue)

/-- What an error or an operand can carry. -/
inductive Datum
  | text (s : String)
  | integer (n : Int)
  deriving DecidableEq, Repr

def Datum.writable : Datum → Bool
  | .text _ => true
  | .integer n => PolishCalc.writable n

/-- Texts are shown in quotes, integers as they are. -/
def Datum.shown : Datum → String
  | .text s => quoted s
  | .integer n => decimal n

/-- An error as the user sees it. -/
structure Complaint where
  kind : ErrorKind
  value : Option Datum
  note : Option String
  deriving DecidableEq, Repr

def Complaint.writable (c : Complaint) : Bool :=
  c.value.all Datum.writable

/-- Where the note is missing or empty, the name of the kind stands for it. -/
def Complaint.heading (c : Complaint) : String :=
  match c.note with
  | none => c.kind.name
  | some note => if note.isEmpty then c.kind.name else note

def Complaint.text (c : Complaint) : String :=
  match c.value with
  | none => c.heading
  | some value => c.heading ++ ": " ++ value.shown

/-- The message, which names the value and so needs a value that can be written. -/
def Complaint.message (c : Complaint) : Except DigitLimit String :=
  if c.writable then .ok c.text else .error .writing

def Complaint.report (c : Complaint) : String :=
  c.kind.name ++ " error: " ++ c.text

/-- All that can be wrong with a program. -/
inductive Fault
  | noAction
  | nothingFollows (token : String)
  | notAnAction (token : String)
  | noExpression
  | notAnExpression (token : String)
  | numeralTarget (name : String)
  | zeroDivisor (quotient : String)
  | zeroDivision (dividend : Int)
  | negativeRoot (operand : Int)
  | uninitialized (name : String)
  | stackUnderflow
  | unknownMnemonic (mnemonic : String)
  | missingOperand (mnemonic : String)
  | operandNotInteger (operand : String)
  | operandNotName (mnemonic operand : String)
  deriving DecidableEq, Repr

/-- A complaint of a kind about a text, with its own note. -/
def aboutText (kind : ErrorKind) (s note : String) : Complaint :=
  ⟨kind, some (.text s), some note⟩

/-- The wording of every fault. -/
def Fault.complaint : Fault → Complaint
  | .noAction => ⟨.prematureEnd, none, ErrorKind.prematureEnd.note⟩
  | .nothingFollows token => aboutText .prematureEnd token "Nothing follows"
  | .notAnAction token => aboutText .illegalValue token "Expected an action"
  | .noExpression => ⟨.illegalValue, none, some "Expected an expression but the program ended"⟩
  | .notAnExpression token => aboutText .illegalValue token "Expected an expression"
  | .numeralTarget name => aboutText .illegalValue name "Cannot assign to a numeral"
  | .zeroDivisor quotient => ⟨.divideByZero, some (.text quotient), ErrorKind.divideByZero.note⟩
  | .zeroDivision dividend => ⟨.divideByZero, some (.integer dividend), ErrorKind.divideByZero.note⟩
  | .negativeRoot operand =>
    ⟨.illegalValue, some (.integer operand), some "Square root of a negative value"⟩
  | .uninitialized name => ⟨.uninitialized, some (.text name), ErrorKind.uninitialized.note⟩
  | .stackUnderflow => ⟨.stackUnderflow, none, ErrorKind.stackUnderflow.note⟩
  | .unknownMnemonic mnemonic => aboutText .illegalValue mnemonic "Unknown Soros instruction"
  | .missingOperand mnemonic => aboutText .illegalValue mnemonic "Missing operand for"
  | .operandNotInteger operand => aboutText .illegalValue operand "PUSH expects an integer operand"
  | .operandNotName mnemonic operand =>
    aboutText .illegalValue operand (mnemonic ++ " expects a variable name")

def Fault.message (f : Fault) : String :=
  f.complaint.text

def Fault.report (f : Fault) : String :=
  f.complaint.report

/-- Why a computation stops: a fault of the program, or an integer with too many digits. -/
inductive Failure
  | fault (f : Fault)
  | limit (l : DigitLimit)
  deriving DecidableEq, Repr

/-- A fault whose message cannot be written gives way to the digit limit. -/
def Fault.failure (f : Fault) : Failure :=
  if f.complaint.writable then .fault f else .limit .writing

/-- What a computation leaves behind, and why it stopped early if it did. -/
structure Outcome (σ : Type) where
  state : σ
  failure : Option Failure

/-- Goes on from what is left behind, unless the computation has stopped early. -/
def Outcome.andThen {σ : Type} (o : Outcome σ) (next : σ → Outcome σ) : Outcome σ :=
  match o with
  | ⟨s, none⟩ => next s
  | ⟨s, some f⟩ => ⟨s, some f⟩

end PolishCalc
