import PolishCalc.Instruction
import PolishCalc.Log

namespace PolishCalc

/-- What a line of assembly text holds. -/
inductive Line
  | ending
  | blank
  | unknown (mnemonic : String)
  | instruction (i : Instruction)
  | malformed (f : Failure)
  deriving DecidableEq, Repr

/-- The operand of a pushing instruction is a numeral. -/
def pushLine (operand : String) : Line :=
  if isNumeral operand then
    match readNumeral operand with
    | .ok n => .instruction (.push n)
    | .error l => .malformed (.limit l)
  else .malformed (.fault (.operandNotInteger operand))

/-- A name is any word that is not a numeral. -/
def nameLine (mnemonic operand : String) (make : String → Instruction) : Line :=
  if isNumeral operand then .malformed (.fault (.operandNotName mnemonic operand))
  else .instruction (make operand)

/-- The instruction of a mnemonic and the words after it; words that are not asked for are
ignored. -/
def decodeLine (mnemonic : String) (operands : List String) : Line :=
  match plainInstruction? mnemonic with
  | some i => .instruction i
  | none =>
    if isMnemonic mnemonic then
      match operands with
      | [] => .malformed (.fault (.missingOperand mnemonic))
      | operand :: _ =>
        if mnemonic = "PUSH" then pushLine operand
        else if mnemonic = "LOAD" then nameLine mnemonic operand .load
        else nameLine mnemonic operand .store
    else .unknown mnemonic

/-- A line with nothing but a dot ends the text. -/
def readLine (s : String) : Line :=
  match words s with
  | [] => .blank
  | w :: ws => if w = "." && ws.isEmpty then .ending else decodeLine w ws

/-- An unknown mnemonic, and the number of its line. -/
structure Warning where
  line : Nat
  mnemonic : String
  deriving DecidableEq, Repr

def Warning.text (w : Warning) : String :=
  "Illegal assembly instr " ++ w.mnemonic

def Warning.event (w : Warning) : LogEvent :=
  ⟨.warning, "soros", "line " ++ w.line.repr ++ ": " ++ w.text⟩

/-- The instructions of assembly text or what is wrong with it, and the warnings up to there. -/
structure Assembled where
  result : Except Failure (List Instruction)
  warnings : List Warning

def Assembled.cons (i : Instruction) (a : Assembled) : Assembled :=
  { a with result := a.result.map (i :: ·) }

def Assembled.warn (w : Warning) (a : Assembled) : Assembled :=
  { a with warnings := w :: a.warnings }

/-- The instructions of the lines, of which the first has the given number. -/
def assembleFrom : Nat → List String → Assembled
  | _, [] => ⟨.ok [], []⟩
  | n, s :: ls =>
    match readLine s with
    | .ending => ⟨.ok [], []⟩
    | .blank => assembleFrom (n + 1) ls
    | .unknown mnemonic => (assembleFrom (n + 1) ls).warn ⟨n, mnemonic⟩
    | .instruction i => (assembleFrom (n + 1) ls).cons i
    | .malformed f => ⟨.error f, []⟩

def assemble (ls : List String) : Assembled :=
  assembleFrom 1 ls

/-- Assembly text comes as one text or as a list of lines. -/
inductive AssemblySource
  | text (s : String)
  | lines (ls : List String)
  deriving DecidableEq, Repr

def AssemblySource.toLines : AssemblySource → List String
  | .text s => textLines s
  | .lines ls => ls

end PolishCalc
