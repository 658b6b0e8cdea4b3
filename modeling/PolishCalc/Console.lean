import PolishCalc.Disk
import PolishCalc.Listing
import PolishCalc.Utf8

namespace PolishCalc

/-- The zeros of the decimal digits of all scripts; each is followed by the digits one to nine. -/
def decimalZeros : List Nat := [
  0x30, 0x660, 0x6F0, 0x7C0, 0x966, 0x9E6, 0xA66, 0xAE6, 0xB66, 0xBE6, 0xC66, 0xCE6, 0xD66, 0xDE6,
  0xE50, 0xED0, 0xF20, 0x1040, 0x1090, 0x17E0, 0x1810, 0x1946, 0x19D0, 0x1A80, 0x1A90, 0x1B50,
  0x1BB0, 0x1C40, 0x1C50, 0xA620, 0xA8D0, 0xA900, 0xA9D0, 0xA9F0, 0xAA50, 0xABF0, 0xFF10, 0x104A0,
  0x10D30, 0x11066, 0x110F0, 0x11136, 0x111D0, 0x112F0, 0x11450, 0x114D0, 0x11650, 0x116C0,
  0x11730, 0x118E0, 0x11950, 0x11C50, 0x11D50, 0x11DA0, 0x16A60, 0x16AC0, 0x16B50, 0x1D7CE,
  0x1D7D8, 0x1D7E2, 0x1D7EC, 0x1D7F6, 0x1E140, 0x1E2F0, 0x1E950, 0x1FBF0]

/-- Digits that stand for a value but make up no decimal number, such as superscripts and circled
digits. -/
def loneDigits : List (Nat × Nat) := [
  (0xB2, 0xB3), (0xB9, 0xB9), (0x1369, 0x1371), (0x19DA, 0x19DA), (0x2070, 0x2070),
  (0x2074, 0x2079), (0x2080, 0x2089), (0x2460, 0x2468), (0x2474, 0x247C), (0x2488, 0x2490),
  (0x24EA, 0x24EA), (0x24F5, 0x24FD), (0x24FF, 0x24FF), (0x2776, 0x277E), (0x2780, 0x2788),
  (0x278A, 0x2792), (0x10A40, 0x10A43), (0x10E60, 0x10E68), (0x11052, 0x1105A), (0x1F100, 0x1F10A)]

/-- The value of a decimal digit of any script. -/
def decimalDigit? (c : Char) : Option Nat :=
  (decimalZeros.find? fun z => z ≤ c.toNat && c.toNat < z + 10).map (c.toNat - ·)

/-- Whether a character is a digit of any kind. -/
def isAnyDigit (c : Char) : Bool :=
  (decimalDigit? c).isSome || inRanges loneDigits c.toNat

/-- Whether a text consists of digits of any kind, and of at least one. -/
def isDigitText (s : String) : Bool :=
  !s.toList.isEmpty && s.toList.all isAnyDigit

/-- How a program was started. -/
structure Invocation where
  arguments : List String
  input : List UInt8
  terminal : Bool
  level : Option String
  disk : Disk

/-- What ends a program that does not end by itself. -/
inductive Crash
  | limit (l : DigitLimit)
  | notDecimal (text : String)
  | undecodable (f : Utf8Fault)
  | nullInPath
  deriving DecidableEq, Repr

/-- A long text is shown only as far as it fits. -/
def Crash.message : Crash → String
  | .limit l => l.message
  | .notDecimal text =>
    "invalid literal for int() with base 10: " ++
      String.ofList ((quotedChars text.toList).take 200)
  | .undecodable f => f.message
  | .nullInPath => "embedded null byte"

/-- What a program wrote to its two outputs, and its exit status if it came to its end. -/
structure Transcript where
  out : String
  err : String
  ending : Except Crash Nat

namespace Transcript

def nothing : Transcript := ⟨"", "", .ok 0⟩

def say (s : String) : Transcript := ⟨s ++ "\n", "", .ok 0⟩

def complain (s : String) (status : Nat) : Transcript := ⟨"", s ++ "\n", .ok status⟩

def crash (c : Crash) : Transcript := ⟨"", "", .error c⟩

/-- One thing after the other; the status is the worse of the two. -/
def andThen (a b : Transcript) : Transcript :=
  match a.ending with
  | .error _ => a
  | .ok n => ⟨a.out ++ b.out, a.err ++ b.err, b.ending.map (max n)⟩

def inTurn (ts : List Transcript) : Transcript :=
  ts.foldr andThen nothing

end Transcript

namespace Console

open Transcript

/-- The lines of a listing, or the crash in its place, after what was logged. -/
def listed (log : String) (errors : List String) : Except DigitLimit (List String) → Transcript
  | .error l => ⟨"", log, .error (.limit l)⟩
  | .ok ls =>
    ⟨joinLines ls ++ "\n", log ++ String.join (errors.map fun e => "Error: " ++ e ++ "\n"),
      .ok (if errors.isEmpty then 0 else 1)⟩

/-- Runs a program and shows its listing and its errors. -/
def runProgram (level : String) (tokens : List String) : Transcript :=
  match Run.trace tokens with
  | (r, some l) => listed (logText level r.log) [] (.error l)
  | (r, none) => listed (logText level r.log) (r.errors.map Fault.report) r.listing

def prompt : String := "🌳 "

/-- Whether a line ends the input. -/
def endsInput (line : String) : Bool := words line = ["."]

/-- The tokens of the lines before the one that ends the input, with the number of these lines,
and whether there was a line that ended it. -/
def readTokens : List String → List String × Nat × Bool
  | [] => ([], 0, false)
  | line :: lines =>
    if endsInput line then ([], 0, true)
    else
      let (ts, n, ended) := readTokens lines
      (words line ++ ts, n + 1, ended)

/-- Runs the program on standard input. A terminal is prompted before each line. Input that cannot
be decoded matters only if the program has not ended before. -/
def interactive (level : String) (terminal : Bool) (bytes : List UInt8) : Transcript :=
  let s := LineStream.ofBytes bytes
  let lines := if s.fault.isNone && !s.last.isEmpty then s.lines ++ [s.last] else s.lines
  let (tokens, n, ended) := readTokens lines
  let prompts := if terminal then String.join (List.replicate (n + 1) prompt) else ""
  let started : Transcript := ⟨prompts, "", .ok 0⟩
  match s.fault, ended with
  | some f, false => started.andThen (crash (.undecodable f))
  | _, _ => started.andThen (runProgram level tokens)

/-- The number that a text of digits stands for, if all of them are decimal. -/
def decimalValue? (cs : List Char) : Option Nat :=
  cs.foldlM (fun n c => (decimalDigit? c).map (10 * n + ·)) 0

/-- Which sample a text of digits asks for; there may be no such sample. -/
def sampleNumber (text : String) : Except Crash (Option Nat) :=
  let digits := (text.toList.takeWhile fun c => (decimalDigit? c).isSome).length
  if digitLimit < digits then .error (.limit (.reading digits))
  else match decimalValue? text.toList with
    | none => .error (.notDecimal text)
    | some n => .ok (if n < samples.length then some n else none)

/-- Goes on with the number of a sample. -/
def withSample (text : String) (next : Nat → Transcript) : Transcript :=
  match sampleNumber text with
  | .error c => crash c
  | .ok none => complain ("Test number out of range: " ++ text) 2
  | .ok (some n) => next n

def runSample (level : String) (n : Nat) : Transcript :=
  (say ("TEST #" ++ n.repr ++ "\n")).andThen (runProgram level (samples[n]?.getD []))

/-- A line that separates listings, after an empty line. -/
def rule : Transcript := say ("\n" ++ String.ofList (List.replicate 75 '_'))

/-- All samples from one to another. -/
def runSamples (level : String) (first last : Nat) : Transcript :=
  rule.andThen <| inTurn <| (List.range' first (last + 1 - first)).map fun n =>
    (runSample level n).andThen rule

/-- The path of a file in a folder. -/
def joinPath (folder name : String) : String :=
  if folder.toList.getLast? == some '/' then folder ++ name else folder ++ "/" ++ name

/-- Runs the program in one file of a folder. A file that cannot be read is passed over. -/
def runFile (level path name : String) (reading : Reading) : Transcript :=
  (say ("\nTest File " ++ name ++ ":\n")).andThen <|
    match reading with
    | .error e => complain (e.message (joinPath path name)) 0
    | .ok bytes =>
      match decodeText bytes with
      | .error f => crash (.undecodable f)
      | .ok text => (runProgram level (words text)).andThen rule

/-- What is no regular file is left out without a word. -/
def runEntry (level path name : String) : Option Reading → Transcript
  | none => nothing
  | some reading => runFile level path name reading

/-- Runs the programs in the files of a folder, by name. -/
def runFolder (level path : String) : Option (List (String × Option Reading)) → Transcript
  | none => complain ("Provided directory " ++ path ++ " does not exist.") 1
  | some entries =>
    inTurn <| (entries.mergeSort fun a b => decide (a.1 ≤ b.1)).map fun e =>
      runEntry level path e.1 e.2

/-- The language: a program on standard input or in the arguments, samples by number, or the files
of a folder. -/
def language (v : Invocation) : Transcript :=
  let level := logLevel v.level "WARNING"
  match v.arguments with
  | [] => interactive level v.terminal v.input
  | [a] =>
    if isDigitText a then withSample a (runSample level)
    else runFolder level a (v.disk.folder? a)
  | [a, b] =>
    if isDigitText a && isDigitText b then
      withSample a fun first => withSample b fun last => runSamples level first last
    else runProgram level [a, b]
  | arguments => runProgram level arguments

/-- Executes assembly text and shows what became of it. -/
def executeText (level text : String) : Transcript :=
  let a := assemble (textLines text)
  let log := logText level (a.warnings.map Warning.event)
  let failed (log : String) : Failure → Transcript
    | .fault f => ⟨"", log ++ "Error: " ++ f.report ++ "\n", .ok 1⟩
    | .limit l => ⟨"", log, .error (.limit l)⟩
  match a.result with
  | .error f => failed log f
  | .ok is =>
    let o := Machine.fresh.execute is
    let log := log ++ logText level
      [⟨.debug, "soros", "executing " ++ is.length.repr ++ " instructions"⟩]
    match o.failure with
    | some f => failed log f
    | none => listed log [] (executionListing o.state.output o.state.stack.length o.state.table)

def executeBytes (level : String) (bytes : List UInt8) : Transcript :=
  match decodeText bytes with
  | .error f => crash (.undecodable f)
  | .ok text => executeText level text

/-- The machine: assembly text on standard input or in one file. -/
def machine (v : Invocation) : Transcript :=
  let level := logLevel v.level "WARNING"
  match v.arguments with
  | [] => executeBytes level v.input
  | [path] =>
    if path.toList.contains '\x00' then crash .nullInPath
    else match v.disk.read path with
      | .error e => complain (e.message path) 1
      | .ok bytes => executeBytes level bytes
  | _ => complain "Usage: soros [assembly-code-file]" 1

end Console

end PolishCalc
