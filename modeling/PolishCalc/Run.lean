import PolishCalc.Assembly
import PolishCalc.Generator
import PolishCalc.Machine
import PolishCalc.Parser

namespace PolishCalc

inductive Phase
  | parse
  | interpret
  | compile
  | execute
  deriving DecidableEq, Repr

def Phase.name : Phase → String
  | .parse => "parse"
  | .interpret => "interpret"
  | .compile => "compile"
  | .execute => "execute"

/-- What became of a program in all phases up to the first that failed. -/
structure Run where
  tokens : List String
  program : Option Program
  display : List String
  output : List String
  symbols : Table
  assembly : List String
  warnings : List Warning
  machineOutput : List String
  stackDepth : Option Nat
  machineSymbols : Table
  phases : List Phase
  errors : List Fault
  log : List LogEvent
  deriving DecidableEq, Repr

namespace Run

def start (tokens : List String) : Run :=
  ⟨tokens, none, [], [], [], [], [], [], none, [], [], [], []⟩

def note (r : Run) (origin message : String) : Run :=
  { r with log := r.log ++ [⟨.debug, origin, message⟩] }

def warn (r : Run) (ws : List Warning) : Run :=
  { r with warnings := ws, log := r.log ++ ws.map Warning.event }

/-- A fault ends the run and is recorded in it; the digit limit takes the place of the run. -/
def stop (r : Run) : Failure → Run × Option DigitLimit
  | .fault f => ({ r with errors := [f] }.note "dendron" ("run aborted: " ++ f.message), none)
  | .limit l => (r, some l)

/-- The last phase: the machine carries out the instructions. -/
def onMachine (r : Run) (is : List Instruction) : Run × Option DigitLimit :=
  let o := Machine.fresh.execute is
  let r : Run := { r.note "soros" ("executing " ++ is.length.repr ++ " instructions") with
    machineOutput := o.state.output
    machineSymbols := o.state.table }
  match o.failure with
  | some f => r.stop f
  | none =>
    ({ r with stackDepth := some o.state.stack.length, phases := r.phases ++ [.execute] }, none)

/-- From the assembly text to the end. -/
def onAssembly (r : Run) (ls : List String) : Run × Option DigitLimit :=
  let r : Run := { r with assembly := ls, phases := r.phases ++ [.compile] }
  let a := assemble ls
  match a.result with
  | .error f => (r.warn a.warnings).stop f
  | .ok is => (r.warn a.warnings).onMachine is

/-- From the program to the end. -/
def onProgram (r : Run) (p : Program) : Run × Option DigitLimit :=
  let r : Run := { r with program := some p }
  match p.display with
  | .error l => (r, some l)
  | .ok ls =>
    let r : Run := { r with display := ls, phases := [.parse] }.note "dendron"
      ("parsed " ++ p.length.repr ++ " actions")
    let o := Session.empty.execute p
    let r : Run := { r with output := o.state.output, symbols := o.state.symbols }
    match o.failure with
    | some f => r.stop f
    | none =>
      let r : Run := { r with phases := r.phases ++ [.interpret] }
      match p.compile with
      | .error l => (r, some l)
      | .ok ls => r.onAssembly ls

/-- All phases: what was done, and the digit limit if it ended the run. -/
def trace (tokens : List String) : Run × Option DigitLimit :=
  match parse tokens with
  | .error f => (start tokens).stop f
  | .ok p => (start tokens).onProgram p

end Run

/-- Runs a program through all phases. -/
def runTokens (tokens : List String) : Except DigitLimit Run :=
  match Run.trace tokens with
  | (_, some l) => .error l
  | (r, none) => .ok r

def runText (s : String) : Except DigitLimit Run :=
  runTokens (words s)

/-- Programs to try the language with; the last seven fail. -/
def samples : List (List String) := [
  ["#", "5"],
  ["#", "_", "5"],
  ["#", "%", "5"],
  ["#", "%", "25"],
  ["#", "+", "5", "25"],
  ["#", "-", "5", "25"],
  ["#", "*", "25", "5"],
  ["#", "/", "25", "5"],
  [":=", "x", "55"],
  [":=", "able", "77", ":=", "baker", "3", ":=", "charlie", "/", "able", "baker"],
  [":=", "a", "3", ":=", "b", "4", ":=", "c", "5",
    ":=", "result", "+", "*", "b", "b", "_", "*", "*", "4", "a", "c"],
  [":=", "x", "1", ":=", "x", "+", "x", "x", ":=", "x", "*", "+", "x", "x", "x", "#", "x",
    ":=", "x", "-", "2", "_", "x", ":=", "x", "/", "x", "-2",
    ":=", "Leicester", "%", "+", "19", "x", "#", "Leicester"],
  [":=", "a", "1", ":=", "b", "_", "1", ":=", "c", "_", "6",
    ":=", "root", "/", "+", "_", "b", "%", "-", "*", "b", "b", "*", "*", "4", "a", "c",
    "*", "2", "a",
    ":=", "root2", "/", "-", "_", "b", "%", "-", "*", "b", "b", "*", "*", "4", "a", "c",
    "*", "2", "a"],
  ["#", "/", "5", "0"],
  [":=", "42", "+", "5", "0"],
  ["#", "abracadabra"],
  [":=", "x", "9", "+", "7", "9"],
  [":=", "x", "9", ":="],
  [":=", "y"],
  [":=", "x", "9", "%"]]

end PolishCalc
