import PolishCalc.Run

namespace PolishCalc

/-- How an execution ended. -/
def depthLine (depth : Nat) : String :=
  "Soros: execution ended with " ++ depth.repr ++ " items left on the stack."

/-- The lines about an execution that left the given table. -/
def executionLines (output : List String) (depth : Nat) (table : List String) : List String :=
  "Executing compiled code..." :: output ++ depthLine depth :: "" :: table

/-- What is said about an execution, if the table can be written. -/
def executionListing (output : List String) (depth : Nat) (t : Table) :
    Except DigitLimit (List String) := do
  let table ← t.listing
  .ok (executionLines output depth table)

namespace Run

def parseLines (r : Run) : List String :=
  if r.phases.contains .parse then
    "The Program, with expressions in infix notation:" :: "" :: r.display ++
      "" :: "Interpreting the parse tree..." :: r.output
  else []

def interpretLines (r : Run) : Except DigitLimit (List String) := do
  if r.phases.contains .interpret then
    let table ← r.symbols.listing
    .ok ("Interpretation complete." :: "" :: table)
  else .ok []

def compileLines (r : Run) : List String :=
  if r.phases.contains .compile then
    "" :: r.assembly ++ "" :: "Executing compiled code..." :: r.machineOutput
  else []

def executeLines (r : Run) : Except DigitLimit (List String) := do
  if r.phases.contains .execute then
    let table ← r.machineSymbols.listing
    .ok (depthLine (r.stackDepth.getD 0) :: "" :: table)
  else .ok []

/-- A run as it is shown on the console, phase by phase. -/
def listing (r : Run) : Except DigitLimit (List String) := do
  let interpreted ← r.interpretLines
  let executed ← r.executeLines
  .ok (r.parseLines ++ interpreted ++ r.compileLines ++ executed)

end Run

end PolishCalc
