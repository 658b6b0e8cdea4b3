import PolishCalc.Fault

namespace PolishCalc

/-- Values by name, in the order in which the names were first set. -/
abbrev Table := List (String × Int)

namespace Table

/-- A new name goes to the end; a known one keeps its place. -/
def set : Table → String → Int → Table
  | [], x, v => [(x, v)]
  | (y, w) :: t, x, v => if y = x then (y, v) :: t else (y, w) :: set t x v

def get? : Table → String → Option Int
  | [], _ => none
  | (y, w) :: t, x => if y = x then some w else get? t x

def read (t : Table) (x : String) : Except Failure Int :=
  match t.get? x with
  | some v => .ok v
  | none => .error (.fault (.uninitialized x))

def ofPairs (ps : List (String × Int)) : Table :=
  ps.foldl (fun t p => set t p.1 p.2) []

def names (t : Table) : List String := t.map Prod.fst

/-- Whether all values can be written. -/
def writable (t : Table) : Bool := t.all fun p => PolishCalc.writable p.2

def heading : List String := ["Symbol Table Contents", "========================"]

def lines (t : Table) : List String :=
  heading ++ t.map fun p => p.1 ++ " :   " ++ decimal p.2

/-- The table as it is listed, if its values can be written. -/
def listing (t : Table) : Except DigitLimit (List String) :=
  if writable t then .ok (lines t) else .error .writing

end Table

end PolishCalc
