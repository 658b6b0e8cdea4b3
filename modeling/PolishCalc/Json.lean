import PolishCalc.Binary64
import PolishCalc.Quoted

namespace PolishCalc

/-- A JSON value. The members of an object keep their order. -/
inductive Json
  | null
  | bool (b : Bool)
  | integer (n : Int)
  | real (x : Binary64)
  | text (s : String)
  | list (items : List Json)
  | object (members : List (String × Json))
  deriving Repr

namespace Json

def texts (ss : List String) : Json := .list (ss.map .text)

/-- The member of an object with the given name. -/
def member? (name : String) : Json → Option Json
  | .object members => members.lookup name
  | _ => none

mutual

/-- Whether all integers can be written. -/
def writable : Json → Bool
  | .integer n => PolishCalc.writable n
  | .list items => allWritable items
  | .object members => membersWritable members
  | _ => true

def allWritable : List Json → Bool
  | [] => true
  | j :: js => j.writable && allWritable js

def membersWritable : List (String × Json) → Bool
  | [] => true
  | (_, j) :: ms => j.writable && membersWritable ms

end

/-- The escape of a unit of sixteen bits. -/
def unitEscape (n : Nat) : List Char :=
  '\\' :: 'u' :: hexDigits 4 n

/-- Inside quotes only visible ASCII characters stand for themselves; a character beyond the basic
plane is written as two units. -/
def charText (c : Char) : List Char :=
  if c = '\\' || c = doubleQuote then ['\\', c]
  else if c = '\n' then ['\\', 'n']
  else if c = '\r' then ['\\', 'r']
  else if c = '\t' then ['\\', 't']
  else if c.toNat = 8 then ['\\', 'b']
  else if c.toNat = 12 then ['\\', 'f']
  else if 0x20 ≤ c.toNat && c.toNat < 0x7F then [c]
  else if c.toNat < 0x10000 then unitEscape c.toNat
  else
    let n := c.toNat - 0x10000
    unitEscape (0xD800 + n / 0x400) ++ unitEscape (0xDC00 + n % 0x400)

def stringText (s : String) : String :=
  String.ofList (doubleQuote :: (s.toList.flatMap charText ++ [doubleQuote]))

/-- Puts a member in its place by name. -/
def insertMember (m : String × String) : List (String × String) → List (String × String)
  | [] => [m]
  | k :: ms => if m.1 < k.1 then m :: k :: ms else k :: insertMember m ms

mutual

/-- The text of a value: no blanks, the members of an object sorted by name. -/
def write : Json → String
  | .null => "null"
  | .bool b => if b then "true" else "false"
  | .integer n => decimal n
  | .real x => x.text
  | .text s => stringText s
  | .list items => "[" ++ ",".intercalate (writeItems items) ++ "]"
  | .object members =>
    "\x7b" ++ ",".intercalate ((writeMembers members).map fun m => stringText m.1 ++ ":" ++ m.2) ++
      "\x7d"

def writeItems : List Json → List String
  | [] => []
  | j :: js => j.write :: writeItems js

def writeMembers : List (String × Json) → List (String × String)
  | [] => []
  | (name, j) :: ms => insertMember (name, j.write) (writeMembers ms)

end

mutual

/-- A value inside a list or an object, as it is shown when it stands for a token. -/
def shown : Json → String
  | .null => "None"
  | .bool b => if b then "True" else "False"
  | .integer n => decimal n
  | .real x => x.text
  | .text s => quoted s
  | .list items => "[" ++ ", ".intercalate (shownItems items) ++ "]"
  | .object members => "\x7b" ++ ", ".intercalate (shownMembers members) ++ "\x7d"

def shownItems : List Json → List String
  | [] => []
  | j :: js => j.shown :: shownItems js

def shownMembers : List (String × Json) → List String
  | [] => []
  | (name, j) :: ms => (quoted name ++ ": " ++ j.shown) :: shownMembers ms

end

/-- The token that a value stands for: a text stands for itself. -/
def token : Json → String
  | .text s => s
  | j => j.shown

end Json

end PolishCalc
