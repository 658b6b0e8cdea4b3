import PolishCalc.Quoted
import PolishCalc.Text

namespace PolishCalc

/-- Why the system refuses a file: its number, its words, and whether it names the file. -/
structure FileError where
  number : Nat
  reason : String
  named : Bool
  deriving DecidableEq, Repr

namespace FileError

def notFound : FileError := ⟨2, "No such file or directory", true⟩

def unreadable : FileError := ⟨5, "Input/output error", false⟩

def denied : FileError := ⟨13, "Permission denied", true⟩

def notFolder : FileError := ⟨20, "Not a directory", true⟩

def isFolder : FileError := ⟨21, "Is a directory", true⟩

def longName : FileError := ⟨36, "File name too long", true⟩

def message (e : FileError) (path : String) : String :=
  "[Errno " ++ e.number.repr ++ "] " ++ e.reason ++ (if e.named then ": " ++ quoted path else "")

end FileError

/-- The bytes of a file. -/
abbrev Reading := Except FileError (List UInt8)

/-- What the programs see of a disk: everything in a folder, with what it holds if it is a regular
file; and what can be read at a path. -/
structure Disk where
  folder? : String → Option (List (String × Option Reading))
  read : String → Reading

/-- Files and folders in memory. A broken file can be opened and not read; an empty device can be
read and is no regular file. -/
inductive Entry
  | folder (entries : List (String × Entry))
  | file (bytes : List UInt8)
  | broken
  | device
  deriving Repr

namespace Entry

def setEntry : List (String × Entry) → String → Entry → List (String × Entry)
  | [], name, e => [(name, e)]
  | (k, d) :: es, name, e => if k = name then (k, e) :: es else (k, d) :: setEntry es name e

/-- The parts of a path. -/
def parts (path : String) : List String :=
  (partsBy (· == '/') path.toList).map String.ofList

/-- The names on the way to a new file. -/
def namesOf (path : String) : List String :=
  (parts path).foldl (fun names name =>
    if name = "" || name = "." then names
    else if name = ".." then names.dropLast
    else names ++ [name]) []

/-- Puts an entry below a folder and makes the folders on the way to it. -/
def insert (e : Entry) : List String → Entry → Entry
  | [], _ => e
  | name :: names, .folder entries =>
    .folder (setEntry entries name (insert e names ((entries.lookup name).getD (.folder []))))
  | _, other => other

/-- Puts an entry at a path. -/
def put (root : Entry) (path : String) (e : Entry) : Entry := insert e (namesOf path) root

/-- The longest name that a file can have, in bytes. -/
def nameLimit : Nat := 255

/-- The longest path that can be asked for, in bytes. -/
def pathLimit : Nat := 4095

/-- Follows the parts of a path from an entry, of which the folders above are known. Above these
there are only empty folders. -/
def walk : List Entry → Entry → List String → Except FileError Entry
  | _, here, [] => .ok here
  | above, .folder entries, name :: names =>
    if name = "" || name = "." then walk above (.folder entries) names
    else if name = ".." then
      match above with
      | [] => walk [] (.folder []) names
      | up :: above => walk above up names
    else if nameLimit < name.utf8ByteSize then .error .longName
    else
      match entries.lookup name with
      | none => .error .notFound
      | some e => walk (.folder entries :: above) e names
  | _, _, _ :: _ => .error .notFolder

/-- What every disk holds outside of the working folder. -/
def outside : Entry :=
  .folder (("dev", .folder [("null", .device)]) ::
    ["bin", "etc", "home", "lib", "proc", "root", "tmp", "usr", "var"].map (·, .folder []))

/-- The entry at a path, which starts at the working folder unless it starts with a slash. -/
def find (root : Entry) (path : String) : Except FileError Entry :=
  if path = "" then .error .notFound
  else if pathLimit < path.utf8ByteSize then .error .longName
  else
    let start := if path.toList.head? == some '/' then outside else root
    walk [] start (parts path)

/-- What a regular file holds. -/
def regular? : Entry → Option Reading
  | .file bytes => some (.ok bytes)
  | .broken => some (.error .unreadable)
  | _ => none

def reading : Entry → Reading
  | .folder _ => .error .isFolder
  | .file bytes => .ok bytes
  | .broken => .error .unreadable
  | .device => .ok []

def disk (root : Entry) : Disk where
  folder? path :=
    match root.find path with
    | .ok (.folder entries) => some (entries.map fun p => (p.1, p.2.regular?))
    | _ => none
  read path :=
    match root.find path with
    | .ok e => e.reading
    | .error f => .error f

end Entry

end PolishCalc
