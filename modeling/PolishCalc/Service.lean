import PolishCalc.JsonReader
import PolishCalc.Order
import PolishCalc.Run
import PolishCalc.Tree
import PolishCalc.Url

namespace PolishCalc

structure Request where
  method : String
  target : String
  contentType : Option String
  body : Option (List UInt8)
  deriving DecidableEq, Repr

/-- A status and a JSON document; other pages have no document. -/
structure Response where
  status : Nat
  document : Option Json
  deriving Repr

/-- The text without the blanks and tabs at both ends. -/
def trimmed (cs : List Char) : List Char :=
  let isSpace (c : Char) : Bool := c = ' ' || c = '\t'
  ((cs.dropWhile isSpace).reverse.dropWhile isSpace).reverse

/-- Whether a content type names JSON, in any case and with any parameters. -/
def isJsonType (contentType : String) : Bool :=
  let kind := (trimmed (contentType.toList.takeWhile (· != ';'))).map Char.toLower
  kind == "application/json".toList ||
    ("application/".toList.isPrefixOf kind && "+json".toList.isSuffixOf kind)

/-- The value that a request carries; anything that is not JSON carries none. -/
def Request.data (r : Request) : Option Json := do
  let contentType ← r.contentType
  let body ← r.body
  if isJsonType contentType then Json.ofBytes? body else none

/-- Why a request cannot be made. -/
inductive RequestError
  | url (e : UrlError)
  | headerLineEnd
  deriving DecidableEq, Repr

def RequestError.message : RequestError → String
  | .url e => e.message
  | .headerLineEnd => "Header values must not contain newline characters."

/-- Where a request goes. -/
structure Destination where
  host : List Char
  path : List Char
  deriving DecidableEq, Repr

/-- The host and the path of a target. A path that reads like a URL itself is taken apart once more,
and the path in that, which may name a host again, is brought into its usual form. -/
def destination (target : String) : Except UrlError Destination := do
  let outer ← Url.split target.toList
  let inner ← Url.split outer.path
  let last ← Url.split inner.path
  let path ← last.normalText
  let host ← Url.normalAuthority outer.authority
  .ok ⟨host, '/' :: (unescapePercent path).dropWhile (· == '/')⟩

/-- Where a request goes, if it can be made. -/
def Request.destination (r : Request) : Except RequestError Destination :=
  match PolishCalc.destination r.target with
  | .error e => .error (.url e)
  | .ok d =>
    if (r.contentType.getD "").toList.any fun c => c = '\r' || c = '\n' then .error .headerLineEnd
    else .ok d

/-- Methods count in any case. -/
def Request.verb (r : Request) : String := inCapitals r.method

namespace Service

def answer (status : Nat) (document : Json) : Response := ⟨status, some document⟩

def page (status : Nat) : Response := ⟨status, none⟩

/-- An answer to a request that lacks something. -/
def refuse (reason : String) : Response :=
  answer 400 (.object [("errors", .texts [reason])])

def tableJson (t : Table) : Json :=
  .object (t.map fun p => (p.1, .integer p.2))

def depthJson (depth : Option Nat) : Json :=
  match depth with
  | none => .null
  | some n => .integer n

/-- There is a tree to show only if there is an action. -/
def programJson : Option Program → Json
  | none => .object []
  | some p => if p.isEmpty then .object [] else p.tree.json

def runJson (r : Run) (errors : List String) : Json :=
  .object [
    ("tokens", .texts r.tokens),
    ("ast", programJson r.program),
    ("display", .texts r.display),
    ("output", .texts r.output),
    ("symbol_table", tableJson r.symbols),
    ("assembly", .texts r.assembly),
    ("warnings", .texts (r.warnings.map Warning.text)),
    ("machine_output", .texts r.machineOutput),
    ("stack_depth", depthJson r.stackDepth),
    ("machine_symbol_table", tableJson r.machineSymbols),
    ("phases", .texts (r.phases.map Phase.name)),
    ("errors", .texts errors)]

/-- What is said of a failure that the program itself did not cause. -/
def unexpected (l : DigitLimit) : String := "Unexpected error: " ++ l.message

/-- The answer to a run that the digit limit ended. -/
def brokenRun (tokens : List String) (l : DigitLimit) : Response :=
  answer 500 (runJson (Run.start tokens) [unexpected l])

/-- Runs a program. An answer that cannot be written counts as a run that the digit limit ended. -/
def runProgram (tokens : List String) : Response :=
  match runTokens tokens with
  | .error l => brokenRun tokens l
  | .ok r =>
    let document := runJson r (r.errors.map Fault.report)
    if document.writable then answer 200 document else brokenRun tokens .writing

/-- A program comes as tokens or as text. -/
def run (data : Option Json) : Response :=
  let data := data.getD .null
  match data.member? "tokens" with
  | some (.list items) => runProgram (items.map Json.token)
  | some _ => refuse (quoted "tokens" ++ " must be a list")
  | none =>
    match data.member? "code" with
    | some (.text s) => runProgram (words s)
    | some _ => refuse (quoted "code" ++ " must be a string")
    | none => refuse ("Request body needs " ++ quoted "code" ++ " or " ++ quoted "tokens")

/-- What is known after instructions have been executed. -/
structure Execution where
  instructions : List String
  warnings : List String
  output : List String
  stackDepth : Option Nat
  symbols : Table
  failure : Option Failure

/-- Assembles and executes. Errors in the text leave the machine as it was built. -/
def executeSource (source : AssemblySource) : Execution :=
  let a := assemble source.toLines
  let warnings := a.warnings.map Warning.text
  match a.result with
  | .error f => ⟨[], warnings, [], none, [], some f⟩
  | .ok is =>
    let o := Machine.fresh.execute is
    ⟨is.map fun i => i.order.text, warnings, o.state.output,
      if o.failure.isNone then some o.state.stack.length else none, o.state.table, o.failure⟩

def Execution.errors (e : Execution) : List String :=
  match e.failure with
  | none => []
  | some (.fault f) => [f.report]
  | some (.limit l) => [unexpected l]

def Execution.status (e : Execution) : Nat :=
  match e.failure with
  | some (.limit _) => 500
  | _ => 200

def Execution.json (e : Execution) : Json :=
  .object [
    ("instructions", .texts e.instructions),
    ("warnings", .texts e.warnings),
    ("output", .texts e.output),
    ("stack_depth", depthJson e.stackDepth),
    ("symbol_table", tableJson e.symbols),
    ("errors", .texts e.errors)]

/-- An answer that cannot be written is no document at all. -/
def executeProgram (source : AssemblySource) : Response :=
  let e := executeSource source
  if e.json.writable then answer e.status e.json else page 500

/-- A list of texts. -/
def texts? : List Json → Option (List String)
  | [] => some []
  | .text s :: js => (texts? js).map (s :: ·)
  | _ :: _ => none

/-- Assembly text comes as one text or as a list of lines. -/
def execute (data : Option Json) : Response :=
  let wrong := refuse (quoted "assembly" ++ " must be a string or a list of strings")
  match (data.getD .null).member? "assembly" with
  | none => refuse ("Request body needs " ++ quoted "assembly")
  | some (.text s) => executeProgram (.text s)
  | some (.list items) =>
    match texts? items with
    | some ls => executeProgram (.lines ls)
    | none => wrong
  | some _ => wrong

def sampleList : Response :=
  answer 200 (.object [("programs", .list (samples.map .texts))])

/-- What can be asked for. -/
inductive Route
  | run
  | execute
  | samples
  | file
  deriving DecidableEq, Repr

namespace Route

/-- The route of a path. Below one folder there is a route to any file, which has a name that does
not start with a slash and has no line end after its first character. -/
def ofPath? (path : List Char) : Option Route :=
  if path = "/run".toList then some .run
  else if path = "/execute".toList then some .execute
  else if path = "/samples".toList then some .samples
  else if "/static/".toList.isPrefixOf path then
    match path.drop "/static/".length with
    | [] => none
    | c :: cs => if c != '/' && !cs.contains '\n' then some .file else none
  else none

/-- Every route tells its methods to OPTIONS. -/
def verbs : Route → List String
  | .run => ["POST", "OPTIONS"]
  | .execute => ["POST", "OPTIONS"]
  | .samples => ["GET", "HEAD", "OPTIONS"]
  | .file => ["GET", "HEAD", "OPTIONS"]

def takes (route : Route) (verb : String) : Bool := route.verbs.contains verb

/-- The answer to a request with one of the methods. There are no files. -/
def answer (route : Route) (r : Request) : Response :=
  if r.verb = "OPTIONS" then page 200
  else match route with
    | .run => Service.run r.data
    | .execute => Service.execute r.data
    | .samples => sampleList
    | .file => page 404

end Route

/-- A path with one slash for each run of slashes. -/
def mergeSlashes : List Char → List Char
  | '/' :: '/' :: cs => mergeSlashes ('/' :: cs)
  | c :: cs => c :: mergeSlashes cs
  | [] => []

/-- Answers a request for a path. One that only has too many slashes is sent to the right path. -/
def respondTo (r : Request) (path : List Char) : Response :=
  match Route.ofPath? path, Route.ofPath? (mergeSlashes path) with
  | none, none => page 404
  | some route, _ => if route.takes r.verb then route.answer r else page 405
  | none, some route => if route.takes r.verb then page 308 else page 405

/-- Answers a request. The name of the host counts only up to the first colon, and is refused if one
of its labels is empty or too long. -/
def respond (r : Request) : Except RequestError Response := do
  let d ← r.destination
  match Url.checkLabels (d.host.takeWhile (· != ':')) with
  | .error _ => .ok (page 400)
  | .ok _ => .ok (respondTo r d.path)

/-- The text of a document, which ends with a line end; HEAD leaves it out. -/
def documentText (r : Request) (document : Json) : String :=
  if r.method = "HEAD" then "" else document.write ++ "\n"

end Service

end PolishCalc
