import PolishCalc.Console

namespace PolishCalc

/-- What the system says of a file that it refuses. -/
def fileError : IO.Error → FileError
  | .noFileOrDirectory .. => .notFound
  | .permissionDenied .. => .denied
  | .inappropriateType .. => .notFolder
  | _ => .unreadable

/-- The bytes at a path of the disk. -/
def readPath (path : String) : IO Reading := do
  try
    if ← (((← IO.currentDir) / path).isDir) then return .error .isFolder
    return .ok (← IO.FS.readBinFile path).toList
  catch e => return .error (fileError e)

/-- Everything in a folder of the disk. -/
def readFolder (path : String) : IO (Option (List (String × Option Reading))) := do
  let place := (← IO.currentDir) / path
  unless ← place.isDir do return none
  let mut entries := []
  for entry in ← place.readDir do
    let regular ← try pure ((← entry.path.metadata).type == .file) catch _ => pure false
    let reading ← if regular then some <$> readPath entry.path.toString else pure none
    entries := (entry.fileName, reading) :: entries
  return some entries

/-- Everything on standard input. -/
partial def readInput (input : IO.FS.Stream) (sofar : ByteArray) : IO ByteArray := do
  let block ← input.read 8192
  if block.isEmpty then return sofar else readInput input (sofar ++ block)

/-- The lines typed at a terminal, each after a prompt. -/
partial def readTyped (input : IO.FS.Stream) (sofar : String) : IO String := do
  IO.print Console.prompt
  (← IO.getStdout).flush
  let line ← input.getLine
  if line.isEmpty || Console.endsInput line then return sofar
  readTyped input (sofar ++ line)

end PolishCalc

open PolishCalc

/-- The name under which the program is started tells the language from the machine. -/
def main (arguments : List String) : IO UInt32 := do
  let asMachine := (← IO.appPath).fileStem == some "soros"
  let input ← IO.getStdin
  let bytes ←
    if !arguments.isEmpty then pure ByteArray.empty
    else if !asMachine && (← input.isTty) then pure (← readTyped input "").toUTF8
    else readInput input ByteArray.empty
  let path := arguments.head?.getD ""
  let folder ← if asMachine then pure none else readFolder path
  let reading ← if asMachine then readPath path else pure (.error .notFound)
  let disk : Disk := ⟨fun _ => folder, fun _ => reading⟩
  let level ← IO.getEnv "DENDRON_LOG_LEVEL"
  let v : Invocation := ⟨arguments, bytes.toList, false, level, disk⟩
  let t := if asMachine then Console.machine v else Console.language v
  IO.print t.out
  IO.eprint t.err
  match t.ending with
  | .ok status => return status.toUInt32
  | .error c =>
    IO.eprintln c.message
    return 1
