import Std.Time.DateTime.Timestamp
import TemplateLint.Command.Needs
import TemplateLint.Report.Timestamp

/-!
# The program

Collects what a run needs from the file system and the environment, runs the command line and
carries out its outcome.
-/
namespace TemplateLint.Program

/-- A text of the system as bytes. -/
def ofSystem (s : String) : Bytes := Bytes.ofString s

/-- Bytes as a text of the system. -/
def toSystem (s : Bytes) : String := (String.fromUTF8? ⟨s.toArray⟩).getD ""

/-- Add what stands at a path, if anything does. -/
def addPath (w : Workspace) (path : Bytes) : IO Workspace := do
  let place := (← IO.currentDir) / toSystem path
  if path.isEmpty || !(← place.pathExists) then return w
  else if ← place.isDir then return w.addDirectory path
  else
    try return w.addFile path (← IO.FS.readBinFile place).toList
    catch _ => return w

/-- Add the names of everything below a directory. Links to directories are not followed. -/
partial def addBelow (w : Workspace) (path : Bytes) : IO Workspace := do
  let place := (← IO.currentDir) / toSystem path
  if !(← place.isDir) then return w
  else
    let mut w := w.addDirectory path
    for entry in ← place.readDir do
      let below := path ++ Byte.slash :: ofSystem entry.fileName
      if (← entry.path.symlinkMetadata).type == .dir then w ← addBelow w below
      else if ← entry.path.isDir then w := w.addDirectory below
      else if ← entry.path.pathExists then w := w.addFile below []
    return w

/-- The variables of the environment. -/
def environment : IO Environment := do
  try
    let content ← IO.FS.readBinFile "/proc/self/environ"
    let assignments := content.toList.splitOn 0
    return assignments.filterMap fun a =>
      match Bytes.cut Byte.equals a with
      | (name, some value) => some (name, value)
      | (_, none) => none
  catch _ => return []

/-- Write bytes to a stream. -/
def put (stream : IO.FS.Stream) (s : Bytes) : IO Unit := do
  stream.write ⟨s.toArray⟩
  stream.flush

/-- Run a command line and return its exit code. -/
def run (arguments : List Bytes) : IO UInt32 := do
  let stdout ← IO.getStdout
  let stderr ← IO.getStderr
  let now ← Std.Time.Timestamp.now
  let timestamp := Timestamp.write now.toSecondsSinceUnixEpoch.val.toNat
  let start := Workspace.empty (ofSystem (← IO.currentDir).toString)
  let settings ← (Command.settingFiles arguments).foldlM addPath start
  let s : Command.Surroundings :=
    { workspace := settings, env := ← environment, terminal := ← stdout.isTty, timestamp }
  let listed ← (Command.globRoots s arguments).foldlM addBelow settings
  let listed ← (Command.plainPaths s arguments).foldlM addPath listed
  let sources := Command.sourceFiles { s with workspace := listed } arguments
  let complete ← sources.foldlM addPath listed
  let outcome := Command.run { s with workspace := complete } arguments
  match outcome.workspace.read Settings.defaultFile, complete.read Settings.defaultFile with
  | .ok new, .ok old => if new != old then writeSettings new
  | .ok new, .error _ => writeSettings new
  | .error _, _ => pure ()
  put stdout outcome.output
  for line in outcome.log do
    put stderr (Bytes.ofString "time=" ++ timestamp ++ Byte.space :: line ++ [Byte.newline])
  match outcome.failure with
  | some failure => put stderr (Command.errorText failure.message)
  | none => pure ()
  return outcome.exitCode.toUInt32
where
  writeSettings (content : Bytes) : IO Unit :=
    IO.FS.writeBinFile (toSystem Settings.defaultFile) ⟨content.toArray⟩

end TemplateLint.Program

def main (arguments : List String) : IO UInt32 :=
  TemplateLint.Program.run (arguments.map TemplateLint.Program.ofSystem)
