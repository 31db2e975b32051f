import DecodingDesk.CommandLine.Run
/-!
# The program

Takes over from the disk what a command looks at, runs it, and puts a changed output
back.  What the command does is decided by `CommandLine.run` alone.
-/

namespace DecodingDesk.Main

def onDisk (path : String) : IO Bool := do
  try
    let _ ← IO.FS.realPath path
    return true
  catch _ => return false

/-- The name and the value of a variable of the environment. -/
def namedEntry? (entry : Text.Bytes) : Option (String × String) := do
  let text ← Text.decode entry
  let name := text.toList.takeWhile (· ≠ '=')
  return (String.ofList name, String.ofList (text.toList.drop (name.length + 1)))

def environment : IO (List (String × String)) := do
  try
    let content ← IO.FS.readBinFile "/proc/self/environ"
    return (content.toList.splitOn 0).filterMap namedEntry?
  catch _ => return []

/-- No files but devices, in the directory in which the program runs. -/
def emptyDesk : IO Files := do
  let here := (← IO.currentDir).toString
  let files := Files.empty.makeDirectories here
  return { files with current := (here.splitOn "/").filter (· ≠ "") }

/-- Takes over what is at a path.  Devices are known already. -/
def fetch (files : Files) (path : String) : IO Files := do
  if let .ok (_, .device _ _) := files.find path then return files
  let parent := "/".intercalate (path.splitOn "/").dropLast
  let files := if ← onDisk parent then files.makeDirectories parent else files
  if !(← onDisk path) then return files
  try
    let content ← IO.FS.readBinFile path
    return files.put path content.toList
  catch _ => return files.makeDirectories path

/-- Puts back what has changed at a path. -/
def store (before after : Files) (path : String) : IO Unit := do
  match after.regular? path with
  | some content =>
    if before.regular? path ≠ some content then
      IO.FS.writeBinFile path content.toByteArray
  | none => return

/-- Takes over all that a command looks at.  Where its model is may stand in its settings
file, so what is looked at for that file comes first. -/
def fetchFor (c : CommandLine.Command) (files : Files) (env : List (String × String)) :
    IO Files := do
  let files ← (c.settingsPaths files).foldlM fetch files
  (c.paths files env).foldlM fetch files

end DecodingDesk.Main

open DecodingDesk in
def main (arguments : List String) : IO UInt32 := do
  let env ← Main.environment
  let command := CommandLine.Command.ofArguments arguments
  let desk ← Main.emptyDesk
  let files ← match command with
    | .ok c => Main.fetchFor c desk env
    | .error _ => pure desk
  let ending := CommandLine.run arguments files env
  let filter := CommandLine.filterIn CommandLine.Filter.read? env
  IO.print (CommandLine.textOf (ending.output.filter (CommandLine.Entry.passes filter)))
  for complaint in ending.complaint do
    IO.eprintln complaint
  for path in (command.toOption.bind fun c => c.output) do
    Main.store files ending.files path
  return ending.code
