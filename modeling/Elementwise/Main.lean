import Elementwise.CommandLine

/-!
# The program

Realises the file operations on the machine's own files. The exit code is 1 if the run ended with
an error, and 2 if it ended in a panic.
-/
namespace Elementwise.Main

def reasonOf : IO.Error → FileReason
  | .noFileOrDirectory .. => .missing
  | .alreadyExists .. => .exists
  | .inappropriateType _ _ details => .other details
  | e => .other (toString e)

/-- Runs an operation on a path and tells why it failed. -/
def guarded {α : Type} (operation path : String) (action : IO α) : IO (Except FileError α) := do
  try
    return .ok (← action)
  catch e =>
    return .error ⟨operation, path, reasonOf e⟩

def writeBytes (path : String) (content : List UInt8) : IO Unit :=
  IO.FS.writeBinFile path ⟨content.toArray⟩

/-- Writes next to the target and moves the file there, so that no half of it is ever seen. -/
def replaceFile (path : String) (content : List UInt8) : IO Unit := do
  let new := path ++ ".new"
  writeBytes new content
  IO.FS.rename new path

def removeTree (path : String) : IO Unit := do
  let target := System.mkFilePath [path]
  if ← target.isDir then IO.FS.removeDirAll target
  else if ← target.pathExists then IO.FS.removeFile target

instance : Files IO where
  workingDirectory := do return (← IO.currentDir).toString
  read path := guarded "open" path do return (← IO.FS.readBinFile path).toList
  write path content := guarded "open" path (writeBytes path content)
  probe path := guarded "stat" path do
    let _ ← (System.mkFilePath [path]).metadata
  makeDirectories path := guarded "mkdir" path (IO.FS.createDirAll path)
  replace path content := guarded "open" path (replaceFile path content)
  removeAll path := guarded "unlinkat" path (removeTree path)

def surroundings : CommandLine.Surroundings where
  toolchain := "lean4"
  defaults := { jobs := 1 }

end Elementwise.Main

def main (arguments : List String) : IO UInt32 := do
  let outcome ← Elementwise.CommandLine.run Elementwise.Main.surroundings arguments
  IO.print outcome.output
  outcome.log.forM fun line => IO.eprintln line
  match outcome.error with
  | none => return 0
  | some e =>
    IO.eprintln ("error: " ++ e.message)
    return if e.panics then 2 else 1
