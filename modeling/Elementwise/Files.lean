import Elementwise.Path

/-!
# Files

What a program asks of a file system, and how its refusals read.
-/
namespace Elementwise

inductive FileReason where
  | missing
  | notDirectory
  | isDirectory
  | nameTooLong
  | exists
  | invalid
  | other (text : String)
  deriving DecidableEq, Repr

def FileReason.text : FileReason → String
  | .missing => "no such file or directory"
  | .notDirectory => "not a directory"
  | .isDirectory => "is a directory"
  | .nameTooLong => "file name too long"
  | .exists => "file exists"
  | .invalid => "invalid argument"
  | .other s => s

/-- Which operation failed, on which path and why. -/
structure FileError where
  operation : String
  path : String
  reason : FileReason
  deriving DecidableEq, Repr

def FileError.message (e : FileError) : String :=
  e.operation ++ " " ++ e.path ++ ": " ++ e.reason.text

/-- The operations of a file system. -/
class Files (m : Type → Type) where
  /-- The absolute path of the working directory. -/
  workingDirectory : m String
  read : String → m (Except FileError (List UInt8))
  /-- Creates or overwrites a file. -/
  write : String → List UInt8 → m (Except FileError Unit)
  /-- Whether there is something at a path, or why that cannot be told. -/
  probe : String → m (Except FileError Unit)
  /-- Creates a directory and those around it. -/
  makeDirectories : String → m (Except FileError Unit)
  /-- Puts a file in place in one step, through a new file next to it. -/
  replace : String → List UInt8 → m (Except FileError Unit)
  /-- Removes what is at a path, with all that is in it. -/
  removeAll : String → m (Except FileError Unit)

end Elementwise
