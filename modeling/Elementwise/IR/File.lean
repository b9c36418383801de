import Elementwise.Files
import Elementwise.IR.Wire.Decode
import Elementwise.Msgpack.Wire
import Elementwise.Text.Case
import Elementwise.Yaml.Wire

/-!
# Programs in files

The extension of the file tells the format, in whatever case it is written.
-/
namespace Elementwise.IR

inductive FileFormat where
  | yaml
  | msgpack
  deriving DecidableEq, Repr

namespace FileFormat

def text : FileFormat → String
  | .yaml => "yaml"
  | .msgpack => "msgpack"

/-- The format that a lower-case extension stands for. -/
def ofExtension? (extension : String) : Option FileFormat :=
  if extension == ".yaml" || extension == ".yml" then some .yaml
  else if extension == ".msgpack" || extension == ".mp" then some .msgpack
  else none

def read? : FileFormat → List UInt8 → Option Wire.Module
  | .yaml => Yaml.readModule?
  | .msgpack => Msgpack.readModule?

end FileFormat

inductive ProgramFileError where
  | file (error : FileError)
  | extension (path extension : String)
  /-- The content is not of the format. -/
  | malformed (path : String) (format : FileFormat)
  | decode (path : String) (error : Wire.DecodeError)
  deriving Repr

def ProgramFileError.message : ProgramFileError → String
  | .file e => e.message
  | .extension path ext =>
    path ++ ": unknown IR file extension " ++ Text.Quoted.quote ext
  | .malformed path format => path ++ ": " ++ format.text
  | .decode path e => path ++ ": " ++ e.message

/-- The program that the content of a file holds. -/
def Program.ofContent (path : String) (content : List UInt8) :
    Except ProgramFileError Program :=
  let ext := Text.Case.lowerText (Path.extension path)
  match FileFormat.ofExtension? ext with
  | none => .error (.extension path ext)
  | some format =>
    match format.read? content with
    | none => .error (.malformed path format)
    | some wire =>
      match wire.decode with
      | .error e => .error (.decode path e)
      | .ok p => .ok p

variable {m : Type → Type} [Monad m] [Files m]

def readProgram (path : String) : m (Except ProgramFileError Program) := do
  match ← Files.read path with
  | .error e => return .error (.file e)
  | .ok content => return Program.ofContent path content

end Elementwise.IR
