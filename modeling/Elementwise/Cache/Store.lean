import Elementwise.Cache.Entry
import Elementwise.Files

/-!
# Where entries are kept

A missing file, and one of another schema or key, holds nothing; one that cannot be read is an
error.
-/
namespace Elementwise.Cache

structure Store (m : Type → Type) where
  get : String → m (Except String (Option Entry))
  put : Entry → m (Except String Unit)
  clear : m (Except String Unit)

/-- The directory of the entries. -/
def kernelsIn (dir : String) : String := Path.join dir "kernels"

/-- The file of a key. -/
def entryPath (dir key : String) : String := Path.join (kernelsIn dir) (key ++ ".mp")

/-- The entry that the content of a file holds for a key. -/
def entryFor (key : String) (content : List UInt8) : Except String (Option Entry) :=
  match Entry.ofBytes? content with
  | none => .error ("kernelcache: " ++ key ++ ": malformed entry")
  | some e => .ok (if e.schema = schemaVersion ∧ e.key = key then some e else none)

variable {m : Type → Type} [Monad m] [Files m]

def Store.inDirectory (dir : String) : Store m where
  get key := do
    match ← Files.read (entryPath dir key) with
    | .ok content => return entryFor key content
    | .error e =>
      if e.reason = .missing then return .ok none
      else if e.reason = .isDirectory then
        return .error ("kernelcache: " ++ key ++ ": " ++ e.message)
      else return .error e.message
  put e := do
    match ← Files.replace (entryPath dir e.key) { e with schema := schemaVersion }.bytes with
    | .ok () => return .ok ()
    | .error e => return .error e.message
  clear := do
    match ← Files.removeAll (kernelsIn dir) with
    | .error e => return .error e.message
    | .ok () =>
      match ← Files.makeDirectories (kernelsIn dir) with
      | .error e => return .error e.message
      | .ok () => return .ok ()

/-- Opens the store in a directory, which is created if needed. -/
def Store.open (dir : String) : m (Except FileError (Store m)) := do
  match ← Files.makeDirectories (kernelsIn dir) with
  | .error e => return .error e
  | .ok () => return .ok (Store.inDirectory dir)

end Elementwise.Cache
