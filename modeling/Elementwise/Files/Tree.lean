import Elementwise.Files
import Elementwise.Text.Utf8

/-!
# A tree of files

A path is followed component by component, so that `..` leaves the directory that was reached, and
nothing can be reached through a file.
-/
namespace Elementwise

inductive FileNode where
  | file (content : List UInt8)
  | directory
  deriving DecidableEq, Repr

structure FileTree where
  /-- The components of the working directory. -/
  current : List String
  /-- Files and directories, each of which has its directory in the list. -/
  nodes : List (List String × FileNode)
  deriving DecidableEq, Repr

namespace FileTree

variable (t : FileTree)

def node? (place : List String) : Option FileNode :=
  if place.isEmpty then some .directory else t.nodes.lookup place

def put (place : List String) (n : FileNode) : FileTree :=
  { t with nodes := (place, n) :: t.nodes.filter (·.1 != place) }

/-- Removes a place and all below it. -/
def remove (place : List String) : FileTree :=
  { t with nodes := t.nodes.filter fun (p, _) => !place.isPrefixOf p }

/-- The place that a path leads to, where all but the last of its components exist. -/
def follow (t : FileTree) : List String → List String → Except FileReason (List String)
  | here, [] => .ok here
  | here, c :: rest =>
    match t.node? here with
    | none => .error .missing
    | some (.file _) => .error .notDirectory
    | some .directory =>
      if c.isEmpty || c == "." then follow t here rest
      else if c == ".." then follow t here.dropLast rest
      else if 255 < c.utf8ByteSize then .error .nameTooLong
      else follow t (here ++ [c]) rest

/-- The place that a path leads to. A path cannot hold the character zero. -/
def place (path : String) : Except FileReason (List String) :=
  if path.toList.contains (Char.ofNat 0) then .error .invalid
  else if path.isEmpty then .error .missing
  else if 4096 ≤ path.utf8ByteSize then .error .nameTooLong
  else t.follow (if Path.isAbsolute path then [] else t.current) (Path.components path)

/-- The node at a path. A path that ends in a slash leads to a directory only. -/
def find (path : String) : Except FileReason FileNode := do
  match t.node? (← t.place path) with
  | none => .error .missing
  | some n => .ok n

def inDirectory (place : List String) : Except FileReason Unit :=
  match t.node? place.dropLast with
  | some .directory => .ok ()
  | some (.file _) => .error .notDirectory
  | none => .error .missing

def read (t : FileTree) (path : String) : Except FileError (List UInt8) :=
  match t.find path with
  | .error r => .error ⟨"open", path, r⟩
  | .ok .directory => .error ⟨"read", path, .isDirectory⟩
  | .ok (.file content) => .ok content

def write (path : String) (content : List UInt8) : Except FileError FileTree :=
  let refuse (r : FileReason) : Except FileError FileTree := .error ⟨"open", path, r⟩
  match t.place path with
  | .error r => refuse r
  | .ok place =>
    match t.node? place, t.inDirectory place with
    | some .directory, _ => refuse .isDirectory
    | _, .error r => refuse r
    | _, .ok () => if path.endsWith "/" then refuse .isDirectory else .ok (t.put place (.file content))

def probe (path : String) : Except FileError Unit :=
  match t.find path with
  | .ok _ => .ok ()
  | .error r => .error ⟨"stat", path, r⟩

/-- The prefixes of a clean path that name directories, the shortest first. -/
def prefixes (path : String) : List String :=
  let parts := (Path.components path).filter (!·.isEmpty)
  let lead := if Path.isAbsolute path then "/" else ""
  (List.range parts.length).map fun k => lead ++ "/".intercalate (parts.take (k + 1))

def makeDirectory (path : String) : Except FileError FileTree :=
  match t.place path with
  | .error r => .error ⟨"mkdir", path, r⟩
  | .ok place =>
    match t.node? place with
    | some .directory => .ok t
    | some (.file _) => .error ⟨"mkdir", path, .notDirectory⟩
    | none => .ok (t.put place .directory)

def makeDirectories (path : String) : Except FileError FileTree :=
  (prefixes path).foldlM makeDirectory t

/-- A file cannot take the place of a directory. -/
def replace (path : String) (content : List UInt8) : Except FileError FileTree :=
  let refuse (r : FileReason) : Except FileError FileTree := .error ⟨"open", path, r⟩
  match t.place path with
  | .error r => refuse r
  | .ok place =>
    match t.node? place, t.inDirectory place with
    | _, .error r => refuse r
    | some .directory, _ => .error ⟨"rename", path, .exists⟩
    | _, .ok () => .ok (t.put place (.file content))

def removeAll (path : String) : Except FileError FileTree :=
  match t.place path with
  | .error .missing => .ok t
  | .error r => .error ⟨"unlinkat", path, r⟩
  | .ok place => .ok (t.remove place)

/-- A tree with nothing but its working directory. -/
def empty (current : List String) : FileTree :=
  ⟨current, (List.range current.length).map fun k => (current.take (k + 1), .directory)⟩

/-- Adds a file with the directories around it, or a directory where the path ends in a slash. What
is in the way stays. -/
def create (path : String) (content : List UInt8) : FileTree :=
  let isDirectory := path.endsWith "/"
  let dir := if isDirectory then Path.clean path else Path.parent path
  match t.makeDirectories dir with
  | .error _ => t
  | .ok t => if isDirectory then t else (t.write path content).toOption.getD t

/-- The paths below a directory, and whether they are directories, in order of their names. -/
def below (place : List String) : List (List String × FileNode) :=
  let inside := t.nodes.filter fun (p, _) => place.isPrefixOf p && p != place
  inside.mergeSort fun a b => before a.1 b.1
where
  before : List String → List String → Bool
    | [], _ => true
    | _ :: _, [] => false
    | a :: as, b :: bs => if a == b then before as bs else bytesBefore (Text.Utf8.bytes a) (Text.Utf8.bytes b)
  bytesBefore : List UInt8 → List UInt8 → Bool
    | [], _ => true
    | _ :: _, [] => false
    | a :: as, b :: bs => if a == b then bytesBefore as bs else a < b

/-- The names in a directory, in order; none if there is no directory. -/
def names (path : String) : List String :=
  match t.place path with
  | .error _ => []
  | .ok place =>
    ((t.below place).filter fun (p, _) => p.length == place.length + 1).filterMap (·.1.getLast?)

end FileTree

/-- Programs over a tree of files. -/
abbrev InTree := StateM FileTree

def InTree.change (f : FileTree → Except FileError FileTree) : InTree (Except FileError Unit) :=
  fun t =>
    match f t with
    | .ok t => (.ok (), t)
    | .error e => (.error e, t)

instance : Files InTree where
  workingDirectory := do return "/" ++ "/".intercalate (← get).current
  read path := do return (← get).read path
  write path content := .change (·.write path content)
  probe path := do return (← get).probe path
  makeDirectories path := .change (·.makeDirectories path)
  replace path content := .change (·.replace path content)
  removeAll path := .change (·.removeAll path)

end Elementwise
