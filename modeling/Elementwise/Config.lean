import Elementwise.Files
import Elementwise.Kernel
import Elementwise.Text.Case
import Elementwise.Toml.Document

/-!
# Configuration

Settings are read from a TOML file over the defaults. Keys match without regard to case, and all
keys that no setting has are listed in the order of the file.
-/
namespace Elementwise
open Text.Numeral Text.Quoted

structure Config where
  version : String := "1.3"
  debug : Bool := false
  validate : Bool := true
  strict : Bool := false
  entryPoint : String := Spirv.defaultEntryPoint
  /-- How many programs may be compiled at a time; zero sets no limit. -/
  jobs : Int
  /-- Where compiled kernels are kept; nowhere if empty. -/
  cacheDir : String := ""
  outputDir : String := "."
  /-- The file that the settings come from, if any. -/
  path : String := ""
  deriving DecidableEq, Repr

/-- What is wrong with settings. -/
inductive ConfigFault where
  | version (error : Spirv.VersionError)
  | negativeJobs (jobs : Int)
  | noEntryPoint
  deriving DecidableEq, Repr

def ConfigFault.message : ConfigFault → String
  | .version e => "[spirv].version: " ++ e.message
  | .negativeJobs n => "[build].jobs must not be negative, got " ++ signedDecimal n
  | .noEntryPoint => "[kernel].entry_point must not be empty"

inductive ConfigError where
  /-- The file cannot be read, is not TOML, or has a value of another type than its setting. -/
  | unreadable (path : String)
  | unknownKeys (path : String) (keys : List Toml.Key)
  | inFile (path : String) (fault : ConfigFault)
  deriving DecidableEq, Repr

def ConfigError.message : ConfigError → String
  | .unreadable path => path ++ ": failed to parse TOML"
  | .unknownKeys path keys =>
    path ++ ": unknown keys: " ++ ", ".intercalate (keys.map Toml.keyText)
  | .inFile path fault => path ++ ": " ++ fault.message

namespace Config

/-- The first fault of the settings: the version, then the jobs, then the entry point. -/
def check (c : Config) : Except ConfigFault Unit :=
  match Spirv.Version.parse c.version with
  | .error e => .error (.version e)
  | .ok _ =>
    if c.jobs < 0 then .error (.negativeJobs c.jobs)
    else if c.entryPoint.isEmpty then .error .noEntryPoint
    else .ok ()

def compileOptions (c : Config) : Except Spirv.VersionError CompileOptions := do
  let version ← Spirv.Version.parse c.version
  return ⟨version, c.debug, c.validate, c.strict, c.entryPoint⟩

/-! ## Settings in a document -/

/-- A setting: its name and how a value changes the settings. -/
structure Setting where
  name : String
  set : Config → Toml.Value → Option Config

def onText (f : Config → String → Config) (c : Config) : Toml.Value → Option Config
  | .text s => some (f c s)
  | _ => none

def onTruth (f : Config → Bool → Config) (c : Config) : Toml.Value → Option Config
  | .truth b => some (f c b)
  | _ => none

def onInteger (f : Config → Int → Config) (c : Config) : Toml.Value → Option Config
  | .integer n => some (f c n)
  | _ => none

/-- The settings of every table. -/
def tables : List (String × List Setting) := [
  ("spirv", [
    ⟨"version", onText fun c s => { c with version := s }⟩,
    ⟨"debug", onTruth fun c b => { c with debug := b }⟩,
    ⟨"validate", onTruth fun c b => { c with validate := b }⟩,
    ⟨"strict", onTruth fun c b => { c with strict := b }⟩]),
  ("kernel", [
    ⟨"entry_point", onText fun c s => { c with entryPoint := s }⟩]),
  ("build", [
    ⟨"jobs", onInteger fun c n => { c with jobs := n }⟩,
    ⟨"cache_dir", onText fun c s => { c with cacheDir := s }⟩,
    ⟨"output_dir", onText fun c s => { c with outputDir := s }⟩])]

def setting? (settings : List Setting) (key : String) : Option Setting :=
  settings.find? fun s => Text.Case.matchesName s.name key

def settings? (key : String) : Option (List Setting) :=
  (tables.find? fun t => Text.Case.matchesName t.1 key).map (·.2)

/-- Takes the settings of one table. -/
def takeEntries (settings : List Setting) : Config → Toml.Table → Option Config
  | c, [] => some c
  | c, (key, v) :: rest =>
    match setting? settings key with
    | none => takeEntries settings c rest
    | some s =>
      match s.set c v with
      | none => none
      | some c => takeEntries settings c rest

/-- Takes the settings of a document; none if a value has another type than its setting. -/
def takeTables : Config → Toml.Table → Option Config
  | c, [] => some c
  | c, (key, v) :: rest =>
    match settings? key, v with
    | none, _ => takeTables c rest
    | some settings, .table entries =>
      match takeEntries settings c entries with
      | none => none
      | some c => takeTables c rest
    | some _, _ => none

/-- Whether a key names a table of settings or a setting that the document has in the end. What an
array was given again for is no longer there. -/
def isKnown (root : Toml.Table) (key : Toml.Key) : Bool :=
  (Toml.Document.find? key root).isSome &&
    match key with
    | [table] => (settings? table).isSome
    | [table, name] => ((settings? table).bind (setting? · name)).isSome
    | _ => false

def definesEntryPoint (d : Toml.Document) : Bool :=
  (Toml.Document.find? ["kernel", "entry_point"] d.root).isSome

/-- Reads the content of a file over the defaults. -/
def ofContent (defaults : Config) (path : String) (content : List UInt8) :
    Except ConfigError Config :=
  match Toml.Document.ofBytes? content with
  | none => .error (.unreadable path)
  | some d =>
    match takeTables defaults d.root with
    | none => .error (.unreadable path)
    | some c =>
      let unknown := d.keys.filter (!isKnown d.root ·)
      if !unknown.isEmpty then .error (.unknownKeys path unknown)
      else if definesEntryPoint d && Text.Blank.isBlankText c.entryPoint then
        .error (.inFile path .noEntryPoint)
      else
        match c.check with
        | .error fault => .error (.inFile path fault)
        | .ok () => .ok { c with path }

/-! ## Files -/

/-- The name of the file. -/
def fileName : String := "parallax.toml"

/-- A path and the directories around it, up to the root. -/
def ancestors (path : String) : List String :=
  let parts := (Path.components path).filter (!·.isEmpty)
  (List.range (parts.length + 1)).map fun k =>
    "/" ++ "/".intercalate (parts.take (parts.length - k))

variable {m : Type → Type} [Monad m] [Files m]

def load (defaults : Config) (path : String) : m (Except ConfigError Config) := do
  match ← Files.read path with
  | .error _ => return .error (.unreadable path)
  | .ok content => return ofContent defaults path content

/-- Why the search for the file stopped. -/
def searchMessage (e : FileError) : String :=
  "failed to stat " ++ quote e.path ++ ": " ++ e.message

/-- The first of the directories that holds the file. -/
def findIn : List String → m (Except FileError (Option String))
  | [] => return .ok none
  | dir :: rest => do
    let candidate := Path.join dir fileName
    match ← Files.probe candidate with
    | .ok () => return .ok (some candidate)
    | .error e => if e.reason = .missing then findIn rest else return .error e

/-- The nearest file, from a directory upwards. -/
def find (start : String) : m (Except FileError (Option String)) := do
  let here ← Files.workingDirectory
  findIn (ancestors (Path.absolute here (if start.isEmpty then "." else start)))

end Config
end Elementwise
