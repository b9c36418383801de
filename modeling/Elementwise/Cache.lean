import Elementwise.Cache.Recent
import Elementwise.Cache.Store
import Elementwise.IR.Fingerprint

/-!
# The kernel cache

Kernels are kept under a key of the program's fingerprint and a digest of the generator's options.
A kernel that is asked for comes from memory, else from the store, else it is compiled and kept in
both. Failures of the store are logged and never fail a request.
-/
namespace Elementwise
open IR Text.Numeral

/-- Counts of requests by where the kernel came from, of compilations, and of kernels that were
dropped from memory. -/
structure CacheStats where
  hits : UInt64 := 0
  storeHits : UInt64 := 0
  misses : UInt64 := 0
  compiles : UInt64 := 0
  evictions : UInt64 := 0
  deriving DecidableEq, Repr

structure Cache where
  options : Spirv.Options
  memory : Cache.Recent
  stats : CacheStats := {}
  deriving DecidableEq, Repr

namespace Cache

inductive Error where
  | absent
  | panic (panic : IR.Panic)
  | compile (name : Text) (failure : Spirv.Failure)
  deriving DecidableEq, Repr

def Error.message : Error → String
  | .absent => "kernelcache: nil module"
  | .panic p => p.message
  | .compile name f => "kernelcache: " ++ name.shown ++ ": " ++ f.text

def Error.panics : Error → Bool
  | .absent => false
  | .panic _ => true
  | .compile _ f => f.panics

/-- Why the directory of a store cannot be used. -/
def openMessage (e : FileError) : String := "kernelcache: " ++ e.message

/-! ## Keys -/

def truthText (b : Bool) : String := if b then "true" else "false"

/-- A text of the options that tells any two apart. -/
def optionsText (o : Spirv.Options) : Text :=
  .joined "|" [o.version.text, truthText o.debug, truthText o.validation, truthText o.strict,
    o.entryPoint,
    ("[" ++ " ".intercalate (o.capabilities.map fun c => decimal c.toNat) ++ "]" : String)]

/-- The start of the digest of the options. -/
def salt (o : Spirv.Options) : String :=
  String.ofList ((Digest.sha256Hex (optionsText o).bytes).toList.take 12)

structure Identity where
  key : String
  fingerprint : String
  deriving DecidableEq, Repr

def identity (c : Cache) (p : Program) : Except IR.Panic Identity :=
  p.fingerprint.map fun f => ⟨f ++ "-" ++ salt c.options, f⟩

/-! ## Requests -/

/-- How many kernels are kept in memory where no positive number is given. -/
def defaultCapacity : Nat := 256

/-- An empty cache. The empty entry point stands for the default one. -/
def create (capacity : Int) (options : Spirv.Options) : Cache where
  options :=
    if options.entryPoint.isEmpty then { options with entryPoint := Spirv.defaultEntryPoint }
    else options
  memory := { capacity := if 0 < capacity then capacity.toNat else defaultCapacity }

def size (c : Cache) : Nat := c.memory.size

/-- The outcome of a request: the cache after it and what was logged. -/
structure Run (α : Type) where
  result : Except Error α
  cache : Cache
  log : List LogRecord

/-- Keeps an entry in memory and counts what was dropped for it. -/
def keep (c : Cache) (key : String) (e : Entry) : Cache × List LogRecord :=
  let (dropped, memory) := c.memory.put key e
  let stats := { c.stats with evictions := c.stats.evictions + .ofNat dropped }
  let log : List LogRecord :=
    if 0 < dropped then [⟨.debug, "kernelcache: evicted", [("count", decimal dropped)]⟩] else []
  ({ c with memory, stats }, log)

def entryOf (id : Identity) (p : Program) (k : Spirv.Compiled) : Entry :=
  ⟨schemaVersion, id.key, id.fingerprint, p.name, k.bytes, k.abi,
    k.unsupported.map Report.ofDiagnostic⟩

def foundRecord (message : String) (p : Program) (id : Identity) : LogRecord :=
  ⟨.debug, message, [("module", p.name), ("key", id.key)]⟩

def storeRecord (message : String) (key error : String) : LogRecord :=
  ⟨.warn, message, [("key", key), ("err", error)]⟩

def compiledRecord (p : Program) (e : Entry) : LogRecord :=
  ⟨.debug, "kernelcache: compiled",
    [("module", p.name), ("key", e.key), ("bytes", decimal e.spirv.length)]⟩

/-- The entry in memory, which counts as a use of it. -/
def remembered? (c : Cache) (id : Identity) : Option (Entry × Cache) :=
  match c.memory.get id.key with
  | (some e, memory) =>
    some (e, { c with memory, stats := { c.stats with hits := c.stats.hits + 1 } })
  | (none, _) => none

variable {m : Type → Type} [Monad m]

/-- Compiles a program and keeps the kernel. -/
def compileAndKeep (c : Cache) (store : Option (Store m)) (id : Identity) (p : Program)
    (log : List LogRecord) : m (Run Entry) := do
  let c := { c with stats := { c.stats with misses := c.stats.misses + 1 } }
  match Spirv.compileLogged p c.options with
  | (.error f, records) => return ⟨.error (.compile p.name f), c, log ++ records⟩
  | (.ok k, records) =>
    let e := entryOf id p k
    let (c, dropped) :=
      { c with stats := { c.stats with compiles := c.stats.compiles + 1 } }.keep id.key e
    let stored : List LogRecord ← match store with
      | none => pure []
      | some s =>
        match ← s.put e with
        | .ok () => pure []
        | .error text => pure [storeRecord "kernelcache: disk write failed" id.key text]
    return ⟨.ok e, c, log ++ records ++ dropped ++ stored ++ [compiledRecord p e]⟩

/-- Looks for the entry in memory, where another request may have put it since, and in the store,
and compiles the program if it is in neither. -/
def load (c : Cache) (store : Option (Store m)) (id : Identity) (p : Program) :
    m (Run Entry) := do
  match c.remembered? id, store with
  | some (e, c), _ => return ⟨.ok e, c, []⟩
  | none, none => compileAndKeep c store id p []
  | none, some s =>
    match ← s.get id.key with
    | .ok (some e) =>
      let (c, dropped) :=
        { c with stats := { c.stats with storeHits := c.stats.storeHits + 1 } }.keep id.key e
      return ⟨.ok e, c, dropped ++ [foundRecord "kernelcache: disk hit" p id]⟩
    | .ok none => compileAndKeep c store id p []
    | .error text =>
      compileAndKeep c store id p [storeRecord "kernelcache: disk read failed" id.key text]

/-- The kernel of a program, for a caller that waits until it is there. -/
def get (c : Cache) (store : Option (Store m)) (program : Option Program) : m (Run Entry) := do
  match program with
  | none => return ⟨.error .absent, c, []⟩
  | some p =>
    match c.identity p with
    | .error panic => return ⟨.error (.panic panic), c, []⟩
    | .ok id =>
      match c.remembered? id with
      | some (e, c) => return ⟨.ok e, c, [foundRecord "kernelcache: hit" p id]⟩
      | none => load c store id p

/-- Drops all entries, from memory and from the store. -/
def purge (c : Cache) (store : Option (Store m)) : m (Except String Unit × Cache) := do
  let c := { c with memory := c.memory.clear }
  match store with
  | none => return (.ok (), c)
  | some s => return (← s.clear, c)

end Cache
end Elementwise
