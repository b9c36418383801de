import Elementwise.Cache
import Elementwise.CommandLine.Command
import Elementwise.Config
import Elementwise.IR.File
import Elementwise.Log.Line
import Elementwise.OutputPath
import Elementwise.Spirv.Disassembly

/-!
# The command line

A run writes lines of output and log records, and may end with an error; what was written before
the error stands.
-/
namespace Elementwise.CommandLine
open IR Text.Numeral

/-! ## Runs -/

inductive CommandError where
  | usage (error : UsageError)
  | file (error : FileError)
  | search (error : FileError)
  | config (error : ConfigError)
  | setting (fault : ConfigFault)
  | version (error : Spirv.VersionError)
  | program (error : ProgramFileError)
  | compile (error : CompileError)
  /-- A program that was checked before the cache was asked. -/
  | check (name : Text) (error : CompileError)
  | openCache (error : FileError)
  | cache (error : Cache.Error)
  | output (error : FileError)
  /-- The length of a binary is no number of words. -/
  | ragged (length : Nat)
  | unreadable (error : Spirv.ReadError)
  | invalid (violation : Spirv.Violation)
  | inFile (path : String) (error : CommandError)
  | panic (panic : IR.Panic)

def CommandError.message : CommandError → String
  | .usage e => e.message
  | .file e => e.message
  | .search e => Config.searchMessage e
  | .config e => e.message
  | .setting f => f.message
  | .version e => e.message
  | .program e => e.message
  | .compile e => e.message
  | .check name e => name.shown ++ ": " ++ e.message
  | .openCache e => Cache.openMessage e
  | .cache e => e.message
  | .output e => "writing output: " ++ e.message
  | .ragged length => Spirv.raggedMessage length
  | .unreadable e => e.message
  | .invalid v => Spirv.Diagnostic.text { cause := .invalid v }
  | .inFile path e => path ++ ": " ++ e.message
  | .panic p => p.message

/-- The run has ended without telling an error. -/
def CommandError.panics : CommandError → Bool
  | .panic _ => true
  | .compile e | .check _ e => e.panics
  | .cache e => e.panics
  | .inFile _ e => e.panics
  | _ => false

/-- What a run has written so far. -/
structure Transcript where
  output : String := ""
  log : List LogRecord := []
  deriving Repr

/-- A run that may stop with an error. What was written outlives the error. -/
abbrev Run (m : Type → Type) := ExceptT CommandError (StateT Transcript m)

variable {m : Type → Type} [Monad m]

def print (text : String) : Run m Unit := modify fun t => { t with output := t.output ++ text }

def say (line : String) : Run m Unit := print (line ++ "\n")

def record (records : List LogRecord) : Run m Unit :=
  modify fun t => { t with log := t.log ++ records }

/-- Goes on with a result, or stops with its error. -/
def orStop {ε α : Type} (wrap : ε → CommandError) (result : Except ε α) : Run m α :=
  match result with
  | .ok a => pure a
  | .error e => throw (wrap e)

/-- An action of the file system. -/
def perform {α : Type} (action : m α) : Run m α := ExceptT.lift (StateT.lift action)

/-- An action of the file system that may fail. -/
def attempt {ε α : Type} (wrap : ε → CommandError) (action : m (Except ε α)) : Run m α := do
  orStop wrap (← perform action)

variable [Files m]

/-! ## Compiling -/

/-- The settings after the flags that were given. -/
def Settings.apply (s : Settings) (c : Config) : Config :=
  { c with
    debug := s.debug.getD c.debug
    strict := s.strict.getD c.strict
    version := s.spirv.getD c.version
    jobs := s.jobs.getD c.jobs
    cacheDir := s.cacheDir.getD c.cacheDir }

/-- The configuration comes from the file that was named, else from the nearest one, else from the
defaults; flags go before all of them. -/
def configure (defaults : Config) (s : Settings) : Run m Config := do
  let path : Option String ←
    if s.config.isEmpty then attempt .search (Config.find ".") else pure (some s.config)
  let base ← match path with
    | none => pure defaults
    | some path => attempt .config (Config.load defaults path)
  let config := s.apply base
  orStop .setting config.check
  return config

/-- A kernel to be written, with the warnings that go with it. -/
structure Product where
  binary : List UInt8
  warnings : List String

def compileDirectly (programs : List Program) (options : CompileOptions) :
    Run m (List Product) := do
  let (result, records) := compileBatchLogged (programs.map some) options false
  record records
  let kernels ← orStop .compile result
  return kernels.map fun k => ⟨k.binary, k.warnings.map (·.text)⟩

/-- One request for a kernel to the cache. -/
def requestKernel (options : CompileOptions) (store : Cache.Store m) (c : Cache) (p : Program) :
    m (Except CommandError Product × Cache × List LogRecord) := do
  match if options.validate then checkProgram (some p) else .ok () with
  | .error e => return (.error (.check p.name e), c, [])
  | .ok () =>
    let run ← c.get (some store) (some p)
    match run.result with
    | .error e => return (.error (.cache e), run.cache, run.log)
    | .ok e => return (.ok ⟨e.spirv, e.unsupported.map (·.text)⟩, run.cache, run.log)

/-- Requests kernels in order. After a failure the rest is still loaded; the first one is told. -/
def requestKernels (options : CompileOptions) (store : Cache.Store m) :
    Cache → List Program → Option CommandError → Run m (List Product)
  | _, [], none => pure []
  | _, [], some e => throw e
  | c, p :: rest, failure => do
    let (result, c, records) ← perform (requestKernel options store c p)
    record records
    match result with
    | .ok product => return product :: (← requestKernels options store c rest failure)
    | .error e => requestKernels options store c rest (failure <|> some e)

def compileCached (programs : List Program) (options : CompileOptions) (dir : String) :
    Run m (List Product) := do
  let store ← attempt .openCache (Cache.Store.open dir)
  requestKernels options store (Cache.create 0 options.spirv) programs none

def writeProduct (input path : String) (p : Product) : Run m Unit := do
  attempt .file (Files.makeDirectories (Path.parent path))
  attempt .output (Files.write path p.binary)
  for w in p.warnings do
    say ("warning: " ++ input ++ ": " ++ w)
  say ("✓ compiled " ++ input ++ " to " ++ path ++ " (" ++ decimal p.binary.length ++ " bytes)")

/-- What is done before anything is written. -/
def compileInputs (defaults : Config) (s : Settings) (inputs : List String) :
    Run m (Config × List Product) := do
  let config ← configure defaults s
  let options ← orStop .version config.compileOptions
  let programs ← inputs.mapM fun path => attempt .program (readProgram path)
  let products ←
    if config.cacheDir.isEmpty then compileDirectly programs options
    else compileCached programs options config.cacheDir
  return (config, products)

def runCompile (defaults : Config) (s : Settings) (inputs : List String) : Run m Unit := do
  let (config, products) ← compileInputs defaults s inputs
  let targets := inputs.zip (outputPaths inputs s.output config.outputDir)
  for ((input, path), product) in targets.zip products do
    writeProduct input path product

/-! ## Inspecting -/

def readWords (path : String) : Run m (List UInt32) := do
  let content ← attempt .file (Files.read path)
  match Spirv.wordsOfBytes? content with
  | some words => return words
  | none => throw (.ragged content.length)

/-- Prints a binary as text, if all of it can be read. -/
def runDisassemble (path : String) : Run m Unit := do
  match Spirv.disassemble (← readWords path) with
  | (text, none) => print text
  | (_, some e) => throw (.unreadable e)

def runVerify (path : String) : Run m Unit := do
  let content ← attempt .file (Files.read path)
  match Spirv.wordsOfBytes? content with
  | none => throw (.inFile path (.ragged content.length))
  | some words =>
    orStop (fun v => .inFile path (.invalid v)) (Spirv.verify words)
    say ("✓ " ++ path ++ ": " ++ decimal words.length ++ " words, bound " ++
      decimal (words.getD 3 0).toNat)

def runFingerprint (path : String) : Run m Unit := do
  let p ← attempt .program (readProgram path)
  let fingerprint ← orStop .panic p.fingerprint
  say (fingerprint ++ "  " ++ path)

/-- How a kernel is bound, as a document. -/
def layoutFields (k : Kernel) : List (String × Yaml.Document) :=
  let word (w : UInt32) : Yaml.Document := .number w.toNat
  let (x, y, z) := k.abi.workgroup
  [("module", .text k.name),
    ("entry_point", .text k.abi.entryPoint),
    ("workgroup_size", .numbers [x.toNat, y.toNat, z.toNat]),
    ("element", .record [("type", .text k.abi.elementType), ("stride", word k.abi.elementStride)]),
    ("data", .record [("group", word k.abi.dataGroup), ("binding", word k.abi.data.index),
      ("usage", .text ("0x" ++ hex k.abi.bufferUsage.toNat))]),
    ("push_constants", .record [("size", word k.abi.pushConstantSize),
      ("count_offset", word k.abi.countOffset)])]

def runAbi (path : String) : Run m Unit := do
  let p ← attempt .program (readProgram path)
  let (result, records) := compileKernelLogged (some p) {}
  record records
  let k ← orStop .compile result
  print (Yaml.Document.render 2 (layoutFields k))

/-! ## Requests -/

/-- What a run takes from where it runs. -/
structure Surroundings where
  /-- The name and version of the toolchain that built the program. -/
  toolchain : String
  /-- The settings where no file and no flag says otherwise. -/
  defaults : Config

def programVersion : String := "0.1.0-dev"

def helpLines : List String :=
  ["Usage:", "  " ++ programName ++ " [command] [flags] [file]...", "", "Commands:"] ++
    Command.all.map fun c =>
      "  " ++ String.ofList (c.name.toList.rightpad 12 ' ') ++ c.summary

def Request.run (r : Request) (around : Surroundings) : Run m Unit :=
  match r.command with
  | .compile => runCompile around.defaults r.settings r.operands
  | .dis => r.operands.forM runDisassemble
  | .verify => r.operands.forM runVerify
  | .fingerprint => r.operands.forM runFingerprint
  | .abi => r.operands.forM runAbi
  | .version => say (programName ++ " " ++ programVersion ++ " (" ++ around.toolchain ++ ")")
  | .help | .completion => helpLines.forM say

/-- What a command line leaves: its output, the lines of the log if it was asked for, and the error
that ended it. -/
structure Outcome where
  output : String := ""
  log : List String := []
  error : Option CommandError := none

/-- Runs a command line. -/
def run (around : Surroundings) (arguments : List String) : m Outcome := do
  match Request.ofArguments arguments with
  | .error e => return { error := some (.usage e) }
  | .ok request =>
    let (result, transcript) ← ((request.run around : Run m Unit).run).run {}
    let log := if request.settings.verbose then transcript.log.map LogRecord.line else []
    let failure := match result with
      | .ok () => none
      | .error e => some e
    return ⟨transcript.output, log, failure⟩

end Elementwise.CommandLine
