import Elementwise.IR.Validation
import Elementwise.Spirv.Compile

/-!
# Kernels from programs

A program is validated, if asked for, and the first finding is the error; the binary is generated;
the binary is verified, if asked for. A batch stops at the first program that fails.
-/
namespace Elementwise
open IR Text.Numeral

structure CompileOptions where
  /-- Version 0.0 stands for the default. -/
  version : Spirv.Version := ⟨1, 3⟩
  debug : Bool := false
  /-- Whether the program is validated and the binary verified. -/
  validate : Bool := true
  strict : Bool := false
  /-- The empty name stands for the default. -/
  entryPoint : Text := Spirv.defaultEntryPoint
  deriving DecidableEq, Repr

/-- The options of the generator. -/
def CompileOptions.spirv (o : CompileOptions) : Spirv.Options :=
  let base : Spirv.Options := {}
  { base with
    version := if o.version = ⟨0, 0⟩ then base.version else o.version
    debug := o.debug
    validation := o.validate
    entryPoint := if o.entryPoint.isEmpty then base.entryPoint else o.entryPoint
    strict := o.strict }

structure Kernel where
  name : Text
  binary : List UInt8
  abi : Spirv.Abi
  /-- The types that were declared as another. -/
  warnings : List Spirv.Diagnostic
  deriving DecidableEq, Repr

inductive CompileError where
  | absent
  | invalid (finding : Finding)
  | generation (failure : Spirv.Failure)
  | panic (panic : IR.Panic)
  | cancelled
  | inBatch (index : Nat) (name : Text) (error : CompileError)
  deriving DecidableEq, Repr

def absentMessage : String := "module is nil"

def CompileError.message : CompileError → String
  | .absent => "validation error: " ++ absentMessage
  | .invalid f => "validation failed: " ++ f.text
  | .generation f => "SPIR-V generation error: " ++ f.text
  | .panic p => p.message
  | .cancelled => "context canceled"
  | .inBatch index name e =>
    "module " ++ decimal index ++ " (" ++ name.shown ++ "): " ++ e.message

def CompileError.panics : CompileError → Bool
  | .panic _ => true
  | .generation f => f.panics
  | .inBatch _ _ e => e.panics
  | _ => false

/-- What validation has against a program. -/
def checkProgram (program : Option Program) : Except CompileError Unit :=
  match program with
  | none => .error .absent
  | some p =>
    match p.validate with
    | .error panic => .error (.panic panic)
    | .ok (f :: _) => .error (.invalid f)
    | .ok [] => .ok ()

/-- Compiles a program and tells the records of the run. -/
def compileKernelLogged (program : Option Program) (options : CompileOptions) :
    Except CompileError Kernel × List LogRecord :=
  match if options.validate then checkProgram program else .ok () with
  | .error e => (.error e, [])
  | .ok () =>
    let p := program.getD ⟨"", [], []⟩
    match Spirv.compileLogged p options.spirv with
    | (.ok c, records) => (.ok ⟨p.name, c.bytes, c.abi, c.unsupported⟩, records)
    | (.error e, records) => (.error (.generation e), records)

def compileKernel (program : Option Program) (options : CompileOptions) :
    Except CompileError Kernel :=
  (compileKernelLogged program options).1

def kernelRecord (k : Kernel) : LogRecord :=
  ⟨.debug, "parallax: compiled kernel",
    [("module", k.name), ("bytes", decimal k.binary.length)]⟩

/-- Compiles the programs of a batch, the first of which has number `index`. -/
def compileFrom (options : CompileOptions) :
    Nat → List (Option Program) → Except CompileError (List Kernel) × List LogRecord
  | _, [] => (.ok [], [])
  | index, program :: rest =>
    match compileKernelLogged program options with
    | (.error e, records) =>
      (.error (.inBatch index ((program.map (·.name)).getD "<nil>") e), records)
    | (.ok k, records) =>
      let (others, more) := compileFrom options (index + 1) rest
      (others.map (k :: ·), records ++ kernelRecord k :: more)

def compileBatchLogged (programs : List (Option Program)) (options : CompileOptions)
    (cancelled : Bool) : Except CompileError (List Kernel) × List LogRecord :=
  if cancelled && !programs.isEmpty then (.error .cancelled, [])
  else compileFrom options 0 programs

end Elementwise
