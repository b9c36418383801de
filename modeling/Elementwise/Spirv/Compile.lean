import Elementwise.Log
import Elementwise.Spirv.Kernel

/-!
# Compiling programs

The globals of the kernel are declared first, then the functions in listing order, then the
entry point.
-/
namespace Elementwise.Spirv
open IR Gen Text.Numeral

structure Compiled where
  words : List UInt32
  abi : Abi
  /-- The types that were declared as another. -/
  unsupported : List Diagnostic
  deriving DecidableEq, Repr

def Compiled.bytes (c : Compiled) : List UInt8 := bytesOfWords c.words

namespace Gen

/-- Writes the listed functions, each of which has to be there and to be listed once. -/
def lowerListed (program : Program) (debug : Bool) :
    List FuncId → List (Option (FuncId × Func)) → Gen Unit
  | _, [] => pure ()
  | _, none :: _ => fail .functionAbsent
  | seen, some (id, func) :: rest => do
    if seen.contains id then throw (.diagnostic ⟨.listedTwice, func.name, ""⟩)
    let _ ← lowerFunction program debug id
    lowerListed program debug (id :: seen) rest

/-- Everything up to the finished module: its words and interface. -/
def assemble (program : Program) (options : Options) : Gen (HostCodes → Abi) := do
  if program.order.isEmpty then fail .noFunctions
  for c in options.capabilities do addCapability c
  match program.kernel? with
  | none => fail .noKernel
  | some (kernel, func) =>
    match elementType func with
    | .error e => throw e
    | .ok elem =>
      let ids ← declareKernel options elem
      declareFunctions (program.listed.map fun entry => entry.map (·.1))
      lowerListed program options.debug [] program.listed
      let function := (List.lookup (some kernel) (← get).functions).getD 0
      emitEntry options ids function

def finish : Gen (List UInt32) := fun s =>
  match s.assembly.finish with
  | (.ok words, assembly) => .ok words { s with assembly }
  | (.error d, assembly) => .error (.diagnostic d) { s with assembly }

end Gen

/-- The record of a type that was declared as another. -/
def replacedRecord (t : Ty) : LogRecord :=
  ⟨.warn, "spirv: unsupported type, using fallback",
    [("type", t.text), ("error", (unsupportedCause t).message)]⟩

def finishedRecord (a : Assembly) (words : List UInt32) : LogRecord :=
  ⟨.debug, "spirv: module finalized",
    [("bound", decimal a.bound.toNat), ("words", decimal words.length),
      ("types", decimal (a.sectionSize .types)),
      ("functions", decimal (a.sectionSize .functions))]⟩

def generatedRecord (p : Program) (a : Assembly) (n : Interned) : LogRecord :=
  ⟨.debug, "spirv: kernel generated",
    [("module", p.name), ("functions", decimal p.order.length),
      ("bound", decimal a.bound.toNat), ("unsupported", decimal n.unsupported.length)]⟩

/-- The judgement of a finished module. -/
def judge (options : Options) (words : List UInt32) (unsupported : List Diagnostic) :
    Except Failure Unit :=
  match if options.validation then verify words else .ok () with
  | .error v => .error (.diagnostic { cause := .invalid v })
  | .ok () =>
    match unsupported with
    | d :: _ => if options.strict then .error (.diagnostic d) else .ok ()
    | [] => .ok ()

/-- Compiles a program and tells the records of the run. -/
def compileLogged (program : Program) (options : Options) (host : HostCodes := {}) :
    Except Failure Compiled × List LogRecord :=
  let run : Gen (List UInt32 × (HostCodes → Abi)) := do
    let abi ← assemble program options
    return (← finish, abi)
  match run (.start options.version) with
  | .error e s => (.error e, s.interned.unsupported.map replacedRecord)
  | .ok (words, abi) s =>
    let replaced := s.interned.unsupported.map replacedRecord
    let unsupported := s.interned.diagnostics
    let finished := finishedRecord s.assembly words
    match judge options words unsupported with
    | .error e => (.error e, replaced ++ [finished])
    | .ok () =>
      (.ok ⟨words, abi host, unsupported⟩,
        replaced ++ [finished, generatedRecord program s.assembly s.interned])

def compile (program : Program) (options : Options) (host : HostCodes := {}) :
    Except Failure Compiled :=
  (compileLogged program options host).1

/-- A compiler for one program. A program without functions leaves it unused. -/
structure SingleUse where
  options : Options
  used : Bool := false

def SingleUse.compile (c : SingleUse) (program : Program) :
    Except Failure Compiled × SingleUse :=
  if c.used then (.error (.diagnostic { cause := .alreadyUsed }), c)
  else (Spirv.compile program c.options, { c with used := !program.order.isEmpty })

end Elementwise.Spirv
