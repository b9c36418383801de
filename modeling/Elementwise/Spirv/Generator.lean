import Elementwise.Spirv.Assembly

/-!
# The state of the generator

An error keeps the state reached so far: what was declared before it stays declared.
-/
namespace Elementwise.Spirv
open IR

/-- What was declared, by what it stands for. -/
structure Interned where
  scalars : List (Ty × UInt32) := []
  /-- By pointee and storage class. -/
  pointers : List ((UInt32 × UInt32) × UInt32) := []
  /-- By component type and count. -/
  vectors : List ((UInt32 × UInt32) × UInt32) := []
  /-- By element type. -/
  arrays : List (UInt32 × UInt32) := []
  /-- By result and parameter types. -/
  functions : List (List UInt32 × UInt32) := []
  /-- By type and bits. -/
  constants : List ((UInt32 × UInt64) × UInt32) := []
  /-- The pointer types that carry a stride. -/
  strides : List UInt32 := []
  /-- The types that were declared as another, in the order in which they came up. -/
  unsupported : List Ty := []
  deriving Repr

/-- What is known while a function body is written. -/
structure Body where
  values : List (Value × UInt32) := []
  labels : List (BlockId × UInt32) := []
  /-- The labels that are the merge block of a construct. -/
  merges : List UInt32 := []
  /-- The labels of blocks that are never reached, to be written after all others. -/
  unreachable : List UInt32 := []
  deriving Repr

structure Generator where
  assembly : Assembly
  interned : Interned := {}
  /-- An absent function that is listed has an id as well. -/
  functions : List (Option FuncId × UInt32) := []
  body : Body := {}
  deriving Repr

def Generator.start (version : Version) : Generator := { assembly := { version } }

abbrev Gen := EStateM Failure Generator

namespace Gen

def fail {α : Type} (cause : Cause) : Gen α := throw (.diagnostic { cause })

/-- Runs steps that extend the module. -/
def build {α : Type} (steps : Build α) : Gen α :=
  modifyGet fun s =>
    let (a, assembly) := steps.run s.assembly
    (a, { s with assembly })

/-- A panic ends the run. -/
def orPanic {α : Type} (x : Except IR.Panic α) : Gen α :=
  match x with
  | .ok a => pure a
  | .error panic => throw (.panic panic)

def modifyInterned (f : Interned → Interned) : Gen Unit :=
  modify fun s => { s with interned := f s.interned }

def modifyBody (f : Body → Body) : Gen Unit := modify fun s => { s with body := f s.body }

/-- Adds a location to a diagnostic that has none. -/
def located {α : Type} (function block : Text) (x : Gen α) : Gen α := fun s =>
  match x s with
  | .ok a s' => .ok a s'
  | .error (.diagnostic d) s' =>
    .error (.diagnostic (if d.function.isEmpty then { d with function, block } else d)) s'
  | .error f s' => .error f s'

/-- Runs with the function section selected and selects the earlier one again. -/
def inFunctions {α : Type} (x : Gen α) : Gen α := fun s =>
  let restore (t : Generator) : Generator :=
    { t with assembly := { t.assembly with current := s.assembly.current } }
  match x { s with assembly := { s.assembly with current := .functions } } with
  | .ok a t => .ok a (restore t)
  | .error e t => .error e (restore t)

end Gen

end Elementwise.Spirv
