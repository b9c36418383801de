import Elementwise.Spirv.Diagnostic

/-!
# Modules under construction

Instructions are appended to the section where they belong. An instruction in the wrong place, of
too many words, or after the module was finished is refused and leaves the sections as they were;
the first refusal is kept and is what finishing then reports.
-/
namespace Elementwise.Spirv
open Text.Utf8

/-- Inserts into an ascending list without repetition. -/
def insertAscending {α : Type} [DecidableEq α] (lt : α → α → Bool) (x : α) : List α → List α
  | [] => [x]
  | y :: rest =>
    if x = y then y :: rest
    else if lt x y then x :: y :: rest
    else y :: insertAscending lt x rest

/-- The number that marks binaries of this generator. -/
def generatorNumber : UInt32 := 0x000d000b

structure Assembly where
  version : Version
  /-- Ascending. -/
  capabilities : List UInt32 := []
  /-- In lexical order. -/
  extensions : List String := []
  addressing : UInt32 := AddressingModel.logical
  memory : UInt32 := MemoryModel.glsl450
  /-- The number of ids in use. -/
  allocated : Nat := 0
  /-- The section that instructions without one of their own go to. -/
  current : Section := .functions
  /-- Written when the module is finished. -/
  preamble : Array Instruction := #[]
  entryPoints : Array Instruction := #[]
  debug : Array Instruction := #[]
  decorations : Array Instruction := #[]
  types : Array Instruction := #[]
  functions : Array Instruction := #[]
  finished : Bool := false
  /-- The first refusal. -/
  refusal : Option Diagnostic := none
  deriving Repr

namespace Assembly

variable (a : Assembly)

/-- The next free id. Ids count from one, and after 32 bits begin anew. -/
def bound : UInt32 := (a.allocated + 1).toUInt32

/-- The instructions of a section. -/
def sectionInstrs : Section → Array Instruction
  | .preamble => a.preamble
  | .entryPoints => a.entryPoints
  | .debug => a.debug
  | .decorations => a.decorations
  | .types => a.types
  | .functions => a.functions
  | .header | .unknown _ => #[]

def wordCount (instrs : Array Instruction) : Nat :=
  instrs.foldl (fun n i => n + i.operands.length + 1) 0

/-- The number of words in a section so far. -/
def sectionSize (s : Section) : Nat :=
  match s with
  | .header => headerSize
  | s => wordCount (a.sectionInstrs s)

def refuse (cause : Cause) : Assembly :=
  match a.refusal with
  | some _ => a
  | none => { a with refusal := some { cause } }

/-- Why an instruction cannot be appended to a section. -/
def objection? (s : Section) (i : Instruction) : Option Cause :=
  if a.finished then some (.afterFinalize i.opcode)
  else if s = .header || s = .preamble then some (.managedSection i.opcode s)
  else
    match i.home? with
    | some home =>
      if home ≠ s then some (.wrongSection i.opcode s home)
      else if i.fits then none
      else some (.tooLong i.opcode i.operands.length)
    | none => if i.fits then none else some (.tooLong i.opcode i.operands.length)

def append (s : Section) (i : Instruction) : Assembly :=
  match s with
  | .entryPoints => { a with entryPoints := a.entryPoints.push i }
  | .debug => { a with debug := a.debug.push i }
  | .decorations => { a with decorations := a.decorations.push i }
  | .types => { a with types := a.types.push i }
  | .functions => { a with functions := a.functions.push i }
  | .header | .preamble | .unknown _ => a

def emitInstr (s : Section) (i : Instruction) : Assembly :=
  match a.objection? s i with
  | some cause => a.refuse cause
  | none => a.append s i

def addCapability (c : UInt32) : Assembly :=
  { a with capabilities := insertAscending (fun x y => decide (x < y)) c a.capabilities }

def addExtension (name : String) : Assembly :=
  { a with extensions := insertAscending (fun x y => decide (x < y)) name a.extensions }

def setMemoryModel (addressing memory : UInt32) : Assembly :=
  { a with addressing := addressing, memory := memory }

/-- Capabilities, then extensions, then the memory model. -/
def preambleInstrs : List Instruction :=
  a.capabilities.map (fun c => ⟨.capability, [c]⟩) ++
    a.extensions.map (fun e => ⟨.extension, textWords (bytes e)⟩) ++
    [⟨.memoryModel, [a.addressing, a.memory]⟩]

/-- Writes the preamble; what does not fit is left out and refused. -/
def writePreamble : Assembly :=
  let instrs := a.preambleInstrs
  let a := { a with preamble := (instrs.filter Instruction.fits).toArray, finished := true }
  match instrs.find? (!·.fits) with
  | some i => a.refuse (.tooLong i.opcode i.operands.length)
  | none => a

def headerWords : List UInt32 :=
  [magicNumber, a.version.word, generatorNumber, a.bound, 0]

/-- The sections after the header, in order. -/
def contents : List Instruction :=
  a.preamble.toList ++ a.entryPoints.toList ++ a.debug.toList ++ a.decorations.toList ++
    a.types.toList ++ a.functions.toList

def words (a : Assembly) : List UInt32 :=
  a.headerWords ++ a.contents.flatMap Instruction.words

/-- Finishes the module, at most once and only if nothing was refused. -/
def finish : Except Diagnostic (List UInt32) × Assembly :=
  if a.finished then (.error { cause := .finalizedTwice }, a)
  else
    match a.refusal with
    | some d => (.error d, a)
    | none =>
      let done := a.writePreamble
      match done.refusal with
      | some d => (.error d, done)
      | none => (.ok done.words, done)

end Assembly

/-- Steps that extend a module. -/
abbrev Build := StateM Assembly

namespace Build

def allocId : Build UInt32 :=
  modifyGet fun a => (a.bound, { a with allocated := a.allocated + 1 })

def emitTo (s : Section) (op : Opcode) (operands : List UInt32) : Build Unit :=
  modify fun a => a.emitInstr s ⟨op, operands⟩

/-- Appends to the current section. -/
def emit (op : Opcode) (operands : List UInt32) : Build Unit :=
  modify fun a => a.emitInstr a.current ⟨op, operands⟩

/-- Selects the current section and returns the one before. -/
def setSection (s : Section) : Build Section :=
  modifyGet fun a => (a.current, { a with current := s })

/-- Emits an instruction with a new result id. -/
def emitNew (op : Opcode) (operands : UInt32 → List UInt32) : Build UInt32 := do
  let id ← allocId
  emit op (operands id)
  return id

def declare (op : Opcode) (operands : UInt32 → List UInt32) : Build UInt32 := do
  let id ← allocId
  emitTo .types op (operands id)
  return id

/-! ## Entry points, names and decorations -/

def entryPoint (model function : UInt32) (name : Text) (interfaces : List UInt32) :
    Build Unit :=
  emitTo .entryPoints .entryPoint (model :: function :: textWords name.bytes ++ interfaces)

def executionMode (entry mode : UInt32) (params : List UInt32) : Build Unit :=
  emitTo .entryPoints .executionMode (entry :: mode :: params)

def name (id : UInt32) (text : Text) : Build Unit :=
  emitTo .debug .name (id :: textWords text.bytes)

def memberName (id member : UInt32) (text : Text) : Build Unit :=
  emitTo .debug .memberName (id :: member :: textWords text.bytes)

def decorate (id decoration : UInt32) (params : List UInt32) : Build Unit :=
  emitTo .decorations .decorate (id :: decoration :: params)

def memberDecorate (id member decoration : UInt32) (params : List UInt32) : Build Unit :=
  emitTo .decorations .memberDecorate (id :: member :: decoration :: params)

/-! ## Types, constants and global variables -/

def typeVoid : Build UInt32 := declare .typeVoid fun id => [id]

def typeBool : Build UInt32 := declare .typeBool fun id => [id]

def typeInt (width : UInt32) (signed : Bool) : Build UInt32 :=
  declare .typeInt fun id => [id, width, if signed then 1 else 0]

def typeFloat (width : UInt32) : Build UInt32 := declare .typeFloat fun id => [id, width]

def typeVector (component count : UInt32) : Build UInt32 :=
  declare .typeVector fun id => [id, component, count]

def typeRuntimeArray (elem : UInt32) : Build UInt32 :=
  declare .typeRuntimeArray fun id => [id, elem]

def typeStruct (members : List UInt32) : Build UInt32 := declare .typeStruct fun id => id :: members

def typePointer (storage base : UInt32) : Build UInt32 :=
  declare .typePointer fun id => [id, storage, base]

def typeFunction (result : UInt32) (params : List UInt32) : Build UInt32 :=
  declare .typeFunction fun id => id :: result :: params

/-- A constant by its literal words, the low one first. -/
def constant (type : UInt32) (literal : List UInt32) : Build UInt32 :=
  declare .constant fun id => type :: id :: literal

def constantBool (type : UInt32) (value : Bool) : Build UInt32 :=
  declare (if value then .constantTrue else .constantFalse) fun id => [type, id]

/-- The low and the high word of a pattern. -/
def doubleWords (bits : UInt64) : List UInt32 := [bits.toUInt32, (bits >>> 32).toUInt32]

def constantDouble (type : UInt32) (bits : UInt64) : Build UInt32 := constant type (doubleWords bits)

def globalVariable (pointer storage : UInt32) : Build UInt32 :=
  declare .variableOp fun id => [pointer, id, storage]

/-! ## Function bodies -/

def localVariable (pointer : UInt32) : Build UInt32 :=
  emitNew .variableOp fun id => [pointer, id, StorageClass.function]

/-- Begins a function whose id was allocated before. -/
def functionWithId (id type result control : UInt32) : Build Unit :=
  emit .func [result, id, control, type]

def function (type result control : UInt32) : Build UInt32 := do
  let id ← allocId
  functionWithId id type result control
  return id

def functionParameter (type : UInt32) : Build UInt32 :=
  emitNew .functionParameter fun id => [type, id]

def labelWithId (id : UInt32) : Build Unit := emit .label [id]

def label : Build UInt32 := emitNew .label fun id => [id]

def ret : Build Unit := emit .ret []

def returnValue (value : UInt32) : Build Unit := emit .returnValue [value]

def unreachable : Build Unit := emit .unreachable []

def functionEnd : Build Unit := emit .functionEnd []

def binary (op : Opcode) (type left right : UInt32) : Build UInt32 :=
  emitNew op fun id => [type, id, left, right]

def unary (op : Opcode) (type operand : UInt32) : Build UInt32 :=
  emitNew op fun id => [type, id, operand]

def load (type pointer : UInt32) : Build UInt32 := unary .load type pointer

def store (pointer value : UInt32) : Build Unit := emit .store [pointer, value]

def accessChain (type base : UInt32) (indices : List UInt32) : Build UInt32 :=
  emitNew .accessChain fun id => type :: id :: base :: indices

def ptrAccessChain (type base element : UInt32) (indices : List UInt32) : Build UInt32 :=
  emitNew .ptrAccessChain fun id => type :: id :: base :: element :: indices

def compositeExtract (type composite : UInt32) (indices : List UInt32) : Build UInt32 :=
  emitNew .compositeExtract fun id => type :: id :: composite :: indices

def functionCall (type callee : UInt32) (args : List UInt32) : Build UInt32 :=
  emitNew .functionCall fun id => type :: id :: callee :: args

def selectionMerge (merge control : UInt32) : Build Unit := emit .selectionMerge [merge, control]

def loopMerge (merge continue_ control : UInt32) : Build Unit :=
  emit .loopMerge [merge, continue_, control]

def branch (target : UInt32) : Build Unit := emit .branch [target]

def branchConditional (cond onTrue onFalse : UInt32) : Build Unit :=
  emit .branchConditional [cond, onTrue, onFalse]

end Build

end Elementwise.Spirv
