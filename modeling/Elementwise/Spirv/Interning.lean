import Elementwise.Spirv.Generator

/-!
# Types and constants of a module

Every type and constant is declared once, when it is first asked for. Integers and floats of other
widths are declared as their 32-bit counterpart, and each such type is reported once. Structures
are never shared, since each carries decorations of its own.
-/
namespace Elementwise.Spirv
open IR Gen

def hasIntWidth (w : UInt32) : Bool := w = 8 || w = 16 || w = 32 || w = 64

def hasFloatWidth (w : UInt32) : Bool := w = 16 || w = 32 || w = 64

/-- The type that is declared for a type. -/
def normalized : Ty → Ty
  | .int w => if hasIntWidth w then .int w else .int 32
  | .float w => if hasFloatWidth w then .float w else .float 32
  | .pointer elem space => .pointer (normalized elem) space
  | t => t

/-- The scalar in a type whose width is not supported. -/
def unsupportedPart? : Ty → Option Ty
  | .int w => if hasIntWidth w then none else some (.int w)
  | .float w => if hasFloatWidth w then none else some (.float w)
  | .pointer elem _ => unsupportedPart? elem
  | _ => none

/-- What is reported of an unsupported type. -/
def unsupportedCause : Ty → Cause
  | .float w => .unsupportedFloat w
  | .int w => .unsupportedInt w
  | _ => .missingType

def Interned.report (n : Interned) (t : Ty) : Interned :=
  if n.unsupported.contains t then n else { n with unsupported := n.unsupported ++ [t] }

/-- The reports so far. -/
def Interned.diagnostics (n : Interned) : List Diagnostic :=
  n.unsupported.map fun t => { cause := unsupportedCause t }

/-- Numbers of declared types, pointers and constants. -/
def Interned.summary (n : Interned) : String :=
  "types=" ++ Text.Numeral.decimal n.scalars.length ++
    " pointers=" ++ Text.Numeral.decimal n.pointers.length ++
    " constants=" ++ Text.Numeral.decimal n.constants.length

def storageClass (space : Space) : Except Cause UInt32 :=
  if space = .function then .ok StorageClass.function
  else if space = .buffer then .ok StorageClass.storageBuffer
  else if space = .config then .ok StorageClass.pushConstant
  else if space = .input then .ok StorageClass.input
  else .error (.unknownSpace space)

namespace Gen

def normalize (t : Ty) : Gen Ty := do
  match unsupportedPart? t with
  | some scalar => modifyInterned (·.report scalar)
  | none => pure ()
  return normalized t

def storageClassOf (space : Space) : Gen UInt32 :=
  match storageClass space with
  | .ok c => pure c
  | .error cause => fail cause

def addCapability (c : UInt32) : Gen Unit :=
  modify fun s => { s with assembly := s.assembly.addCapability c }

def addExtension (name : String) : Gen Unit :=
  modify fun s => { s with assembly := s.assembly.addExtension name }

def pointerId (storage pointee : UInt32) : Gen UInt32 := do
  match List.lookup (pointee, storage) (← get).interned.pointers with
  | some id => return id
  | none =>
    let id ← build (.typePointer storage pointee)
    modifyInterned fun n => { n with pointers := ((pointee, storage), id) :: n.pointers }
    return id

/-- The capability that a scalar type needs. -/
def scalarCapability? : Ty → Option UInt32
  | .int w =>
    if w = 8 then some Capability.int8
    else if w = 16 then some Capability.int16
    else if w = 64 then some Capability.int64
    else none
  | .float w =>
    if w = 16 then some Capability.float16
    else if w = 64 then some Capability.float64
    else none
  | _ => none

def declareScalar : Ty → Gen UInt32
  | .void => build .typeVoid
  | .bool => build .typeBool
  | .int w => build (.typeInt w false)
  | .float w => build (.typeFloat w)
  | .missing | .pointer _ _ => fail .missingType

def scalarId (t : Ty) : Gen UInt32 := do
  match List.lookup t (← get).interned.scalars with
  | some id => return id
  | none =>
    match scalarCapability? t with
    | some c => addCapability c
    | none => pure ()
    let id ← declareScalar t
    modifyInterned fun n => { n with scalars := (t, id) :: n.scalars }
    return id

/-- The id of a type whose widths are supported. -/
def declaredId : Ty → Gen UInt32
  | .missing => fail .missingType
  | .pointer elem space => do
    let pointee ← declaredId elem
    let storage ← storageClassOf space
    pointerId storage pointee
  | t => scalarId t

def typeId (t : Ty) : Gen UInt32 := do
  let t ← normalize t
  declaredId t

def vectorId (component count : UInt32) : Gen UInt32 := do
  match List.lookup (component, count) (← get).interned.vectors with
  | some id => return id
  | none =>
    let id ← build (.typeVector component count)
    modifyInterned fun n => { n with vectors := ((component, count), id) :: n.vectors }
    return id

/-- A runtime array, with its stride when it is first declared. -/
def runtimeArrayId (elem stride : UInt32) : Gen UInt32 := do
  match List.lookup elem (← get).interned.arrays with
  | some id => return id
  | none =>
    let id ← build (.typeRuntimeArray elem)
    build (.decorate id Decoration.arrayStride [stride])
    modifyInterned fun n => { n with arrays := (elem, id) :: n.arrays }
    return id

def structId (members : List UInt32) : Gen UInt32 := build (.typeStruct members)

def functionTypeId (result : UInt32) (params : List UInt32) : Gen UInt32 := do
  match List.lookup (result :: params) (← get).interned.functions with
  | some id => return id
  | none =>
    let id ← build (.typeFunction result params)
    modifyInterned fun n => { n with functions := (result :: params, id) :: n.functions }
    return id

/-- The size in bytes of a buffer element. -/
def byteSize (t : Ty) : Gen UInt32 := do
  match ← normalize t with
  | .int w => return w / 8
  | .float w => return w / 8
  | _ => fail (.noLayout t)

/-- A pointer type that steps from element to element: its stride is declared once. -/
def stridedPointerId (elem : Ty) (space : Space) : Gen UInt32 := do
  let id ← typeId (.pointer elem space)
  if (← get).interned.strides.contains id then return id
  let size ← byteSize elem
  build (.decorate id Decoration.arrayStride [size])
  modifyInterned fun n => { n with strides := id :: n.strides }
  return id

/-- Declares a constant unless it is there. -/
def constantOf (type : UInt32) (bits : UInt64) (declaration : Build UInt32) : Gen UInt32 := do
  match List.lookup (type, bits) (← get).interned.constants with
  | some id => return id
  | none =>
    let id ← build declaration
    modifyInterned fun n => { n with constants := ((type, bits), id) :: n.constants }
    return id

/-- The bits of a constant within the declared width. A float of an unsupported width holds the
64-bit pattern of its value, which is rounded to the declared one. -/
def declaredBits (c : Constant) (width : UInt32) : UInt64 :=
  let bits :=
    match c.type with
    | .float w => if w = width then c.bits else (Ieee.toSingle c.bits).toUInt64
    | _ => c.bits
  if width < 64 then bits &&& (((1 : UInt64) <<< width.toUInt64) - 1) else bits

def numberId (type : UInt32) (width : UInt32) (c : Constant) : Gen UInt32 :=
  let bits := declaredBits c width
  constantOf type bits
    (.constant type (if width = 64 then Build.doubleWords bits else [bits.toUInt32]))

def constantId (c : Constant) : Gen UInt32 := do
  let t ← normalize c.type
  let type ← declaredId t
  match t with
  | .bool =>
    let value := c.bits != 0
    constantOf type (if value then 1 else 0) (.constantBool type value)
  | .int w => numberId type w c
  | .float w => numberId type w c
  | _ => fail (.constantType c.type)

end Gen

end Elementwise.Spirv
