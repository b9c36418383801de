import Elementwise.Spirv.Lowering

/-!
# Kernels

The entry point compares the invocation's number with the element count in the configuration block
and passes the address of the element, if there is one, to the per-element function.
-/
namespace Elementwise.Spirv
open IR Gen

/-- The entry point where none is named. -/
def defaultEntryPoint : String := "main"

structure Options where
  version : Version := ⟨1, 3⟩
  /-- Declared in addition to those that the kernel needs. -/
  capabilities : List UInt32 := []
  /-- Whether names are written. -/
  debug : Bool := false
  /-- Whether the finished binary is read back and verified. -/
  validation : Bool := true
  entryPoint : Text := defaultEntryPoint
  /-- Whether an unsupported type is an error. -/
  strict : Bool := false
  deriving DecidableEq, Repr

def workgroupSize : UInt32 := 256

/-- How a buffer is bound: which shader stages see it and of what kind it is. -/
structure Binding where
  index : UInt32
  visibility : UInt32
  bufferType : UInt32
  dynamicOffset : Bool
  minSize : UInt64
  deriving DecidableEq, Repr

/-- How a kernel is set up and dispatched. -/
structure Abi where
  entryPoint : Text
  workgroup : UInt32 × UInt32 × UInt32
  elementType : String
  /-- The distance between elements in bytes. -/
  elementStride : UInt32
  dataGroup : UInt32
  data : Binding
  pushConstantSize : UInt32
  /-- Where the element count stands in the configuration block. -/
  countOffset : UInt32
  bufferUsage : UInt32
  deriving DecidableEq, Repr

/-- The numbers that a host library has for shader stages, kinds of buffers and their uses. -/
structure HostCodes where
  computeStage : UInt32 := 4
  storageBuffer : UInt32 := 2
  storage : UInt32 := 128
  copyDst : UInt32 := 8
  copySrc : UInt32 := 4

namespace Abi

/-- The numbers of workgroups that cover `count` elements. -/
def dispatchSize (abi : Abi) (count : UInt32) : UInt32 × UInt32 × UInt32 :=
  let x := if abi.workgroup.1 = 0 then workgroupSize else abi.workgroup.1
  ((count + x - 1) / x, 1, 1)

/-- The size in bytes of a buffer of `count` elements. -/
def bufferSize (abi : Abi) (count : UInt32) : UInt64 :=
  count.toUInt64 * abi.elementStride.toUInt64

/-- The interface of a kernel over elements of a declared type, for a host. -/
def ofKernel (entryPoint : Text) (elem : Ty) (stride : UInt32) (host : HostCodes) : Abi where
  entryPoint := entryPoint
  workgroup := (workgroupSize, 1, 1)
  elementType := elem.text
  elementStride := stride
  dataGroup := 0
  data := ⟨0, host.computeStage, host.storageBuffer, false, 0⟩
  pushConstantSize := 4
  countOffset := 0
  bufferUsage := host.storage ||| host.copyDst ||| host.copySrc

end Abi

/-- The element type of a kernel function, or what is wrong with its signature. -/
def elementType (f : Func) : Except Failure Ty :=
  let wrong (cause : Cause) : Except Failure Ty := .error (.diagnostic ⟨cause, f.name, ""⟩)
  match f.params with
  | [none] => .error (.panic .absent)
  | [some q] =>
    match q.type with
    | .pointer elem space =>
      if space ≠ .buffer then wrong (.kernelSpace space)
      else if f.resultType ≠ .void then wrong (.kernelResult f.resultType)
      else if elem.isInt || elem.isFloat then .ok elem
      else wrong (.elementLayout elem)
    | t => wrong (.kernelNotPointer t)
  | params => wrong (.kernelArity params.length)

/-- The ids of what the entry point uses. -/
structure KernelIds where
  elem : Ty
  stride : UInt32
  void : UInt32
  bool : UInt32
  uint : UInt32
  elemPtr : UInt32
  countPtr : UInt32
  invocation : UInt32
  zero : UInt32
  dataVar : UInt32
  configVar : UInt32
  invocationVar : UInt32
  entryType : UInt32
  deriving DecidableEq, Repr

/-- The width of a number type. -/
def numberWidth : Ty → UInt32
  | .int w => w
  | .float w => w
  | _ => 0

namespace Gen

/-- What buffer elements of 8 and 16 bits need. -/
def narrowStorage (version : Version) (width : UInt32) : Gen Unit := do
  if width = 8 then
    addCapability Capability.storageBuffer8BitAccess
    if !version.atLeast ⟨1, 5⟩ then addExtension Extension.storage8Bit
  else if width = 16 then
    addCapability Capability.storageBuffer16BitAccess
    if !version.atLeast ⟨1, 3⟩ then addExtension Extension.storage16Bit

def kernelRequirements (version : Version) (elem : Ty) : Gen Unit := do
  addCapability Capability.shader
  addCapability Capability.variablePointersStorageBuffer
  if !version.atLeast ⟨1, 3⟩ then
    addExtension Extension.storageBufferStorageClass
    addExtension Extension.variablePointers
  narrowStorage version (numberWidth elem)

/-- A block with one member at offset zero, and a variable that holds it. -/
def blockVariable (member storage : UInt32) : Gen (UInt32 × UInt32) := do
  let block ← structId [member]
  build (.decorate block Decoration.block [])
  build (.memberDecorate block 0 Decoration.offset [0])
  let pointer ← pointerId storage block
  let var ← build (.globalVariable pointer storage)
  return (block, var)

/-- Declares the types and global variables of the kernel: the data buffer, the configuration
block and the invocation id. -/
def declareKernel (options : Options) (element : Ty) : Gen KernelIds := do
  let elem ← normalize element
  kernelRequirements options.version elem
  let stride ← byteSize elem
  let elemId ← typeId elem
  let void ← typeId .void
  let bool ← typeId .bool
  let uint ← typeId (.int 32)
  let elemPtr ← typeId (.pointer elem .buffer)
  let zero ← constantId (.ofWord 0)
  let array ← runtimeArrayId elemId stride
  let (dataBlock, dataVar) ← blockVariable array StorageClass.storageBuffer
  build (.decorate dataVar Decoration.descriptorSet [0])
  build (.decorate dataVar Decoration.binding [0])
  let (configBlock, configVar) ← blockVariable uint StorageClass.pushConstant
  let countPtr ← pointerId StorageClass.pushConstant uint
  let invocation ← vectorId uint 3
  let invocationPtr ← pointerId StorageClass.input invocation
  let invocationVar ← build (.globalVariable invocationPtr StorageClass.input)
  build (.decorate invocationVar Decoration.builtIn [BuiltIn.globalInvocationId])
  let entryType ← functionTypeId void []
  if options.debug then
    build (.name dataBlock "Data")
    build (.memberName dataBlock 0 "data")
    build (.name dataVar "data")
    build (.name configBlock "Config")
    build (.memberName configBlock 0 "count")
    build (.name configVar "config")
    build (.name invocationVar "global_invocation_id")
  return { elem, stride, void, bool, uint, elemPtr, countPtr, invocation, zero, dataVar,
           configVar, invocationVar, entryType }

/-- Writes the body of the entry function and returns its id. -/
def emitEntryFunction (k : KernelIds) (function : UInt32) : Build UInt32 := do
  let entry ← Build.function k.entryType k.void noControl
  let _ ← Build.label
  let invocation ← Build.load k.invocation k.invocationVar
  let thread ← Build.compositeExtract k.uint invocation [0]
  let countPtr ← Build.accessChain k.countPtr k.configVar [k.zero]
  let count ← Build.load k.uint countPtr
  let inRange ← Build.binary .uLessThan k.bool thread count
  let body ← Build.allocId
  let merge ← Build.allocId
  Build.selectionMerge merge noControl
  Build.branchConditional inRange body merge
  Build.labelWithId body
  let element ← Build.accessChain k.elemPtr k.dataVar [k.zero, thread]
  let _ ← Build.functionCall k.void function [element]
  Build.branch merge
  Build.labelWithId merge
  Build.ret
  Build.functionEnd
  return entry

/-- Writes the entry function and names it as the entry point. From version 1.4 on, every
global variable that it uses is listed with it. -/
def emitEntry (options : Options) (k : KernelIds) (function : UInt32) : Gen (HostCodes → Abi) := do
  let entry ← inFunctions (build (emitEntryFunction k function))
  let name : Text := if options.entryPoint.isEmpty then defaultEntryPoint else options.entryPoint
  let interfaces :=
    if options.version.atLeast ⟨1, 4⟩ then [k.dataVar, k.configVar, k.invocationVar]
    else [k.invocationVar]
  build (.entryPoint ExecutionModel.glCompute entry name interfaces)
  build (.executionMode entry ExecutionMode.localSize [workgroupSize, 1, 1])
  if options.debug then build (.name entry name)
  return .ofKernel name k.elem k.stride

end Gen

end Elementwise.Spirv
