import Elementwise.Text.Numeral

/-!
# Enumerants

Numbers without a name are shown in decimal.
-/
namespace Elementwise.Spirv
open Text.Numeral

def named (names : List (UInt32 × String)) (w : UInt32) : String :=
  (List.lookup w names).getD (decimal w.toNat)

namespace Capability

def shader : UInt32 := 1
def float16 : UInt32 := 9
def float64 : UInt32 := 10
def int64 : UInt32 := 11
def int16 : UInt32 := 22
def int8 : UInt32 := 39
def storageBuffer16BitAccess : UInt32 := 4433
def variablePointersStorageBuffer : UInt32 := 4441
def variablePointers : UInt32 := 4442
def storageBuffer8BitAccess : UInt32 := 4448

def names : List (UInt32 × String) := [
  (shader, "Shader"), (float16, "Float16"), (float64, "Float64"), (int64, "Int64"),
  (int16, "Int16"), (int8, "Int8"), (storageBuffer16BitAccess, "StorageBuffer16BitAccess"),
  (variablePointersStorageBuffer, "VariablePointersStorageBuffer"),
  (variablePointers, "VariablePointers"), (storageBuffer8BitAccess, "StorageBuffer8BitAccess")]

end Capability

namespace Extension

def storageBufferStorageClass : String := "SPV_KHR_storage_buffer_storage_class"
def variablePointers : String := "SPV_KHR_variable_pointers"
def storage16Bit : String := "SPV_KHR_16bit_storage"
def storage8Bit : String := "SPV_KHR_8bit_storage"

end Extension

namespace StorageClass

def input : UInt32 := 1
def function : UInt32 := 7
def pushConstant : UInt32 := 9
def storageBuffer : UInt32 := 12

def names : List (UInt32 × String) := [
  (0, "UniformConstant"), (input, "Input"), (2, "Uniform"), (3, "Output"), (4, "Workgroup"),
  (6, "Private"), (function, "Function"), (pushConstant, "PushConstant"),
  (storageBuffer, "StorageBuffer")]

end StorageClass

namespace Decoration

def block : UInt32 := 2
def arrayStride : UInt32 := 6
def builtIn : UInt32 := 11
def binding : UInt32 := 33
def descriptorSet : UInt32 := 34
def offset : UInt32 := 35

def names : List (UInt32 × String) := [
  (block, "Block"), (arrayStride, "ArrayStride"), (builtIn, "BuiltIn"), (24, "NonWritable"),
  (binding, "Binding"), (descriptorSet, "DescriptorSet"), (offset, "Offset")]

end Decoration

namespace BuiltIn

def globalInvocationId : UInt32 := 28

def names : List (UInt32 × String) := [
  (24, "NumWorkgroups"), (26, "WorkgroupId"), (27, "LocalInvocationId"),
  (globalInvocationId, "GlobalInvocationId"), (29, "LocalInvocationIndex")]

end BuiltIn

namespace ExecutionModel

def glCompute : UInt32 := 5

def names : List (UInt32 × String) := [
  (0, "Vertex"), (4, "Fragment"), (glCompute, "GLCompute"), (6, "Kernel")]

end ExecutionModel

namespace ExecutionMode

def localSize : UInt32 := 17

def names : List (UInt32 × String) := [(localSize, "LocalSize"), (18, "LocalSizeHint")]

end ExecutionMode

namespace AddressingModel

def logical : UInt32 := 0

def names : List (UInt32 × String) := [
  (logical, "Logical"), (1, "Physical32"), (2, "Physical64")]

end AddressingModel

namespace MemoryModel

def glsl450 : UInt32 := 1

def names : List (UInt32 × String) := [
  (0, "Simple"), (glsl450, "GLSL450"), (2, "OpenCL"), (3, "Vulkan")]

end MemoryModel

/-- A function, selection or loop control without any hint. -/
def noControl : UInt32 := 0

def controlText (w : UInt32) : String := if w = noControl then "None" else "0x" ++ hex w.toNat

end Elementwise.Spirv
