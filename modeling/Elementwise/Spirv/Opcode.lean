import Elementwise.Spirv.Enumerant

/-!
# Opcodes and their shapes

Writer, verifier and disassembler all go by this one table.
-/
namespace Elementwise.Spirv
open Text.Numeral

/-- The parts of a module, in the order in which they are written. -/
inductive Section where
  /-- The five words of the header. -/
  | header
  /-- Capabilities, extensions and the memory model. -/
  | preamble
  | entryPoints
  /-- Names, for debugging only. -/
  | debug
  | decorations
  /-- Types, constants and global variables. -/
  | types
  /-- Function bodies. -/
  | functions
  /-- A code that stands for no section. -/
  | unknown (code : UInt8)
  deriving DecidableEq, Repr

namespace Section

def ofCode (code : UInt8) : Section :=
  match code.toNat with
  | 0 => .header
  | 1 => .preamble
  | 2 => .entryPoints
  | 3 => .debug
  | 4 => .decorations
  | 5 => .types
  | 6 => .functions
  | _ => .unknown code

def code : Section → UInt8
  | .header => 0
  | .preamble => 1
  | .entryPoints => 2
  | .debug => 3
  | .decorations => 4
  | .types => 5
  | .functions => 6
  | .unknown code => code

def text : Section → String
  | .header => "header"
  | .preamble => "preamble"
  | .entryPoints => "entry-points"
  | .debug => "debug"
  | .decorations => "decorations"
  | .types => "types"
  | .functions => "functions"
  | .unknown code => "section(" ++ decimal code.toNat ++ ")"

end Section

/-- How the words after the result are read. -/
inductive OperandKind where
  | id
  | literal
  /-- Text, ended by a zero byte and padded to whole words. -/
  | text
  /-- All remaining words are ids. -/
  | ids
  /-- All remaining words are literals. -/
  | literals
  deriving DecidableEq, Repr

structure Shape where
  name : String
  home : Section
  hasResultType : Bool
  hasResult : Bool
  operands : List OperandKind
  deriving DecidableEq, Repr

structure Opcode where
  code : UInt16
  deriving DecidableEq, Repr

namespace Opcode

def nop : Opcode := ⟨0⟩
def name : Opcode := ⟨5⟩
def memberName : Opcode := ⟨6⟩
def extension : Opcode := ⟨10⟩
def memoryModel : Opcode := ⟨14⟩
def entryPoint : Opcode := ⟨15⟩
def executionMode : Opcode := ⟨16⟩
def capability : Opcode := ⟨17⟩
def typeVoid : Opcode := ⟨19⟩
def typeBool : Opcode := ⟨20⟩
def typeInt : Opcode := ⟨21⟩
def typeFloat : Opcode := ⟨22⟩
def typeVector : Opcode := ⟨23⟩
def typeRuntimeArray : Opcode := ⟨29⟩
def typeStruct : Opcode := ⟨30⟩
def typePointer : Opcode := ⟨32⟩
def typeFunction : Opcode := ⟨33⟩
def constantTrue : Opcode := ⟨41⟩
def constantFalse : Opcode := ⟨42⟩
def constant : Opcode := ⟨43⟩
def func : Opcode := ⟨54⟩
def functionParameter : Opcode := ⟨55⟩
def functionEnd : Opcode := ⟨56⟩
def functionCall : Opcode := ⟨57⟩
def variableOp : Opcode := ⟨59⟩
def load : Opcode := ⟨61⟩
def store : Opcode := ⟨62⟩
def accessChain : Opcode := ⟨65⟩
def ptrAccessChain : Opcode := ⟨67⟩
def decorate : Opcode := ⟨71⟩
def memberDecorate : Opcode := ⟨72⟩
def compositeExtract : Opcode := ⟨81⟩
def convertFToU : Opcode := ⟨109⟩
def convertFToS : Opcode := ⟨110⟩
def convertSToF : Opcode := ⟨111⟩
def convertUToF : Opcode := ⟨112⟩
def uConvert : Opcode := ⟨113⟩
def sConvert : Opcode := ⟨114⟩
def fConvert : Opcode := ⟨115⟩
def bitcast : Opcode := ⟨124⟩
def sNegate : Opcode := ⟨126⟩
def fNegate : Opcode := ⟨127⟩
def iAdd : Opcode := ⟨128⟩
def fAdd : Opcode := ⟨129⟩
def iSub : Opcode := ⟨130⟩
def fSub : Opcode := ⟨131⟩
def iMul : Opcode := ⟨132⟩
def fMul : Opcode := ⟨133⟩
def uDiv : Opcode := ⟨134⟩
def sDiv : Opcode := ⟨135⟩
def fDiv : Opcode := ⟨136⟩
def uMod : Opcode := ⟨137⟩
def sRem : Opcode := ⟨138⟩
def sMod : Opcode := ⟨139⟩
def fRem : Opcode := ⟨140⟩
def fMod : Opcode := ⟨141⟩
def iEqual : Opcode := ⟨170⟩
def iNotEqual : Opcode := ⟨171⟩
def uGreaterThan : Opcode := ⟨172⟩
def sGreaterThan : Opcode := ⟨173⟩
def uGreaterThanEqual : Opcode := ⟨174⟩
def sGreaterThanEqual : Opcode := ⟨175⟩
def uLessThan : Opcode := ⟨176⟩
def sLessThan : Opcode := ⟨177⟩
def uLessThanEqual : Opcode := ⟨178⟩
def sLessThanEqual : Opcode := ⟨179⟩
def fOrdEqual : Opcode := ⟨180⟩
def fOrdNotEqual : Opcode := ⟨182⟩
def fOrdLessThan : Opcode := ⟨184⟩
def fOrdGreaterThan : Opcode := ⟨186⟩
def fOrdLessThanEqual : Opcode := ⟨188⟩
def fOrdGreaterThanEqual : Opcode := ⟨190⟩
def loopMerge : Opcode := ⟨246⟩
def selectionMerge : Opcode := ⟨247⟩
def label : Opcode := ⟨248⟩
def branch : Opcode := ⟨249⟩
def branchConditional : Opcode := ⟨250⟩
def ret : Opcode := ⟨253⟩
def returnValue : Opcode := ⟨254⟩
def unreachable : Opcode := ⟨255⟩

/-- Declares a type. -/
def typeShape (name : String) (operands : List OperandKind) : Shape :=
  ⟨name, .types, false, true, operands⟩

/-- Computes a value in a function body. -/
def valueShape (name : String) (operands : List OperandKind) : Shape :=
  ⟨name, .functions, true, true, operands⟩

/-- Stands in a function body without a result. -/
def bodyShape (name : String) (operands : List OperandKind) : Shape :=
  ⟨name, .functions, false, false, operands⟩

def shapes : List (Opcode × Shape) := [
  (capability, ⟨"OpCapability", .preamble, false, false, [.literal]⟩),
  (extension, ⟨"OpExtension", .preamble, false, false, [.text]⟩),
  (memoryModel, ⟨"OpMemoryModel", .preamble, false, false, [.literal, .literal]⟩),
  (entryPoint, ⟨"OpEntryPoint", .entryPoints, false, false, [.literal, .id, .text, .ids]⟩),
  (executionMode, ⟨"OpExecutionMode", .entryPoints, false, false, [.id, .literal, .literals]⟩),
  (name, ⟨"OpName", .debug, false, false, [.id, .text]⟩),
  (memberName, ⟨"OpMemberName", .debug, false, false, [.id, .literal, .text]⟩),
  (decorate, ⟨"OpDecorate", .decorations, false, false, [.id, .literal, .literals]⟩),
  (memberDecorate, ⟨"OpMemberDecorate", .decorations, false, false, [.id, .literal, .literal, .literals]⟩),
  (typeVoid, typeShape "OpTypeVoid" []),
  (typeBool, typeShape "OpTypeBool" []),
  (typeInt, typeShape "OpTypeInt" [.literal, .literal]),
  (typeFloat, typeShape "OpTypeFloat" [.literal]),
  (typeVector, typeShape "OpTypeVector" [.id, .literal]),
  (typeRuntimeArray, typeShape "OpTypeRuntimeArray" [.id]),
  (typeStruct, typeShape "OpTypeStruct" [.ids]),
  (typePointer, typeShape "OpTypePointer" [.literal, .id]),
  (typeFunction, typeShape "OpTypeFunction" [.id, .ids]),
  (constantTrue, ⟨"OpConstantTrue", .types, true, true, []⟩),
  (constantFalse, ⟨"OpConstantFalse", .types, true, true, []⟩),
  (constant, ⟨"OpConstant", .types, true, true, [.literals]⟩),
  (variableOp, ⟨"OpVariable", .types, true, true, [.literal, .ids]⟩),
  (func, ⟨"OpFunction", .functions, true, true, [.literal, .id]⟩),
  (functionParameter, valueShape "OpFunctionParameter" []),
  (functionEnd, bodyShape "OpFunctionEnd" []),
  (functionCall, valueShape "OpFunctionCall" [.id, .ids]),
  (load, valueShape "OpLoad" [.id, .literals]),
  (store, bodyShape "OpStore" [.id, .id, .literals]),
  (accessChain, valueShape "OpAccessChain" [.id, .ids]),
  (ptrAccessChain, valueShape "OpPtrAccessChain" [.id, .id, .ids]),
  (compositeExtract, valueShape "OpCompositeExtract" [.id, .literals]),
  (convertFToU, valueShape "OpConvertFToU" [.id]),
  (convertFToS, valueShape "OpConvertFToS" [.id]),
  (convertSToF, valueShape "OpConvertSToF" [.id]),
  (convertUToF, valueShape "OpConvertUToF" [.id]),
  (uConvert, valueShape "OpUConvert" [.id]),
  (sConvert, valueShape "OpSConvert" [.id]),
  (fConvert, valueShape "OpFConvert" [.id]),
  (bitcast, valueShape "OpBitcast" [.id]),
  (sNegate, valueShape "OpSNegate" [.id]),
  (fNegate, valueShape "OpFNegate" [.id]),
  (iAdd, valueShape "OpIAdd" [.id, .id]),
  (fAdd, valueShape "OpFAdd" [.id, .id]),
  (iSub, valueShape "OpISub" [.id, .id]),
  (fSub, valueShape "OpFSub" [.id, .id]),
  (iMul, valueShape "OpIMul" [.id, .id]),
  (fMul, valueShape "OpFMul" [.id, .id]),
  (uDiv, valueShape "OpUDiv" [.id, .id]),
  (sDiv, valueShape "OpSDiv" [.id, .id]),
  (fDiv, valueShape "OpFDiv" [.id, .id]),
  (uMod, valueShape "OpUMod" [.id, .id]),
  (sRem, valueShape "OpSRem" [.id, .id]),
  (sMod, valueShape "OpSMod" [.id, .id]),
  (fRem, valueShape "OpFRem" [.id, .id]),
  (fMod, valueShape "OpFMod" [.id, .id]),
  (iEqual, valueShape "OpIEqual" [.id, .id]),
  (iNotEqual, valueShape "OpINotEqual" [.id, .id]),
  (uGreaterThan, valueShape "OpUGreaterThan" [.id, .id]),
  (sGreaterThan, valueShape "OpSGreaterThan" [.id, .id]),
  (uGreaterThanEqual, valueShape "OpUGreaterThanEqual" [.id, .id]),
  (sGreaterThanEqual, valueShape "OpSGreaterThanEqual" [.id, .id]),
  (uLessThan, valueShape "OpULessThan" [.id, .id]),
  (sLessThan, valueShape "OpSLessThan" [.id, .id]),
  (uLessThanEqual, valueShape "OpULessThanEqual" [.id, .id]),
  (sLessThanEqual, valueShape "OpSLessThanEqual" [.id, .id]),
  (fOrdEqual, valueShape "OpFOrdEqual" [.id, .id]),
  (fOrdNotEqual, valueShape "OpFOrdNotEqual" [.id, .id]),
  (fOrdLessThan, valueShape "OpFOrdLessThan" [.id, .id]),
  (fOrdGreaterThan, valueShape "OpFOrdGreaterThan" [.id, .id]),
  (fOrdLessThanEqual, valueShape "OpFOrdLessThanEqual" [.id, .id]),
  (fOrdGreaterThanEqual, valueShape "OpFOrdGreaterThanEqual" [.id, .id]),
  (loopMerge, bodyShape "OpLoopMerge" [.id, .id, .literal]),
  (selectionMerge, bodyShape "OpSelectionMerge" [.id, .literal]),
  (label, ⟨"OpLabel", .functions, false, true, []⟩),
  (branch, bodyShape "OpBranch" [.id]),
  (branchConditional, bodyShape "OpBranchConditional" [.id, .id, .id, .literals]),
  (ret, bodyShape "OpReturn" []),
  (returnValue, bodyShape "OpReturnValue" [.id]),
  (unreachable, bodyShape "OpUnreachable" [])]

def shape? (op : Opcode) : Option Shape := List.lookup op shapes

def text (op : Opcode) : String :=
  match op.shape? with
  | some s => s.name
  | none => "Op" ++ decimal op.code.toNat

/-- The section of an instruction with the given operand words, where its opcode has a shape.
A variable stands with the types, unless its storage class makes it local to a function. -/
def home? (op : Opcode) (words : List UInt32) : Option Section :=
  if op = variableOp && words[2]? == some StorageClass.function then some .functions
  else op.shape?.map Shape.home

end Opcode

end Elementwise.Spirv
