import Elementwise.Spirv.Verification

/-!
# Disassembly

What can be read of a damaged binary is shown, up to the error.
-/
namespace Elementwise.Spirv
open Text.Numeral Text.Quoted

def literalText (d : Decoded) (index : Nat) (w : UInt32) : String :=
  let op := d.opcode
  if op = .capability then named Capability.names w
  else if op = .memoryModel then
    named (if index = 0 then AddressingModel.names else MemoryModel.names) w
  else if op = .entryPoint && index = 0 then named ExecutionModel.names w
  else if op = .executionMode && index = 1 then named ExecutionMode.names w
  else if (op = .typePointer || op = .variableOp) && index = 0 then named StorageClass.names w
  else if op = .decorate && index = 1 then named Decoration.names w
  else if op = .decorate && index = 2 && d.operands[1]? = some (.literal Decoration.builtIn) then
    named BuiltIn.names w
  else if op = .memberDecorate && index = 2 then named Decoration.names w
  else if op = .func || op = .selectionMerge || op = .loopMerge then controlText w
  else decimal w.toNat

def operandText (d : Decoded) (index : Nat) : Operand → String
  | .id w => idText w
  | .text bytes => quoteBytes bytes
  | .literal w => literalText d index w

/-- The column at which operations start. -/
def operationColumn : Nat := 15

def Decoded.line (d : Decoded) : String :=
  let parts := d.shape.name :: d.resultType.toList.map idText ++
    d.operands.mapIdx (operandText d)
  let text := " ".intercalate parts
  match d.result with
  | some id =>
    String.ofList (padLeft (operationColumn - 3) ' ' (idText id).toList) ++ " = " ++ text
  | none => String.ofList (List.replicate operationColumn ' ') ++ text

def Header.lines (h : Header) : List String := [
  "; SPIR-V",
  "; Version: " ++ h.version.text,
  "; Generator: 0x" ++ upperHexPadded 8 h.generator.toNat,
  "; Bound: " ++ decimal h.bound.toNat,
  "; Schema: " ++ decimal h.schema.toNat]

/-- The text of a binary, and the error that ended it, if any. -/
def disassemble (words : List UInt32) : String × Option ReadError :=
  match readModule words with
  | .error e => ("", some e)
  | .ok c =>
    let lines := c.header.lines ++ c.instrs.map Decoded.line
    (String.join (lines.map (· ++ "\n")), c.failure)

end Elementwise.Spirv
