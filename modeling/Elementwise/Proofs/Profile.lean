import Elementwise.Proofs.Encoding
import Elementwise.Spirv.Assembly

/-!
# What each form of instruction defines and reads

The generator writes a few dozen forms of instructions. Each has the shape of its opcode, belongs
to one section, and defines and reads certain of its words. Arithmetic, comparisons and
conversions are treated by their shape, not opcode by opcode.
-/
namespace Elementwise.Spirv
open Opcode

/-- The section of an instruction that can be read, and the ids that it defines and reads. -/
structure Instruction.Profile (i : Instruction) (home : Section) (result : Option UInt32)
    (reads : List UInt32) : Prop where
  shaped : i.shaped
  home : i.home? = some home
  result : i.result? = result
  reads : i.reads = reads

/-- The ids among operands. -/
def operandIds (operands : List Operand) : List UInt32 :=
  operands.filterMap fun
    | .id w => some w
    | _ => none

@[simp] theorem operandIds_nil : operandIds [] = [] := rfl

@[simp] theorem operandIds_id (w : UInt32) (operands : List Operand) :
    operandIds (.id w :: operands) = w :: operandIds operands := rfl

@[simp] theorem operandIds_literal (w : UInt32) (operands : List Operand) :
    operandIds (.literal w :: operands) = operandIds operands := rfl

@[simp] theorem operandIds_text (bytes : List UInt8) (operands : List Operand) :
    operandIds (.text bytes :: operands) = operandIds operands := rfl

@[simp] theorem operandIds_map_id (ws : List UInt32) : operandIds (ws.map .id) = ws := by
  induction ws with
  | nil => rfl
  | cons w ws ih => rw [List.map_cons, operandIds_id, ih]

@[simp] theorem operandIds_map_literal (ws : List UInt32) : operandIds (ws.map .literal) = [] := by
  simp [operandIds]

@[simp] theorem operandIds_append (os os' : List Operand) :
    operandIds (os ++ os') = operandIds os ++ operandIds os' := List.filterMap_append

theorem readOperands_ids (name : String) (ws : List UInt32) :
    readOperands name [.ids] ws = .ok (ws.map .id) := by simp [readOperands, Except.map]

theorem readOperands_literals (name : String) (ws : List UInt32) :
    readOperands name [.literals] ws = .ok (ws.map .literal) := by simp [readOperands, Except.map]

theorem readOperands_text (name : String) (kinds : List OperandKind) {bytes : List UInt8}
    (h : 0 ∉ bytes) (rest : List UInt32) :
    readOperands name (.text :: kinds) (textWords bytes ++ rest) =
      (readOperands name kinds rest).map (.text bytes :: ·) := by
  rw [readOperands]
  · simp [readText_textWords h]
  · simp [textWords_ne_nil]

theorem readOperands_lastText (name : String) {bytes : List UInt8} (h : 0 ∉ bytes) :
    readOperands name [.text] (textWords bytes) = .ok [.text bytes] := by
  have ho := readOperands_text name [] h []
  rwa [List.append_nil] at ho

theorem readOperands_entryPoint (model id : UInt32) {bytes : List UInt8} (h : 0 ∉ bytes)
    (ids : List UInt32) :
    readOperands "OpEntryPoint" [.literal, .id, .text, .ids]
      (model :: id :: (textWords bytes ++ ids)) =
      .ok (.literal model :: .id id :: .text bytes :: ids.map .id) := by
  rw [readOperands, readOperands, readOperands_text _ _ h, readOperands_ids]
  rfl

/-- How an instruction reads that has the result type and the result that its shape asks for. -/
theorem readAt_of_shape (op : Opcode) {operands : List Operand} {shape : Shape} {ws : List UInt32}
    (offset : Nat) (type result : Option UInt32) (hs : op.shape? = some shape)
    (ht : shape.hasResultType = type.isSome) (hr : shape.hasResult = result.isSome)
    (ho : readOperands shape.name shape.operands ws = .ok operands) :
    (⟨op, type.toList ++ result.toList ++ ws⟩ : Instruction).readAt offset =
      .ok ⟨offset, op, shape, type.toList ++ result.toList ++ ws, type, result, operands⟩ := by
  cases type <;> cases result <;>
    simp_all [Instruction.readAt, decodeInstr, readOptional, bind, Except.bind, pure, Except.pure]

namespace Profile

theorem of_readAt {i : Instruction} {d : Decoded} (h : i.readAt 0 = .ok d) :
    i.Profile d.home d.result d.ids := by
  have hd := Instruction.readAs_of_readAt h
  exact ⟨(Instruction.shaped_iff 0).2 ⟨d, h⟩, hd.home, hd.result.symm, hd.ids.symm⟩

section Shapes

variable (op : Opcode) (operands : List Operand) {shape : Shape} {type id : UInt32}
  {ws reads : List UInt32}

/-- The profile of an instruction with the result type and the result that its shape asks for. -/
theorem of_shape (type result : Option UInt32) (hs : op.shape? = some shape)
    (ht : shape.hasResultType = type.isSome) (hr : shape.hasResult = result.isSome)
    (hv : op ≠ variableOp) (ho : readOperands shape.name shape.operands ws = .ok operands) :
    (⟨op, type.toList ++ result.toList ++ ws⟩ : Instruction).Profile shape.home result
      (type.toList ++ operandIds operands) := by
  have h := of_readAt (readAt_of_shape op 0 type result hs ht hr ho)
  rwa [Decoded.home, Opcode.home?, hs, if_neg (by simp [hv])] at h

/-- The profile of an instruction without result. -/
theorem of_operands (hs : op.shape? = some shape)
    (ht : shape.hasResultType = false) (hr : shape.hasResult = false) (hv : op ≠ variableOp)
    (ho : readOperands shape.name shape.operands ws = .ok operands)
    (hreads : operandIds operands = reads) :
    (⟨op, ws⟩ : Instruction).Profile shape.home none reads :=
  hreads ▸ of_shape op operands none none hs ht hr hv ho

/-- The profile of an instruction with a result but no result type. -/
theorem of_result (hs : op.shape? = some shape)
    (ht : shape.hasResultType = false) (hr : shape.hasResult = true) (hv : op ≠ variableOp)
    (ho : readOperands shape.name shape.operands ws = .ok operands)
    (hreads : operandIds operands = reads) :
    (⟨op, id :: ws⟩ : Instruction).Profile shape.home (some id) reads :=
  hreads ▸ of_shape op operands none (some id) hs ht hr hv ho

/-- The profile of an instruction with result type and result. -/
theorem of_typed (hs : op.shape? = some shape)
    (ht : shape.hasResultType = true) (hr : shape.hasResult = true) (hv : op ≠ variableOp)
    (ho : readOperands shape.name shape.operands ws = .ok operands)
    (hreads : operandIds operands = reads) :
    (⟨op, type :: id :: ws⟩ : Instruction).Profile shape.home (some id) (type :: reads) :=
  hreads ▸ of_shape op operands (some type) (some id) hs ht hr hv ho

end Shapes

variable {id type a b c d : UInt32} {ids : List UInt32} {bytes : List UInt8}

/-! ## Types, constants and global variables -/

theorem typeVoid : (⟨.typeVoid, [id]⟩ : Instruction).Profile .types (some id) [] :=
  ⟨rfl, rfl, rfl, rfl⟩

theorem typeBool : (⟨.typeBool, [id]⟩ : Instruction).Profile .types (some id) [] :=
  ⟨rfl, rfl, rfl, rfl⟩

theorem typeInt : (⟨.typeInt, [id, a, b]⟩ : Instruction).Profile .types (some id) [] :=
  ⟨rfl, rfl, rfl, rfl⟩

theorem typeFloat : (⟨.typeFloat, [id, a]⟩ : Instruction).Profile .types (some id) [] :=
  ⟨rfl, rfl, rfl, rfl⟩

theorem typeVector : (⟨.typeVector, [id, a, b]⟩ : Instruction).Profile .types (some id) [a] :=
  ⟨rfl, rfl, rfl, rfl⟩

theorem typeRuntimeArray :
    (⟨.typeRuntimeArray, [id, a]⟩ : Instruction).Profile .types (some id) [a] :=
  ⟨rfl, rfl, rfl, rfl⟩

theorem typePointer : (⟨.typePointer, [id, a, b]⟩ : Instruction).Profile .types (some id) [b] :=
  ⟨rfl, rfl, rfl, rfl⟩

theorem typeStruct : (⟨.typeStruct, id :: ids⟩ : Instruction).Profile .types (some id) ids :=
  of_result .typeStruct (ids.map .id) rfl rfl rfl (by decide) (readOperands_ids _ ids) (by simp)

theorem typeFunction :
    (⟨.typeFunction, id :: a :: ids⟩ : Instruction).Profile .types (some id) (a :: ids) :=
  of_result .typeFunction (.id a :: ids.map .id) rfl rfl rfl (by decide)
    (by simp [typeShape, readOperands, Except.map]) (by simp)

theorem constant :
    (⟨.constant, type :: id :: ids⟩ : Instruction).Profile .types (some id) [type] :=
  of_typed .constant (ids.map .literal) rfl rfl rfl (by decide) (readOperands_literals _ ids)
    (by simp)

theorem constantBool (value : Bool) :
    (⟨if value then .constantTrue else .constantFalse, [type, id]⟩ : Instruction).Profile .types
      (some id) [type] := by
  cases value <;> exact ⟨rfl, rfl, rfl, rfl⟩

theorem globalVariable (h : a ≠ StorageClass.function) :
    (⟨.variableOp, [type, id, a]⟩ : Instruction).Profile .types (some id) [type] := by
  refine ⟨rfl, ?_, rfl, rfl⟩
  simp only [Instruction.home?, Opcode.home?]
  rw [if_neg (by simpa using h)]
  rfl

/-! ## Entry points, names, decorations and the preamble -/

theorem capability : (⟨.capability, [a]⟩ : Instruction).Profile .preamble none [] :=
  ⟨rfl, rfl, rfl, rfl⟩

theorem memoryModel : (⟨.memoryModel, [a, b]⟩ : Instruction).Profile .preamble none [] :=
  ⟨rfl, rfl, rfl, rfl⟩

theorem extension (h : 0 ∉ bytes) :
    (⟨.extension, textWords bytes⟩ : Instruction).Profile .preamble none [] :=
  of_operands .extension [.text bytes] rfl rfl rfl (by decide) (readOperands_lastText _ h) rfl

theorem name (h : 0 ∉ bytes) :
    (⟨.name, id :: textWords bytes⟩ : Instruction).Profile .debug none [id] :=
  of_operands .name [.id id, .text bytes] rfl rfl rfl (by decide)
    (by rw [readOperands, readOperands_lastText _ h]; rfl) rfl

theorem memberName (h : 0 ∉ bytes) :
    (⟨.memberName, id :: a :: textWords bytes⟩ : Instruction).Profile .debug none [id] :=
  of_operands .memberName [.id id, .literal a, .text bytes] rfl rfl rfl (by decide)
    (by rw [readOperands, readOperands, readOperands_lastText _ h]; rfl) rfl

theorem decorate :
    (⟨.decorate, id :: a :: ids⟩ : Instruction).Profile .decorations none [id] :=
  of_operands .decorate (.id id :: .literal a :: ids.map .literal) rfl rfl rfl (by decide)
    (by simp [readOperands, Except.map]) (by simp)

theorem memberDecorate :
    (⟨.memberDecorate, id :: a :: b :: ids⟩ : Instruction).Profile .decorations none [id] :=
  of_operands .memberDecorate (.id id :: .literal a :: .literal b :: ids.map .literal) rfl rfl rfl
    (by decide) (by simp [readOperands, Except.map]) (by simp)

theorem entryPoint (h : 0 ∉ bytes) :
    (⟨.entryPoint, a :: id :: textWords bytes ++ ids⟩ : Instruction).Profile .entryPoints none
      (id :: ids) :=
  of_operands .entryPoint _ rfl rfl rfl (by decide) (readOperands_entryPoint a id h ids) (by simp)

theorem executionMode :
    (⟨.executionMode, id :: a :: ids⟩ : Instruction).Profile .entryPoints none [id] :=
  of_operands .executionMode (.id id :: .literal a :: ids.map .literal) rfl rfl rfl (by decide)
    (by simp [readOperands, Except.map]) (by simp)

/-! ## Function bodies -/

theorem func : (⟨.func, [type, id, a, b]⟩ : Instruction).Profile .functions (some id) [type, b] :=
  ⟨rfl, rfl, rfl, rfl⟩

theorem functionParameter :
    (⟨.functionParameter, [type, id]⟩ : Instruction).Profile .functions (some id) [type] :=
  ⟨rfl, rfl, rfl, rfl⟩

theorem functionEnd : (⟨.functionEnd, []⟩ : Instruction).Profile .functions none [] :=
  ⟨rfl, rfl, rfl, rfl⟩

theorem localVariable :
    (⟨.variableOp, [type, id, StorageClass.function]⟩ : Instruction).Profile .functions (some id)
      [type] :=
  ⟨rfl, rfl, rfl, rfl⟩

theorem label : (⟨.label, [id]⟩ : Instruction).Profile .functions (some id) [] :=
  ⟨rfl, rfl, rfl, rfl⟩

theorem load : (⟨.load, [type, id, a]⟩ : Instruction).Profile .functions (some id) [type, a] :=
  ⟨rfl, rfl, rfl, rfl⟩

theorem store : (⟨.store, [a, b]⟩ : Instruction).Profile .functions none [a, b] :=
  ⟨rfl, rfl, rfl, rfl⟩

theorem accessChain :
    (⟨.accessChain, type :: id :: a :: ids⟩ : Instruction).Profile .functions (some id)
      (type :: a :: ids) :=
  of_typed .accessChain (.id a :: ids.map .id) rfl rfl rfl (by decide)
    (by simp [valueShape, readOperands, Except.map]) (by simp)

theorem ptrAccessChain :
    (⟨.ptrAccessChain, [type, id, a, b]⟩ : Instruction).Profile .functions (some id)
      [type, a, b] :=
  ⟨rfl, rfl, rfl, rfl⟩

theorem compositeExtract :
    (⟨.compositeExtract, [type, id, a, b]⟩ : Instruction).Profile .functions (some id)
      [type, a] :=
  ⟨rfl, rfl, rfl, rfl⟩

theorem functionCall :
    (⟨.functionCall, type :: id :: a :: ids⟩ : Instruction).Profile .functions (some id)
      (type :: a :: ids) :=
  of_typed .functionCall (.id a :: ids.map .id) rfl rfl rfl (by decide)
    (by simp [valueShape, readOperands, Except.map]) (by simp)

theorem selectionMerge : (⟨.selectionMerge, [a, b]⟩ : Instruction).Profile .functions none [a] :=
  ⟨rfl, rfl, rfl, rfl⟩

theorem loopMerge : (⟨.loopMerge, [a, b, c]⟩ : Instruction).Profile .functions none [a, b] :=
  ⟨rfl, rfl, rfl, rfl⟩

theorem branch : (⟨.branch, [a]⟩ : Instruction).Profile .functions none [a] :=
  ⟨rfl, rfl, rfl, rfl⟩

theorem branchConditional :
    (⟨.branchConditional, [a, b, c]⟩ : Instruction).Profile .functions none [a, b, c] :=
  ⟨rfl, rfl, rfl, rfl⟩

theorem ret : (⟨.ret, []⟩ : Instruction).Profile .functions none [] :=
  ⟨rfl, rfl, rfl, rfl⟩

theorem returnValue : (⟨.returnValue, [a]⟩ : Instruction).Profile .functions none [a] :=
  ⟨rfl, rfl, rfl, rfl⟩

theorem unreachable : (⟨.unreachable, []⟩ : Instruction).Profile .functions none [] :=
  ⟨rfl, rfl, rfl, rfl⟩

end Profile

/-! ## Computations -/

namespace Opcode

/-- Computes a value from one other. -/
def IsUnary (op : Opcode) : Prop := ∃ name, op.shape? = some (valueShape name [.id])

/-- Computes a value from two others. -/
def IsBinary (op : Opcode) : Prop := ∃ name, op.shape? = some (valueShape name [.id, .id])

end Opcode

variable {op : Opcode} {type id a b : UInt32}

theorem Profile.unary (h : op.IsUnary) :
    (⟨op, [type, id, a]⟩ : Instruction).Profile .functions (some id) [type, a] := by
  obtain ⟨name, hs⟩ := h
  have hv : op ≠ variableOp := by
    rintro rfl
    cases hs
  exact of_typed op [.id a] hs rfl rfl hv rfl rfl

theorem Profile.binary (h : op.IsBinary) :
    (⟨op, [type, id, a, b]⟩ : Instruction).Profile .functions (some id) [type, a, b] := by
  obtain ⟨name, hs⟩ := h
  have hv : op ≠ variableOp := by
    rintro rfl
    cases hs
  exact of_typed op [.id a, .id b] hs rfl rfl hv rfl rfl

end Elementwise.Spirv
