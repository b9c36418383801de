import Elementwise.Proofs.DeclaredOnce
import Elementwise.Proofs.Faithfulness
import Elementwise.Proofs.KernelLayout

/-!
# The interface describes the binary

A host sets a kernel up by its interface, a device runs it by what the binary declares. What the
interface says of entry point, workgroups, buffer and element count can be read off the words:
from the one entry point, the one variable of each storage class, and the decorations of the types
behind them. Strides are given to arrays and to pointer types, each once, and are the sizes of the
numbers that they step over.
-/
namespace Elementwise.Spirv
open IR Gen Relation Text.Utf8

/-! ## What is read off instructions -/

/-- What follows given operands in the instructions of an opcode. -/
def parametersOf (op : Opcode) (key : List UInt32) (instrs : List Instruction) :
    List (List UInt32) :=
  instrs.filterMap fun i =>
    if i.opcode = op ∧ i.operands.take key.length = key then some (i.operands.drop key.length)
    else none

/-- The parameters of the decorations of one kind that an id carries. -/
def decorationsOf (instrs : List Instruction) (id kind : UInt32) : List (List UInt32) :=
  parametersOf .decorate [id, kind] instrs

/-- The parameters of the decorations of one kind that a member of a structure carries. -/
def memberDecorationsOf (instrs : List Instruction) (id member kind : UInt32) :
    List (List UInt32) :=
  parametersOf .memberDecorate [id, member, kind] instrs

/-- The variables of a storage class. -/
def variablesIn (instrs : List Instruction) (storage : UInt32) : List Instruction :=
  instrs.filter fun i => i.opcode = .variableOp && i.operands[2]? == some storage

/-- The size of a number in bytes. -/
def IsByteSize (t : Ty) (size : UInt32) : Prop :=
  (t.isInt || t.isFloat) = true ∧ size.toNat * 8 = (numberWidth t).toNat

/-- An id is declared as a number of a size. -/
def DeclaresNumber (instrs : List Instruction) (id : UInt32) (t : Ty) (size : UInt32) : Prop :=
  (∃ i ∈ instrs, scalarInstr? id t = some i) ∧ IsByteSize t size

/-! ## What the interface says -/

namespace Abi

/-- There is one entry point. It is the last function, under the name of the interface. -/
structure DescribesEntry (abi : Abi) (contents : Contents) (entry : UInt32) : Prop where
  point : ∃ interfaces : List UInt32,
    (contents.instrs.filter fun d => d.opcode = .entryPoint).map Decoded.operands =
      [.literal ExecutionModel.glCompute :: .id entry :: .text abi.entryPoint.bytes ::
        interfaces.map .id]
  last : ((contents.instructions.filter fun i => i.opcode = .func).getLast?).bind
    Instruction.result? = some entry
  localSize : parametersOf .executionMode [entry, ExecutionMode.localSize] contents.instructions =
    [[abi.workgroup.1, abi.workgroup.2.1, abi.workgroup.2.2]]

/-- The one variable of a storage class points to a block with one member. -/
structure OneBlock (instrs : List Instruction) (storage pointer var block member : UInt32) :
    Prop where
  only : variablesIn instrs storage = [⟨.variableOp, [pointer, var, storage]⟩]
  pointer : ⟨.typePointer, [pointer, storage, block]⟩ ∈ instrs
  struct : ⟨.typeStruct, [block, member]⟩ ∈ instrs
  isBlock : decorationsOf instrs block Decoration.block = [[]]

/-- The buffer is bound where the interface says, and holds an array of its elements. -/
structure DescribesData (abi : Abi) (instrs : List Instruction) (var array : UInt32) : Prop where
  group : decorationsOf instrs var Decoration.descriptorSet = [[abi.dataGroup]]
  binding : decorationsOf instrs var Decoration.binding = [[abi.data.index]]
  stride : decorationsOf instrs array Decoration.arrayStride = [[abi.elementStride]]
  elem : ∃ (id : UInt32) (t : Ty), ⟨.typeRuntimeArray, [array, id]⟩ ∈ instrs ∧
    DeclaresNumber instrs id t abi.elementStride ∧ t.text = abi.elementType

/-- The count is a word at the offset that the interface says. -/
structure DescribesCount (abi : Abi) (instrs : List Instruction) (block count : UInt32) :
    Prop where
  word : ⟨.typeInt, [count, 32, 0]⟩ ∈ instrs
  offset : memberDecorationsOf instrs block 0 Decoration.offset = [[abi.countOffset]]

/-- Pointers that are stepped over have the sizes of their numbers as strides. -/
structure StridesFit (instrs : List Instruction) : Prop where
  strided : ∀ i ∈ instrs, i.opcode = .ptrAccessChain →
    ∃ type rest storage pointee t size, i.operands = type :: rest ∧
      ⟨.typePointer, [type, storage, pointee]⟩ ∈ instrs ∧ DeclaresNumber instrs pointee t size ∧
      decorationsOf instrs type Decoration.arrayStride = [[size]]
  once : ∀ id, (decorationsOf instrs id Decoration.arrayStride).length ≤ 1

/-- All that the interface says is so in the binary. -/
structure Describes (abi : Abi) (contents : Contents) : Prop where
  entry : ∃ entry, abi.DescribesEntry contents entry
  data : ∃ pointer var block array,
    OneBlock contents.instructions StorageClass.storageBuffer pointer var block array ∧
      abi.DescribesData contents.instructions var array
  count : ∃ pointer var block count,
    OneBlock contents.instructions StorageClass.pushConstant pointer var block count ∧
      abi.DescribesCount contents.instructions block count
  strides : StridesFit contents.instructions

end Abi

/-! ## Sections -/

variable {offset : Nat} {name : List UInt8} {e : UInt32 × Ty} {i : Instruction}
  {interfaces : List UInt32} {ds : List Decoded} {is : List Instruction} {p : Instruction → Bool}

section Sections

variable {s : Generator} {home : Section}

/-- What is read off the instructions of a section can be read off that section. -/
theorem Generator.Sorted.filterMap_part {β : Type} {f : Instruction → Option β} (h : s.Sorted)
    (home : Section) (hhome : home ∈ growingSections)
    (hf : ∀ i, (f i).isSome → i.home? = some home) :
    s.contents.filterMap f = (s.part home).filterMap f := by
  rw [← h.filter_part hhome, List.filterMap_filter]
  refine List.filterMap_congr fun i _ => ?_
  by_cases hi : i.home? = some home
  · simp [hi]
  · have hnone : f i = none := by
      rw [← Option.not_isSome_iff_eq_none]
      exact fun hsome => hi (hf i hsome)
    simp [hi, hnone]

theorem Generator.Sorted.filter_of_home (h : s.Sorted) (home : Section)
    (hhome : home ∈ growingSections) (hp : ∀ i, p i = true → i.home? = some home) :
    s.contents.filter p = (s.part home).filter p := by
  rw [← h.filter_part hhome, filter_filter_home hp]

theorem parametersOf_contents {op : Opcode} (home : Section) (key : List UInt32) (h : s.Sorted)
    (hhome : home ∈ growingSections) (hvariable : op ≠ .variableOp)
    (hshape : op.shape?.map Shape.home = some home) :
    parametersOf op key s.contents = parametersOf op key (s.part home) := by
  refine h.filterMap_part home hhome fun i hi => ?_
  by_cases hop : i.opcode = op
  · exact home?_of_opcode hop hvariable hshape
  · simp [hop] at hi

/-- Variables of functions apart, all variables are globals. -/
theorem variablesIn_contents {storage : UInt32} (h : s.Sorted)
    (hstorage : storage ≠ StorageClass.function) :
    variablesIn s.contents storage = variablesIn s.globals storage := by
  have hp : ∀ i : Instruction,
      (i.opcode = .variableOp && i.operands[2]? == some storage) = true →
        i.home? = some .types := by
    intro i hi
    simp only [Bool.and_eq_true, decide_eq_true_eq, beq_iff_eq] at hi
    have hclass : ¬ (i.opcode = .variableOp &&
        i.operands[2]? == some StorageClass.function) = true := by
      simpa [hi.1, hi.2] using hstorage
    rw [Instruction.home?, Opcode.home?, if_neg hclass, hi.1]
    rfl
  rw [variablesIn, h.filter_of_home .types (by decide) hp, variablesIn, Generator.globals,
    List.filter_filter]
  refine List.filter_congr fun i _ => ?_
  cases hop : decide (i.opcode = .variableOp) <;> simp

end Sections

theorem mem_contents_of_declared {s : Generator} (h : i ∈ s.declared) : i ∈ s.contents := by
  rw [Generator.contents_eq]
  exact List.mem_append_right _ (List.mem_append_left _ h)

/-! ## Decorations -/

theorem isByteSize_of_declared {t : Ty} (h : DeclaredNumber t) :
    IsByteSize t (numberWidth t / 8) := by
  refine ⟨h.1, ?_⟩
  cases t with
  | int w =>
    have hw := hasIntWidth_of_normalized h.2
    simp only [hasIntWidth, Bool.or_eq_true, decide_eq_true_eq] at hw
    rcases hw with ((rfl | rfl) | rfl) | rfl <;> rfl
  | float w =>
    have hw := hasFloatWidth_of_normalized h.2
    simp only [hasFloatWidth, Bool.or_eq_true, decide_eq_true_eq] at hw
    rcases hw with (rfl | rfl) | rfl <;> rfl
  | _ => cases h.1

@[simp] theorem parametersOf_nil (op : Opcode) (key : List UInt32) : parametersOf op key [] = [] :=
  rfl

@[simp] theorem parametersOf_append (op : Opcode) (key : List UInt32) (is js : List Instruction) :
    parametersOf op key (is ++ js) = parametersOf op key is ++ parametersOf op key js :=
  List.filterMap_append

theorem parametersOf_cons (op : Opcode) (key : List UInt32) (i : Instruction)
    (is : List Instruction) :
    parametersOf op key (i :: is) =
      (if i.opcode = op ∧ i.operands.take key.length = key then [i.operands.drop key.length]
      else []) ++ parametersOf op key is := by
  simp only [parametersOf, List.filterMap_cons]
  split <;> split <;> simp_all

/-- Among distinct keys an entry is found once. -/
theorem filter_key {α : Type} {entries : List (UInt32 × α)} (hnodup : (entries.map Prod.fst).Nodup)
    {e : UInt32 × α} (he : e ∈ entries) : entries.filter (fun x => x.1 = e.1) = [e] := by
  induction entries with
  | nil => cases he
  | cons first rest ih =>
    obtain ⟨hnot, hrest⟩ := List.nodup_cons.1 hnodup
    rcases List.mem_cons.1 he with rfl | he
    · have hnone : rest.filter (fun x => x.1 = e.1) = [] := by
        refine List.filter_eq_nil_iff.2 fun x hx heq => hnot ?_
        exact of_decide_eq_true heq ▸ List.mem_map_of_mem hx
      rw [List.filter_cons_of_pos (by simp), hnone]
    · have hne : first.1 ≠ e.1 := fun heq => hnot (heq ▸ List.mem_map_of_mem he)
      rw [List.filter_cons_of_neg (by simpa using hne), ih hrest he]

theorem parametersOf_strideInstrs (id : UInt32) (strided : List (UInt32 × Ty)) :
    parametersOf .decorate [id, Decoration.arrayStride] (strideInstrs strided) =
      (strided.filter fun e => e.1 = id).map fun e => [numberWidth e.2 / 8] := by
  induction strided with
  | nil => rfl
  | cons e rest ih =>
    rw [strideInstrs, List.map_cons, parametersOf_cons]
    change _ ++ parametersOf _ _ (strideInstrs rest) = _
    by_cases hid : e.1 = id <;> simp [hid, ih]

theorem parametersOf_strideInstrs_of_ne {id kind : UInt32} (hkind : Decoration.arrayStride ≠ kind)
    (strided : List (UInt32 × Ty)) :
    parametersOf .decorate [id, kind] (strideInstrs strided) = [] := by
  refine List.filterMap_eq_nil_iff.2 fun i hi => ?_
  obtain ⟨e, -, rfl⟩ := List.mem_map.1 hi
  simp [hkind]

theorem parametersOf_member_strideInstrs (key : List UInt32) (strided : List (UInt32 × Ty)) :
    parametersOf .memberDecorate key (strideInstrs strided) = [] := by
  have hop : Opcode.decorate ≠ .memberDecorate := by decide
  refine List.filterMap_eq_nil_iff.2 fun i hi => ?_
  obtain ⟨e, -, rfl⟩ := List.mem_map.1 hi
  simp [hop]

/-- What the kernel's own decorations say of an id. -/
theorem parametersOf_decorations (k : KernelIds) (b : BlockIds) (id kind : UInt32) :
    parametersOf .decorate [id, kind] (k.decorations b) =
      (if b.array = id ∧ Decoration.arrayStride = kind then [[k.stride]] else []) ++
      ((if b.dataBlock = id ∧ Decoration.block = kind then [[]] else []) ++
      ((if k.dataVar = id ∧ Decoration.descriptorSet = kind then [[0]] else []) ++
      ((if k.dataVar = id ∧ Decoration.binding = kind then [[0]] else []) ++
      ((if b.configBlock = id ∧ Decoration.block = kind then [[]] else []) ++
      (if k.invocationVar = id ∧ Decoration.builtIn = kind then [[BuiltIn.globalInvocationId]]
      else []))))) := by
  have hmember : Opcode.memberDecorate ≠ .decorate := by decide
  simp [KernelIds.decorations, parametersOf_cons, hmember]

namespace Generator.LaidOut

variable {s t : Generator} {k : KernelIds} {b : BlockIds} {strided : List (UInt32 × Ty)}
  {entry : UInt32}

/-- States that share their code share their layout. -/
theorem sameCode (h : t.LaidOut k b strided entry) (hcode : s.SameCode t) (hc : t.clean) :
    s.LaidOut k b strided entry := by
  have hdeclared : s.declared = t.declared := congrArg Array.toList hcode.types
  have hwritten : s.written = t.written := congrArg Array.toList hcode.code
  have hdecorations : s.part .decorations = t.part .decorations :=
    congrArg Array.toList hcode.decorations
  have hglobals : s.globals = t.globals := congrArg (List.filter _) hdeclared
  exact
    { types :=
        { number := h.types.number
          stride := h.types.stride
          elem := hcode.interned ▸ h.types.elem
          uint := hcode.interned ▸ h.types.uint
          dataPtr := hcode.interned ▸ h.types.dataPtr
          configPtr := hcode.interned ▸ h.types.configPtr
          array := fun _ => hdeclared ▸ h.types.array hc
          dataBlock := fun _ => hdeclared ▸ h.types.dataBlock hc
          configBlock := fun _ => hdeclared ▸ h.types.configBlock hc }
      decorations := hdecorations.trans h.decorations
      globals := hglobals.trans h.globals
      strides := hcode.interned ▸ h.strides
      nodup := h.nodup
      typed := hcode.interned ▸ h.typed
      zero := hdeclared ▸ h.zero
      entry := hwritten ▸ h.entry }

variable (h : s.LaidOut k b strided entry) (hc : s.clean) (hsorted : s.Sorted)
  (hrecord : s.OnRecord) (hunique : (resultIds s.contents).Nodup)
include h hc hsorted hrecord hunique

/-- The array is no pointer type. -/
theorem ne_array (he : e ∈ strided) : e.1 ≠ b.array := by
  intro heq
  obtain ⟨-, pointee, storage, hpointer, -⟩ := h.typed e he
  obtain ⟨i, hi, rfl⟩ := hrecord.recorded _ _ hpointer
  have hsame := eq_of_result (hsorted.nodup_declared hunique) hi (h.types.array hc)
    (Profile.typePointer.result.trans (congrArg some heq)) Profile.typeRuntimeArray.result
  have hop : Opcode.typePointer = .typeRuntimeArray := congrArg Instruction.opcode hsame
  exact absurd hop (by decide)

/-- The two blocks differ, since one holds an array and the other a number. -/
theorem dataBlock_ne : b.dataBlock ≠ b.configBlock := by
  intro heq
  have hdeclared := hsorted.nodup_declared hunique
  have hblocks := eq_of_result hdeclared (h.types.dataBlock hc) (h.types.configBlock hc)
    (Profile.typeStruct.result.trans (congrArg some heq)) Profile.typeStruct.result
  have hmember : b.array = k.uint := by
    have hoperands := congrArg Instruction.operands hblocks
    simpa [heq] using hoperands
  obtain ⟨i, hi, huint⟩ := hrecord.recorded _ _ h.types.uint
  cases huint
  have hsame := eq_of_result hdeclared (h.types.array hc) hi
    (Profile.typeRuntimeArray.result.trans (congrArg some hmember)) Profile.typeInt.result
  have hop : Opcode.typeRuntimeArray = .typeInt := congrArg Instruction.opcode hsame
  exact absurd hop (by decide)

omit hc hrecord hunique in
theorem decorationsOf_contents (id kind : UInt32) :
    decorationsOf s.contents id kind = parametersOf .decorate [id, kind] (k.decorations b) ++
      parametersOf .decorate [id, kind] (strideInstrs strided) := by
  rw [decorationsOf, parametersOf_contents .decorations _ hsorted (by decide) (by decide) rfl,
    h.decorations, parametersOf_append]

omit hc hrecord hunique in
/-- The strides of the array and of the pointer types, by their ids. -/
theorem decorationsOf_arrayStride (id : UInt32) :
    decorationsOf s.contents id Decoration.arrayStride =
      (((b.array, k.elem) :: strided).filter fun e => e.1 = id).map
        fun e => [numberWidth e.2 / 8] := by
  have harray : parametersOf .decorate [id, Decoration.arrayStride] (k.decorations b) =
      if b.array = id then [[numberWidth k.elem / 8]] else [] := by
    simp [parametersOf_decorations, Decoration.arrayStride, Decoration.block,
      Decoration.descriptorSet, Decoration.binding, Decoration.builtIn, h.types.stride]
  rw [h.decorationsOf_contents hsorted, harray, parametersOf_strideInstrs]
  by_cases hid : b.array = id <;> simp [hid]

theorem nodup_strided : (((b.array, k.elem) :: strided).map Prod.fst).Nodup := by
  refine List.nodup_cons.2 ⟨fun hmem => ?_, h.nodup⟩
  obtain ⟨e, he, heq⟩ := List.mem_map.1 hmem
  exact h.ne_array hc hsorted hrecord hunique he heq

theorem decorationsOf_strided (he : e ∈ (b.array, k.elem) :: strided) :
    decorationsOf s.contents e.1 Decoration.arrayStride = [[numberWidth e.2 / 8]] := by
  rw [h.decorationsOf_arrayStride hsorted,
    filter_key (h.nodup_strided hc hsorted hrecord hunique) he]
  rfl

/-- No id has two strides. -/
theorem arrayStride_once (id : UInt32) :
    (decorationsOf s.contents id Decoration.arrayStride).length ≤ 1 := by
  by_cases hid : ∃ e ∈ (b.array, k.elem) :: strided, e.1 = id
  · obtain ⟨e, he, rfl⟩ := hid
    rw [h.decorationsOf_strided hc hsorted hrecord hunique he]
    exact Nat.le_refl 1
  · have hnone : ((b.array, k.elem) :: strided).filter (fun e => e.1 = id) = [] :=
      List.filter_eq_nil_iff.2 fun e he heq => hid ⟨e, he, of_decide_eq_true heq⟩
    rw [h.decorationsOf_arrayStride hsorted, hnone]
    exact Nat.zero_le 1

omit hc hrecord hunique in
theorem decorationsOf_dataVar :
    decorationsOf s.contents k.dataVar Decoration.descriptorSet = [[0]] ∧
      decorationsOf s.contents k.dataVar Decoration.binding = [[0]] := by
  constructor <;>
    rw [h.decorationsOf_contents hsorted, parametersOf_strideInstrs_of_ne (by decide)] <;>
    simp [parametersOf_decorations, Decoration.arrayStride, Decoration.block,
      Decoration.descriptorSet, Decoration.binding, Decoration.builtIn]

theorem decorationsOf_block :
    decorationsOf s.contents b.dataBlock Decoration.block = [[]] ∧
      decorationsOf s.contents b.configBlock Decoration.block = [[]] := by
  have hne := h.dataBlock_ne hc hsorted hrecord hunique
  constructor <;>
    rw [h.decorationsOf_contents hsorted, parametersOf_strideInstrs_of_ne (by decide)] <;>
    simp [parametersOf_decorations, Decoration.arrayStride, Decoration.block,
      Decoration.descriptorSet, Decoration.binding, Decoration.builtIn, hne, hne.symm]

theorem memberDecorationsOf_configBlock :
    memberDecorationsOf s.contents b.configBlock 0 Decoration.offset = [[0]] := by
  have hne := h.dataBlock_ne hc hsorted hrecord hunique
  rw [memberDecorationsOf,
    parametersOf_contents .decorations _ hsorted (by decide) (by decide) rfl, h.decorations,
    parametersOf_append, parametersOf_member_strideInstrs]
  have hplain : Opcode.decorate ≠ .memberDecorate := by decide
  simp [KernelIds.decorations, parametersOf_cons, hplain, hne]

omit hc hrecord hunique in
/-- The buffer and the configuration are the variables of their storage classes. -/
theorem variablesIn_contents :
    variablesIn s.contents StorageClass.storageBuffer =
        [⟨.variableOp, [b.dataPtr, k.dataVar, StorageClass.storageBuffer]⟩] ∧
      variablesIn s.contents StorageClass.pushConstant =
        [⟨.variableOp, [b.configPtr, k.configVar, StorageClass.pushConstant]⟩] := by
  constructor <;>
    rw [Spirv.variablesIn_contents hsorted (by decide), h.globals] <;>
    simp [variablesIn, KernelIds.globals, StorageClass.storageBuffer, StorageClass.pushConstant,
      StorageClass.input]

omit h hc hsorted hunique in
theorem pointer_mem {pointee storage id : UInt32}
    (hid : (Declaration.pointer pointee storage).id? s.interned = some id) :
    ⟨.typePointer, [id, storage, pointee]⟩ ∈ s.contents := by
  obtain ⟨i, hi, rfl⟩ := hrecord.recorded _ _ hid
  exact mem_contents_of_declared hi

omit h hc hsorted hunique in
theorem declaresNumber {u : Ty} {id : UInt32} (hnumber : DeclaredNumber u)
    (hid : (Declaration.scalar u).id? s.interned = some id) :
    DeclaresNumber s.contents id u (numberWidth u / 8) := by
  obtain ⟨i, hi, hscalar⟩ := hrecord.recorded _ _ hid
  exact ⟨⟨i, mem_contents_of_declared hi, hscalar⟩, isByteSize_of_declared hnumber⟩

theorem oneBlock_data : Abi.OneBlock s.contents StorageClass.storageBuffer b.dataPtr k.dataVar
    b.dataBlock b.array where
  only := (h.variablesIn_contents hsorted).1
  pointer := pointer_mem hrecord h.types.dataPtr
  struct := mem_contents_of_declared (h.types.dataBlock hc)
  isBlock := (h.decorationsOf_block hc hsorted hrecord hunique).1

theorem oneBlock_config : Abi.OneBlock s.contents StorageClass.pushConstant b.configPtr k.configVar
    b.configBlock k.uint where
  only := (h.variablesIn_contents hsorted).2
  pointer := pointer_mem hrecord h.types.configPtr
  struct := mem_contents_of_declared (h.types.configBlock hc)
  isBlock := (h.decorationsOf_block hc hsorted hrecord hunique).2

theorem describesData (name : Text) (host : HostCodes) :
    (Abi.ofKernel name k.elem k.stride host).DescribesData s.contents k.dataVar b.array where
  group := (h.decorationsOf_dataVar hsorted).1
  binding := (h.decorationsOf_dataVar hsorted).2
  stride := by
    have harray := h.decorationsOf_strided hc hsorted hrecord hunique List.mem_cons_self
    exact harray.trans (by rw [← h.types.stride]; rfl)
  elem := by
    refine ⟨b.elem, k.elem, mem_contents_of_declared (h.types.array hc), ?_, rfl⟩
    have hnumber := declaresNumber hrecord h.types.number h.types.elem
    rwa [← h.types.stride] at hnumber

theorem describesCount (name : Text) (host : HostCodes) :
    (Abi.ofKernel name k.elem k.stride host).DescribesCount s.contents b.configBlock k.uint where
  word := by
    obtain ⟨i, hi, hscalar⟩ := hrecord.recorded _ _ h.types.uint
    cases hscalar
    exact mem_contents_of_declared hi
  offset := h.memberDecorationsOf_configBlock hc hsorted hrecord hunique

/-- Addresses are computed through types with strides, and these point to numbers. -/
theorem stridesFit (hstrided : ∀ i ∈ s.written, i.opcode = .ptrAccessChain →
      ∃ type ∈ s.interned.strides, ∃ rest, i.operands = type :: rest) :
    Abi.StridesFit s.contents where
  strided i hi hop := by
    have hmem : i ∈ s.written := by
      have hhome : i.home? = some .functions := home?_of_opcode hop (by decide) rfl
      change i ∈ s.part .functions
      rw [← hsorted.filter_part (by decide)]
      exact List.mem_filter.2 ⟨hi, decide_eq_true hhome⟩
    obtain ⟨type, htype, rest, hrest⟩ := hstrided i hmem hop
    rw [h.strides, List.mem_reverse] at htype
    obtain ⟨e, he, rfl⟩ := List.mem_map.1 htype
    obtain ⟨hnumber, pointee, storage, hpointer, helem⟩ := h.typed e he
    exact ⟨e.1, rest, storage, pointee, e.2, _, hrest, pointer_mem hrecord hpointer,
      declaresNumber hrecord hnumber helem,
      h.decorationsOf_strided hc hsorted hrecord hunique (List.mem_cons_of_mem _ he)⟩
  once := h.arrayStride_once hc hsorted hrecord hunique

end Generator.LaidOut

/-! ## The entry point -/

theorem forall₂_readAt (h : readAll offset is = (ds, none)) :
    List.Forall₂ (fun i d => ∃ at_, i.readAt at_ = .ok d) is ds := by
  induction is generalizing offset ds with
  | nil =>
    cases h
    exact .nil
  | cons i rest ih =>
    simp only [readAll] at h
    cases hi : i.readAt offset with
    | error e => rw [hi] at h; cases h
    | ok d =>
      rw [hi] at h
      obtain ⟨rfl, hfail⟩ := Prod.mk.inj h
      exact .cons ⟨offset, hi⟩ (ih (Prod.ext rfl hfail))

theorem operands_entryPoint {model entry : UInt32} {d : Decoded} (hname : 0 ∉ name)
    (h : (⟨.entryPoint, model :: entry :: textWords name ++ interfaces⟩ : Instruction).readAt
      offset = .ok d) :
    d.operands = .literal model :: .id entry :: .text name :: interfaces.map .id := by
  have hread := readAt_of_shape .entryPoint offset none none rfl rfl rfl
    (readOperands_entryPoint model entry hname interfaces)
  cases h.symm.trans hread
  rfl

/-- The entry point is read with its name. -/
theorem map_operands_entryPoint {model entry : UInt32} (hname : 0 ∉ name)
    (h : readAll offset is = (ds, none))
    (hpoint : is.filter (fun i => i.opcode = .entryPoint) =
      [⟨.entryPoint, model :: entry :: textWords name ++ interfaces⟩]) :
    (ds.filter fun d => d.opcode = .entryPoint).map Decoded.operands =
      [.literal model :: .id entry :: .text name :: interfaces.map .id] := by
  have hfilter : List.Forall₂ (fun i d => ∃ at_, Instruction.readAt at_ i = .ok d)
      (is.filter fun i => i.opcode = .entryPoint) (ds.filter fun d => d.opcode = .entryPoint) := by
    refine List.rel_filter ?_ (forall₂_readAt h)
    rintro i d ⟨at_, hd⟩
    have hsame := congrArg Instruction.opcode (Instruction.readAs_of_readAt hd).instruction
    rw [Decoded.instruction_opcode] at hsame
    simp [hsame]
  rw [hpoint] at hfilter
  generalize (ds.filter fun d => d.opcode = .entryPoint) = found at hfilter
  cases hfilter with
  | cons hd hrest =>
    cases hrest
    obtain ⟨at_, hd⟩ := hd
    rw [List.map_singleton, operands_entryPoint hname hd]

/-! ## Compiled programs -/

section Compiled

variable {program : Program} {options : Options} {host : HostCodes} {c : Compiled}
  {k : KernelIds} {entry : UInt32} {s t : Generator}

theorem CompiledRun.sorted (h : CompiledRun program options host c k entry t s) : s.Sorted :=
  h.presented.sorted (grows_of_reaches h.run.reaches h.presented.clean) h.fits

/-- What is presented last, the entry point and names, is not on record. -/
theorem CompiledRun.onRecord (h : CompiledRun program options host c k entry t s) : s.OnRecord := by
  refine (onRecord_of_reaches h.run.reaches h.presented.clean (.start _)).same ?_ fun d => ?_
  · exact congrArg Array.toList h.presented.code.types
  · rw [h.presented.code.interned]

/-- Code steps by elements only through pointers that have a stride. -/
theorem CompiledRun.strided (h : CompiledRun program options host c k entry t s) :
    ∀ i ∈ s.written, i.opcode = .ptrAccessChain →
      ∃ type ∈ s.interned.strides, ∃ rest, i.operands = type :: rest := by
  intro i hi hop
  have hwritten : s.written = t.part .functions := congrArg Array.toList h.presented.code.code
  rw [hwritten] at hi
  rw [h.presented.code.interned]
  have hgrows := grows_of_reaches h.run.reaches h.presented.clean
  rcases hgrows.mem .functions i hi with hi | ⟨-, -, -, hchain⟩
  · cases hi
  · exact hchain hop

theorem CompiledRun.part_entryPoints (h : CompiledRun program options host c k entry t s) :
    s.part .entryPoints = options.entryPointInstrs k entry := by
  rw [h.presented.entryPoints, (grows_of_reaches h.run.reaches h.presented.clean).entryPoints]
  rfl

theorem CompiledRun.filter_entryPoint (h : CompiledRun program options host c k entry t s) :
    s.contents.filter (fun i => i.opcode = .entryPoint) =
      [⟨.entryPoint, ExecutionModel.glCompute :: entry ::
        textWords options.entryName.bytes ++ options.interfaces k⟩] := by
  have hmode : Opcode.executionMode ≠ .entryPoint := by decide
  rw [h.sorted.filter_of_home .entryPoints (by decide) fun i hi =>
    home?_of_opcode (of_decide_eq_true hi) (by decide) rfl, h.part_entryPoints]
  simp [Options.entryPointInstrs, hmode]

/-- The entry point of a compiled program. -/
theorem CompiledRun.describesEntry (h : CompiledRun program options host c k entry t s)
    {b : BlockIds} {strided : List (UInt32 × Ty)} (hlaid : s.LaidOut k b strided entry)
    (hname : 0 ∉ options.entryPoint.bytes) {contents : Contents}
    (hcontents : contents.instructions = s.contents)
    (hread : readAll headerSize s.contents = (contents.instrs, none)) :
    c.abi.DescribesEntry contents entry := by
  have hsorted := h.sorted
  refine ⟨⟨options.interfaces k, ?_⟩, ?_, ?_⟩
  · have habi : c.abi.entryPoint = options.entryName := by rw [h.abi]; rfl
    rw [habi]
    exact map_operands_entryPoint (Options.zero_not_mem_entryName hname) hread h.filter_entryPoint
  · obtain ⟨functions, function, e, rfl, hwritten⟩ := hlaid.entry
    have hbody : (e.group k function).filter (fun i => i.opcode = .func) =
        [⟨.func, [k.void, e.entry, noControl, k.entryType]⟩] := rfl
    have hpart : s.part .functions = s.written := rfl
    rw [hcontents, hsorted.filter_of_home .functions (by decide) fun i hi =>
      home?_of_opcode (of_decide_eq_true hi) (by decide) rfl, hpart, hwritten, List.filter_append,
      hbody, List.getLast?_append]
    exact Profile.func.result
  · have habi : c.abi.workgroup = (workgroupSize, 1, 1) := by rw [h.abi]; rfl
    have hmode : Opcode.entryPoint ≠ .executionMode := by decide
    rw [habi, hcontents, parametersOf_contents .entryPoints _ hsorted (by decide) (by decide) rfl,
      h.part_entryPoints]
    simp [Options.entryPointInstrs, parametersOf_cons, hmode]

/-- What the interface of a compiled program says is so in its binary: of its entry point, of its
buffer and its count, and of all strides. -/
theorem describes_compiled (hvalidation : options.validation = true)
    (hname : 0 ∉ options.entryPoint.bytes) (h : compile program options host = .ok c) :
    ∃ contents, readModule c.words = .ok contents ∧ contents.failure = none ∧
      (definedIds c.words).Nodup ∧ c.abi.Describes contents := by
  obtain ⟨k, entry, t, s, hrun⟩ := exists_compiledRun h
  have hclean := hrun.presented.clean
  have hsorted := hrun.sorted
  obtain ⟨b, strided, hlaidAt⟩ := hrun.run.exists_laidOut hclean
  have hlaid := hlaidAt.sameCode hrun.presented.code hclean
  have hrecord := hrun.onRecord
  have hverify := verify_of_judge hvalidation hrun.judged
  rw [hrun.moduleWords] at hverify
  obtain ⟨ds, hread, hmodule, hunique⟩ := exists_readList_of_verify hsorted.fits hverify
  have hall : readAll headerSize s.contents = (ds, none) := by
    have hagain := readModule_binaryWords s.assembly.version.word generatorNumber
      s.assembly.bound hsorted.fits
    have hsame := Except.ok.inj (hmodule.symm.trans hagain)
    exact Prod.ext (congrArg Contents.instrs hsame).symm (congrArg Contents.failure hsame).symm
  rw [← hrun.moduleWords] at hmodule
  have hinstructions : ds.map Decoded.instruction = s.contents := hread.map_instruction
  refine ⟨_, hmodule, rfl, ?_, ⟨entry, ?_⟩, ?_, ?_, ?_⟩
  · rw [definedIds, hmodule]
    change (ds.filterMap Decoded.result).Nodup
    rw [hread.filterMap_result]
    exact hunique
  · exact hrun.describesEntry hlaid hname hinstructions hall
  · rw [Contents.instructions, hinstructions, hrun.abi]
    exact ⟨_, _, _, _, hlaid.oneBlock_data hrun.clean hsorted hrecord hunique,
      hlaid.describesData hrun.clean hsorted hrecord hunique _ _⟩
  · rw [Contents.instructions, hinstructions, hrun.abi]
    exact ⟨_, _, _, _, hlaid.oneBlock_config hrun.clean hsorted hrecord hunique,
      hlaid.describesCount hrun.clean hsorted hrecord hunique _ _⟩
  · rw [Contents.instructions, hinstructions]
    exact hlaid.stridesFit hrun.clean hsorted hrecord hunique hrun.strided

theorem describes_compiled_shifting : ∃ c, compile shifting { debug := true } = .ok c ∧
    ∃ contents, readModule c.words = .ok contents ∧ contents.failure = none ∧
      (definedIds c.words).Nodup ∧ c.abi.Describes contents := by
  obtain ⟨c, hc⟩ := exists_compile_shifting
  exact ⟨c, hc, describes_compiled rfl (by decide +kernel) hc⟩

end Compiled

end Elementwise.Spirv
