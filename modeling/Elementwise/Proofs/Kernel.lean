import Elementwise.Proofs.Functions

/-!
# What the generator writes for a kernel

The entry function of a kernel uses ids of its own: of the types of its values, of the variables
that hold the data, the element count and the number of the invocation, and of the index zero.
They are all declared before any function is written, and each is of the type that the entry
function takes it for.
-/
namespace Elementwise.Spirv
open IR Gen Text.Utf8

variable (e : EntryIds)

variable {T : Text → Prop} {s s' t : Generator} {F : View → Prop} {u : Unit} {id : UInt32}
variable {k : KernelIds} {N : View} {function : UInt32} {options : Options} {version : Version}
  {i : Instruction}

/-! ## Capabilities and extensions -/

theorem mem_insertAscending {α : Type} [DecidableEq α] {lt : α → α → Bool} {x y : α}
    {xs : List α} (h : y ∈ insertAscending lt x xs) : y ∈ xs ∨ y = x := by
  induction xs with
  | nil => exact Or.inr (List.mem_singleton.1 h)
  | cons z rest ih =>
    unfold insertAscending at h
    split_ifs at h
    · exact Or.inl h
    · exact (List.mem_cons.1 h).symm
    · rcases List.mem_cons.1 h with rfl | h
      · exact Or.inl List.mem_cons_self
      · exact (ih h).imp_left (List.mem_cons_of_mem _)

theorem addExtension_spec {name : String} (hname : 0 ∉ bytes name)
    (h : addExtension name s = .ok u s') : Spec T s {} s' fun _ => True := by
  refine Spec.require [name] (modify_ok.1 h).symm rfl ?_ ?_
  · exact fun e he => (mem_insertAscending he).imp_right List.mem_singleton.2
  · exact fun e he => List.mem_singleton.1 he ▸ hname

/-- A step that may be left out. -/
theorem Spec.optional {c : Prop} [Decidable c] {x : Gen Unit}
    (hx : x s = .ok u s' → Spec T s {} s' fun _ => True)
    (h : (if c then x else pure ()) s = .ok u s') : Spec T s {} s' fun _ => True := by
  simp only [ite_ok, pure_ok] at h
  split_ifs at h
  · exact hx h
  · obtain ⟨-, rfl⟩ := h
    exact Spec.same fun _ _ _ => trivial

theorem capabilityAndExtension_spec {c : UInt32} {name : String} {modern : Bool}
    (hname : 0 ∉ bytes name)
    (h : (do addCapability c; if !modern then addExtension name : Gen Unit) s = .ok u s') :
    Spec T s {} s' fun _ => True := by
  obtain ⟨_, s₁, hcap, hext⟩ := bind_ok.1 h
  exact ((addCapability_spec hcap).trans
    (Spec.optional (addExtension_spec hname) hext)).imp fun _ hN => hN.1

theorem narrowStorage_spec {width : UInt32} (h : narrowStorage version width s = .ok u s') :
    Spec T s {} s' fun _ => True := by
  have h8 : 0 ∉ bytes Extension.storage8Bit := by decide
  have h16 : 0 ∉ bytes Extension.storage16Bit := by decide
  unfold narrowStorage at h
  by_cases hw : width = 8
  · rw [if_pos hw] at h
    exact capabilityAndExtension_spec h8 h
  · rw [if_neg hw, ite_ok] at h
    split at h
    · exact capabilityAndExtension_spec h16 h
    · obtain ⟨-, rfl⟩ := pure_ok.1 h
      exact Spec.same fun _ _ _ => trivial

theorem kernelRequirements_spec {elem : Ty} (h : kernelRequirements version elem s = .ok u s') :
    Spec T s {} s' fun _ => True := by
  have hclass : 0 ∉ bytes Extension.storageBufferStorageClass := by decide
  have hpointers : 0 ∉ bytes Extension.variablePointers := by decide
  simp only [kernelRequirements, bind_ok] at h
  obtain ⟨_, s₁, hshader, _, s₂, hvariable, h⟩ := h
  have hcaps : Spec T s {} s₂ fun _ => True :=
    ((addCapability_spec hshader).trans (addCapability_spec hvariable)).imp fun _ hN => hN.1
  simp only [ite_ok, bind_ok] at h
  split_ifs at h
  · obtain ⟨_, s₃, hfirst, _, s₄, hsecond, hnarrow⟩ := h
    exact (((hcaps.trans (addExtension_spec hclass hfirst)).trans
      (addExtension_spec hpointers hsecond)).trans (narrowStorage_spec hnarrow)).imp
      fun _ hN => hN.2
  · exact (hcaps.trans (narrowStorage_spec h)).imp fun _ hN => hN.2

/-! ## Types and variables -/

theorem mem_of_declares_pointer {pointer storage pointee : UInt32}
    (h : ⟨.typePointer, [pointer, storage, pointee]⟩ ∈ N.declared) :
    pointer ∈ resultIds N.declared := mem_resultIds.2 ⟨_, h, Profile.typePointer.result⟩

/-- Declares a variable of a pointer type. -/
theorem Spec.andVariable {pointer storage : UInt32} (h : Spec T s {} t F)
    (hstorage : storage ≠ StorageClass.function)
    (hpointer : ∀ N, F N → pointer ∈ resultIds N.declared) :
    Spec T s {} (t.alloc.put .types ⟨.variableOp, [pointer, t.next, storage]⟩)
      fun N => F N ∧ ⟨.variableOp, [pointer, t.next, storage]⟩ ∈ N.declared := by
  refine h.andThen (f := {}) (fun hc => Generator.clean_of_put (s := t.alloc) hc) fun _ hF => ?_
  refine Spec.declare (Profile.globalVariable hstorage) ?_ ?_ rfl
  · intro r hr
    rw [List.mem_singleton.1 hr]
    exact hpointer _ hF
  · exact fun ht => ht.backed.append_other _ _ (by decide)

/-- Decorates an id that is declared. -/
theorem Spec.andDecorated (h : Spec T s {} t F) (hp : i.Profile .decorations none [id])
    (hid : ∀ N, F N → id ∈ resultIds N.declared) :
    Spec T s {} (t.put .decorations i) F := by
  refine h.andDecorate hp fun hF r hr => ?_
  rw [List.mem_singleton.1 hr]
  exact Or.inl (List.mem_append_left _ (hid _ hF))

/-- A variable that holds a block with one member. -/
structure DeclaresBlock (declared : List Instruction) (member storage block var : UInt32) :
    Prop where
  struct : ⟨.typeStruct, [block, member]⟩ ∈ declared
  holder : ∃ pointer, ⟨.typePointer, [pointer, storage, block]⟩ ∈ declared ∧
    ⟨.variableOp, [pointer, var, storage]⟩ ∈ declared

namespace DeclaresBlock

variable {declared : List Instruction} {member storage block var : UInt32}

theorem block_mem (h : DeclaresBlock declared member storage block var) :
    block ∈ resultIds declared := mem_resultIds.2 ⟨_, h.struct, Profile.typeStruct.result⟩

theorem var_mem (hstorage : storage ≠ StorageClass.function)
    (h : DeclaresBlock declared member storage block var) : var ∈ resultIds declared := by
  obtain ⟨pointer, -, hvar⟩ := h.holder
  exact mem_resultIds.2 ⟨_, hvar, (Profile.globalVariable hstorage).result⟩

end DeclaresBlock

theorem blockVariable_spec {member storage : UInt32} {ids : UInt32 × UInt32}
    (hstorage : storage ≠ StorageClass.function)
    (h : blockVariable member storage s = .ok ids s') :
    Spec.If (member ∈ resultIds s.declared) T s {} s' fun N =>
      DeclaresBlock N.declared member storage ids.1 ids.2 := by
  simp only [blockVariable, bind_ok, Build.decorate, Build.memberDecorate, emitTo_ok,
    Build.globalVariable, declare_ok, pure_ok] at h
  obtain ⟨block, s₁, hstruct, _, _, rfl, _, _, rfl, pointer, s₂, hpointer, _, _, ⟨rfl, rfl⟩,
    rfl, rfl⟩ := h
  have hpointed : Spec.If _ T _ _ s₂ _ := pointerId_spec hpointer
  have hstructured : Spec.If _ T _ _ s₁ _ := structId_spec hstruct
  refine ⟨fun hc => hstructured.clean (Generator.clean_of_put (Generator.clean_of_put
    (hpointed.clean (Generator.clean_of_put (s := s₂.alloc) hc)))), fun hs hmember => ?_⟩
  have hblock : Spec T s {} s₁ fun N => ⟨.typeStruct, [block, member]⟩ ∈ N.declared :=
    hstructured.spec hs (by simpa using hmember)
  have hmem : ∀ N : View, ⟨.typeStruct, [block, member]⟩ ∈ N.declared →
      block ∈ resultIds N.declared :=
    fun N hN => mem_resultIds.2 ⟨_, hN, Profile.typeStruct.result⟩
  have htyped : Spec T s {} s₂ _ :=
    ((hblock.andDecorated Profile.decorate hmem).andDecorated Profile.memberDecorate hmem).follow
      hpointed (hmem _)
  refine Spec.imp (htyped.andVariable hstorage fun N hN => mem_of_declares_pointer hN.2) ?_
  rintro N ⟨⟨hstruct, hpointer⟩, hvar⟩
  exact ⟨hstruct, pointer, hpointer, hvar⟩

/-! ## The kernel's declarations -/

/-- The ids of a kernel are declared as what the entry function takes them for, given the type of
its elements. -/
structure DeclaresKernel (declared : List Instruction) (elem : Ty) (k : KernelIds) : Prop where
  void : Declares declared .void k.void
  bool : Declares declared .bool k.bool
  uint : Declares declared (.int 32) k.uint
  elemPtr : Declares declared (normalized (.pointer elem .buffer)) k.elemPtr
  countPtr : ⟨.typePointer, [k.countPtr, StorageClass.pushConstant, k.uint]⟩ ∈ declared
  invocation : ⟨.typeVector, [k.invocation, k.uint, 3]⟩ ∈ declared
  zero : (resultIds declared).Nodup → DeclaresConstant declared (.ofWord 0) k.zero
  dataVar : ∃ type array block, Declares declared (normalized elem) type ∧
    ⟨.typeRuntimeArray, [array, type]⟩ ∈ declared ∧
    DeclaresBlock declared array StorageClass.storageBuffer block k.dataVar
  configVar : ∃ block, DeclaresBlock declared k.uint StorageClass.pushConstant block k.configVar
  invocationVar : ∃ pointer,
    ⟨.typePointer, [pointer, StorageClass.input, k.invocation]⟩ ∈ declared ∧
    ⟨.variableOp, [pointer, k.invocationVar, StorageClass.input]⟩ ∈ declared
  entryType : ⟨.typeFunction, [k.entryType, k.void]⟩ ∈ declared

/-- The names of the kernel's variables and of their parts. -/
def kernelNames : List Text :=
  ["Data", "data", "Config", "count", "config", "global_invocation_id"]

/-- Names an id that is declared, or a member of it. -/
theorem Spec.andNamed {text : Text} (h : Spec T s {} t F)
    (htext : T text) (hid : ∀ N, F N → id ∈ resultIds N.declared)
    (hi : i = ⟨.name, id :: textWords text.bytes⟩ ∨
      ∃ member, i = ⟨.memberName, id :: member :: textWords text.bytes⟩) :
    Spec T s {} (t.put .debug i) F :=
  h.andName htext (fun _ hF => Or.inl (List.mem_append_left _ (hid _ hF))) hi

theorem nameKernel_spec {debug : Bool} {k' : KernelIds} {dataBlock configBlock : UInt32}
    (hbefore : Spec T s {} t F) (hnames : debug → ∀ name ∈ kernelNames, T name)
    (hids : ∀ N, F N → ∀ id ∈ [dataBlock, k.dataVar, configBlock, k.configVar, k.invocationVar],
      id ∈ resultIds N.declared)
    (h : (if debug = true then do
        build (.name dataBlock "Data")
        build (.memberName dataBlock 0 "data")
        build (.name k.dataVar "data")
        build (.name configBlock "Config")
        build (.memberName configBlock 0 "count")
        build (.name k.configVar "config")
        build (.name k.invocationVar "global_invocation_id")
        pure k
      else pure k : Gen KernelIds) t = .ok k' s') : k = k' ∧ Spec T s {} s' F := by
  simp only [ite_ok, bind_ok, Build.name, Build.memberName, emitTo_ok, pure_ok] at h
  split_ifs at h with hdebug
  · obtain ⟨_, _, rfl, _, _, rfl, _, _, rfl, _, _, rfl, _, _, rfl, _, _, rfl, _, _, rfl, rfl,
      rfl⟩ := h
    have hpermitted := hnames hdebug
    simp only [kernelNames, List.forall_mem_cons] at hpermitted hids
    obtain ⟨hData, hdata, hConfig, hcount, hconfig, hinvocation, -⟩ := hpermitted
    have hblock := hbefore.andNamed hData (fun N hN => (hids N hN).1) (Or.inl rfl)
    have hmember := hblock.andNamed hdata (fun N hN => (hids N hN).1) (Or.inr ⟨0, rfl⟩)
    have hvar := hmember.andNamed hdata (fun N hN => (hids N hN).2.1) (Or.inl rfl)
    have hblock' := hvar.andNamed hConfig (fun N hN => (hids N hN).2.2.1) (Or.inl rfl)
    have hmember' := hblock'.andNamed hcount (fun N hN => (hids N hN).2.2.1) (Or.inr ⟨0, rfl⟩)
    have hvar' := hmember'.andNamed hconfig (fun N hN => (hids N hN).2.2.2.1) (Or.inl rfl)
    exact ⟨rfl, hvar'.andNamed hinvocation (fun N hN => (hids N hN).2.2.2.2.1) (Or.inl rfl)⟩
  · obtain ⟨rfl, rfl⟩ := h
    exact ⟨rfl, hbefore⟩

theorem declareKernel_spec {element : Ty}
    (hnames : options.debug → ∀ name ∈ kernelNames, T name)
    (h : declareKernel options element s = .ok k s') :
    Spec T s {} s' fun N => DeclaresKernel N.declared element k ∧ k.zero ∈ N.known := by
  simp only [declareKernel, bind_ok, Build.decorate, emitTo_ok, Build.globalVariable,
    declare_ok] at h
  obtain ⟨elem, s₁, helem, _, s₂, hrequire, stride, s₃, hstride, h⟩ := h
  obtain ⟨elemId, s₄, helemId, void, s₅, hvoid, bool, s₆, hbool, uint, s₇, huint, h⟩ := h
  obtain ⟨elemPtr, s₈, helemPtr, zero, s₉, hzero, array, s₁₀, harray, h⟩ := h
  obtain ⟨data, s₁₁, hdata, _, _, rfl, _, _, rfl, h⟩ := h
  obtain ⟨config, s₁₂, hconfig, countPtr, s₁₃, hcountPtr, h⟩ := h
  obtain ⟨invocation, s₁₄, hinvocation, invocationPtr, s₁₅, hinvocationPtr, h⟩ := h
  obtain ⟨_, _, ⟨rfl, rfl⟩, _, _, rfl, entryType, s₁₆, hentryType, h⟩ := h
  obtain ⟨rfl, hnormal⟩ : _ ∧ Spec T s {} s₁ _ := normalize_ok helem
  have hscalars : Spec T s {} s₉ fun N =>
      Declares N.declared (normalized element) elemId ∧ Declares N.declared .void void ∧
      Declares N.declared .bool bool ∧ Declares N.declared (.int 32) uint ∧
      Declares N.declared (normalized (.pointer element .buffer)) elemPtr ∧ zero ∈ N.known ∧
      ((resultIds N.declared).Nodup → DeclaresConstant N.declared (.ofWord 0) zero) := by
    refine Spec.imp ((((((((hnormal.trans (kernelRequirements_spec hrequire)).trans
      (byteSize_spec hstride)).trans (typeId_spec helemId)).trans (typeId_spec hvoid)).trans
      (typeId_spec hbool)).trans (typeId_spec huint)).trans (typeId_spec helemPtr)).trans
      (constantId_spec hzero)) ?_
    rintro N ⟨⟨⟨⟨⟨⟨-, helem⟩, hvoid⟩, hbool⟩, huint⟩, hptr⟩, hzero⟩
    simp only [Naming.type, normalized, normalized_normalized] at helem hptr
    exact ⟨helem, hvoid, hbool, huint, hptr, hzero⟩
  have hbuffer : Spec T s {} s₁₁ _ :=
    (hscalars.follow (runtimeArrayId_spec harray) fun hN => hN.1.mem_resultIds).follow
      (blockVariable_spec (by decide) hdata) fun hN =>
        mem_resultIds.2 ⟨_, hN.2, Profile.typeRuntimeArray.result⟩
  have hcount : Spec T s {} s₁₂ _ :=
    ((hbuffer.andDecorated Profile.decorate fun N hN => hN.2.var_mem (by decide)).andDecorated
      Profile.decorate fun N hN => hN.2.var_mem (by decide)).follow
      (blockVariable_spec (by decide) hconfig) (by
        rintro ⟨⟨⟨-, -, -, huint, -⟩, -⟩, -⟩
        exact huint.mem_resultIds)
  have hindex : Spec T s {} s₁₅ _ :=
    ((hcount.follow (pointerId_spec hcountPtr) (by
        rintro ⟨⟨⟨⟨-, -, -, huint, -⟩, -⟩, -⟩, -⟩
        exact huint.mem_resultIds)).follow (vectorId_spec hinvocation) (by
        rintro ⟨⟨⟨⟨⟨-, -, -, huint, -⟩, -⟩, -⟩, -⟩, -⟩
        exact huint.mem_resultIds)).follow
      (pointerId_spec hinvocationPtr) fun hN =>
        mem_resultIds.2 ⟨_, hN.2, Profile.typeVector.result⟩
  have hinput : StorageClass.input ≠ StorageClass.function := by decide
  have hall : Spec T s {} s₁₆ fun N =>
      DeclaresKernel N.declared element
        ⟨normalized element, stride, void, bool, uint, elemPtr, countPtr, invocation, zero, data.2,
          config.2, s₁₅.next, entryType⟩ ∧ zero ∈ N.known ∧
      DeclaresBlock N.declared array StorageClass.storageBuffer data.1 data.2 ∧
      DeclaresBlock N.declared uint StorageClass.pushConstant config.1 config.2 := by
    refine Spec.imp (((hindex.andVariable hinput fun N hN =>
      mem_of_declares_pointer hN.2).andDecorated Profile.decorate fun N hN =>
        mem_resultIds.2 ⟨_, hN.2, (Profile.globalVariable hinput).result⟩).follow
      (functionTypeId_spec hentryType) ?_) ?_
    · rintro ⟨⟨⟨⟨⟨⟨⟨⟨-, hvoid, -⟩, -⟩, -⟩, -⟩, -⟩, -⟩, -⟩, -⟩ r hr
      rw [List.mem_singleton.1 hr]
      exact hvoid.mem_resultIds
    · rintro N ⟨⟨⟨⟨⟨⟨⟨⟨⟨helem, hvoid, hbool, huint, hptr, hknown, hzero⟩, harray⟩, hdata⟩, hconfig⟩,
        hcountPtr⟩, hvector⟩, hpointer⟩, hvar⟩, hentry⟩
      exact ⟨⟨hvoid, hbool, huint, hptr, hcountPtr, hvector, hzero,
        ⟨elemId, array, data.1, helem, harray, hdata⟩, ⟨config.1, hconfig⟩,
        ⟨invocationPtr, hpointer, hvar⟩, hentry⟩, hknown, hdata, hconfig⟩
  obtain ⟨rfl, hnamed⟩ := nameKernel_spec (k := ⟨normalized element, stride, void, bool, uint,
    elemPtr, countPtr, invocation, zero, data.2, config.2, s₁₅.next, entryType⟩) hall hnames (by
    rintro N ⟨hkernel, -, hdata, hconfig⟩
    obtain ⟨pointer, -, hvar⟩ := hkernel.invocationVar
    exact List.forall_iff_forall_mem.1 ⟨hdata.block_mem, hdata.var_mem (by decide),
      hconfig.block_mem, hconfig.var_mem (by decide),
      mem_resultIds.2 ⟨_, hvar, (Profile.globalVariable hinput).result⟩⟩) h
  exact hnamed.imp fun N hN => ⟨hN.1, hN.2.1⟩

/-! ## The entry function -/

/-- The results of the entry function and the labels of its blocks. -/
structure EntryIds where
  entry : UInt32
  start : UInt32
  invocation : UInt32
  thread : UInt32
  countPtr : UInt32
  count : UInt32
  inRange : UInt32
  body : UInt32
  merge : UInt32
  element : UInt32
  call : UInt32
  deriving DecidableEq, Repr

/-- The instructions before the branch. -/
def EntryIds.guard (k : KernelIds) : List Instruction :=
  [⟨.func, [k.void, e.entry, noControl, k.entryType]⟩, ⟨.label, [e.start]⟩,
   ⟨.load, [k.invocation, e.invocation, k.invocationVar]⟩,
   ⟨.compositeExtract, [k.uint, e.thread, e.invocation, 0]⟩,
   ⟨.accessChain, [k.countPtr, e.countPtr, k.configVar, k.zero]⟩,
   ⟨.load, [k.uint, e.count, e.countPtr]⟩,
   ⟨.uLessThan, [k.bool, e.inRange, e.thread, e.count]⟩]

/-- The branch, the call of the kernel, and the end. -/
def EntryIds.dispatch (k : KernelIds) (function : UInt32) : List Instruction :=
  [⟨.selectionMerge, [e.merge, noControl]⟩,
   ⟨.branchConditional, [e.inRange, e.body, e.merge]⟩, ⟨.label, [e.body]⟩,
   ⟨.accessChain, [k.elemPtr, e.element, k.dataVar, k.zero, e.thread]⟩,
   ⟨.functionCall, [k.void, e.call, function, e.element]⟩, ⟨.branch, [e.merge]⟩,
   ⟨.label, [e.merge]⟩, ⟨.ret, []⟩, ⟨.functionEnd, []⟩]

def EntryIds.group (k : KernelIds) (function : UInt32) : List Instruction :=
  e.guard k ++ e.dispatch k function

/-- The steps that write them. All results are new but the labels of the two blocks. -/
def EntryIds.steps (k : KernelIds) (function : UInt32) : List (Option Instruction) :=
  let fresh (is : List Instruction) := is.flatMap fun i => [none, some i]
  let rest := e.dispatch k function
  fresh (e.guard k) ++ [none, none] ++ (rest.take 3).map some ++ fresh ((rest.drop 3).take 2) ++
    (rest.drop 5).map some

/-- The ids that are allocated when a number of ids are in use. -/
def EntryIds.after (n : Nat) : EntryIds :=
  let id (k : Nat) := (n + k).toUInt32
  ⟨id 1, id 2, id 3, id 4, id 5, id 6, id 7, id 8, id 9, id 10, id 11⟩

theorem EntryIds.home_steps (k : KernelIds) (function : UInt32) :
    ∀ x ∈ e.steps k function, ∀ i ∈ x,
      i.home? = some .functions ∧ i.fits ∧ i.opcode ≠ .ptrAccessChain := of_decide_eq_true rfl

/-- Which instructions the entry function has depends on nothing but the ids in use. -/
theorem emitEntryFunction_eq (s : Generator) (k : KernelIds) (function : UInt32) :
    build (emitEntryFunction k function) s = .ok s.next (s.putAll s.assembly.current
      ((EntryIds.after s.assembly.allocated).steps k function)) := by
  have hallocId {α : Type} (f : UInt32 → Build α) (s : Generator) :
      build (.allocId >>= f) s = build (f s.next) s.alloc := rfl
  have hemit {α : Type} (op : Opcode) (operands : List UInt32) (f : Unit → Build α)
      (s : Generator) : build (.emit op operands >>= f) s =
        build (f ()) (s.put s.assembly.current ⟨op, operands⟩) := rfl
  have hpure (id : UInt32) (s : Generator) : build (pure id) s = .ok id s := rfl
  have hallocated (s : Generator) : s.alloc.assembly.allocated = s.assembly.allocated + 1 := rfl
  have hcurrent (s : Generator) : s.alloc.assembly.current = s.assembly.current := rfl
  have hnext (s : Generator) : s.next = (s.assembly.allocated + 1).toUInt32 := rfl
  simp only [emitEntryFunction, Build.function, Build.functionWithId, Build.label, Build.load,
    Build.unary, Build.compositeExtract, Build.accessChain, Build.binary, Build.selectionMerge,
    Build.branchConditional, Build.labelWithId, Build.functionCall, Build.branch, Build.ret,
    Build.functionEnd, Build.emitNew, bind_assoc, pure_bind, hallocId, hemit, hpure, hallocated,
    hcurrent, hnext, Generator.put_current, Generator.put_allocated, Nat.add_assoc, Nat.reduceAdd]
  simp only [EntryIds.steps, EntryIds.after, EntryIds.guard, EntryIds.dispatch]
  rfl

/-- The ids that the entry function reads may be read. -/
def ReadsKernel (k : KernelIds) (function : UInt32) (N : View) : Prop :=
  ∀ id ∈ [k.void, k.bool, k.uint, k.elemPtr, k.countPtr, k.invocation, k.zero, k.dataVar,
    k.configVar, k.invocationVar, k.entryType, function], N.Readable id

namespace EntryIds

theorem shaped_group (k : KernelIds) (function : UInt32) : ∀ i ∈ e.group k function, i.shaped :=
  of_decide_eq_true rfl

/-- The entry function reads ids of the kernel, its own two labels, and what it has computed. -/
theorem inTime_group {known : UInt32 → Prop}
    (hkernel : ∀ id ∈ [k.void, k.bool, k.uint, k.elemPtr, k.countPtr, k.invocation, k.zero,
      k.dataVar, k.configVar, k.invocationVar, k.entryType, function], known id)
    (hbody : known e.body) (hmerge : known e.merge) : InTime known (e.group k function) := by
  have hless : Opcode.IsBinary .uLessThan := ⟨_, rfl⟩
  simp only [List.forall_mem_cons] at hkernel
  simp only [group, guard, dispatch, List.cons_append, List.nil_append, InTime,
    Profile.func.reads, Profile.func.result, Profile.label.reads, Profile.label.result,
    Profile.load.reads, Profile.load.result, Profile.compositeExtract.reads,
    Profile.compositeExtract.result, Profile.accessChain.reads, Profile.accessChain.result,
    (Profile.binary hless).reads, (Profile.binary hless).result, Profile.selectionMerge.reads,
    Profile.selectionMerge.result, Profile.branchConditional.reads,
    Profile.branchConditional.result, Profile.functionCall.reads, Profile.functionCall.result,
    Profile.branch.reads, Profile.branch.result, Profile.ret.reads, Profile.functionEnd.reads,
    List.forall_mem_cons]
  simp [hkernel, hbody, hmerge]

end EntryIds

/-- The entry function takes eleven ids, and defines them all. -/
theorem emitEntryFunction_spec (T : Text → Prop) {entry : UInt32}
    (h : build (emitEntryFunction k function) s = .ok entry s') (hc : s'.clean) (hs : s.Coherent)
    (hreads : ReadsKernel k function s.view) :
    ∃ e : EntryIds, e.entry = entry ∧
      Outer T s [] [] (e.group k function) { s' with body := {} } := by
  rw [emitEntryFunction_eq, hs.current] at h
  cases h
  obtain ⟨-, heq⟩ := Generator.putAll_clean hc
  refine ⟨.after s.assembly.allocated, rfl, ?_⟩
  rw [heq]
  have hids : firstIds (s.assembly.allocated + 11) = firstIds s.assembly.allocated ++ _ :=
    firstIds_add _ _
  have hsub : firstIds s.assembly.allocated ⊆ firstIds (s.assembly.allocated + 11) :=
    hids ▸ List.subset_append_left _ _
  generalize he : EntryIds.after s.assembly.allocated = e
  -- the label of the last block was allocated before the two results ahead of it
  have hnew : (resultIds (e.group k function)).Perm ((List.range 11).map fun j =>
      (s.assembly.allocated + (j + 1)).toUInt32) := by
    subst he
    exact (List.perm_append_comm : ([_, _] ++ [_]).Perm ([_] ++ [_, _])).append_left
      [_, _, _, _, _, _, _, _]
  have hwritten : (s.assembly.functions ++
      ((e.steps k function).filterMap fun step => step).toArray).toList =
      s.written ++ e.group k function := Array.toList_append
  have hahead : aheadIds (s.written ++ e.group k function) =
      aheadIds s.written ++ [e.entry, e.start, e.body, e.merge] := aheadIds_append _ _
  refine
    { coherent := { hs with written := ?_, values := by simp }
      declared := List.Subset.refl _
      written := hwritten
      functions := rfl
      accounted := fun pending h => ?_ }
  · rw [Generator.written, hwritten]
    exact List.forall_mem_append.2 ⟨hs.written, e.shaped_group k function⟩
  have hmove : ∀ {r : UInt32}, r ∈ aheadIds s.written ∨ r ∈ pending →
      r ∈ aheadIds (s.written ++ e.group k function) ∨ r ∈ pending :=
    fun hr => hr.imp_left fun hr => hahead ▸ List.mem_append_left _ hr
  constructor
  · change (resultIds s.declared ++ resultIds (Array.toList _) ++ pending).Perm
      (firstIds (s.assembly.allocated + 11))
    rw [hwritten, hids, resultIds_append]
    refine List.Perm.trans ?_ (h.ids.append hnew)
    simp only [List.append_assoc, List.nil_append]
    exact List.Perm.append_left _ (List.Perm.append_left _ List.perm_append_comm)
  · rw [Generator.written, hwritten]
    refine inTime_append.2 ⟨h.inTime.mono fun r hr => hr.imp_right hmove, ?_⟩
    refine e.inTime_group (fun id hid => ?_) ?_ ?_
    · exact (h.readable (hreads id hid)).imp_left fun hr => hr.imp_right hmove
    · exact Or.inl (Or.inr (Or.inl (by simp [hahead])))
    · exact Or.inl (Or.inr (Or.inl (by simp [hahead])))
  · rw [Generator.written, hwritten]
    exact fun entry he => hmove (h.functions entry he)
  · simp
  · simp
  · exact fun j hj r hr => hsub (h.decorations j hj r hr)
  · exact fun j hj => (h.debug j hj).mono hsub

/-! ## The entry point -/

/-- The name of the entry point. -/
def Options.entryName (options : Options) : Text :=
  if options.entryPoint.isEmpty then defaultEntryPoint else options.entryPoint

/-- The variables that are listed with the entry point. -/
def Options.interfaces (options : Options) (k : KernelIds) : List UInt32 :=
  if options.version.atLeast ⟨1, 4⟩ then [k.dataVar, k.configVar, k.invocationVar]
  else [k.invocationVar]

/-- The instructions that name an entry function as entry point. -/
def Options.entryPointInstrs (options : Options) (k : KernelIds) (entry : UInt32) :
    List Instruction :=
  [⟨.entryPoint, ExecutionModel.glCompute :: entry ::
      textWords options.entryName.bytes ++ options.interfaces k⟩,
   ⟨.executionMode, [entry, ExecutionMode.localSize, workgroupSize, 1, 1]⟩]

end Elementwise.Spirv
