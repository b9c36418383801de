import Elementwise.Proofs.Interface
import Elementwise.Proofs.KernelRequests

/-!
# What a module requires

A module names the capabilities and extensions that it needs: those of every kernel, those that
the options ask for, one for each unusual width of a number type that it declares, and those of
narrow buffer elements. Instructions are cut out of the words by their counts alone, so that this
holds of modules that were not verified.
-/
namespace Elementwise.Spirv
open IR Gen Generator Text.Utf8

/-! ## Instructions in words -/

/-- Cuts words into instructions by the count in each head word. -/
def instructionsIn : List UInt32 → List Instruction
  | [] => []
  | head :: rest =>
    ⟨⟨head.toUInt16⟩, rest.take ((head >>> 16).toNat - 1)⟩ ::
      instructionsIn (rest.drop ((head >>> 16).toNat - 1))
termination_by words => words.length
decreasing_by
  rw [List.length_drop, List.length_cons]
  omega

theorem instructionsIn_flatMap_words {instrs : List Instruction} (h : ∀ i ∈ instrs, i.fits) :
    instructionsIn (instrs.flatMap Instruction.words) = instrs := by
  induction instrs with
  | nil => simp [instructionsIn]
  | cons i rest ih =>
    have hi : i.fits := h i List.mem_cons_self
    have hrest := ih fun j hj => h j (List.mem_cons_of_mem i hj)
    rw [List.flatMap_cons, Instruction.words, List.cons_append, instructionsIn,
      Instruction.head_count hi, Instruction.head_opcode hi, Nat.add_sub_cancel, List.take_left,
      List.drop_left, hrest]

/-! ## Needs -/

/-- A version comes before another. -/
def Version.Before (v other : Version) : Prop :=
  v.major < other.major ∨ v.major = other.major ∧ v.minor < other.minor

theorem Version.atLeast_eq_false_iff {v other : Version} :
    v.atLeast other = false ↔ v.Before other := by
  unfold atLeast Before
  by_cases hmajor : v.major = other.major
  · simp [hmajor]
  · have hlt : ¬ other.major < v.major ↔ v.major < other.major := by
      rw [UInt8.not_lt, UInt8.le_iff_lt_or_eq, or_iff_left hmajor]
    simp [hmajor, hlt]

/-- The capability that a declaration of a number type needs. -/
inductive WidthCapability : Instruction → UInt32 → Prop
  | int8 {id sign : UInt32} : WidthCapability ⟨.typeInt, [id, 8, sign]⟩ Capability.int8
  | int16 {id sign : UInt32} : WidthCapability ⟨.typeInt, [id, 16, sign]⟩ Capability.int16
  | int64 {id sign : UInt32} : WidthCapability ⟨.typeInt, [id, 64, sign]⟩ Capability.int64
  | float16 {id : UInt32} : WidthCapability ⟨.typeFloat, [id, 16]⟩ Capability.float16
  | float64 {id : UInt32} : WidthCapability ⟨.typeFloat, [id, 64]⟩ Capability.float64

/-- What makes a module need a capability. -/
inductive NeedsCapability (options : Options) (elem : Ty) (instrs : List Instruction) :
    UInt32 → Prop
  | shader : NeedsCapability options elem instrs Capability.shader
  | pointers : NeedsCapability options elem instrs Capability.variablePointersStorageBuffer
  | asked {c : UInt32} (h : c ∈ options.capabilities) : NeedsCapability options elem instrs c
  | width {i : Instruction} {c : UInt32} (hi : i ∈ instrs) (h : WidthCapability i c) :
      NeedsCapability options elem instrs c
  | bytes (h : numberWidth elem = 8) :
      NeedsCapability options elem instrs Capability.storageBuffer8BitAccess
  | halves (h : numberWidth elem = 16) :
      NeedsCapability options elem instrs Capability.storageBuffer16BitAccess

/-- What makes a module need an extension: features that its version does not have built in. -/
inductive NeedsExtension (version : Version) (elem : Ty) : String → Prop
  | storage (h : version.Before ⟨1, 3⟩) :
      NeedsExtension version elem Extension.storageBufferStorageClass
  | pointers (h : version.Before ⟨1, 3⟩) :
      NeedsExtension version elem Extension.variablePointers
  | halves (h : version.Before ⟨1, 3⟩) (helem : numberWidth elem = 16) :
      NeedsExtension version elem Extension.storage16Bit
  | bytes (h : version.Before ⟨1, 5⟩) (helem : numberWidth elem = 8) :
      NeedsExtension version elem Extension.storage8Bit

/-- The one storage buffer holds an array of numbers of a type. -/
def HoldsElements (instrs : List Instruction) (elem : Ty) (size : UInt32) : Prop :=
  ∃ pointer var block array id,
    variablesIn instrs StorageClass.storageBuffer =
        [⟨.variableOp, [pointer, var, StorageClass.storageBuffer]⟩] ∧
      ⟨.typePointer, [pointer, StorageClass.storageBuffer, block]⟩ ∈ instrs ∧
      ⟨.typeStruct, [block, array]⟩ ∈ instrs ∧ ⟨.typeRuntimeArray, [array, id]⟩ ∈ instrs ∧
      DeclaresNumber instrs id elem size

/-- The capabilities and extensions in a module are in order, and are those that it needs. -/
structure Requires (options : Options) (elem : Ty) (instrs : List Instruction) : Prop where
  capabilities : ∃ capabilities : List UInt32,
    (instrs.filter fun i => i.opcode = .capability) =
        capabilities.map (fun c => ⟨.capability, [c]⟩) ∧
      capabilities.Pairwise (· < ·) ∧
      ∀ c, c ∈ capabilities ↔ NeedsCapability options elem instrs c
  extensions : ∃ extensions : List String,
    (instrs.filter fun i => i.opcode = .extension) =
        extensions.map (fun e => ⟨.extension, textWords (bytes e)⟩) ∧
      extensions.Pairwise (· < ·) ∧ ∀ e, e ∈ extensions ↔ NeedsExtension options.version elem e

variable {options : Options} {elem : Ty} {instrs : List Instruction} {version : Version}

theorem mem_kernelCapabilities_iff {c : UInt32} : c ∈ kernelCapabilities elem ↔
    c = Capability.shader ∨ c = Capability.variablePointersStorageBuffer ∨
      (numberWidth elem = 8 ∧ c = Capability.storageBuffer8BitAccess) ∨
      (numberWidth elem = 16 ∧ c = Capability.storageBuffer16BitAccess) := by
  unfold kernelCapabilities narrowCapabilities
  by_cases hbytes : numberWidth elem = 8
  · simp [hbytes]
  · by_cases hhalves : numberWidth elem = 16
    · simp [hhalves]
    · simp [hbytes, hhalves]

theorem needsCapability_iff {c : UInt32} : NeedsCapability options elem instrs c ↔
    (c ∈ options.capabilities ∨ c ∈ kernelCapabilities elem) ∨
      ∃ i ∈ instrs, WidthCapability i c := by
  rw [mem_kernelCapabilities_iff]
  constructor
  · intro h
    cases h with
    | shader => exact .inl (.inr (.inl rfl))
    | pointers => exact .inl (.inr (.inr (.inl rfl)))
    | asked h => exact .inl (.inl h)
    | width hi h => exact .inr ⟨_, hi, h⟩
    | bytes h => exact .inl (.inr (.inr (.inr (.inl ⟨h, rfl⟩))))
    | halves h => exact .inl (.inr (.inr (.inr (.inr ⟨h, rfl⟩))))
  · rintro ((h | rfl | rfl | ⟨h, rfl⟩ | ⟨h, rfl⟩) | ⟨i, hi, h⟩)
    · exact .asked h
    · exact .shader
    · exact .pointers
    · exact .bytes h
    · exact .halves h
    · exact .width hi h

theorem mem_narrowExtensions_iff {width : UInt32} {e : String} :
    e ∈ narrowExtensions version width ↔
      (version.Before ⟨1, 3⟩ ∧ width = 16 ∧ e = Extension.storage16Bit) ∨
      (version.Before ⟨1, 5⟩ ∧ width = 8 ∧ e = Extension.storage8Bit) := by
  rw [narrowExtensions, ← Version.atLeast_eq_false_iff, ← Version.atLeast_eq_false_iff]
  by_cases hbytes : width = 8
  · cases hversion : version.atLeast ⟨1, 5⟩ <;> simp [hbytes]
  · by_cases hhalves : width = 16
    · cases hversion : version.atLeast ⟨1, 3⟩ <;> simp [hhalves]
    · simp [hbytes, hhalves]

theorem needsExtension_iff {e : String} :
    NeedsExtension version elem e ↔ e ∈ kernelExtensions version elem := by
  have hshared : (e ∈ if version.atLeast ⟨1, 3⟩ then []
      else [Extension.storageBufferStorageClass, Extension.variablePointers]) ↔
        version.Before ⟨1, 3⟩ ∧
          (e = Extension.storageBufferStorageClass ∨ e = Extension.variablePointers) := by
    rw [← Version.atLeast_eq_false_iff]
    cases version.atLeast ⟨1, 3⟩ <;> simp
  rw [kernelExtensions, List.mem_append, mem_narrowExtensions_iff, hshared]
  constructor
  · intro h
    cases h with
    | storage h => exact .inl ⟨h, .inl rfl⟩
    | pointers h => exact .inl ⟨h, .inr rfl⟩
    | halves h helem => exact .inr (.inl ⟨h, helem, rfl⟩)
    | bytes h helem => exact .inr (.inr ⟨h, helem, rfl⟩)
  · rintro (⟨h, rfl | rfl⟩ | ⟨h, helem, rfl⟩ | ⟨h, helem, rfl⟩)
    · exact .storage h
    · exact .pointers h
    · exact .halves h helem
    · exact .bytes h helem

/-! ## Number types in a module -/

theorem widthCapability_iff {t : Ty} {id c : UInt32} {i : Instruction}
    (hi : scalarInstr? id t = some i) : WidthCapability i c ↔ scalarCapability? t = some c := by
  constructor
  · intro h
    cases h <;> cases t <;> cases hi <;> rfl
  · intro h
    cases t with
    | int w =>
      cases hi
      simp only [scalarCapability?] at h
      split_ifs at h with h8 h16 h64
      · cases h; rw [h8]; exact .int8
      · cases h; rw [h16]; exact .int16
      · cases h; rw [h64]; exact .int64
    | float w =>
      cases hi
      simp only [scalarCapability?] at h
      split_ifs at h with h16 h64
      · cases h; rw [h16]; exact .float16
      · cases h; rw [h64]; exact .float64
    | _ => cases h

namespace WidthCapability

variable {i : Instruction} {c : UInt32}

theorem home (h : WidthCapability i c) : i.home? = some .types := by
  cases h <;> rfl

theorem isShared (h : WidthCapability i c) : i.isShared = true := by
  cases h <;> rfl

theorem scalar {d : Declaration} {id : UInt32} (h : WidthCapability i c) (hd : d.DeclaredBy id i) :
    ∃ t, d = .scalar t := by
  have hwords := hd.ofWords?
  cases h <;> exact ⟨_, (Option.some.inj hwords).symm⟩

end WidthCapability

variable {s : Generator}

/-- The widths that the instructions declare are those on record. -/
theorem exists_widthCapability_iff (hsorted : s.Sorted) (hrecord : s.OnRecord) {c : UInt32} :
    (∃ i ∈ s.contents, WidthCapability i c) ↔
      ∃ t ∈ s.interned.scalars.map Prod.fst, scalarCapability? t = some c := by
  constructor
  · rintro ⟨i, hi, h⟩
    have hdeclared : i ∈ s.part .types := by
      rw [← hsorted.filter_part (by decide)]
      exact List.mem_filter.2 ⟨hi, decide_eq_true h.home⟩
    obtain ⟨d, id, hd, hid⟩ := hrecord.declared i hdeclared h.isShared
    obtain ⟨t, rfl⟩ := h.scalar hd
    exact ⟨t, List.mem_map_of_mem (mem_of_lookup hid), (widthCapability_iff hd).1 h⟩
  · rintro ⟨t, ht, h⟩
    obtain ⟨id, hid⟩ := Option.ne_none_iff_exists'.1 fun hnone =>
      lookup_eq_none_iff_keys.1 hnone ht
    obtain ⟨i, hi, hscalar⟩ := hrecord.recorded (.scalar t) id hid
    exact ⟨i, mem_contents_of_declared hi, (widthCapability_iff hscalar).2 h⟩

/-! ## The preamble -/

theorem filter_capability (a : Assembly) :
    (a.preambleInstrs.filter fun i => i.opcode = .capability) =
      a.capabilities.map fun c => ⟨.capability, [c]⟩ := by
  have hextension : Opcode.extension ≠ .capability := by decide
  have hmodel : Opcode.memoryModel ≠ .capability := by decide
  simp [Assembly.preambleInstrs, List.filter_map, Function.comp_def, hextension, hmodel]

theorem filter_extension (a : Assembly) :
    (a.preambleInstrs.filter fun i => i.opcode = .extension) =
      a.extensions.map fun e => ⟨.extension, textWords (bytes e)⟩ := by
  have hcapability : Opcode.capability ≠ .extension := by decide
  have hmodel : Opcode.memoryModel ≠ .extension := by decide
  simp [Assembly.preambleInstrs, List.filter_map, Function.comp_def, hcapability, hmodel]

theorem Fulfilled.requires {program : Program} (h : Fulfilled program options elem s)
    (hsorted : s.Sorted) (hrecord : s.OnRecord) :
    Requires options (normalized elem) s.contents where
  capabilities := by
    refine ⟨s.assembly.capabilities, ?_, h.account.capable.ascending, fun c => ?_⟩
    · rw [hsorted.filter_preamble (by decide) rfl, filter_capability]
    · rw [needsCapability_iff, exists_widthCapability_iff hsorted hrecord, h.account.capable.mem]
  extensions := by
    refine ⟨s.assembly.extensions, ?_, h.account.lexical, fun e => ?_⟩
    · rw [hsorted.filter_preamble (by decide) rfl, filter_extension]
    · rw [needsExtension_iff, h.account.extensions]

/-! ## Compiled programs -/

section Compiled

variable {program : Program} {host : HostCodes} {c : Compiled} {k : KernelIds} {entry : UInt32}
  {t : Generator}

theorem CompiledRun.instructionsIn_words (h : CompiledRun program options host c k entry t s) :
    instructionsIn (c.words.drop headerSize) = s.contents := by
  rw [h.moduleWords]
  exact instructionsIn_flatMap_words h.sorted.fits

theorem CompiledRun.holdsElements (h : CompiledRun program options host c k entry t s) :
    HoldsElements s.contents k.elem c.abi.elementStride := by
  have hclean := h.presented.clean
  obtain ⟨b, strided, hlaidAt⟩ := h.run.exists_laidOut hclean
  have hlaid := hlaidAt.sameCode h.presented.code hclean
  have hstride : c.abi.elementStride = numberWidth k.elem / 8 := by
    rw [h.abi]
    exact hlaid.types.stride
  rw [hstride]
  exact ⟨b.dataPtr, k.dataVar, b.dataBlock, b.array, b.elem,
    (hlaid.variablesIn_contents h.sorted).1,
    LaidOut.pointer_mem h.onRecord hlaid.types.dataPtr,
    mem_contents_of_declared (hlaid.types.dataBlock h.clean),
    mem_contents_of_declared (hlaid.types.array h.clean),
    LaidOut.declaresNumber h.onRecord hlaid.types.number hlaid.types.elem⟩

/-- A compiled program requires what it needs and nothing else: the capabilities of its number types
are those of the widths it declares, and those of its buffer go by the width of the elements. -/
theorem requires_compiled (h : compile program options host = .ok c) :
    ∃ kernel elem, program.kernel? = some kernel ∧ elementType kernel.2 = .ok elem ∧
      (normalized elem).text = c.abi.elementType ∧
      HoldsElements (instructionsIn (c.words.drop headerSize)) (normalized elem)
        c.abi.elementStride ∧
      Requires options (normalized elem) (instructionsIn (c.words.drop headerSize)) := by
  obtain ⟨k, entry, t, s, kernel, elem, hrun, hkernel, helem, hk, hdone⟩ := exists_fulfilled h
  rw [hrun.instructionsIn_words]
  refine ⟨kernel, elem, hkernel, helem, ?_, ?_, hdone.requires hrun.sorted hrun.onRecord⟩
  · rw [hrun.abi, ← hk]
    rfl
  · rw [← hk]
    exact hrun.holdsElements

theorem requires_compiled_shifting : ∃ c, compile shifting { debug := true } = .ok c ∧
    ∃ kernel elem, shifting.kernel? = some kernel ∧ elementType kernel.2 = .ok elem ∧
      (normalized elem).text = c.abi.elementType ∧
      HoldsElements (instructionsIn (c.words.drop headerSize)) (normalized elem)
        c.abi.elementStride ∧
      Requires { debug := true } (normalized elem)
        (instructionsIn (c.words.drop headerSize)) := by
  obtain ⟨c, hc⟩ := exists_compile_shifting
  exact ⟨c, hc, requires_compiled hc⟩

end Compiled

end Elementwise.Spirv
