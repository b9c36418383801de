import Elementwise.Proofs.Translation
import Elementwise.Proofs.Verification
import Mathlib.Tactic.Tauto

/-!
# The record of declarations

What the generator has declared it remembers, so that nothing is declared twice. The record of
scalars and pointers is exact: it holds what the section of types holds and each type once. From
this, an id is declared as one type only if ids are unique, and a type has one id in any case.
-/
namespace Elementwise.Spirv
open IR

variable {i : Instruction}

theorem scalarInstr?_inj {id id' : UInt32} {t t' : Ty} (h : scalarInstr? id t = some i)
    (h' : scalarInstr? id' t' = some i) : t = t' ∧ id = id' := by
  have hop : ∀ a b : Opcode, a ≠ b → ∀ v w, (⟨a, v⟩ : Instruction) ≠ ⟨b, w⟩ := by
    rintro a b hab v w heq
    exact hab (congrArg Instruction.opcode heq)
  cases t <;> cases h <;> cases t' <;>
    simp only [scalarInstr?, Option.some.injEq, reduceCtorEq] at h'
  all_goals first | exact absurd h' (hop _ _ (by decide) _ _) | simp_all

theorem scalarInstr?_profile {id : UInt32} {t : Ty} (h : scalarInstr? id t = some i) :
    i.Profile .types (some id) [] := by
  cases t <;> cases h
  · exact Profile.typeVoid
  · exact Profile.typeBool
  · exact Profile.typeInt
  · exact Profile.typeFloat

theorem scalarInstr?_ne_pointer {id : UInt32} {t : Ty} {words : List UInt32} :
    scalarInstr? id t ≠ some ⟨.typePointer, words⟩ := by
  intro h
  cases t <;> cases h

theorem constantInstr?_profile {type id : UInt32} {bits : UInt64} {t : Ty}
    (h : constantInstr? type id bits t = some i) : i.Profile .types (some id) [type] := by
  cases t <;> cases h
  · exact Profile.constantBool (bits != 0)
  · exact Profile.constant
  · exact Profile.constant

/-- The record agrees with the section of types. -/
structure Interned.Backed (n : Interned) (declared : List Instruction) : Prop where
  scalars : ∀ t id, (t, id) ∈ n.scalars ↔ ∃ i ∈ declared, scalarInstr? id t = some i
  scalarKeys : (n.scalars.map Prod.fst).Nodup
  pointers : ∀ pointee storage id, ((pointee, storage), id) ∈ n.pointers ↔
    ⟨.typePointer, [id, storage, pointee]⟩ ∈ declared
  pointerKeys : (n.pointers.map Prod.fst).Nodup
  vectors : ∀ component count id, ((component, count), id) ∈ n.vectors →
    ⟨.typeVector, [id, component, count]⟩ ∈ declared
  arrays : ∀ elem id, (elem, id) ∈ n.arrays → ⟨.typeRuntimeArray, [id, elem]⟩ ∈ declared
  functions : ∀ signature id, (signature, id) ∈ n.functions →
    ⟨.typeFunction, id :: signature⟩ ∈ declared
  constants : ∀ type bits id, ((type, bits), id) ∈ n.constants →
    ∃ t i, (t, type) ∈ n.scalars ∧ constantInstr? type id bits t = some i ∧ i ∈ declared

namespace Interned.Backed

variable {n : Interned} {declared : List Instruction}

/-- A declaration with the record of scalars and pointers after it. -/
theorem append (h : n.Backed declared) {scalars : List (Ty × UInt32)}
    {pointers : List ((UInt32 × UInt32) × UInt32)}
    (hscalars : ∀ t id, (t, id) ∈ scalars ↔ (t, id) ∈ n.scalars ∨ scalarInstr? id t = some i)
    (hscalarKeys : (scalars.map Prod.fst).Nodup)
    (hpointers : ∀ pointee storage id, ((pointee, storage), id) ∈ pointers ↔
      ((pointee, storage), id) ∈ n.pointers ∨ ⟨.typePointer, [id, storage, pointee]⟩ = i)
    (hpointerKeys : (pointers.map Prod.fst).Nodup) :
    ({ n with scalars, pointers } : Interned).Backed (declared ++ [i]) where
  scalars t id := by
    rw [hscalars, h.scalars]
    simp only [List.mem_append, List.mem_singleton, or_and_right, exists_or, exists_eq_left]
  scalarKeys := hscalarKeys
  pointers pointee storage id := by
    rw [hpointers, h.pointers, List.mem_append, List.mem_singleton]
  pointerKeys := hpointerKeys
  vectors component count id hm := List.mem_append_left _ (h.vectors component count id hm)
  arrays elem id hm := List.mem_append_left _ (h.arrays elem id hm)
  functions signature id hm := List.mem_append_left _ (h.functions signature id hm)
  constants type bits id hm := by
    obtain ⟨t, j, ht, hj, hmem⟩ := h.constants type bits id hm
    exact ⟨t, j, (hscalars t type).2 (Or.inl ht), hj, List.mem_append_left _ hmem⟩

/-- Instructions other than scalars and pointers can be declared without a record. -/
theorem append_other (h : n.Backed declared) (op : Opcode) (words : List UInt32)
    (hop : op ∉ [.typeVoid, .typeBool, .typeInt, .typeFloat, Opcode.typePointer]) :
    n.Backed (declared ++ [⟨op, words⟩]) := by
  refine h.append (fun t id => ?_) h.scalarKeys (fun pointee storage id => ?_) h.pointerKeys
  · refine (or_iff_left fun hi => hop ?_).symm
    cases t <;> cases hi <;> simp
  · refine (or_iff_left fun heq => hop ?_).symm
    cases heq
    simp

theorem append_scalar (h : n.Backed declared) {t : Ty} {id : UInt32}
    (hi : scalarInstr? id t = some i) (hnew : t ∉ n.scalars.map Prod.fst) :
    ({ n with scalars := (t, id) :: n.scalars } : Interned).Backed (declared ++ [i]) := by
  refine h.append (fun u id' => ?_) (List.nodup_cons.2 ⟨hnew, h.scalarKeys⟩)
    (fun pointee storage id' => ?_) h.pointerKeys
  · have huniq : scalarInstr? id' u = some i ↔ (u, id') = (t, id) := by
      constructor
      · intro hu
        obtain ⟨rfl, rfl⟩ := scalarInstr?_inj hu hi
        rfl
      · rintro heq
        cases heq
        exact hi
    rw [List.mem_cons, huniq, or_comm]
  · refine (or_iff_left ?_).symm
    rintro rfl
    exact scalarInstr?_ne_pointer hi

theorem append_pointer (h : n.Backed declared) {pointee storage id : UInt32}
    (hnew : (pointee, storage) ∉ n.pointers.map Prod.fst) :
    ({ n with pointers := ((pointee, storage), id) :: n.pointers } : Interned).Backed
      (declared ++ [⟨.typePointer, [id, storage, pointee]⟩]) := by
  refine h.append (fun u id' => (or_iff_left scalarInstr?_ne_pointer).symm) h.scalarKeys
    (fun pointee' storage' id' => ?_) (List.nodup_cons.2 ⟨hnew, h.pointerKeys⟩)
  simp only [List.mem_cons, Prod.mk.injEq, Instruction.mk.injEq, List.cons.injEq, and_true,
    true_and]
  tauto

end Interned.Backed

/-! ## Declared types -/

theorem storageClass_inj {space space' : Space} {storage : UInt32}
    (h : storageClass space = .ok storage) (h' : storageClass space' = .ok storage) :
    space = space' := by
  unfold storageClass at h h'
  split_ifs at h <;> split_ifs at h' <;> cases h <;> simp_all <;> cases h'

namespace Declares

variable {declared : List Instruction} {t t' : Ty} {id id' : UInt32}

theorem mono {more : List Instruction} (h : Declares declared t id) (hsub : declared ⊆ more) :
    Declares more t id := by
  induction h with
  | scalar hi h => exact .scalar hi (hsub h)
  | pointer _ hstorage h ih => exact .pointer ih hstorage (hsub h)

theorem mem_resultIds (h : Declares declared t id) : id ∈ resultIds declared := by
  cases h with
  | scalar hi h => exact Spirv.mem_resultIds.2 ⟨_, h, (scalarInstr?_profile hi).result⟩
  | pointer _ _ h => exact Spirv.mem_resultIds.2 ⟨_, h, Profile.typePointer.result⟩

/-- A type has one id. -/
theorem unique {n : Interned} (hn : n.Backed declared) (h : Declares declared t id)
    (h' : Declares declared t id') : id = id' := by
  induction h generalizing id' with
  | @scalar t id i hi h =>
    cases h' with
    | scalar hi' h' =>
      have hid := (hn.scalars t id).2 ⟨i, h, hi⟩
      have hid' := (hn.scalars t id').2 ⟨_, h', hi'⟩
      exact eq_of_mem_nodup_keys hn.scalarKeys hid hid'
    | pointer => cases hi
  | pointer _ hstorage h ih =>
    cases h' with
    | scalar hi' => cases hi'
    | pointer hpointee' hstorage' h' =>
      obtain rfl := ih hpointee'
      rw [hstorage] at hstorage'
      cases hstorage'
      exact eq_of_mem_nodup_keys hn.pointerKeys ((hn.pointers _ _ _).2 h)
        ((hn.pointers _ _ _).2 h')

/-- Where ids are unique, an id is declared as one type. -/
theorem injective (hnodup : (resultIds declared).Nodup) (h : Declares declared t id)
    (h' : Declares declared t' id) : t = t' := by
  induction h generalizing t' with
  | scalar hi h =>
    cases h' with
    | scalar hi' h' =>
      have heq := eq_of_result hnodup h h' (scalarInstr?_profile hi).result
        (scalarInstr?_profile hi').result
      exact (scalarInstr?_inj hi (heq ▸ hi')).1
    | pointer _ _ h' =>
      have heq := eq_of_result hnodup h h' (scalarInstr?_profile hi).result
        Profile.typePointer.result
      exact absurd (heq ▸ hi) scalarInstr?_ne_pointer
  | pointer _ hstorage h ih =>
    cases h' with
    | scalar hi' h' =>
      have heq := eq_of_result hnodup h h' Profile.typePointer.result
        (scalarInstr?_profile hi').result
      exact absurd (heq ▸ hi') scalarInstr?_ne_pointer
    | pointer hpointee' hstorage' h' =>
      have heq := eq_of_result hnodup h h' Profile.typePointer.result Profile.typePointer.result
      simp only [Instruction.mk.injEq, List.cons.injEq, and_true, true_and] at heq
      obtain ⟨rfl, rfl⟩ := heq
      rw [ih hpointee', storageClass_inj hstorage hstorage']

end Declares

end Elementwise.Spirv
