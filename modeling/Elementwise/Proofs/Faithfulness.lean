import Elementwise.Proofs.Acceptance

/-!
# The translation of a program can be read back

The function section of a compiled binary holds the translation of every listed function, in
order, and then the entry function. Within a function no value and no block has two ids, and in
the whole binary no id is defined twice, so that what is read determines what was written.
-/
namespace Elementwise.Spirv
open IR Gen

/-! ## The values of a function -/

theorem flatMap_sublist_map {α β : Type} {f : α → List β} {g : α → β}
    (h : ∀ x, f x = [] ∨ f x = [g x]) (xs : List α) : (xs.flatMap f).Sublist (xs.map g) := by
  induction xs with
  | nil => exact List.Sublist.refl _
  | cons x rest ih =>
    rw [List.flatMap_cons, List.map_cons]
    rcases h x with hx | hx
    · rw [hx]
      exact ih.cons _
    · rw [hx]
      exact ih.cons_cons _

variable {params : List (ParamId × Param)}

section Values

variable {instrs : List (InstrId × Option Instr)}

theorem hoistedValues_sublist :
    (hoistedValues instrs).Sublist (instrs.map fun entry => .result entry.1) := by
  refine flatMap_sublist_map ?_ instrs
  rintro ⟨id, slot⟩
  unfold hoistedKeys
  split <;> simp

theorem loweredValues_sublist :
    (loweredValues instrs).Sublist (instrs.map fun entry => .result entry.1) := by
  refine flatMap_sublist_map ?_ instrs
  rintro ⟨id, slot⟩
  cases slot with
  | none => exact Or.inl rfl
  | some i => cases i <;> simp [loweredKeys]

theorem mem_hoistedValues {v : Value} : v ∈ hoistedValues instrs ↔
    ∃ id name elem, v = .result id ∧ (id, some (.localVar name elem)) ∈ instrs := by
  unfold hoistedValues
  rw [List.mem_flatMap]
  constructor
  · rintro ⟨⟨id, slot⟩, hmem, hv⟩
    unfold hoistedKeys at hv
    split at hv
    next name elem heq => exact ⟨id, name, elem, List.mem_singleton.1 hv, heq ▸ hmem⟩
    next => cases hv
  · rintro ⟨id, name, elem, rfl, hmem⟩
    exact ⟨_, hmem, List.mem_singleton.2 rfl⟩

theorem mem_loweredValues {v : Value} : v ∈ loweredValues instrs ↔
    ∃ id i, v = .result id ∧ (id, some i) ∈ instrs ∧ loweredKeys id i = [.result id] := by
  unfold loweredValues
  rw [List.mem_flatMap]
  constructor
  · rintro ⟨⟨id, slot⟩, hmem, hv⟩
    cases slot with
    | none => cases hv
    | some i =>
      have hkeys : loweredKeys id i = [] ∨ loweredKeys id i = [.result id] := by
        cases i <;> simp [loweredKeys]
      change v ∈ loweredKeys id i at hv
      rcases hkeys with hkeys | hkeys
      · rw [hkeys] at hv
        cases hv
      · rw [hkeys] at hv
        exact ⟨id, i, List.mem_singleton.1 hv, hmem, hkeys⟩
  · rintro ⟨id, i, rfl, hmem, hkeys⟩
    exact ⟨_, hmem, by simp [hkeys]⟩

/-- A value gets an id as a parameter, as a local variable or where it is computed, and once. -/
theorem nodup_definedValues (hparams : (params.map Prod.fst).Nodup)
    (hinstrs : (instrs.map Prod.fst).Nodup) : (definedValues params instrs).Nodup := by
  have hresults : (instrs.map fun entry => Value.result entry.1).Nodup := by
    have h := hinstrs.map fun _ _ heq => Value.result.inj heq
    rwa [List.map_map] at h
  have hdisjoint : (hoistedValues instrs).Disjoint (loweredValues instrs) := by
    intro v hv hv'
    obtain ⟨id, name, elem, rfl, hmem⟩ := mem_hoistedValues.1 hv
    obtain ⟨_, i, heq, hmem', hkeys⟩ := mem_loweredValues.1 hv'
    cases heq
    cases Option.some.inj (eq_of_mem_nodup_keys hinstrs hmem hmem')
    cases hkeys
  have hparamValues : (params.map fun q => Value.param q.1).Nodup := by
    have h := hparams.map fun _ _ heq => Value.param.inj heq
    rwa [List.map_map] at h
  refine List.nodup_append'.2 ⟨hparamValues, List.nodup_append'.2
    ⟨hresults.sublist hoistedValues_sublist, hresults.sublist loweredValues_sublist, hdisjoint⟩, ?_⟩
  intro v hv hv'
  obtain ⟨q, -, rfl⟩ := List.mem_map.1 hv
  rcases List.mem_append.1 hv' with hv' | hv'
  · obtain ⟨_, _, _, heq, -⟩ := mem_hoistedValues.1 hv'
    cases heq
  · obtain ⟨_, _, heq, -⟩ := mem_loweredValues.1 hv'
    cases heq

end Values

theorem nodup_paramIds {func : Func} {id : FuncId} (h : func.paramIds id = params.map some) :
    (params.map Prod.fst).Nodup := by
  have hfst : params.map Prod.fst = (List.range params.length).map fun j => ⟨id, j⟩ := by
    apply List.ext_getElem (by simp)
    intro j hj hj'
    have hlt : j < params.length := by simpa using hj
    have hat := congrArg (·[j]?) h
    simp only [Func.paramIds, List.getElem?_mapIdx, List.getElem?_map,
      List.getElem?_eq_getElem hlt, Option.map_some, Option.map_eq_some_iff] at hat
    obtain ⟨slot, -, q, -, hq⟩ := hat
    simp [← hq]
  rw [hfst]
  exact List.nodup_range.map fun _ _ heq => (ParamId.mk.inj heq).2

theorem map_fst_instrIds (b : Block) (id : BlockId) :
    (b.instrIds id).map Prod.fst = (List.range b.instrs.length).map fun j => ⟨id, j⟩ := by
  apply List.ext_getElem <;> simp [Block.instrIds]

theorem nodup_instrs {blocks : List (BlockId × Block)} (h : (blocks.map Prod.fst).Nodup) :
    ((blocks.flatMap fun entry => entry.2.instrIds entry.1).map Prod.fst).Nodup := by
  rw [List.map_flatMap, List.nodup_flatMap]
  constructor
  · intro entry _
    rw [map_fst_instrIds]
    exact List.nodup_range.map fun _ _ heq => (InstrId.mk.inj heq).2
  · rw [List.Nodup, List.pairwise_map] at h
    refine h.imp fun {entry other} hne id hid hid' => hne ?_
    simp only [map_fst_instrIds] at hid hid'
    obtain ⟨_, -, rfl⟩ := List.mem_map.1 hid
    obtain ⟨_, -, heq⟩ := List.mem_map.1 hid'
    exact (InstrId.mk.inj heq).1.symm

/-- Neither values nor blocks of a function have two ids. -/
theorem LowersFunction.nodup_keys {N : Naming} {program : Program} {debug : Bool} {id : FuncId}
    {func : Func} {group : List Instruction} (honce : BlocksOnce func)
    (h : LowersFunction N program debug id func group) :
    (N.values.map Prod.fst).Nodup ∧ (N.labels.map Prod.fst).Nodup := by
  obtain ⟨hparams, hblocks, -, hvalues, hlabels, -⟩ := h
  have hnodup := honce.nodup hblocks
  rw [hvalues, hlabels, List.nodup_reverse, List.nodup_reverse]
  exact ⟨nodup_definedValues (nodup_paramIds hparams) (nodup_instrs hnodup), hnodup⟩

/-! ## What is read -/

namespace Contents

/-- The instructions that were read. -/
def instructions (contents : Contents) : List Instruction :=
  contents.instrs.map Decoded.instruction

/-- The instructions of a section. -/
def part (contents : Contents) (home : Section) : List Instruction :=
  (contents.instrs.filter fun d => d.home = home).map Decoded.instruction

end Contents

theorem ReadList.map_filter_home {offset : Nat} {is : List Instruction} {ds : List Decoded}
    (h : ReadList offset is ds) (home : Section) :
    (ds.filter fun d => d.home = home).map Decoded.instruction =
      is.filter fun i => i.home? = some home := by
  induction h with
  | nil => rfl
  | cons head _ _ ih =>
    rw [List.filter_cons, List.filter_cons, head.home]
    split <;> simp_all [head.instruction]

section Parts

variable {contents : Contents} {s : Generator}

theorem ReadList.instructions_eq (h : ReadList headerSize s.contents contents.instrs) :
    contents.instructions = s.contents := h.map_instruction

theorem ReadList.part_types (h : ReadList headerSize s.contents contents.instrs)
    (hsorted : s.Sorted) : contents.part .types = s.declared :=
  (h.map_filter_home _).trans (hsorted.filter_part (by decide))

theorem ReadList.part_functions (h : ReadList headerSize s.contents contents.instrs)
    (hsorted : s.Sorted) : contents.part .functions = s.written :=
  (h.map_filter_home _).trans (hsorted.filter_part (by decide))

theorem Generator.Sorted.nodup_declared (hsorted : s.Sorted) (h : (resultIds s.contents).Nodup) :
    (resultIds s.declared).Nodup := by
  rw [hsorted.resultIds_contents, resultIds_append] at h
  exact (List.nodup_append'.1 h).1

end Parts

/-- A function section, given the declarations: the translations of the listed functions, each
under its own names, and the entry function, which calls the first of them. -/
inductive Translates (program : Program) (debug : Bool) (declared : List Instruction) :
    List Instruction → Prop
  | intro {entries : List (FuncId × Func)} {kernel : FuncId × Func} {elem : Ty}
      {functions : List (Option FuncId × UInt32)} {groups : List (List Instruction)}
      {k : KernelIds} {e : EntryIds} {word : UInt32}
      (hlisted : program.listed = entries.map some) (honce : (entries.map Prod.fst).Nodup)
      (hfunctions : functions.map Prod.fst = (entries.map fun entry => some entry.1).reverse)
      (hgroups : List.Forall₂ (fun (entry : FuncId × Func) group => ∃ values labels,
        (values.map Prod.fst).Nodup ∧ (labels.map Prod.fst).Nodup ∧
          LowersFunction ⟨declared, functions, values, labels⟩ program debug entry.1 entry.2
            group) entries groups)
      (hkernel : entries.head? = some kernel) (helem : elementType kernel.2 = .ok elem)
      (hword : (some kernel.1, word) ∈ functions) (hdeclares : DeclaresKernel declared elem k) :
      Translates program debug declared (groups.flatten ++ e.group k word)

section Compiled

variable {program : Program} {options : Options} {c : Compiled}

/-- A binary that was verified is read to its end and defines no id twice. -/
theorem exists_assembled_of_compile (honce : ListsBlocksOnce program)
    (hvalidation : options.validation = true) (h : compile program options = .ok c) :
    ∃ contents s entries kernel elem k e function groups,
      readModule c.words = .ok contents ∧ contents.failure = none ∧
      ReadList headerSize s.contents contents.instrs ∧ (resultIds s.contents).Nodup ∧ s.Sorted ∧
      Assembled (fun _ => True) program options entries kernel elem k e function groups s := by
  obtain ⟨-, s, _, entries, kernel, elem, k, e, function, groups, -, hjudge, hfits, hwords,
    hassembled⟩ := exists_assembled honce namesPermitted_true h
  have hsorted := hassembled.sorted hfits
  have hverify := verify_of_judge hvalidation hjudge
  rw [hwords] at hverify ⊢
  obtain ⟨ds, hread, hmodule, hnodup⟩ := exists_readList_of_verify hsorted.fits hverify
  exact ⟨_, s, entries, kernel, elem, k, e, function, groups, hmodule, rfl, hread, hnodup, hsorted,
    hassembled⟩

/-- The function section of a binary that was verified is the translation of its program, whose
types and constants are those that the binary declares. -/
theorem translates_compiled (honce : ListsBlocksOnce program)
    (hvalidation : options.validation = true) (h : compile program options = .ok c) :
    ∃ contents, readModule c.words = .ok contents ∧ contents.failure = none ∧
      (definedIds c.words).Nodup ∧
      Translates program options.debug (contents.part .types) (contents.part .functions) := by
  obtain ⟨contents, s, entries, kernel, elem, k, e, function, groups, hmodule, hend, hread, hnodup,
    hsorted, hassembled⟩ := exists_assembled_of_compile honce hvalidation h
  have hdefined : definedIds c.words = resultIds s.contents := by
    rw [definedIds, hmodule, ← hread.filterMap_result]
  refine ⟨contents, hmodule, hend, hdefined ▸ hnodup, ?_⟩
  rw [hread.part_types hsorted, hread.part_functions hsorted, hassembled.written]
  have hblocks : ∀ entry ∈ entries, BlocksOnce entry.2 := by
    intro entry hentry
    exact honce (some entry) (hassembled.listed ▸ List.mem_map_of_mem hentry) entry rfl
  have hgroups := (List.forall₂_and_left entries groups).2 ⟨hblocks,
    hassembled.lowers (hsorted.nodup_declared hnodup)⟩
  refine .intro hassembled.listed hassembled.once hassembled.functionKeys (hgroups.imp ?_)
    hassembled.head hassembled.elementType hassembled.function hassembled.declares
  rintro entry group ⟨hblocks, values, labels, hlowers⟩
  exact ⟨values, labels, (hlowers.nodup_keys hblocks).1, (hlowers.nodup_keys hblocks).2, hlowers⟩

end Compiled

theorem translates_compiled_doubling : ∃ c contents,
    compile doubling { debug := true } = .ok c ∧ readModule c.words = .ok contents ∧
      contents.failure = none ∧ (definedIds c.words).Nodup ∧
      Translates doubling true (contents.part .types) (contents.part .functions) := by
  obtain ⟨c, hc⟩ := exists_verified_doubling
  obtain ⟨contents, hmodule, hend, hnodup, htranslates⟩ :=
    translates_compiled listsBlocksOnce_doubling rfl hc
  exact ⟨c, contents, hc, hmodule, hend, hnodup, htranslates⟩

end Elementwise.Spirv
