import Elementwise.Proofs.Compilation
import Mathlib.Tactic.FinCases

/-!
# Nesting of translated functions

The translation of a function opens and closes each of its blocks, and every block that is named
as a merge is one of its own.
-/
namespace Elementwise.Spirv
open IR

/-! ## Scopes -/

/-- The opcodes that open and close functions and blocks, or name merge blocks. -/
def structuralOps : List Opcode :=
  [.selectionMerge, .loopMerge, .func, .functionEnd, .label, .functionParameter, .branch,
   .branchConditional, .ret, .returnValue, .unreachable]

theorem Scope.step_plain {scope : Scope} {i : Instruction} (hop : i.opcode ∉ structuralOps)
    (hscope : scope ≠ .between) : scope.step i = some scope := by
  simp only [structuralOps, List.mem_cons, List.not_mem_nil, or_false, not_or] at hop
  obtain ⟨hselection, hloop, hfunc, hend, hlabel, hparam, hbranch, hcond, hret, hvalue,
    hunreachable⟩ := hop
  simp [Scope.step, Instruction.isMerge, isTerminatorOp, *]

variable {merge : Option BlockId} {header is : List Instruction}
  {instrs : List (InstrId × Option Instr)}

theorem Scope.run_plain {scope : Scope} (hops : ∀ i ∈ is, i.opcode ∉ structuralOps)
    (hscope : scope ≠ .between) : scope.run is = some scope := by
  induction is with
  | nil => rfl
  | cons i rest ih =>
    obtain ⟨hi, hrest⟩ := List.forall_mem_cons.1 hops
    rw [Scope.run, Scope.step_plain hi hscope]
    exact ih hrest

theorem mergeIds_plain (hops : ∀ i ∈ is, i.opcode ∉ structuralOps) : mergeIds is = [] := by
  have hnot : ∀ i ∈ is, ¬ i.isMerge := by
    intro i hi hmerge
    refine hops i hi ?_
    simp only [Instruction.isMerge, Bool.or_eq_true, decide_eq_true_eq] at hmerge
    rcases hmerge with hop | hop <;> simp [structuralOps, hop]
  rw [mergeIds, List.filter_eq_nil_iff.2 hnot, List.map_nil]

theorem Opcode.IsUnary.plain {op : Opcode} (h : op.IsUnary) : op ∉ structuralOps := by
  obtain ⟨name, hs⟩ := h
  intro hop
  fin_cases hop <;> cases hs

theorem Opcode.IsBinary.plain {op : Opcode} (h : op.IsBinary) : op ∉ structuralOps := by
  obtain ⟨name, hs⟩ := h
  intro hop
  fin_cases hop <;> cases hs

/-! ## Instructions and blocks -/

section Instructions

variable {N : Naming} {p : Place} {id : InstrId} {i : Instr} {made : List UInt32}
  {out : List Instruction}

theorem LoopHeader.nested (h : LoopHeader N p header) : Scope.block.run header = some .block := by
  cases h <;> rfl

theorem SelectionHeader.nested {onTrue onFalse : BlockId}
    (h : SelectionHeader N p onTrue onFalse merge made header) :
    Scope.block.run header = some .block := by
  cases h <;> rfl

/-- A terminator ends its block, and every other instruction stays in it. -/
theorem Lowers.nested (h : Lowers N p id i made out) :
    Scope.block.run out = some (if i.isTerminator then .between else .block) := by
  cases h with
  | binary _ _ _ hop =>
    exact Scope.run_plain (by simpa using (isBinary_of_arithmetic hop).plain) (by decide)
  | compare _ _ _ hop =>
    exact Scope.run_plain (by simpa using (isBinary_of_comparison hop).plain) (by decide)
  | negate =>
    exact Scope.run_plain (by simpa using (isUnary_negate _).plain) (by decide)
  | convert _ hop =>
    exact Scope.run_plain (by simpa using (isUnary_of_conversion hop).plain) (by decide)
  | branch _ hheader => rw [Scope.run_append, hheader.nested]; rfl
  | loopBranch _ _ _ _ _ hheader => rw [Scope.run_append, hheader.nested]; rfl
  | condBranch _ _ _ _ _ hheader => rw [Scope.run_append, hheader.nested]; rfl
  | _ => rfl

theorem LowersAll.nested (h : LowersAll N p instrs made out)
    (hinner : ∀ entry ∈ instrs.dropLast, ¬ entry.2.any Instr.isTerminator)
    (hlast : ∃ entry, instrs.getLast? = some entry ∧ entry.2.any Instr.isTerminator) :
    Scope.block.run out = some .between := by
  induction h with
  | nil =>
    obtain ⟨entry, hnone, -⟩ := hlast
    cases hnone
  | @cons id i rest made more out tail head htail ih =>
    rw [Scope.run_append, head.nested]
    cases rest with
    | nil =>
      obtain ⟨entry, heq, hterm⟩ := hlast
      cases heq
      cases htail
      simp_all [Scope.run]
    | cons next others =>
      rw [List.dropLast_cons_cons, List.forall_mem_cons] at hinner
      have hstay : i.isTerminator = false := by simpa using hinner.1
      rw [hstay]
      exact ih hinner.2 (by simpa using hlast)

theorem Hoists.plain {locals : List Instruction} (h : Hoists N instrs locals) :
    ∀ i ∈ locals, i.opcode ∉ structuralOps := by
  induction h with
  | nil => simp
  | localVar _ _ _ ih =>
    have hop : Opcode.variableOp ∉ structuralOps := by decide
    exact List.forall_mem_cons.2 ⟨hop, ih⟩
  | other _ _ ih => exact ih

/-! ## Merges -/

theorem LoopHeader.merges (h : LoopHeader N p header) :
    mergeIds header ⊆ N.labels.map Prod.snd := by
  cases h with
  | none => simp
  | loop _ hmerge =>
    obtain ⟨b, -, hb⟩ := hmerge
    simpa [mergeIds, Instruction.isMerge] using ⟨b, hb⟩

theorem SelectionHeader.merges {onTrue onFalse : BlockId}
    (h : SelectionHeader N p onTrue onFalse merge made header) :
    mergeIds header ⊆ N.labels.map Prod.snd ++ made := by
  cases h with
  | leaves => simp
  | named _ hlabel =>
    obtain ⟨b, -, hb⟩ := hlabel
    simpa [mergeIds, Instruction.isMerge] using ⟨b, hb⟩
  | meeting _ _ hlabel =>
    obtain ⟨b, -, hb⟩ := hlabel
    simpa [mergeIds, Instruction.isMerge] using ⟨b, hb⟩
  | synthesized => simp [mergeIds, Instruction.isMerge]

/-- Every merge that is named is the label of a block, or was made for it. -/
theorem Lowers.merges (h : Lowers N p id i made out) :
    mergeIds out ⊆ N.labels.map Prod.snd ++ made := by
  have hplain : ∀ {op : Opcode} {words : List UInt32}, op ∉ structuralOps →
      mergeIds [⟨op, words⟩] ⊆ N.labels.map Prod.snd ++ [] := by
    intro op words hop
    rw [mergeIds_plain (by simpa using hop)]
    exact List.nil_subset _
  have hbranch : ∀ {header : List Instruction} {j : Instruction} {ids : List UInt32},
      mergeIds [j] = [] → mergeIds header ⊆ ids → mergeIds (header ++ [j]) ⊆ ids := by
    intro header j ids hnone hsub
    rwa [mergeIds_append, hnone, List.append_nil]
  cases h with
  | binary _ _ _ hop => exact hplain (isBinary_of_arithmetic hop).plain
  | compare _ _ _ hop => exact hplain (isBinary_of_comparison hop).plain
  | negate => exact hplain (isUnary_negate _).plain
  | convert _ hop => exact hplain (isUnary_of_conversion hop).plain
  | branch _ hheader =>
    exact hbranch rfl (List.Subset.trans hheader.merges (List.subset_append_left _ _))
  | loopBranch _ _ _ _ _ hheader =>
    exact hbranch rfl (List.Subset.trans hheader.merges (List.subset_append_left _ _))
  | condBranch _ _ _ _ _ hheader => exact hbranch rfl hheader.merges
  | _ => exact List.nil_subset _

theorem append_subset_append {as bs cs : List UInt32} (h : bs ⊆ cs) : as ++ bs ⊆ as ++ cs :=
  List.append_subset.2
    ⟨List.subset_append_left _ _, List.Subset.trans h (List.subset_append_right _ _)⟩

theorem LowersAll.merges (h : LowersAll N p instrs made out) :
    mergeIds out ⊆ N.labels.map Prod.snd ++ made := by
  induction h with
  | nil => simp
  | cons head _ ih =>
    rw [mergeIds_append, List.append_subset]
    constructor
    · exact List.Subset.trans head.merges (append_subset_append (List.subset_append_left _ _))
    · exact List.Subset.trans ih (append_subset_append (List.subset_append_right _ _))

end Instructions

theorem terminator_of_isSome {b : Block} (id : BlockId) (h : b.terminator?.isSome) :
    ∃ entry, (b.instrIds id).getLast? = some entry ∧ entry.2.any Instr.isTerminator := by
  have hmap : ((b.instrIds id).getLast?).map Prod.snd = b.instrs.getLast? := by
    rw [← List.getLast?_map, Place.map_snd_instrIds]
  unfold Block.terminator? at h
  cases hlast : (b.instrIds id).getLast? with
  | none =>
    rw [hlast] at hmap
    simp [← hmap] at h
  | some entry =>
    rw [hlast] at hmap
    refine ⟨entry, rfl, ?_⟩
    rw [← hmap] at h
    cases hslot : entry.2 with
    | none => simp [hslot] at h
    | some i => simpa [hslot] using h

section Blocks

variable {N : Naming} {f : Frame} {blocks : List (BlockId × Block)} {locals body : List Instruction}
  {made : List UInt32}

/-- Blocks are opened and closed one after the other. -/
theorem LowersBlocks.nested (h : LowersBlocks N f locals blocks made body)
    (hlocals : ∀ i ∈ locals, i.opcode ∉ structuralOps) :
    Scope.between.run body = some .between := by
  induction h with
  | nil => rfl
  | @cons locals body tail id b label rest made more hlabel hterminator hinner hbody hrest ih =>
    have hblock : Scope.block.run body = some .between := by
      refine hbody.nested ?_ (terminator_of_isSome id hterminator)
      intro entry he
      have hmem : entry.2 ∈ b.instrs.dropLast := by
        rw [← Place.map_snd_instrIds b id, ← List.map_dropLast]
        exact List.mem_map_of_mem he
      exact hinner _ hmem
    have hopen : Scope.between.run (⟨.label, [label]⟩ :: locals) = some .block :=
      Scope.run_plain hlocals (by decide)
    rw [Scope.run_append, Scope.run_append, hopen, Option.bind_some, hblock]
    exact ih (by simp)

theorem LowersBlocks.merges (h : LowersBlocks N f locals blocks made body)
    (hlocals : ∀ i ∈ locals, i.opcode ∉ structuralOps) :
    mergeIds body ⊆ N.labels.map Prod.snd ++ made := by
  induction h with
  | nil => simp
  | @cons locals body tail id b label rest made more _ _ _ hbody _ ih =>
    have hfirst : mergeIds (⟨.label, [label]⟩ :: locals) = [] := by
      rw [mergeIds_cons, mergeIds_plain hlocals]
      rfl
    rw [mergeIds_append, mergeIds_append, hfirst, List.nil_append, List.append_subset]
    constructor
    · exact List.Subset.trans hbody.merges (append_subset_append (List.subset_append_left _ _))
    · exact List.Subset.trans (ih (by simp)) (append_subset_append (List.subset_append_right _ _))

/-- The label of every block is written. -/
theorem LowersBlocks.label_mem (h : LowersBlocks N f locals blocks made body) {id : BlockId}
    (hid : id ∈ blocks.map Prod.fst) :
    ∃ label, (id, label) ∈ N.labels ∧ ⟨.label, [label]⟩ ∈ body := by
  induction h with
  | nil => cases hid
  | @cons locals body tail id' b label rest made more hlabel _ _ _ _ ih =>
    rcases List.mem_cons.1 hid with rfl | hid
    · exact ⟨label, hlabel, by simp⟩
    · obtain ⟨label', hlabel', hmem⟩ := ih hid
      exact ⟨label', hlabel', List.mem_append_right _ hmem⟩

end Blocks

/-! ## Functions -/

theorem nested_unreachable (made : List UInt32) :
    Scope.between.run (made.flatMap unreachableBlock) = some .between := by
  induction made with
  | nil => rfl
  | cons label rest ih =>
    rw [List.flatMap_cons, Scope.run_append]
    exact ih

theorem nested_params (types words : List UInt32) : Scope.between.run
    (List.zipWith (fun t w => ⟨.functionParameter, [t, w]⟩) types words) = some .between := by
  induction types generalizing words with
  | nil => rfl
  | cons t types ih =>
    cases words with
    | nil => rfl
    | cons w words => exact ih words

theorem mergeIds_unreachable (made : List UInt32) :
    mergeIds (made.flatMap unreachableBlock) = [] := by
  induction made with
  | nil => rfl
  | cons label rest ih =>
    rw [List.flatMap_cons, mergeIds_append, ih]
    rfl

theorem mergeIds_params (types words : List UInt32) :
    mergeIds (List.zipWith (fun t w => ⟨.functionParameter, [t, w]⟩) types words) = [] := by
  induction types generalizing words with
  | nil => rfl
  | cons t types ih =>
    cases words with
    | nil => rfl
    | cons w words => exact ih words

section Functions

variable {N : Naming} {program : Program} {debug : Bool} {id : FuncId} {func : Func}
  {group : List Instruction}

theorem LowersFunction.nested (h : LowersFunction N program debug id func group) :
    Scope.outside.run group = some .outside := by
  obtain @⟨params, blocks, word, result, type, types, words, made, locals, body, -, -, -, -, -, -,
    -, -, hlocals, hbody⟩ := h
  have hopen : Scope.outside.run (⟨.func, [result, word, noControl, type]⟩ ::
      List.zipWith (fun t w => ⟨.functionParameter, [t, w]⟩) types words) = some .between :=
    nested_params types words
  rw [Scope.run_append, Scope.run_append, Scope.run_append, hopen, Option.bind_some,
    hbody.nested hlocals.plain, Option.bind_some, nested_unreachable]
  rfl

/-- The merge blocks of a function are blocks of it. -/
theorem LowersFunction.merges (honce : BlocksOnce func)
    (h : LowersFunction N program debug id func group) : mergeIds group ⊆ resultIds group := by
  obtain @⟨params, blocks, word, result, type, types, words, made, locals, body, -, hblocks, -, -,
    hlabels, -, -, -, hlocals, hbody⟩ := h
  have hkeys : (N.labels.map Prod.fst).Nodup := by
    rw [hlabels, List.nodup_reverse]
    exact honce.nodup hblocks
  have hheader : mergeIds (⟨.func, [result, word, noControl, type]⟩ ::
      List.zipWith (fun t w => ⟨.functionParameter, [t, w]⟩) types words) = [] :=
    mergeIds_params types words
  have hend : mergeIds [⟨.functionEnd, []⟩] = [] := rfl
  intro label hmem
  rw [mergeIds_append, mergeIds_append, mergeIds_append, hheader, hend, mergeIds_unreachable,
    List.append_nil, List.append_nil, List.nil_append] at hmem
  refine mem_resultIds.2 ⟨⟨.label, [label]⟩, ?_, Profile.label.result⟩
  rcases List.mem_append.1 (hbody.merges hlocals.plain hmem) with hmem | hmem
  · obtain ⟨⟨b, _⟩, hb, rfl⟩ := List.mem_map.1 hmem
    have hlisted : b ∈ blocks.map Prod.fst := by
      rw [← List.mem_reverse, ← hlabels]
      exact List.mem_map_of_mem hb
    obtain ⟨label, hlabel, hwritten⟩ := hbody.label_mem hlisted
    obtain rfl := eq_of_mem_nodup_keys hkeys hb hlabel
    simp [hwritten]
  · have hblock : ⟨.label, [label]⟩ ∈ made.flatMap unreachableBlock :=
      List.mem_flatMap.2 ⟨label, hmem, List.mem_cons_self⟩
    simp [hblock]

end Functions

end Elementwise.Spirv
