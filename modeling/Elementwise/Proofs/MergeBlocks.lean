import Elementwise.Proofs.Outline
import Elementwise.Proofs.Requirements

/-!
# Merge blocks

The merge of a construct is named where a construct begins and nowhere else, and no block is named
twice. Where two constructs would merge in one block, the translation fails.
-/
namespace Elementwise.Spirv
open IR Gen Relation

/-! ## Claims -/

theorem mergeIds_flatMap {α : Type} (xs : List α) (f : α → List Instruction) :
    mergeIds (xs.flatMap f) = xs.flatMap fun x => mergeIds (f x) := by
  induction xs with
  | nil => rfl
  | cons x rest ih => rw [List.flatMap_cons, List.flatMap_cons, mergeIds_append, ih]

theorem mergeIds_closing {i : Instr} {j : Instruction} (h : j.opcode ∈ closingOps i) :
    mergeIds [j] = [] := by
  have hops : ∀ op ∈ [Opcode.branch, .branchConditional, .ret, .returnValue],
      op ≠ .selectionMerge ∧ op ≠ .loopMerge := by decide
  obtain ⟨hselection, hloop⟩ := hops _ (mem_closingOps h)
  simp [mergeIds, Instruction.isMerge, hselection, hloop]

variable {b : BlockId}

section Segments

variable {l : Layout} {labels : List (BlockId × UInt32)} {e : BlockId × Block}
  {made : List UInt32} {out : List Instruction}

theorem MergeHeader.claims {k : Nat} {id : BlockId} {block : Block} {i : Instr}
    {header : List Instruction} (hd : l.Distinct) (hk : l.blocks[k]? = some (id, block))
    (hi : block.terminator? = some i) (h : MergeHeader l labels k block i made header)
    (hclaim : l.claim? (id, block) = some b) : ∃ m, (b, m) ∈ labels ∧ mergeIds header = [m] := by
  have hposition : (l.position? id).getD 0 = k := by
    rw [hd.position?_eq_some.2 ⟨block, hk⟩, Option.getD_some]
  simp only [Layout.claim?, hi, hposition] at hclaim
  cases h with
  | @loop i loop merge continue_ m c hret hloop hmerge hcontinue hm hc =>
    have heq : merge = b := by
      rw [hloop] at hclaim
      cases i with
      | branch target | condBranch cond onTrue onFalse merge =>
        exact Option.some.inj (hmerge.symm.trans hclaim)
      | _ => cases hclaim
    exact ⟨m, heq ▸ hm, rfl⟩
  | @selection cond onTrue onFalse merge made m hloop hstays hm =>
    have hstays' : ¬ l.leavesLoop k onTrue onFalse = true := fun h =>
      hstays (hd.leavesLoop_iff.1 h)
    simp only [hloop, hstays'] at hclaim
    cases hm with
    | named hlabel => exact ⟨m, by simpa using Option.some.inj hclaim ▸ hlabel, rfl⟩
    | meeting hearliest hlabel =>
      have heq := hd.meeting?_eq_some.2 hearliest
      exact ⟨m, Option.some.inj (heq.symm.trans hclaim) ▸ hlabel, rfl⟩
    | made hnone =>
      have heq := hd.meeting?_eq_none.2 hnone
      cases heq.symm.trans hclaim
  | leaves hloop hleaves => simp [hloop, hd.leavesLoop_iff.2 hleaves] at hclaim
  | branch hloop => simp [hloop] at hclaim
  | ret => simp at hclaim

/-- A block that claims a merge names its label. -/
theorem Segment.claims (hd : l.Distinct) (h : Segment l labels e made out)
    (hclaim : l.claim? e = some b) : ∃ m, (b, m) ∈ labels ∧ mergeIds out = [m] := by
  obtain @⟨id, block, k, label, i, made, inner, header, last, hk, -, hi, hinner, hheader, hlast⟩ :=
    h
  obtain ⟨m, hm, hmerges⟩ := hheader.claims hd hk hi hclaim
  refine ⟨m, hm, ?_⟩
  have hlabel : mergeIds [⟨.label, [label]⟩] = [] := rfl
  rw [← List.singleton_append, mergeIds_append, mergeIds_append, mergeIds_append, hlabel,
    mergeIds_plain hinner, hmerges, mergeIds_closing hlast]
  rfl

end Segments

namespace Outline

variable {o : Outline} {id : FuncId} {func : Func}

theorem Describes.distinct (h : o.Describes id func) (honce : BlocksOnce func) :
    (⟨o.blocks⟩ : Layout).Distinct := honce.nodup h.listed

theorem Describes.nodup_keys (h : o.Describes id func) (honce : BlocksOnce func) :
    (o.table.map Prod.fst).Nodup := by
  rw [table, List.map_fst_zip (by simp [h.labels])]
  exact h.distinct honce

theorem Describes.nodup_parts (h : o.Describes id func) :
    (o.parts.flatMap fun part => mergeIds part.2).Nodup := by
  have hnodup := h.merges
  rw [code, mergeIds_append, mergeIds_append, mergeIds_append, List.append_assoc,
    List.append_assoc, List.nodup_append', mergeIds_flatMap] at hnodup
  exact (List.nodup_append'.1 hnodup.2.1).1

/-- Different blocks claim different merges. -/
theorem Describes.claims_ne (h : o.Describes id func) (honce : BlocksOnce func) {j k : Nat}
    {e e' : BlockId × Block} {b' : BlockId} (hjk : j < k) (hj : o.blocks[j]? = some e)
    (hk : o.blocks[k]? = some e') (hclaim : Layout.claim? ⟨o.blocks⟩ e = some b)
    (hclaim' : Layout.claim? ⟨o.blocks⟩ e' = some b') : b ≠ b' := by
  rintro rfl
  obtain ⟨hlength, hsegment⟩ := List.forall₂_iff_get.1 h.segments
  obtain ⟨hj', rfl⟩ := List.getElem?_eq_some_iff.1 hj
  obtain ⟨hk', rfl⟩ := List.getElem?_eq_some_iff.1 hk
  obtain ⟨m, hm, hmerges⟩ := (hsegment j hj' (hlength ▸ hj')).claims (h.distinct honce) hclaim
  obtain ⟨m', hm', hmerges'⟩ := (hsegment k hk' (hlength ▸ hk')).claims (h.distinct honce) hclaim'
  obtain rfl := eq_of_mem_nodup_keys (h.nodup_keys honce) hm hm'
  -- both segments would name the label, but no label is named twice
  have hdisjoint := List.pairwise_iff_get.1 (List.nodup_flatMap.1 h.nodup_parts).2
    ⟨j, hlength ▸ hj'⟩ ⟨k, hlength ▸ hk'⟩ hjk
  have hmem : ∀ {ids : List UInt32}, ids = [m] → m ∈ ids := fun hids => by simp [hids]
  exact hdisjoint (hmem hmerges) (hmem hmerges')

end Outline

theorem Failure.Expected.structural {hole gap : Prop} {e : Failure} (h : e.Expected hole gap)
    (hhole : ¬ hole) (hgap : ¬ gap) : e.Structural := by
  cases e with
  | diagnostic d => exact h.resolve_right fun hd => hhole hd.2
  | panic p => exact hgap h

section Functions

variable {program : Program} {id : FuncId} {func : Func} {s : Generator}

/-- Where two blocks claim one merge, the function is not written. -/
theorem exists_error_of_claims (hfunc : program.func? id = some func) (honce : BlocksOnce func)
    (debug : Bool) (hs : s.assembly.finished = false) {j k : Nat} {x y : BlockId × Block}
    (hjk : j ≠ k) (hx : (func.listed id)[j]? = some (some x))
    (hy : (func.listed id)[k]? = some (some y)) (hclaim : Layout.claim? ⟨func.body id⟩ x = some b)
    (hclaim' : Layout.claim? ⟨func.body id⟩ y = some b) :
    ∃ e t, lowerFunction program debug id s = .error e t ∧
      e.Expected (∃ x ∈ func.entries id, x.2 = none) (Faulty program id func) := by
  have hyields := yields_lowerFunction hfunc debug honce hs
  cases hrun : lowerFunction program debug id s with
  | error e t => exact ⟨e, t, rfl, hyields.error hrun⟩
  | ok word t =>
    obtain ⟨o, ho, -⟩ := hyields.ok hrun
    have hbody : func.body id = o.blocks := by rw [Func.body, ho.listed, reduceOption_map_some]
    rw [ho.listed, List.getElem?_map] at hx hy
    have hx' : o.blocks[j]? = some x := by simpa using hx
    have hy' : o.blocks[k]? = some y := by simpa using hy
    rw [hbody] at hclaim hclaim'
    rcases Nat.lt_or_gt_of_ne hjk with hlt | hlt
    · exact absurd rfl (ho.claims_ne honce hlt hx' hy' hclaim hclaim')
    · exact absurd rfl (ho.claims_ne honce hlt hy' hx' hclaim' hclaim)

end Functions

section Modules

variable {program : Program} {options : Options} {c : Compiled}

/-- No label is the merge of two constructs of a module. -/
theorem nodup_mergeIds_compiled (honce : ListsBlocksOnce program)
    (hids : options.validation = true ∨ idCount program options < 2 ^ 32 - 1)
    (h : compile program options = .ok c) :
    (mergeIds (instructionsIn (c.words.drop headerSize))).Nodup := by
  obtain ⟨abi, s, _, entries, kernel, elem, k, e, function, groups, hassemble, hjudge, hfits,
    hwords, hassembled⟩ := exists_assembled honce namesPermitted_true h
  have hsorted := hassembled.sorted hfits
  have hcontents : instructionsIn (c.words.drop headerSize) = s.contents := by
    rw [hwords]
    exact instructionsIn_flatMap_words hsorted.fits
  rw [hcontents]
  rcases hids with hvalidation | hids
  · have hverify := verify_of_judge hvalidation hjudge
    rw [hwords] at hverify
    exact ((verify_binaryWords_iff _ _ hsorted.fits).1 hverify).merges
  · rw [idCount, hassemble] at hids
    apply hassembled.nodup_merges hfits honce
    exact (hassembled.perm_contents hfits).nodup_iff.2 (nodup_firstIds hids)

end Modules

/-- A loop with a way out in the middle and a selection in its body. -/
def looping : Func where
  name := "looping"
  params := [some ⟨"element", .pointer (.int 32) .buffer⟩]
  result := .void
  blocks := [
    ⟨"entry", none, [
      some (.load (.param ⟨⟨0⟩, 0⟩)),
      some (.compare .lt .unsigned (.result ⟨⟨⟨0⟩, 0⟩, 0⟩) (.constant (.ofWord 100))),
      some (.branch (some ⟨⟨0⟩, 1⟩))]⟩,
    ⟨"head", some ⟨some ⟨⟨0⟩, 7⟩, some ⟨⟨0⟩, 6⟩⟩, [
      some (.condBranch (.result ⟨⟨⟨0⟩, 0⟩, 1⟩) (some ⟨⟨0⟩, 2⟩) (some ⟨⟨0⟩, 7⟩) none)]⟩,
    ⟨"body", none, [
      some (.condBranch (.result ⟨⟨⟨0⟩, 0⟩, 1⟩) (some ⟨⟨0⟩, 7⟩) (some ⟨⟨0⟩, 3⟩) none)]⟩,
    ⟨"pick", none, [
      some (.condBranch (.result ⟨⟨⟨0⟩, 0⟩, 1⟩) (some ⟨⟨0⟩, 4⟩) (some ⟨⟨0⟩, 5⟩) none)]⟩,
    ⟨"left", none, [some (.branch (some ⟨⟨0⟩, 5⟩))]⟩,
    ⟨"join", none, [some (.branch (some ⟨⟨0⟩, 6⟩))]⟩,
    ⟨"next", none, [some (.branch (some ⟨⟨0⟩, 1⟩))]⟩,
    ⟨"done", none, [some (.ret .missing)]⟩]
  order := [some 0, some 1, some 2, some 3, some 4, some 5, some 6, some 7]

/-- Two selections, one within the other, that merge in one block. -/
def clashing : Func where
  name := "clashing"
  params := [some ⟨"flag", .bool⟩]
  result := .void
  blocks := [
    ⟨"entry", none, [
      some (.condBranch (.param ⟨⟨1⟩, 0⟩) (some ⟨⟨1⟩, 1⟩) (some ⟨⟨1⟩, 3⟩) none)]⟩,
    ⟨"outer", none, [
      some (.condBranch (.param ⟨⟨1⟩, 0⟩) (some ⟨⟨1⟩, 2⟩) (some ⟨⟨1⟩, 3⟩) none)]⟩,
    ⟨"inner", none, [some (.branch (some ⟨⟨1⟩, 3⟩))]⟩,
    ⟨"done", none, [some (.ret .missing)]⟩]
  order := [some 0, some 1, some 2, some 3]

/-- The second function is not listed. -/
def branching : Program where
  name := "branching"
  funcs := [looping, clashing]
  order := [some 0]

theorem not_faulty_clashing : ¬ Faulty branching ⟨1⟩ clashing := by
  intro h
  cases h with
  | param h => exact absurd h (by decide)
  | block h => exact absurd h (by decide)
  | operand hx hi hv hne h =>
    have htyped : ∀ x ∈ clashing.entries ⟨1⟩, ∀ i ∈ x.2, ∀ v ∈ i.operands,
        (branching.typeOf v).isOk := by decide +kernel
    have hok := htyped _ hx _ hi _ hv
    rw [h] at hok
    cases hok
  | callee hx hi =>
    have hcalls : ∀ x ∈ clashing.entries ⟨1⟩, ∀ i ∈ x.2, i.kind ≠ "Call" := by decide +kernel
    exact hcalls _ hx _ hi rfl

theorem exists_lower_looping : ∃ word t,
    lowerFunction branching true ⟨0⟩ (.start ⟨1, 3⟩) = .ok word t := by
  have hok : (match lowerFunction branching true ⟨0⟩ (.start ⟨1, 3⟩) with
      | .ok _ _ => true
      | .error _ _ => false) = true := by decide +kernel
  cases hrun : lowerFunction branching true ⟨0⟩ (.start ⟨1, 3⟩) with
  | ok word t => exact ⟨word, t, rfl⟩
  | error e t => simp [hrun] at hok

theorem exists_compile_branching : ∃ c, compile branching { debug := true } = .ok c :=
  exists_compile_of_isOk (by decide +kernel)

/-- The same selections, in a function whose first instruction is absent. -/
def interrupted : Func :=
  { clashing with
    blocks := clashing.blocks.modifyHead fun b => { b with instrs := none :: b.instrs } }

/-- The same selections, in a function whose parameter is absent. -/
def parameterless : Func := { clashing with params := [none] }

/-- Why a run fails, if it does. -/
def failure? {α : Type} (x : Gen α) (s : Generator) : Option Failure :=
  match x s with
  | .ok _ _ => none
  | .error e _ => some e

theorem exists_error_of_failure? {α : Type} {x : Gen α} {s : Generator} {e : Failure}
    (h : failure? x s = some e) : ∃ t, x s = .error e t := by
  unfold failure? at h
  split at h
  · cases h
  next t hrun =>
    cases h
    exact ⟨t, hrun⟩

end Elementwise.Spirv
