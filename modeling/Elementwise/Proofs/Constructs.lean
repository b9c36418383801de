import Elementwise.Proofs.Filling
import Elementwise.Proofs.Meeting

/-!
# Constructs and their merge blocks

A block that ends in a branch begins a construct if it is a loop header, or if the branch is
conditional and neither leaves nor continues a loop around it. The instruction right before the
branch then names the merge block of the construct, and no other instruction of the block does.

A selection merges in the block that was named for it, else in the earliest block where its ways
meet, else in a block of its own that is never reached. No block is the merge of two constructs:
the second one to claim it makes the translation fail.
-/
namespace Elementwise.Spirv
open IR Gen

/-! ## Loops around a position -/

namespace Layout

variable {l : Layout} {k : Nat}

/-- A loop is open at a position: its header stands before it and its merge block after it. -/
def Encloses (l : Layout) (loop : Loop) (k : Nat) : Prop :=
  ∃ j header merge n, j < k ∧ l.blocks[j]? = some header ∧ header.2.loop = some loop ∧
    loop.merge = some merge ∧ l.Stands merge n ∧ k < n

/-- One of two targets is the merge or the continue block of a loop around a position. -/
def LeavesLoop (l : Layout) (k : Nat) (onTrue onFalse : BlockId) : Prop :=
  ∃ loop, l.Encloses loop k ∧ ∃ target ∈ [onTrue, onFalse],
    loop.merge = some target ∨ loop.continue_ = some target

theorem Distinct.mem_enclosingLoops (hd : l.Distinct) {loop : Loop} :
    loop ∈ l.enclosingLoops k ↔ l.Encloses loop k := by
  simp only [enclosingLoops, List.mem_filterMap, Option.bind_eq_some_iff]
  constructor
  · rintro ⟨header, hheader, loop', hloop, hopen⟩
    obtain ⟨j, hj⟩ := List.mem_iff_getElem?.1 hheader
    rw [List.getElem?_take] at hj
    by_cases hlt : j < k
    · rw [if_pos hlt] at hj
      cases hmerge : loop'.merge with
      | none => simp [hmerge] at hopen
      | some merge =>
        cases hn : l.position? merge with
        | none => simp [hmerge, hn] at hopen
        | some n =>
          by_cases hafter : k < n
          · obtain rfl : loop' = loop := by simpa [hmerge, hn, hafter] using hopen
            exact ⟨j, header, merge, n, hlt, hj, hloop, hmerge, stands_of_position? hn, hafter⟩
          · simp [hmerge, hn, hafter] at hopen
    · simp [hlt] at hj
  · rintro ⟨j, header, merge, n, hlt, hj, hloop, hmerge, hn, hafter⟩
    refine ⟨header, ?_, loop, hloop, ?_⟩
    · apply List.mem_of_getElem? (i := j)
      rw [List.getElem?_take, if_pos hlt, hj]
    · simp [hmerge, hd.position?_eq_some.2 hn, hafter]

theorem Distinct.leavesLoop_iff (hd : l.Distinct) {onTrue onFalse : BlockId} :
    l.leavesLoop k onTrue onFalse = true ↔ l.LeavesLoop k onTrue onFalse := by
  simp only [leavesLoop, LeavesLoop, List.any_eq_true, hd.mem_enclosingLoops, Bool.or_eq_true,
    beq_iff_eq]

end Layout

/-! ## Headers -/

variable {label : UInt32} {op : Opcode} {made operands : List UInt32} {header : List Instruction}

section Headers

variable (l : Layout) (labels : List (BlockId × UInt32))

/-- The label of the merge block of a conditional branch, with the labels that are made for it. -/
inductive Selects (k : Nat) (onTrue onFalse : BlockId) :
    Option BlockId → List UInt32 → UInt32 → Prop
  | named {b : BlockId} {label : UInt32} (hlabel : (b, label) ∈ labels) :
      Selects k onTrue onFalse (some b) [] label
  | meeting {b : BlockId} {label : UInt32} (h : l.Earliest (l.Meets k onTrue onFalse) b)
      (hlabel : (b, label) ∈ labels) : Selects k onTrue onFalse none [] label
  | made {label : UInt32} (h : ∀ b, ¬ l.Meets k onTrue onFalse b) :
      Selects k onTrue onFalse none [label] label

/-- What names a merge block before the last instruction of a block, with the labels that are made
for it. -/
inductive MergeHeader (k : Nat) (block : Block) : Instr → List UInt32 → List Instruction → Prop
  | loop {i : Instr} {loop : Loop} {merge continue_ : BlockId} {m c : UInt32}
      (hi : ∀ value, i ≠ .ret value) (hloop : block.loop = some loop)
      (hmerge : loop.merge = some merge) (hcontinue : loop.continue_ = some continue_)
      (hm : (merge, m) ∈ labels) (hc : (continue_, c) ∈ labels) :
      MergeHeader k block i [] [⟨.loopMerge, [m, c, noControl]⟩]
  | selection {cond : Value} {onTrue onFalse : BlockId} {merge : Option BlockId}
      {made : List UInt32} {m : UInt32} (hloop : block.loop = none)
      (hstays : ¬ l.LeavesLoop k onTrue onFalse)
      (hm : Selects l labels k onTrue onFalse merge made m) :
      MergeHeader k block (.condBranch cond (some onTrue) (some onFalse) merge) made
        [⟨.selectionMerge, [m, noControl]⟩]
  | leaves {cond : Value} {onTrue onFalse : BlockId} {merge : Option BlockId}
      (hloop : block.loop = none) (hleaves : l.LeavesLoop k onTrue onFalse) :
      MergeHeader k block (.condBranch cond (some onTrue) (some onFalse) merge) [] []
  | branch {target : Option BlockId} (hloop : block.loop = none) :
      MergeHeader k block (.branch target) [] []
  | ret {value : Value} : MergeHeader k block (.ret value) [] []

variable {l} {k : Nat} {labels} {labels' : List (BlockId × UInt32)} (hsub : labels ⊆ labels')
include hsub

theorem Selects.mono {onTrue onFalse : BlockId} {merge : Option BlockId}
    (h : Selects l labels k onTrue onFalse merge made label) :
    Selects l labels' k onTrue onFalse merge made label := by
  cases h with
  | named hlabel => exact .named (hsub hlabel)
  | meeting h hlabel => exact .meeting h (hsub hlabel)
  | made h => exact .made h

theorem MergeHeader.mono {block : Block} {i : Instr}
    (h : MergeHeader l labels k block i made header) :
    MergeHeader l labels' k block i made header := by
  cases h with
  | loop hi hloop hmerge hcontinue hm hc =>
    exact .loop hi hloop hmerge hcontinue (hsub hm) (hsub hc)
  | selection hloop hstays hm => exact .selection hloop hstays (hm.mono hsub)
  | leaves hloop hleaves => exact .leaves hloop hleaves
  | branch hloop => exact .branch hloop
  | ret => exact .ret

end Headers

/-- The opcodes of an instruction that ends a block. -/
def closingOps : Instr → List Opcode
  | .branch _ => [.branch]
  | .condBranch .. => [.branchConditional]
  | .ret .missing => [.ret]
  | .ret _ => [.returnValue]
  | _ => []

theorem mem_closingOps {i : Instr} (h : op ∈ closingOps i) :
    op ∈ [.branch, .branchConditional, .ret, .returnValue] := by
  cases i with
  | ret value => cases value <;> simp_all [closingOps]
  | _ => simp_all [closingOps]

/-! ## Appending -/

variable {s t u : Generator} {hole gap : Prop}

/-- Instructions go to the function section. -/
structure Generator.Open (s : Generator) : Prop where
  current : s.assembly.current = .functions
  finished : s.assembly.finished = false

namespace Generator

theorem Appends.open {out : List Instruction} (h : s.Appends made out t) (hs : s.Open) : t.Open :=
  ⟨h.current.trans hs.current, h.finished.trans hs.finished⟩

theorem Fills.open (h : s.Fills t) (hs : s.Open) : t.Open := by
  obtain ⟨out, hout, -⟩ := h
  exact hout.open hs

namespace Open

variable {i : Instruction}

theorem written_put (hs : s.Open) (hhome : i.home? = some .functions) (hfits : i.fits) :
    (s.put s.assembly.current i).written = s.written ++ [i] := by
  have hnone : s.assembly.objection? .functions i = none := by
    simp [Assembly.objection?, hs.finished, hhome, hfits]
  simp [put, written, Assembly.emitInstr, hs.current, hnone, Assembly.append]

theorem put (hs : s.Open) (hhome : i.home? = some .functions) (hfits : i.fits)
    (hmerge : i.isMerge = false) : s.Appends [] [i] (s.put s.assembly.current i) where
  written := hs.written_put hhome hfits
  labels := rfl
  merges := by simp [mergeIds, hmerge, Generator.put]
  distinct := id
  unreachable := by simp [Generator.put]
  current := s.put_current _ _
  finished := s.put_finished _ _
  fresh := ⟨[], by simp, List.Sublist.refl _⟩

/-- A merge is claimed before it is named. -/
theorem putMerge (hs : s.Open) (hhome : i.home? = some .functions) (hfits : i.fits)
    (hmerge : mergeIds [i] = [label]) (hnew : label ∉ s.body.merges) :
    s.Appends [] [i] (({ s with body := { s.body with merges := label :: s.body.merges } } :
      Generator).put s.assembly.current i) where
  written := written_put (s := { s with body := { s.body with merges := label :: s.body.merges } })
    ⟨hs.current, hs.finished⟩ hhome hfits
  labels := rfl
  merges := by simp [hmerge, Generator.put]
  distinct h := List.nodup_cons.2 ⟨hnew, h⟩
  unreachable := by simp [Generator.put]
  current := put_current _ _ _
  finished := put_finished _ _ _
  fresh := ⟨[], by simp, List.Sublist.refl _⟩

end Open

/-- A label is made for a block that is never reached. -/
theorem appends_made (s : Generator) : s.Appends [s.next] []
    { s.alloc with body := { s.body with unreachable := s.body.unreachable ++ [s.next] } } where
  written := by simp [Generator.alloc, Generator.written]
  labels := rfl
  merges := rfl
  distinct := id
  unreachable := rfl
  current := rfl
  finished := rfl
  fresh := ⟨[s.next], firstIds_succ _, List.Sublist.refl _⟩

end Generator

/-! ## Terminators -/

theorem Gen.yields_emit (hs : s.Open)
    (hhome : (⟨op, operands⟩ : Instruction).home? = some .functions)
    (hfits : (⟨op, operands⟩ : Instruction).fits)
    (hmerge : (⟨op, operands⟩ : Instruction).isMerge = false) :
    Yields hole gap (build (.emit op operands)) s fun _ t => s.Appends [] [⟨op, operands⟩] t :=
  .of_ok (a := ()) (emit_ok.2 rfl) (hs.put hhome hfits hmerge)

namespace Place

variable {p : Place} {k : Nat} {i : Instr}

theorem yields_label (target : Option BlockId) :
    Yields hole gap (p.label target) s fun id t =>
      s = t ∧ ∃ b, target = some b ∧ (b, id) ∈ s.body.labels := by
  cases target with
  | none => exact .of_error rfl (Or.inl rfl)
  | some b =>
    refine .getBind ?_
    cases hl : List.lookup b s.body.labels with
    | none => exact .of_error rfl (Or.inl rfl)
    | some id => exact .of_ok rfl ⟨rfl, b, rfl, mem_of_lookup hl⟩

/-- A block that was claimed before is not claimed again. -/
theorem yields_claimMerge (label : UInt32) :
    Yields hole gap (p.claimMerge label) s fun _ t => label ∉ s.body.merges ∧
      t = { s with body := { s.body with merges := label :: s.body.merges } } := by
  refine .getBind ?_
  by_cases hmem : label ∈ s.body.merges
  · have hclaimed : s.body.merges.contains label = true := by simpa using hmem
    simp only [hclaimed, if_true]
    exact .of_error rfl (Or.inl rfl)
  · have hfree : s.body.merges.contains label = false := by simpa using hmem
    simp only [hfree, Bool.false_eq_true, if_false]
    exact .of_ok (a := ()) rfl ⟨hmem, rfl⟩

/-- A merge is claimed and then named. -/
theorem yields_merge {rest : List UInt32} (hs : s.Open)
    (hhome : (⟨op, label :: rest⟩ : Instruction).home? = some .functions)
    (hfits : (⟨op, label :: rest⟩ : Instruction).fits)
    (hmerge : mergeIds [⟨op, label :: rest⟩] = [label]) :
    Yields hole gap (do p.claimMerge label; build (.emit op (label :: rest))) s fun _ t =>
      s.Appends [] [⟨op, label :: rest⟩] t := by
  refine (yields_claimMerge label).bind fun _ t ht => ?_
  obtain ⟨hnew, rfl⟩ := ht
  exact .of_ok (a := ()) (emit_ok.2 rfl) (hs.putMerge hhome hfits hmerge hnew)

theorem position_eq (hd : p.frame.layout.Distinct) (hk : p.frame.layout.Stands p.id k) :
    p.position = k := by
  rw [position, hd.position?_eq_some.2 hk, Option.getD_some]

theorem yields_selectionMerge (hd : p.frame.layout.Distinct) (hk : p.frame.layout.Stands p.id k)
    (onTrue onFalse : BlockId) (merge : Option BlockId) :
    Yields hole gap (p.selectionMerge onTrue onFalse merge) s fun m t => ∃ made,
      s.Appends made [] t ∧ Selects p.frame.layout s.body.labels k onTrue onFalse merge made m := by
  cases merge with
  | some b =>
    refine (yields_label (some b)).mono fun m t ht => ?_
    obtain ⟨rfl, _, hb, hm⟩ := ht
    cases hb
    exact ⟨[], .refl s, .named hm⟩
  | none =>
    simp only [selectionMerge, position_eq hd hk]
    cases hmeet : p.frame.layout.meeting? k onTrue onFalse with
    | some b =>
      refine (yields_label (some b)).mono fun m t ht => ?_
      obtain ⟨rfl, _, hb, hm⟩ := ht
      cases hb
      exact ⟨[], .refl s, .meeting (hd.meeting?_eq_some.1 hmeet) hm⟩
    | none => exact .of_ok rfl ⟨[s.next], s.appends_made, .made (hd.meeting?_eq_none.1 hmeet)⟩

/-- A loop header names the blocks of its loop. -/
theorem yields_emitLoopHeader (k : Nat) (hs : s.Open) (hi : ∀ value, i ≠ .ret value)
    (hnone : p.block.loop = none →
      MergeHeader p.frame.layout s.body.labels k p.block i [] []) :
    Yields hole gap p.emitLoopHeader s fun _ t => ∃ header,
      s.Appends [] header t ∧ MergeHeader p.frame.layout s.body.labels k p.block i [] header := by
  unfold emitLoopHeader
  cases hloop : p.block.loop with
  | none => exact .of_ok (a := ()) rfl ⟨[], .refl s, hnone hloop⟩
  | some loop =>
    refine (yields_label loop.merge).bind fun m t ht => ?_
    obtain ⟨rfl, merge, hmerge, hm⟩ := ht
    refine (yields_label loop.continue_).bind fun c t ht => ?_
    obtain ⟨rfl, continue_, hcontinue, hc⟩ := ht
    refine (yields_merge hs rfl rfl rfl).mono fun _ t ht => ?_
    exact ⟨_, ht, .loop hi hloop hmerge hcontinue hm hc⟩

/-- The end of a block: what names its merge block stands right before the last instruction, and
nothing before it opens or closes anything. -/
def Ends (p : Place) (k : Nat) (i : Instr) (s t : Generator) : Prop :=
  ∃ inner made header last, s.Appends made (inner ++ header ++ [last]) t ∧
    (∀ j ∈ inner, j.opcode ∉ structuralOps) ∧
    MergeHeader p.frame.layout s.body.labels k p.block i made header ∧ last.opcode ∈ closingOps i

theorem Ends.of_fills (h : s.Fills t) (hends : p.Ends k i t u) : p.Ends k i s u := by
  obtain ⟨out, hout, hplain⟩ := h
  obtain ⟨inner, made, header, last, hlast, hinner, hheader, hop⟩ := hends
  refine ⟨out ++ inner, made, header, last, ?_, ?_, hout.labels ▸ hheader, hop⟩
  · simpa using hout.trans hlast
  · intro j hj
    rcases List.mem_append.1 hj with hj | hj
    · exact hplain j hj
    · exact hinner j hj

/-- The last instruction after what names a merge block. -/
theorem yields_last (hs : s.Open) (happends : s.Appends made header t)
    (hheader : MergeHeader p.frame.layout s.body.labels k p.block i made header)
    (hhome : (⟨op, operands⟩ : Instruction).home? = some .functions)
    (hfits : (⟨op, operands⟩ : Instruction).fits)
    (hmerge : (⟨op, operands⟩ : Instruction).isMerge = false) (hop : op ∈ closingOps i) :
    Yields hole gap (build (.emit op operands)) t fun _ u => p.Ends k i s u := by
  refine (yields_emit (happends.open hs) hhome hfits hmerge).mono fun _ u hu => ?_
  exact ⟨[], made, header, ⟨op, operands⟩, by simpa using happends.trans hu, by simp, hheader, hop⟩

theorem yields_emitBranch (hs : s.Open) (target : Option BlockId) :
    Yields hole gap (p.emitBranch target) s fun _ t => p.Ends k (.branch target) s t := by
  refine (yields_label target).bind fun label t ht => ?_
  obtain ⟨rfl, -⟩ := ht
  refine (yields_emitLoopHeader k (i := .branch target) hs (by simp) .branch).bind fun _ t ht => ?_
  obtain ⟨header, happends, hheader⟩ := ht
  exact yields_last hs happends hheader rfl rfl rfl (by simp [closingOps])

theorem yields_emitCondBranch {cond : Value} {onTrue onFalse merge : Option BlockId}
    (hd : p.frame.layout.Distinct) (hk : p.frame.layout.Stands p.id k) (hs : s.Open)
    (hcond : TypedOr gap p.frame.program cond) :
    Yields hole gap (p.emitCondBranch cond onTrue onFalse merge) s fun _ t =>
      p.Ends k (.condBranch cond onTrue onFalse merge) s t := by
  refine (fill_typeOf hcond s).bind fun ty t ht => yields_guard rfl fun _ => ?_
  refine (fill_operand cond t).bind fun c u hu => ?_
  have hfills := ht.trans hu
  have hopen := hfills.open hs
  refine (yields_label onTrue).bind fun a t ht => ?_
  obtain ⟨rfl, bt, rfl, -⟩ := ht
  refine (yields_label onFalse).bind fun b t ht => ?_
  obtain ⟨rfl, bf, rfl, -⟩ := ht
  refine Yields.mono ?_ fun _ t ht => Ends.of_fills hfills ht
  cases hloop : p.block.loop with
  | some loop =>
    have hnone : p.block.loop ≠ none := by simp [hloop]
    refine (yields_emitLoopHeader k (i := .condBranch cond (some bt) (some bf) merge) hopen
      (by simp) fun h => absurd h hnone).bind fun _ t ht => ?_
    obtain ⟨header, happends, hheader⟩ := ht
    exact yields_last hopen happends hheader rfl rfl rfl (by simp [closingOps])
  | none =>
    rw [position_eq hd hk]
    by_cases hleaves : p.frame.layout.leavesLoop k bt bf = true
    · simp only [hleaves, Bool.not_true, Bool.false_eq_true, if_false]
      exact yields_last hopen (.refl u) (.leaves hloop (hd.leavesLoop_iff.1 hleaves)) rfl rfl rfl
        (by simp [closingOps])
    · simp only [hleaves, Bool.not_false, if_true]
      refine (yields_selectionMerge hd hk bt bf merge).bind fun m t ht => ?_
      obtain ⟨made, hmade, hm⟩ := ht
      rw [← bind_assoc]
      refine (yields_merge (hmade.open hopen) rfl rfl rfl).bind fun _ t ht => ?_
      have happends := hmade.trans ht
      rw [List.append_nil, List.nil_append] at happends
      have hstays : ¬ p.frame.layout.LeavesLoop k bt bf := fun h =>
        hleaves (hd.leavesLoop_iff.2 h)
      exact yields_last hopen happends (.selection hloop hstays hm) rfl rfl rfl
        (by simp [closingOps])

theorem yields_emitReturn {value : Value} (hs : s.Open)
    (hvalue : value ≠ .missing → TypedOr gap p.frame.program value) :
    Yields hole gap (p.emitReturn value) s fun _ t => p.Ends k (.ret value) s t := by
  by_cases hmissing : value = .missing
  · subst hmissing
    refine yields_guard rfl fun _ => ?_
    exact yields_last hs (.refl s) .ret rfl rfl rfl (by simp [closingOps])
  · have hop : Opcode.returnValue ∈ closingOps (.ret value) := by
      cases value with
      | missing => exact absurd rfl hmissing
      | _ => simp [closingOps]
    have hrun : Yields hole gap (do
        let t ← p.typeOf value
        if t ≠ p.frame.func.resultType then p.fail (.returnMismatch t p.frame.func.resultType)
        let id ← p.operand value
        build (.returnValue id)) s fun _ t => p.Ends k (.ret value) s t := by
      refine (fill_typeOf (hvalue hmissing) s).bind fun ty t ht => yields_guard rfl fun _ => ?_
      refine (fill_operand value t).bind fun a u hu => ?_
      have hfills := ht.trans hu
      have hopen := hfills.open hs
      refine Yields.mono ?_ fun _ t ht => Ends.of_fills hfills ht
      exact yields_last hopen (.refl u) .ret rfl rfl rfl hop
    cases value with
    | missing => exact absurd rfl hmissing
    | _ => exact hrun

/-- The instruction that ends a block. -/
theorem yields_emitInstr {id : InstrId} (hd : p.frame.layout.Distinct)
    (hk : p.frame.layout.Stands p.id k) (hs : s.Open)
    (h : Excused hole gap p.frame.program id (some i)) (hi : i.isTerminator) :
    Yields hole gap (p.emitInstr id (some i)) s fun _ t => p.Ends k i s t := by
  refine yields_guard rfl fun hmissing => ?_
  have hops := h.typedOr hmissing
  cases i with
  | branch target => exact yields_emitBranch hs target
  | condBranch cond onTrue onFalse merge =>
    exact yields_emitCondBranch hd hk hs (hops cond (by simp [Instr.operands]))
  | ret value =>
    refine yields_emitReturn hs fun hne => hops value ?_
    cases value with
    | missing => exact absurd rfl hne
    | _ => simp [Instr.operands]
  | _ => cases hi

end Place

end Elementwise.Spirv
