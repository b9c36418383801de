import Elementwise.Proofs.Profile
import Mathlib.Data.List.Nodup

/-!
# What verification accepts

The checks of `verify` run over positions in the binary. Here they are said without positions:
an id is read in time if an instruction further ahead in the list defines it, or if it names a
label or a function. A list of instructions that obeys all rules makes a binary that passes, and a
binary that passes was read to its end and defines no id twice.
-/
namespace Elementwise.Spirv

/-! ## Definitions -/

variable {ds : List Decoded} {offset position : Nat} {id : UInt32} {is : List Instruction}

/-- The definitions of instructions from a position on, in order. -/
def definitionsFrom (position : Nat) : List Decoded → List (UInt32 × Definition)
  | [] => []
  | d :: rest =>
    (d.result.toList.map fun id =>
      (id, ⟨position, d.offset, d.opcode = .label || d.opcode = .func⟩)) ++
      definitionsFrom (position + 1) rest

theorem keys_definitionsFrom (position : Nat) (ds : List Decoded) :
    (definitionsFrom position ds).map Prod.fst = ds.filterMap Decoded.result := by
  induction ds generalizing position with
  | nil => rfl
  | cons d rest ih =>
    rw [definitionsFrom, List.map_append, ih, List.filterMap_cons]
    cases d.result <;> rfl

section Tables

variable {α β : Type} [BEq α] [LawfulBEq α] {table : List (α × β)} {key : α} {value other : β}

theorem lookup_eq_none_iff_keys :
    List.lookup key table = none ↔ key ∉ table.map Prod.fst := by
  simp only [List.lookup_eq_none_iff, List.mem_map, not_exists, not_and, bne_iff_ne]
  exact ⟨fun h p hp he => h p hp he.symm, fun h p hp he => h p hp he.symm⟩

theorem lookup_of_mem (hnodup : (table.map Prod.fst).Nodup) (h : (key, value) ∈ table) :
    List.lookup key table = some value := by
  induction table with
  | nil => cases h
  | cons entry rest ih =>
    rw [List.map_cons, List.nodup_cons] at hnodup
    rcases List.mem_cons.1 h with rfl | hrest
    · simp
    · have hne : key ≠ entry.1 := by
        rintro rfl
        exact hnodup.1 (List.mem_map.2 ⟨_, hrest, rfl⟩)
      rw [List.lookup_cons, beq_false_of_ne hne]
      exact ih hnodup.2 hrest

theorem mem_of_lookup (h : List.lookup key table = some value) : (key, value) ∈ table := by
  obtain ⟨before, after, rfl, -⟩ := List.lookup_eq_some_iff.1 h
  simp

theorem mem_lookup_getD (h : (key, value) ∈ table) :
    (key, (List.lookup key table).getD other) ∈ table := by
  cases hl : List.lookup key table with
  | none => exact absurd (List.mem_map.2 ⟨_, h, rfl⟩) (lookup_eq_none_iff_keys.1 hl)
  | some found => exact mem_of_lookup hl

/-- A table without repeated keys has one value for a key. -/
theorem eq_of_mem_nodup_keys (hnodup : (table.map Prod.fst).Nodup) (h : (key, value) ∈ table)
    (h' : (key, other) ∈ table) : value = other :=
  Option.some.inj ((lookup_of_mem hnodup h).symm.trans (lookup_of_mem hnodup h'))

end Tables

/-- Collecting definitions succeeds if no result is zero or defined before. -/
theorem collect_eq_ok_iff {known defs : List (UInt32 × Definition)} :
    collect known position ds = .ok defs ↔
      0 ∉ ds.filterMap Decoded.result ∧ (ds.filterMap Decoded.result).Nodup ∧
        (∀ id ∈ ds.filterMap Decoded.result, id ∉ known.map Prod.fst) ∧
        defs = (definitionsFrom position ds).reverse ++ known := by
  induction ds generalizing known position with
  | nil => simp [collect, definitionsFrom, eq_comm]
  | cons d rest ih =>
    cases hr : d.result with
    | none => simp [collect, hr, ih, definitionsFrom]
    | some id =>
      by_cases hz : id = 0
      · simp [collect, hr, hz]
      cases hl : List.lookup id known with
      | some prev =>
        have hmem : id ∈ known.map Prod.fst := List.mem_map.2 ⟨_, mem_of_lookup hl, rfl⟩
        simp only [collect, hr, hz, hl, if_false, List.filterMap_cons, reduceCtorEq, false_iff]
        rintro ⟨-, -, hnew, -⟩
        exact hnew id List.mem_cons_self hmem
      | none =>
        have hnew := lookup_eq_none_iff_keys.1 hl
        simp only [collect, hr, hz, hl, if_false, ih, List.filterMap_cons, definitionsFrom,
          List.map_cons, List.mem_cons, List.nodup_cons, Option.toList_some, List.map_nil,
          List.cons_append, List.nil_append, List.reverse_cons, List.append_assoc]
        constructor
        · rintro ⟨h0, hnodup, hfresh, rfl⟩
          refine ⟨?_, ⟨fun hid => hfresh id hid (Or.inl rfl), hnodup⟩, ?_, rfl⟩
          · rintro (rfl | h)
            · exact hz rfl
            · exact h0 h
          · rintro x (rfl | hx)
            · exact hnew
            · exact fun hk => hfresh x hx (Or.inr hk)
        · rintro ⟨h0, ⟨hid, hnodup⟩, hfresh, rfl⟩
          refine ⟨fun h => h0 (Or.inr h), hnodup, ?_, rfl⟩
          rintro x hx (rfl | hk)
          · exact hid hx
          · exact hfresh x (Or.inr hx) hk

theorem left_le_word_max (a b : UInt32) : a ≤ max a b := by
  change a ≤ if a ≤ b then b else a
  split
  · assumption
  · exact UInt32.le_refl a

theorem right_le_word_max (a b : UInt32) : b ≤ max a b := by
  change b ≤ if a ≤ b then b else a
  split
  next => exact UInt32.le_refl b
  next h => exact (UInt32.le_total a b).resolve_left h

theorem word_max_eq_or (a b : UInt32) : max a b = a ∨ max a b = b := by
  change (if a ≤ b then b else a) = a ∨ (if a ≤ b then b else a) = b
  split
  · exact Or.inr rfl
  · exact Or.inl rfl

/-- The largest key is a key, and no key is larger; without keys it is zero. -/
theorem largest_spec (known : List (UInt32 × Definition)) :
    (∀ id ∈ known.map Prod.fst, id ≤ largest known) ∧
      (largest known = 0 ∨ largest known ∈ known.map Prod.fst) := by
  have hfold : ∀ (entries : List (UInt32 × Definition)) (m : UInt32),
      let top := entries.foldl (fun m entry => max m entry.1) m
      m ≤ top ∧ (∀ id ∈ entries.map Prod.fst, id ≤ top) ∧
        (top = m ∨ top ∈ entries.map Prod.fst) := by
    intro entries
    induction entries with
    | nil => simp
    | cons entry rest ih =>
      intro m
      obtain ⟨hm, hle, htop⟩ := ih (max m entry.1)
      refine ⟨UInt32.le_trans (left_le_word_max m entry.1) hm, ?_, ?_⟩
      · rw [List.map_cons]
        exact List.forall_mem_cons.2 ⟨UInt32.le_trans (right_le_word_max m entry.1) hm, hle⟩
      · rw [List.map_cons, List.mem_cons]
        rcases htop with htop | htop
        · exact (word_max_eq_or m entry.1).imp htop.trans fun h => Or.inl (htop.trans h)
        · exact Or.inr (Or.inr htop)
  exact ⟨(hfold known 0).2.1, (hfold known 0).2.2⟩

theorem largest_eq_iff {known : List (UInt32 × Definition)} {top : UInt32} :
    largest known = top ↔
      (∀ id ∈ known.map Prod.fst, id ≤ top) ∧ (top = 0 ∨ top ∈ known.map Prod.fst) := by
  obtain ⟨hle, hlargest⟩ := largest_spec known
  constructor
  · rintro rfl
    exact ⟨hle, hlargest⟩
  · rintro ⟨hle', htop⟩
    apply UInt32.le_antisymm
    · rcases hlargest with h | h
      · simp [h]
      · exact hle' _ h
    · rcases htop with rfl | h
      · simp
      · exact hle _ h

theorem mem_definitionsFrom_iff {definition : Definition} :
    (id, definition) ∈ definitionsFrom position ds ↔ ∃ k d, ds[k]? = some d ∧
      d.result = some id ∧
      definition = ⟨position + k, d.offset, d.opcode = .label || d.opcode = .func⟩ := by
  induction ds generalizing position with
  | nil => simp [definitionsFrom]
  | cons e rest ih =>
    rw [definitionsFrom, List.mem_append, ih]
    constructor
    · rintro (h | ⟨k, d, hd, hid, rfl⟩)
      · obtain ⟨found, hfound, heq⟩ := List.mem_map.1 h
        cases heq
        exact ⟨0, e, rfl, Option.mem_toList.1 hfound, rfl⟩
      · exact ⟨k + 1, d, hd, hid, by rw [Nat.add_right_comm, Nat.add_assoc]⟩
    · rintro ⟨k, d, hd, hid, rfl⟩
      cases k with
      | zero =>
        cases hd
        exact Or.inl (by simp [hid])
      | succ k => exact Or.inr ⟨k, d, hd, hid, by rw [Nat.add_right_comm, Nat.add_assoc]⟩

/-! ## Reading in time -/

/-- The ids that may be named before they are defined: those of labels and functions. -/
def aheadIds (instrs : List Instruction) : List UInt32 :=
  resultIds (instrs.filter fun i => i.opcode = .label || i.opcode = .func)

/-- Every id that an instruction reads is defined in the module, and among types and functions by
an instruction before, unless it is one of a label or function. -/
def Instruction.ReadsInTime (all before : List Instruction) (i : Instruction) : Prop :=
  ∀ id ∈ i.reads, id ∈ resultIds all ∧
    (i.home? = some .types ∨ i.home? = some .functions →
      id ∈ resultIds before ∨ id ∈ aheadIds all)

/-- Every id that is read is known, or defined by an instruction before. -/
def InTime (known : UInt32 → Prop) : List Instruction → Prop
  | [] => True
  | i :: rest => (∀ r ∈ i.reads, known r) ∧ InTime (fun r => known r ∨ i.result? = some r) rest

theorem InTime.mono {known known' : UInt32 → Prop} (hk : ∀ r, known r → known' r)
    {instrs : List Instruction} (h : InTime known instrs) : InTime known' instrs := by
  induction instrs generalizing known known' with
  | nil => trivial
  | cons i rest ih =>
    refine ⟨fun r hr => hk r (h.1 r hr), ih ?_ h.2⟩
    intro r hr
    exact hr.imp_left (hk r)

theorem inTime_append {known : UInt32 → Prop} {js : List Instruction} :
    InTime known (is ++ js) ↔
      InTime known is ∧ InTime (fun r => known r ∨ r ∈ resultIds is) js := by
  induction is generalizing known with
  | nil => simp [InTime]
  | cons i rest ih =>
    have hmem : ∀ r, ((known r ∨ i.result? = some r) ∨ r ∈ resultIds rest) ↔
        known r ∨ r ∈ resultIds (i :: rest) := by
      intro r
      rw [resultIds_cons, List.mem_append, Option.mem_toList, or_assoc]
    simp only [List.cons_append, InTime, ih, hmem, and_assoc]

section Order

variable {known : List (UInt32 × Definition)} {all before : List Instruction}

/-- An id is looked up where it is defined. -/
theorem lookup_collected_iff (hread : ReadList offset all ds)
    (hcollect : collect [] 0 ds = .ok known) {ahead : Bool} :
    (∃ off, List.lookup id known = some ⟨position, off, ahead⟩) ↔
      ∃ i, all[position]? = some i ∧ i.result? = some id ∧
        ahead = (i.opcode = .label || i.opcode = .func) := by
  obtain ⟨-, hnodup, -, rfl⟩ := collect_eq_ok_iff.1 hcollect
  have hkeys : (((definitionsFrom 0 ds).reverse ++ []).map Prod.fst).Nodup := by
    rw [List.append_nil, List.map_reverse, List.nodup_reverse, keys_definitionsFrom]
    exact hnodup
  have hlookup : ∀ off, List.lookup id ((definitionsFrom 0 ds).reverse ++ []) =
      some ⟨position, off, ahead⟩ ↔ (id, ⟨position, off, ahead⟩) ∈ definitionsFrom 0 ds := by
    intro off
    refine Iff.trans ⟨mem_of_lookup, lookup_of_mem hkeys⟩ ?_
    rw [List.append_nil, List.mem_reverse]
  simp only [hlookup, mem_definitionsFrom_iff, Nat.zero_add, Definition.mk.injEq]
  constructor
  · rintro ⟨off, k, d, hd, hid, rfl, -, hahead⟩
    obtain ⟨i, hi, has⟩ := hread.of_getElem? hd
    refine ⟨i, hi, has.result ▸ hid, ?_⟩
    rw [hahead, ← has.instruction]
    rfl
  · rintro ⟨i, hi, hid, hahead⟩
    obtain ⟨off, d, hd, has⟩ := hread.getElem? hi
    refine ⟨d.offset, position, d, hd, has.result.trans hid, rfl, rfl, ?_⟩
    rw [hahead, ← has.instruction]
    rfl

/-- An id that was collected is defined in time, said with positions and without. -/
theorem inTime_iff (hread : ReadList offset all ds) (hcollect : collect [] 0 ds = .ok known)
    {after : List Instruction} (hall : all = before ++ after) {wanted : Prop} :
    (∃ definition, List.lookup id known = some definition ∧
      (wanted → definition.position < before.length ∨ definition.ahead = true)) ↔
    id ∈ resultIds all ∧ (wanted → id ∈ resultIds before ∨ id ∈ aheadIds all) := by
  have hnodup : (resultIds all).Nodup := by
    rw [← hread.filterMap_result]
    exact (collect_eq_ok_iff.1 hcollect).2.1
  constructor
  · rintro ⟨⟨position, off, ahead⟩, hl, htime⟩
    obtain ⟨i, hi, hid, rfl⟩ := (lookup_collected_iff hread hcollect).1 ⟨off, hl⟩
    have hmem : i ∈ all := List.mem_iff_getElem?.2 ⟨position, hi⟩
    refine ⟨mem_resultIds.2 ⟨i, hmem, hid⟩, fun h => (htime h).imp ?_ ?_⟩
    · intro hlt
      rw [hall, List.getElem?_append_left hlt] at hi
      exact mem_resultIds.2 ⟨i, List.mem_iff_getElem?.2 ⟨position, hi⟩, hid⟩
    · intro hahead
      exact mem_resultIds.2 ⟨i, List.mem_filter.2 ⟨hmem, hahead⟩, hid⟩
  · rintro ⟨hdefined, htime⟩
    obtain ⟨i, hi, hid⟩ := mem_resultIds.1 hdefined
    obtain ⟨position, hposition⟩ := List.mem_iff_getElem?.1 hi
    obtain ⟨off, hl⟩ := (lookup_collected_iff hread hcollect).2 ⟨i, hposition, hid, rfl⟩
    refine ⟨_, hl, fun h => (htime h).imp ?_ ?_⟩
    · intro hbefore
      obtain ⟨j, hj, hjd⟩ := mem_resultIds.1 hbefore
      obtain ⟨k, hk⟩ := List.mem_iff_getElem?.1 hj
      have hlt : k < before.length := (List.getElem?_eq_some_iff.1 hk).1
      have hget : all[k]? = some j := by rw [hall, List.getElem?_append_left hlt, hk]
      obtain ⟨off', hl'⟩ := (lookup_collected_iff hread hcollect).2 ⟨j, hget, hjd, rfl⟩
      have hsame := Option.some.inj (hl.symm.trans hl')
      rw [hsame]
      exact hlt
    · intro hahead
      obtain ⟨j, hj, hjd⟩ := mem_resultIds.1 hahead
      obtain ⟨hj, hop⟩ := List.mem_filter.1 hj
      cases eq_of_result hnodup hi hj hid hjd
      exact hop

theorem checkReads_eq_ok_iff {d : Decoded} {ids : List UInt32} :
    checkReads known position d ids = .ok () ↔
      ∀ id ∈ ids, ∃ definition, List.lookup id known = some definition ∧
        (d.home = .types ∨ d.home = .functions →
          definition.position < position ∨ definition.ahead = true) := by
  induction ids with
  | nil => simp [checkReads]
  | cons id rest ih =>
    rw [List.forall_mem_cons, ← ih, checkReads]
    cases List.lookup id known with
    | none => simp
    | some definition =>
      have hearly : ((d.home = .types || d.home = .functions) &&
          decide (position ≤ definition.position) && !definition.ahead) = true ↔
          ¬ (d.home = .types ∨ d.home = .functions →
            definition.position < position ∨ definition.ahead = true) := by
        simp [and_assoc]
      dsimp only
      split
      next h => simp only [reduceCtorEq, Option.some.injEq, exists_eq_left', hearly.1 h, false_and]
      next h =>
        have htime := not_not.1 (mt hearly.2 h)
        exact ⟨fun hrest => ⟨⟨definition, rfl, htime⟩, hrest⟩, fun hrest => hrest.2⟩

theorem forall_split_cons {α : Type} {P : List α → α → Prop} {x : α} {xs : List α} :
    (∀ pre y post, x :: xs = pre ++ y :: post → P pre y) ↔
      P [] x ∧ ∀ pre y post, xs = pre ++ y :: post → P (x :: pre) y := by
  constructor
  · intro h
    exact ⟨h [] x xs rfl, fun pre y post heq => h (x :: pre) y post (by rw [heq, List.cons_append])⟩
  · rintro ⟨hx, hxs⟩ pre y post heq
    cases pre with
    | nil =>
      cases heq
      exact hx
    | cons z pre =>
      cases heq
      exact hxs pre y post rfl

/-- The check of order passes sections that do not descend and reads in time. -/
theorem checkOrder_eq_ok_iff (before : List Instruction) (hread : ReadList offset all ds)
    (hcollect : collect [] 0 ds = .ok known) {rest : List Instruction} {es : List Decoded}
    {off : Nat} {current : Section} (hall : all = before ++ rest) (hes : ReadList off rest es) :
    checkOrder known current before.length es = .ok () ↔
      (∀ i ∈ rest, ∀ s, i.home? = some s → current.code ≤ s.code) ∧
      (rest.Pairwise fun i j =>
        ∀ s t, i.home? = some s → j.home? = some t → s.code ≤ t.code) ∧
      ∀ pre i post, rest = pre ++ i :: post → i.ReadsInTime all (before ++ pre) := by
  induction hes generalizing before current with
  | nil => simp [checkOrder]
  | @cons off i d is ds' head shaped tail ih =>
    have hhome : ∀ s, i.home? = some s ↔ d.home = s := by
      intro s
      rw [head.home, Option.some.injEq]
    have hreads : checkReads known before.length d d.ids = .ok () ↔ i.ReadsInTime all before := by
      rw [checkReads_eq_ok_iff, head.ids]
      unfold Instruction.ReadsInTime
      simp only [inTime_iff hread hcollect hall, hhome]
    have hnext : before.length + 1 = (before ++ [i]).length := by simp
    have hrest := @ih (before ++ [i]) d.home (by simp [hall])
    rw [← hnext] at hrest
    have hstep : checkOrder known current before.length (d :: ds') = .ok () ↔
        current.code ≤ d.home.code ∧ i.ReadsInTime all before ∧
          checkOrder known d.home (before.length + 1) ds' = .ok () := by
      rw [checkOrder, ← hreads, ← UInt8.not_lt]
      split
      next h => simp [h]
      next h =>
        simp only [h, not_false_eq_true, true_and]
        cases checkReads known before.length d d.ids <;> simp
    rw [hstep, hrest, List.forall_mem_cons, List.pairwise_cons, forall_split_cons]
    simp only [hhome, forall_eq', List.append_nil, List.append_assoc, List.singleton_append]
    constructor
    · rintro ⟨hcurrent, hhead, hle, hsorted, htime⟩
      refine ⟨⟨hcurrent, fun j hj s hs => UInt8.le_trans hcurrent (hle j hj s hs)⟩,
        ⟨?_, hsorted⟩, hhead, htime⟩
      rintro j hj s t rfl ht
      exact hle j hj t ht
    · rintro ⟨⟨hcurrent, -⟩, ⟨hle, hsorted⟩, hhead, htime⟩
      exact ⟨hcurrent, hhead, fun j hj t ht => hle j hj _ t rfl ht, hsorted, htime⟩

end Order

/-! ## Nesting -/

/-- Whether an instruction names the merge block of a construct. -/
def Instruction.isMerge (i : Instruction) : Bool :=
  i.opcode = .selectionMerge || i.opcode = .loopMerge

/-- The merge blocks that instructions name, in order. -/
def mergeIds (instrs : List Instruction) : List UInt32 :=
  (instrs.filter Instruction.isMerge).map fun i => i.operands.headD 0

@[simp] theorem mergeIds_nil : mergeIds [] = [] := rfl

@[simp] theorem mergeIds_append (is js : List Instruction) :
    mergeIds (is ++ js) = mergeIds is ++ mergeIds js := by simp [mergeIds]

theorem mergeIds_cons (i : Instruction) (is : List Instruction) :
    mergeIds (i :: is) = (if i.isMerge then [i.operands.headD 0] else []) ++ mergeIds is := by
  cases h : i.isMerge <;> simp [mergeIds, h]

/-- Where an instruction stands: outside of functions, between the blocks of one, in a block. -/
inductive Scope where
  | outside
  | between
  | block
  deriving DecidableEq, Repr

namespace Scope

/-- The scope after an instruction, if the instruction may stand in this one. -/
def step (scope : Scope) (i : Instruction) : Option Scope :=
  if i.isMerge then if scope = block then some block else none
  else if i.opcode = .func then if scope = outside then some between else none
  else if i.opcode = .functionEnd then if scope = between then some outside else none
  else if i.opcode = .label then if scope = between then some block else none
  else if isTerminatorOp i.opcode then if scope = block then some between else none
  else if i.opcode = .functionParameter then if scope = between then some between else none
  else if scope = between then none
  else some scope

def run : Scope → List Instruction → Option Scope
  | scope, [] => some scope
  | scope, i :: rest => (scope.step i).bind (·.run rest)

theorem run_append (scope : Scope) (is js : List Instruction) :
    scope.run (is ++ js) = (scope.run is).bind (·.run js) := by
  induction is generalizing scope with
  | nil => rfl
  | cons i rest ih =>
    rw [List.cons_append, run, run]
    cases scope.step i with
    | none => rfl
    | some next => exact ih next

/-- The nesting of a scope. -/
def nesting (scope : Scope) (merges : List (UInt32 × Nat)) : Nesting :=
  ⟨scope ≠ outside, scope = block, merges⟩

/-- An instruction may stand where it does exactly if the scope allows it; one that names a merge
block also needs one that was not named before. -/
theorem nesting_step_eq_ok_iff {scope : Scope} {merges : List (UInt32 × Nat)} {d : Decoded}
    {n : Nesting} :
    (scope.nesting merges).step d = .ok n ↔ ∃ next, scope.step d.instruction = some next ∧
      (d.instruction.isMerge → d.words.headD 0 ∉ merges.map Prod.fst) ∧
      next.nesting
        (if d.instruction.isMerge then (d.words.headD 0, d.offset) :: merges else merges) = n := by
  unfold step Nesting.step
  by_cases hmerge : d.instruction.isMerge
  · have hop : (d.opcode = .selectionMerge || d.opcode = .loopMerge) = true := hmerge
    simp only [if_pos hop, ← lookup_eq_none_iff_keys, hmerge, if_true, true_implies]
    generalize d.words.headD 0 = merge
    cases hl : List.lookup merge merges with
    | some prev => simp [nesting, hl]
    | none => cases scope <;> simp [nesting, hl]
  have hop : ¬ (d.opcode = .selectionMerge || d.opcode = .loopMerge) = true := hmerge
  simp only [if_neg hop, hmerge]
  unfold Decoded.instruction
  by_cases hfunc : d.opcode = .func
  · simp only [if_pos hfunc]
    cases scope <;> simp [nesting]
  simp only [if_neg hfunc]
  by_cases hend : d.opcode = .functionEnd
  · simp only [if_pos hend]
    cases scope <;> simp [nesting]
  simp only [if_neg hend]
  by_cases hlabel : d.opcode = .label
  · simp only [if_pos hlabel]
    cases scope <;> simp [nesting]
  simp only [if_neg hlabel]
  by_cases hterminator : isTerminatorOp d.opcode
  · simp only [if_pos hterminator]
    cases scope <;> simp [nesting]
  simp only [if_neg hterminator]
  by_cases hparameter : d.opcode = .functionParameter
  · simp only [if_pos hparameter]
    cases scope <;> simp [nesting]
  · simp only [if_neg hparameter]
    cases scope <;> simp [nesting]

end Scope

/-- The check of nesting passes instructions that keep to their scopes and name no merge block
twice. -/
theorem checkNesting_eq_ok_iff (scope : Scope) (merges : List (UInt32 × Nat))
    (hread : ReadList offset is ds) (hnodup : (merges.map Prod.fst).Nodup) :
    checkNesting (scope.nesting merges) ds = .ok () ↔
      scope.run is = some .outside ∧ (mergeIds is ++ merges.map Prod.fst).Nodup := by
  induction hread generalizing scope merges with
  | nil => cases scope <;> simp [checkNesting, Scope.nesting, Scope.run, hnodup]
  | @cons offset i d is ds head _ _ ih =>
    have hstep : checkNesting (scope.nesting merges) (d :: ds) = .ok () ↔
        ∃ n, (scope.nesting merges).step d = .ok n ∧ checkNesting n ds = .ok () := by
      rw [checkNesting]
      cases (scope.nesting merges).step d <;> simp
    rw [hstep, ← head.instruction]
    simp only [Scope.nesting_step_eq_ok_iff, Scope.run, Option.bind_eq_some_iff, mergeIds_cons]
    by_cases hmerge : d.instruction.isMerge
    · simp only [hmerge, true_implies, if_true, Decoded.instruction_operands, List.cons_append,
        List.nil_append, List.nodup_cons, List.mem_append, not_or]
      constructor
      · rintro ⟨n, ⟨next, hnext, hfresh, rfl⟩, hrest⟩
        obtain ⟨hrun, hmerges⟩ := (ih next ((d.words.headD 0, d.offset) :: merges)
          (List.nodup_cons.2 ⟨hfresh, hnodup⟩)).1 hrest
        rw [List.map_cons, List.nodup_middle, List.nodup_cons, List.mem_append, not_or] at hmerges
        exact ⟨⟨next, hnext, hrun⟩, hmerges⟩
      · rintro ⟨⟨next, hnext, hrun⟩, ⟨hnew, hfresh⟩, hmerges⟩
        refine ⟨_, ⟨next, hnext, hfresh, rfl⟩, (ih next
          ((d.words.headD 0, d.offset) :: merges) (List.nodup_cons.2 ⟨hfresh, hnodup⟩)).2 ⟨hrun, ?_⟩⟩
        rw [List.map_cons, List.nodup_middle, List.nodup_cons, List.mem_append, not_or]
        exact ⟨⟨hnew, hfresh⟩, hmerges⟩
    · simp only [hmerge, false_implies, true_and, Bool.false_eq_true, if_false, List.nil_append]
      constructor
      · rintro ⟨n, ⟨next, hnext, rfl⟩, hrest⟩
        obtain ⟨hrun, hmerges⟩ := (ih next merges hnodup).1 hrest
        exact ⟨⟨next, hnext, hrun⟩, hmerges⟩
      · rintro ⟨⟨next, hnext, hrun⟩, hmerges⟩
        exact ⟨_, ⟨next, hnext, rfl⟩, (ih next merges hnodup).2 ⟨hrun, hmerges⟩⟩

/-! ## Modules -/

variable {instrs : List Instruction} {bound : UInt32}

/-- The words of a binary: the header and the instructions. -/
def binaryWords (version generator bound : UInt32) (instrs : List Instruction) : List UInt32 :=
  [magicNumber, version, generator, bound, 0] ++ instrs.flatMap Instruction.words

/-- The words of a module. -/
def moduleWords (version : Version) (bound : UInt32) (instrs : List Instruction) : List UInt32 :=
  binaryWords version.word generatorNumber bound instrs

theorem readModule_binaryWords (version generator bound : UInt32) (hfits : ∀ i ∈ instrs, i.fits) :
    readModule (binaryWords version generator bound instrs) =
      .ok ⟨⟨.ofWord version, generator, bound, 0⟩, (readAll headerSize instrs).1,
        (readAll headerSize instrs).2⟩ := by
  simp [readModule, binaryWords, readHeader, Except.map, readInstrs_flatMap_words _ hfits]

/-- The ids that the instructions of a binary define, in order. -/
def definedIds (words : List UInt32) : List UInt32 :=
  match readModule words with
  | .ok contents => contents.instrs.filterMap Decoded.result
  | .error _ => []

/-- The rules of verification, for the instructions of a module. -/
structure Legal (bound : UInt32) (instrs : List Instruction) : Prop where
  fits : ∀ i ∈ instrs, i.fits
  shaped : ∀ i ∈ instrs, i.shaped
  nonzero : 0 ∉ resultIds instrs
  nodup : (resultIds instrs).Nodup
  le_bound : ∀ id ∈ resultIds instrs, id ≤ bound - 1
  bound_mem : bound - 1 = 0 ∨ bound - 1 ∈ resultIds instrs
  sorted : instrs.Pairwise fun i j =>
    ∀ s t, i.home? = some s → j.home? = some t → s.code ≤ t.code
  placed : ∀ i ∈ instrs, ∀ s, i.home? = some s → Section.preamble.code ≤ s.code
  reads : ∀ pre i post, instrs = pre ++ i :: post → i.ReadsInTime instrs pre
  memoryModel : instrs.countP (fun i => i.opcode = .memoryModel) = 1
  nested : Scope.outside.run instrs = some .outside
  merges : (mergeIds instrs).Nodup

theorem Legal.exists_readList (h : Legal bound instrs) (version : Version) :
    ∃ ds, ReadList headerSize instrs ds ∧ readModule (moduleWords version bound instrs) =
      .ok ⟨⟨.ofWord version.word, generatorNumber, bound, 0⟩, ds, none⟩ := by
  obtain ⟨ds, hds⟩ := exists_readAll h.shaped headerSize
  refine ⟨ds, readList_of_readAll hds, ?_⟩
  rw [moduleWords, readModule_binaryWords _ _ bound h.fits, hds]

theorem memoryModelCount_eq (h : ReadList offset is ds) :
    memoryModelCount ds = is.countP fun i => i.opcode = .memoryModel := by
  rw [← h.map_instruction, List.countP_map]
  rfl

/-- The steps of verification, for a binary that is read to its end. -/
theorem verify_eq_ok_iff_checks {words : List UInt32} {header : Header}
    (h : readModule words = .ok ⟨header, ds, none⟩) :
    verify words = .ok () ↔ header.schema = 0 ∧ ∃ known, collect [] 0 ds = .ok known ∧
      header.bound = largest known + 1 ∧ checkOrder known .preamble 0 ds = .ok () ∧
      memoryModelCount ds = 1 ∧ checkNesting {} ds = .ok () := by
  simp only [verify, h, bind, Except.bind]
  by_cases hschema : header.schema = 0
  swap
  · simp [hschema, throw, throwThe, MonadExceptOf.throw]
  cases collect [] 0 ds with
  | error e => simp [hschema]
  | ok known =>
    by_cases hbound : header.bound = largest known + 1
    swap
    · simp [hschema, hbound, throw, throwThe, MonadExceptOf.throw]
    cases horder : checkOrder known .preamble 0 ds with
    | error e => simp [hschema, hbound, horder]
    | ok u =>
      by_cases hmodels : memoryModelCount ds = 1
      · simp [hschema, hbound, horder, hmodels]
      · simp [hschema, hbound, horder, hmodels, throw, throwThe, MonadExceptOf.throw]

/-- The instructions of a binary obey the rules exactly if the binary passes. -/
theorem verify_binaryWords_iff (version generator : UInt32) (hfits : ∀ i ∈ instrs, i.fits) :
    verify (binaryWords version generator bound instrs) = .ok () ↔ Legal bound instrs := by
  have hmodule := readModule_binaryWords version generator bound hfits
  rcases hall : readAll headerSize instrs with ⟨ds, failure⟩
  rw [hall] at hmodule
  cases failure with
  | some e =>
    constructor
    · intro h
      simp only [verify, hmodule] at h
      cases h
    · intro h
      obtain ⟨ds', hds⟩ := exists_readAll h.shaped headerSize
      cases hall.symm.trans hds
  | none =>
    have hread := readList_of_readAll hall
    have hresults := hread.filterMap_result
    have hnesting : checkNesting {} ds = .ok () ↔
        Scope.outside.run instrs = some .outside ∧ (mergeIds instrs).Nodup := by
      have hiff := checkNesting_eq_ok_iff .outside [] hread List.nodup_nil
      rwa [List.map_nil, List.append_nil] at hiff
    rw [verify_eq_ok_iff_checks hmodule, memoryModelCount_eq hread, hnesting]
    have hkeys : ∀ {known}, collect [] 0 ds = .ok known →
        ∀ id, id ∈ known.map Prod.fst ↔ id ∈ resultIds instrs := by
      intro known hcollect id
      obtain ⟨-, -, -, rfl⟩ := collect_eq_ok_iff.1 hcollect
      rw [List.append_nil, List.map_reverse, List.mem_reverse, keys_definitionsFrom, hresults]
    constructor
    · rintro ⟨-, known, hcollect, hbound, horder, hmodel, hrun, hmerges⟩
      obtain ⟨hzero, hnodup, -⟩ := collect_eq_ok_iff.1 hcollect
      rw [hresults] at hzero hnodup
      obtain ⟨hplaced, hsorted, hreads⟩ :=
        (checkOrder_eq_ok_iff [] hread hcollect rfl hread).1 horder
      have htop : largest known = bound - 1 := by
        change bound = _ at hbound
        simp [hbound]
      obtain ⟨hle, hmem⟩ := largest_eq_iff.1 htop
      exact ⟨hfits, hread.shaped, hzero, hnodup, fun id hid => hle id ((hkeys hcollect id).2 hid),
        hmem.imp_right (hkeys hcollect _).1, hsorted, hplaced, hreads, hmodel, hrun, hmerges⟩
    · intro h
      obtain ⟨known, hcollect⟩ : ∃ known, collect [] 0 ds = .ok known :=
        ⟨_, collect_eq_ok_iff.2 ⟨hresults ▸ h.nonzero, hresults ▸ h.nodup, by simp, rfl⟩⟩
      have htop : largest known = bound - 1 :=
        largest_eq_iff.2 ⟨fun id hid => h.le_bound id ((hkeys hcollect id).1 hid),
          h.bound_mem.imp_right (hkeys hcollect _).2⟩
      refine ⟨rfl, known, hcollect, ?_, ?_, h.memoryModel, h.nested, h.merges⟩
      · simp [htop]
      · exact (checkOrder_eq_ok_iff [] hread hcollect rfl hread).2 ⟨h.placed, h.sorted, h.reads⟩

theorem Legal.verify_eq_ok (h : Legal bound instrs) (version : Version) :
    verify (moduleWords version bound instrs) = .ok () :=
  (verify_binaryWords_iff _ _ h.fits).2 h

/-- A module that passes verification was read to its end, and its results are unique. -/
theorem exists_readList_of_verify {version : Version} (hfits : ∀ i ∈ instrs, i.fits)
    (h : verify (moduleWords version bound instrs) = .ok ()) :
    ∃ ds, ReadList headerSize instrs ds ∧ readModule (moduleWords version bound instrs) =
        .ok ⟨⟨.ofWord version.word, generatorNumber, bound, 0⟩, ds, none⟩ ∧
      (resultIds instrs).Nodup := by
  have hlegal := (verify_binaryWords_iff _ _ hfits).1 h
  obtain ⟨ds, hread, hmodule⟩ := hlegal.exists_readList version
  exact ⟨ds, hread, hmodule, hlegal.nodup⟩

end Elementwise.Spirv
