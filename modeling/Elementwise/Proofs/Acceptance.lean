import Elementwise.Proofs.Sections
import Mathlib.Algebra.Group.Nat.Defs

/-!
# Compiled programs are accepted

What is assembled obeys every rule of verification, as long as the ids do not begin anew and no
name has a zero byte. Before the types stand only instructions that define nothing; the types and
the functions define the ids that were allocated, each once.
-/
namespace Elementwise.Spirv
open IR Gen Text.Utf8

/-! ## The first ids -/

theorem toNat_toUInt32 {n : Nat} (h : n < 2 ^ 32) : n.toUInt32.toNat = n :=
  UInt32.toNat_ofNat_of_lt' h

section FirstIds

variable {n : Nat}

theorem toNat_of_mem_firstIds (hn : n < 2 ^ 32 - 1) {id : UInt32} (h : id ∈ firstIds n) :
    0 < id.toNat ∧ id.toNat ≤ n := by
  obtain ⟨k, hk, rfl⟩ := List.mem_map.1 h
  rw [List.mem_range] at hk
  rw [toNat_toUInt32 (by omega)]
  omega

theorem nodup_firstIds (hn : n < 2 ^ 32 - 1) : (firstIds n).Nodup := by
  refine List.Nodup.map_on ?_ List.nodup_range
  intro j hj k hk heq
  rw [List.mem_range] at hj hk
  have hnat := congrArg UInt32.toNat heq
  rw [toNat_toUInt32 (by omega), toNat_toUInt32 (by omega)] at hnat
  omega

theorem bound_sub_one (n : Nat) : (n + 1).toUInt32 - 1 = n.toUInt32 := by
  simp [Nat.toUInt32_eq, UInt32.ofNat_add]

theorem firstIds_eq_range' : firstIds n = (List.range' 1 n).map Nat.toUInt32 := by
  rw [firstIds, List.range'_eq_map_range, List.map_map]
  exact List.map_congr_left fun k _ => by rw [Function.comp_apply, Nat.add_comm]

/-- Among the first ids the bound is one past the largest. -/
theorem bound_of_perm_firstIds {ids : List UInt32} (hn : n < 2 ^ 32 - 1)
    (h : ids.Perm (firstIds n)) :
    0 ∉ ids ∧ ids.Nodup ∧ (∀ id ∈ ids, id ≤ (n + 1).toUInt32 - 1) ∧
      ((n + 1).toUInt32 - 1 = 0 ∨ (n + 1).toUInt32 - 1 ∈ ids) := by
  rw [bound_sub_one]
  refine ⟨?_, h.nodup_iff.2 (nodup_firstIds hn), ?_, ?_⟩
  · intro hzero
    exact absurd (toNat_of_mem_firstIds hn (h.mem_iff.1 hzero)).1 (by decide)
  · intro id hid
    rw [UInt32.le_iff_toNat_le, toNat_toUInt32 (by omega)]
    exact (toNat_of_mem_firstIds hn (h.mem_iff.1 hid)).2
  · cases n with
    | zero => exact Or.inl rfl
    | succ k =>
      rw [h.mem_iff, firstIds_succ]
      exact Or.inr (List.mem_append_right _ List.mem_cons_self)

end FirstIds

/-! ## Reading in time -/

theorem mem_left_or_split {α : Type} {xs ys pre post : List α} {x : α}
    (h : xs ++ ys = pre ++ x :: post) :
    x ∈ xs ∨ ∃ rest, pre = xs ++ rest ∧ ys = rest ++ x :: post := by
  rcases List.append_eq_append_iff.1 h with ⟨rest, hpre, hys⟩ | ⟨rest, hxs, hpost⟩
  · exact Or.inr ⟨rest, hpre, hys⟩
  · cases rest with
    | nil => exact Or.inr ⟨[], by simpa using hxs.symm, hpost.symm⟩
    | cons y rest =>
      cases hpost
      exact Or.inl (by simp [hxs])

variable {i : Instruction}

/-- Ids are read in time if only types and functions have to be. -/
theorem readsInTime_of_inTime {front body : List Instruction}
    (hhome : ∀ i ∈ front, i.home? ≠ some .types ∧ i.home? ≠ some .functions)
    (hreads : ∀ i ∈ front, ∀ r ∈ i.reads, r ∈ resultIds (front ++ body))
    (hbody : InTime (· ∈ aheadIds (front ++ body)) body) {pre post : List Instruction}
    (h : front ++ body = pre ++ i :: post) : i.ReadsInTime (front ++ body) pre := by
  intro r hr
  rcases mem_left_or_split h with hi | ⟨rest, rfl, rfl⟩
  · refine ⟨hreads i hi r hr, ?_⟩
    rintro (htypes | hfunctions)
    · exact absurd htypes (hhome i hi).1
    · exact absurd hfunctions (hhome i hi).2
  · obtain ⟨-, htime, -⟩ := inTime_append.1 hbody
    rcases htime r hr with hahead | hbefore
    · exact ⟨aheadIds_subset _ hahead, fun _ => Or.inr hahead⟩
    · exact ⟨by simp [hbefore], fun _ => Or.inl (by simp [hbefore])⟩

/-! ## Groups -/

theorem mergeIds_flatten_subset {groups : List (List Instruction)}
    (h : ∀ group ∈ groups, mergeIds group ⊆ resultIds group) :
    mergeIds groups.flatten ⊆ resultIds groups.flatten := by
  induction groups with
  | nil => simp
  | cons group rest ih =>
    obtain ⟨hgroup, hrest⟩ := List.forall_mem_cons.1 h
    rw [List.flatten_cons, mergeIds_append, resultIds_append]
    exact List.append_subset.2 ⟨List.Subset.trans hgroup (List.subset_append_left _ _),
      List.Subset.trans (ih hrest) (List.subset_append_right _ _)⟩

theorem nodup_mergeIds_flatten {groups : List (List Instruction)}
    (hnodup : ∀ group ∈ groups, (mergeIds group).Nodup)
    (hsub : ∀ group ∈ groups, mergeIds group ⊆ resultIds group)
    (hids : (resultIds groups.flatten).Nodup) : (mergeIds groups.flatten).Nodup := by
  induction groups with
  | nil => simp
  | cons group rest ih =>
    obtain ⟨hgroup, hrest⟩ := List.forall_mem_cons.1 hnodup
    obtain ⟨hgroup', hrest'⟩ := List.forall_mem_cons.1 hsub
    rw [List.flatten_cons, resultIds_append, List.nodup_append'] at hids
    obtain ⟨-, hids, hdisjoint⟩ := hids
    rw [List.flatten_cons, mergeIds_append, List.nodup_append']
    exact ⟨hgroup, ih hrest hrest' hids, fun _ hid hid' =>
      hdisjoint (hgroup' hid) (mergeIds_flatten_subset hrest' hid')⟩

theorem nested_flatten {groups : List (List Instruction)}
    (h : ∀ group ∈ groups, Scope.outside.run group = some .outside) :
    Scope.outside.run groups.flatten = some .outside := by
  induction groups with
  | nil => rfl
  | cons group rest ih =>
    obtain ⟨hgroup, hrest⟩ := List.forall_mem_cons.1 h
    rw [List.flatten_cons, Scope.run_append, hgroup]
    exact ih hrest

/-! ## Before the types -/

/-- An instruction can be read and names ids that are allocated. -/
structure Instruction.Refers (allocated : Nat) (i : Instruction) : Prop where
  shaped : i.shaped
  reads : ∀ r ∈ i.reads, r ∈ firstIds allocated

theorem Instruction.Profile.refers {allocated : Nat} {s : Section} {result : Option UInt32}
    {reads : List UInt32} (h : i.Profile s result reads)
    (hreads : ∀ r ∈ reads, r ∈ firstIds allocated) : i.Refers allocated :=
  ⟨h.shaped, h.reads ▸ hreads⟩

section Rules

variable {program : Program} {options : Options} {entries : List (FuncId × Func)}
  {kernel : FuncId × Func} {elem : Ty} {k : KernelIds} {e : EntryIds} {function : UInt32}
  {groups : List (List Instruction)} {s : Generator}

theorem Generator.Coherent.refers_preamble (h : s.Coherent) :
    ∀ i ∈ s.assembly.preambleInstrs, i.Refers s.assembly.allocated := by
  intro i hi
  simp only [Assembly.preambleInstrs, List.mem_append, List.mem_map, List.mem_singleton] at hi
  rcases hi with (⟨c, -, rfl⟩ | ⟨name, hname, rfl⟩) | rfl
  · exact Profile.capability.refers (by simp)
  · exact (Profile.extension (h.extensions name hname)).refers (by simp)
  · exact Profile.memoryModel.refers (by simp)

theorem Generator.Accounted.refers_debug (h : s.Accounted (fun name => 0 ∉ name.bytes) []) :
    ∀ i ∈ s.assembly.debug.toList, i.Refers s.assembly.allocated := by
  intro i hi
  obtain ⟨id, hid, text, htext, rfl | ⟨member, rfl⟩⟩ := h.debug i hi
  · exact (Profile.name htext).refers (by simpa using hid)
  · exact (Profile.memberName htext).refers (by simpa using hid)

namespace Assembled

variable {T : Text → Prop}
  (h : Assembled T program options entries kernel elem k e function groups s)
include h

theorem perm_ids : (resultIds (s.declared ++ s.written)).Perm (firstIds s.assembly.allocated) := by
  have hids := h.accounted.ids
  rwa [List.append_nil, ← resultIds_append] at hids

theorem perm_contents (hfits : ∀ i ∈ s.assembly.preambleInstrs, i.fits) :
    (resultIds s.contents).Perm (firstIds s.assembly.allocated) :=
  (h.sorted hfits).resultIds_contents ▸ h.perm_ids

theorem mem_firstIds {id : UInt32} (hid : id ∈ resultIds (s.declared ++ s.written)) :
    id ∈ firstIds s.assembly.allocated := h.perm_ids.mem_iff.1 hid

theorem refers_entryPoints (hname : 0 ∉ options.entryName.bytes) :
    ∀ i ∈ s.assembly.entryPoints.toList, i.Refers s.assembly.allocated := by
  have hentry : e.entry ∈ firstIds s.assembly.allocated := by
    apply h.mem_firstIds
    rw [resultIds_append, h.written, resultIds_append]
    exact List.mem_append_right _ (List.mem_append_right _
      (mem_resultIds.2 ⟨_, List.mem_cons_self, Profile.func.result⟩))
  have hdeclared : ∀ id ∈ resultIds s.declared, id ∈ firstIds s.assembly.allocated := by
    intro id hid
    exact h.mem_firstIds (by simp [hid])
  have hinterfaces : ∀ id ∈ options.interfaces k, id ∈ firstIds s.assembly.allocated := by
    obtain ⟨hdata, hconfig, hinvocation⟩ := h.declares.interfaces_mem
    intro id hid
    apply hdeclared
    unfold Options.interfaces at hid
    split at hid <;> simp only [List.mem_cons, List.not_mem_nil, or_false] at hid
    · rcases hid with rfl | rfl | rfl <;> assumption
    · rwa [hid]
  rw [h.entryPoints]
  simp only [Options.entryPointInstrs, List.forall_mem_cons]
  refine ⟨(Profile.entryPoint hname).refers ?_, Profile.executionMode.refers ?_, ?_⟩
  · simpa using ⟨hentry, hinterfaces⟩
  · simpa using hentry
  · simp

theorem group_rules (honce : ListsBlocksOnce program) (hids : (resultIds s.declared).Nodup) :
    ∀ group ∈ groups ++ [e.group k function], Scope.outside.run group = some .outside ∧
      (mergeIds group).Nodup ∧ mergeIds group ⊆ resultIds group := by
  intro group hgroup
  rcases List.mem_append.1 hgroup with hgroup | hgroup
  · obtain ⟨entry, hentry, values, labels, hlowers⟩ :=
      exists_right_of_mem (h.lowers hids).flip hgroup
    have hlisted : some entry ∈ program.listed := h.listed ▸ List.mem_map_of_mem hentry
    exact ⟨hlowers.nested, h.merges group hgroup, hlowers.merges (honce _ hlisted entry rfl)⟩
  · obtain rfl := List.mem_singleton.1 hgroup
    have hmerges : mergeIds (e.group k function) = [e.merge] := rfl
    have hlabel : (⟨.label, [e.merge]⟩ : Instruction) ∈ e.group k function := by
      simp [EntryIds.group, EntryIds.dispatch]
    refine ⟨rfl, hmerges ▸ List.nodup_singleton _, ?_⟩
    rw [hmerges, List.cons_subset]
    refine ⟨?_, List.nil_subset _⟩
    exact mem_resultIds.2 ⟨_, hlabel, Profile.label.result⟩

/-- No block is the merge of two constructs. -/
theorem nodup_merges (hfits : ∀ i ∈ s.assembly.preambleInstrs, i.fits)
    (honce : ListsBlocksOnce program) (hids : (resultIds s.contents).Nodup) :
    (mergeIds s.contents).Nodup := by
  have hsorted := h.sorted hfits
  rw [hsorted.resultIds_contents, resultIds_append] at hids
  have hrules := h.group_rules honce (List.nodup_append'.1 hids).1
  have hwritten : s.written = (groups ++ [e.group k function]).flatten := by
    rw [h.written, List.flatten_append, List.flatten_singleton]
  rw [Generator.contents_eq, ← List.append_assoc, mergeIds_append,
    mergeIds_plain hsorted.plain_of_mem, hwritten]
  refine nodup_mergeIds_flatten (fun group hgroup => (hrules group hgroup).2.1)
    (fun group hgroup => (hrules group hgroup).2.2) ?_
  rw [← hwritten]
  exact (List.nodup_append'.1 hids).2.1

end Assembled

namespace Assembled

variable (h : Assembled (fun name => 0 ∉ name.bytes) program options entries kernel elem k e
    function groups s) (hname : 0 ∉ options.entryName.bytes)
include h hname

theorem refers_front : ∀ i ∈ s.front, i.Refers s.assembly.allocated := by
  intro i hi
  simp only [Generator.front, List.mem_append] at hi
  rcases hi with ((hi | hi) | hi) | hi
  · exact h.coherent.refers_preamble i hi
  · exact h.refers_entryPoints hname i hi
  · exact h.accounted.refers_debug i hi
  · exact ⟨h.coherent.decorations i hi, h.accounted.decorations i hi⟩

theorem shaped : ∀ i ∈ s.contents, i.shaped := by
  intro i hi
  rw [Generator.contents_eq, List.mem_append, List.mem_append] at hi
  rcases hi with hi | hi | hi
  · exact (h.refers_front hname i hi).shaped
  · exact h.coherent.declared i hi
  · exact h.coherent.written i hi

/-- What is assembled obeys the rules of verification. -/
theorem legal (hfits : ∀ i ∈ s.assembly.preambleInstrs, i.fits)
    (honce : ListsBlocksOnce program) (hbound : s.assembly.allocated < 2 ^ 32 - 1) :
    Legal s.assembly.bound s.contents := by
  have hsorted := h.sorted hfits
  have hperm := h.perm_contents hfits
  obtain ⟨hzero, hnodup, hle, hmem⟩ := bound_of_perm_firstIds hbound hperm
  have hids : (resultIds s.declared ++ resultIds s.written).Nodup := by
    rwa [hsorted.resultIds_contents, resultIds_append] at hnodup
  have hrules := h.group_rules honce (List.nodup_append'.1 hids).1
  have hwritten : s.written = (groups ++ [e.group k function]).flatten := by
    rw [h.written, List.flatten_append, List.flatten_singleton]
  refine
    { fits := hsorted.fits
      shaped := h.shaped hname
      nonzero := hzero
      nodup := hnodup
      le_bound := hle
      bound_mem := hmem
      sorted := hsorted.ascends.1
      placed := fun i hi home hhome => (hsorted.ascends.2 i hi home hhome).1
      reads := ?_
      memoryModel := hsorted.memoryModel_once
      nested := ?_
      merges := h.nodup_merges hfits honce hnodup }
  · intro pre i post hsplit
    have hfront := hsorted.of_mem_front
    have hrefers := h.refers_front hname
    rw [Generator.contents_eq] at hsplit hperm ⊢
    refine readsInTime_of_inTime ?_ ?_ ?_ hsplit
    · intro j hj
      obtain ⟨-, home, hhome, htypes, hfunctions⟩ := hfront j hj
      simp [hhome, htypes, hfunctions]
    · intro j hj r hr
      exact hperm.mem_iff.2 ((hrefers j hj).reads r hr)
    · refine inTime_append.2 ⟨h.coherent.inTime.mono (by simp), h.accounted.inTime.mono ?_⟩
      rintro r (hr | hr | hr)
      · exact Or.inr hr
      · exact Or.inl (by simp only [aheadIds_append, List.mem_append]; exact Or.inr (Or.inr hr))
      · cases hr
  · rw [Generator.contents_eq, ← List.append_assoc, Scope.run_append,
      Scope.run_plain hsorted.plain_of_mem (by decide), hwritten]
    exact nested_flatten fun group hgroup => (hrules group hgroup).1

end Assembled

end Rules

/-! ## Compiled programs -/

/-- The number of ids that are allocated for a program. -/
def idCount (program : Program) (options : Options) : Nat :=
  match assemble program options (.start options.version) with
  | .ok _ s => s.assembly.allocated
  | .error _ s => s.assembly.allocated

theorem Options.zero_not_mem_entryName {options : Options} (h : 0 ∉ options.entryPoint.bytes) :
    0 ∉ options.entryName.bytes := by
  unfold Options.entryName
  split
  · decide +kernel
  · exact h

theorem namesPermitted_of_terminated {program : Program} {options : Options}
    (hentry : 0 ∉ options.entryPoint.bytes)
    (hnames : options.debug → ∀ name ∈ programNames program, 0 ∉ name.bytes) :
    NamesPermitted (fun name => 0 ∉ name.bytes) program options where
  program := hnames
  kernel _ := by decide +kernel
  entry _ := Options.zero_not_mem_entryName hentry

section Compiled

variable {program : Program} {options : Options} {host : HostCodes} {c : Compiled}

/-- What a compiled program was assembled from. -/
theorem exists_assembled {T : Text → Prop} (honce : ListsBlocksOnce program)
    (hnames : NamesPermitted T program options) (h : compile program options host = .ok c) :
    ∃ abi s unsupported entries kernel elem k e function groups,
      assemble program options (.start options.version) = .ok abi s ∧
      judge options c.words unsupported = .ok () ∧ (∀ i ∈ s.assembly.preambleInstrs, i.fits) ∧
      c.words = moduleWords s.assembly.version s.assembly.bound s.contents ∧
      Assembled T program options entries kernel elem k e function groups s := by
  obtain ⟨abi, s, s', hassemble, hfinish, hjudge, -⟩ := compile_ok.1 h
  obtain ⟨hclean, -, hfits, hwords⟩ := finish_ok.1 ⟨s', hfinish⟩
  obtain ⟨entries, kernel, elem, k, e, function, groups, hassembled⟩ :=
    assemble_spec honce hnames hassemble hclean
  exact ⟨abi, s, _, entries, kernel, elem, k, e, function, groups, hassemble, hjudge, hfits,
    hwords.symm, hassembled⟩

theorem namesPermitted_true : NamesPermitted (fun _ => True) program options :=
  ⟨fun _ _ _ => trivial, fun _ _ _ => trivial, fun _ => trivial⟩

theorem verify_of_judge {words : List UInt32} {unsupported : List Diagnostic}
    (hvalidation : options.validation = true) (h : judge options words unsupported = .ok ()) :
    verify words = .ok () := by
  unfold judge at h
  rw [if_pos hvalidation] at h
  cases hverify : verify words with
  | error e => rw [hverify] at h; cases h
  | ok u => rfl

/-- The words of a compiled program are those of legal instructions. -/
theorem exists_legal_of_compile (honce : ListsBlocksOnce program)
    (hentry : 0 ∉ options.entryPoint.bytes)
    (hnames : options.debug → ∀ name ∈ programNames program, 0 ∉ name.bytes)
    (hids : idCount program options < 2 ^ 32 - 1) (h : compile program options host = .ok c) :
    ∃ s : Generator, c.words = moduleWords s.assembly.version s.assembly.bound s.contents ∧
      Legal s.assembly.bound s.contents ∧ s.assembly.allocated < 2 ^ 32 - 1 ∧
      (resultIds s.contents).Perm (firstIds s.assembly.allocated) := by
  obtain ⟨abi, s, -, entries, kernel, elem, k, e, function, groups, hassemble, -, hfits, hwords,
    hassembled⟩ := exists_assembled honce (namesPermitted_of_terminated hentry hnames) h
  have hallocated : s.assembly.allocated < 2 ^ 32 - 1 := by
    rwa [idCount, hassemble] at hids
  have hname := Options.zero_not_mem_entryName hentry
  exact ⟨s, hwords, hassembled.legal hname hfits honce hallocated, hallocated,
    hassembled.perm_contents hfits⟩

theorem compile_of_verify (h : compile program options host = .ok c)
    (hverify : verify c.words = .ok ()) (validation : Bool) :
    compile program { options with validation } host = .ok c := by
  obtain ⟨abi, s, s', hassemble, hfinish, hjudge, hc⟩ := compile_ok.1 h
  refine compile_ok.2 ⟨abi, s, s', hassemble, hfinish, ?_, hc⟩
  cases hv : options.validation <;> cases validation <;>
    simpa [judge, hverify, hv] using hjudge

/-- A program that compiles passes verification, and its ids are those from one up to the bound,
each defined once, unless a function lists a block twice, a name has a zero byte, or the ids begin
anew. Whether it is verified makes no difference. -/
theorem verify_compiled (honce : ListsBlocksOnce program) (hentry : 0 ∉ options.entryPoint.bytes)
    (hnames : options.debug → ∀ name ∈ programNames program, 0 ∉ name.bytes)
    (hids : idCount program options < 2 ^ 32 - 1) (h : compile program options host = .ok c) :
    verify c.words = .ok () ∧
      (∃ bound, c.words[3]? = some bound ∧
        (definedIds c.words).Perm ((List.range' 1 (bound.toNat - 1)).map Nat.toUInt32)) ∧
      ∀ validation, compile program { options with validation } host = .ok c := by
  obtain ⟨s, hwords, hlegal, hallocated, hperm⟩ :=
    exists_legal_of_compile honce hentry hnames hids h
  have hverify : verify c.words = .ok () := hwords ▸ hlegal.verify_eq_ok _
  refine ⟨hverify, ⟨s.assembly.bound, by rw [hwords]; rfl, ?_⟩, compile_of_verify h hverify⟩
  have hdefined : definedIds c.words = resultIds s.contents := by
    obtain ⟨ds, hread, hmodule⟩ := hlegal.exists_readList s.assembly.version
    rw [definedIds, hwords, hmodule, ← hread.filterMap_result]
  have hcount : s.assembly.bound.toNat - 1 = s.assembly.allocated := by
    rw [Assembly.bound, toNat_toUInt32 (by omega), Nat.add_sub_cancel]
  rw [hdefined, hcount, ← firstIds_eq_range']
  exact hperm

end Compiled

/-- Doubles the elements below a hundred. -/
def doubling : Program where
  name := "doubling"
  funcs := [
    { name := "kernel"
      params := [some ⟨"element", .pointer (.int 32) .buffer⟩]
      result := .void
      blocks := [
        ⟨"entry", none, [
          some (.localVar "old" (.int 32)),
          some (.load (.param ⟨⟨0⟩, 0⟩)),
          some (.store (.result ⟨⟨⟨0⟩, 0⟩, 1⟩) (.result ⟨⟨⟨0⟩, 0⟩, 0⟩)),
          some (.compare .lt .unsigned (.result ⟨⟨⟨0⟩, 0⟩, 1⟩) (.constant (.ofWord 100))),
          some (.condBranch (.result ⟨⟨⟨0⟩, 0⟩, 3⟩) (some ⟨⟨0⟩, 1⟩) (some ⟨⟨0⟩, 2⟩) none)]⟩,
        ⟨"small", none, [
          some (.call (some ⟨1⟩) [.result ⟨⟨⟨0⟩, 0⟩, 1⟩]),
          some (.store (.result ⟨⟨⟨0⟩, 1⟩, 0⟩) (.param ⟨⟨0⟩, 0⟩)),
          some (.branch (some ⟨⟨0⟩, 2⟩))]⟩,
        ⟨"done", none, [some (.ret .missing)]⟩]
      order := [some 0, some 1, some 2] },
    { name := "twice"
      params := [some ⟨"n", .int 32⟩]
      result := .int 32
      blocks := [
        ⟨"entry", none, [
          some (.convert (.param ⟨⟨1⟩, 0⟩) .unsigned (.int 32) .unsigned),
          some (.binary .add .unsigned (.result ⟨⟨⟨1⟩, 0⟩, 0⟩) (.param ⟨⟨1⟩, 0⟩)),
          some (.ret (.result ⟨⟨⟨1⟩, 0⟩, 1⟩))]⟩]
      order := [some 0] }]
  order := [some 0, some 1]

theorem listsBlocksOnce_doubling : ListsBlocksOnce doubling := by decide +kernel

theorem programNames_doubling : ∀ name ∈ programNames doubling, 0 ∉ name.bytes := by
  decide +kernel

theorem exists_compile_doubling :
    ∃ c, compile doubling { validation := false, debug := true } = .ok c :=
  exists_compile_of_isOk (by decide +kernel)

theorem idCount_doubling :
    idCount doubling { validation := false, debug := true } < 2 ^ 32 - 1 := by decide +kernel

theorem entryPoint_terminated :
    0 ∉ ({ validation := false, debug := true } : Options).entryPoint.bytes := by decide +kernel

theorem exists_verified_doubling : ∃ c, compile doubling { debug := true } = .ok c := by
  obtain ⟨c, hc⟩ := exists_compile_doubling
  obtain ⟨s, hwords, hlegal, -⟩ := exists_legal_of_compile listsBlocksOnce_doubling
    entryPoint_terminated (fun _ => programNames_doubling) idCount_doubling hc
  have hverify : verify c.words = .ok () := hwords ▸ hlegal.verify_eq_ok _
  exact ⟨c, compile_of_verify hc hverify true⟩

theorem verify_compiled_doubling : ∃ c, compile doubling { validation := false, debug := true } =
    .ok c ∧ verify c.words = .ok () ∧
      (∃ bound, c.words[3]? = some bound ∧
        (definedIds c.words).Perm ((List.range' 1 (bound.toNat - 1)).map Nat.toUInt32)) ∧
      ∀ validation, compile doubling { validation, debug := true } = .ok c := by
  obtain ⟨c, hc⟩ := exists_compile_doubling
  obtain ⟨hverify, hdefined, hsame⟩ := verify_compiled listsBlocksOnce_doubling
    entryPoint_terminated (fun _ => programNames_doubling) idCount_doubling hc
  exact ⟨c, hc, hverify, hdefined, hsame⟩

end Elementwise.Spirv
