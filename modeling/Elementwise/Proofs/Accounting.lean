import Elementwise.Proofs.Declarations
import Elementwise.Proofs.Run

/-!
# Accounts of ids

While a module is written, every id that was allocated is defined by one instruction or is still
pending: it belongs to a function or a block whose label has not been written yet. Every
instruction reads ids that are known where it stands, apart from those of functions and labels.

A step of the generator is described by its effect: the pending ids that it defines, the values
that it gives ids to, the labels that it makes, and the instructions that it writes to the
function section. Effects of steps one after the other add up.
-/
namespace Elementwise.Spirv
open IR Text.Utf8

/-- The ids that are allocated first. -/
def firstIds (n : Nat) : List UInt32 := (List.range n).map fun k => (k + 1).toUInt32

theorem firstIds_succ (n : Nat) : firstIds (n + 1) = firstIds n ++ [(n + 1).toUInt32] := by
  simp [firstIds, List.range_succ]

theorem firstIds_add (n m : Nat) :
    firstIds (n + m) = firstIds n ++ (List.range m).map fun j => (n + (j + 1)).toUInt32 := by
  simp only [firstIds, List.range_add, List.map_append, List.map_map]
  rfl

theorem firstIds_subset_succ (n : Nat) : firstIds n ⊆ firstIds (n + 1) :=
  firstIds_succ n ▸ List.subset_append_left _ _

theorem resultIds_subset {is js : List Instruction} (h : is ⊆ js) :
    resultIds is ⊆ resultIds js := by
  intro id hid
  obtain ⟨i, hi, hr⟩ := mem_resultIds.1 hid
  exact mem_resultIds.2 ⟨i, h hi, hr⟩

@[simp] theorem aheadIds_append (is js : List Instruction) :
    aheadIds (is ++ js) = aheadIds is ++ aheadIds js := by simp [aheadIds]

theorem aheadIds_subset (is : List Instruction) : aheadIds is ⊆ resultIds is :=
  resultIds_subset fun _ hi => (List.mem_filter.1 hi).1

/-- What ids stand for at a point of a run. -/
structure View extends Naming where
  /-- The instructions in the function section. -/
  written : List Instruction
  /-- The labels of blocks that are never reached. -/
  made : List UInt32

namespace View

structure Le (N M : View) : Prop where
  declared : N.declared ⊆ M.declared
  functions : N.functions ⊆ M.functions
  /-- The values that got ids last come first. -/
  values : N.values <:+ M.values
  labels : N.labels ⊆ M.labels
  written : N.written ⊆ M.written
  made : N.made ⊆ M.made

instance : LE View := ⟨Le⟩

theorem le_refl (N : View) : N ≤ N where
  declared := List.Subset.refl _
  functions := List.Subset.refl _
  values := List.suffix_refl _
  labels := List.Subset.refl _
  written := List.Subset.refl _
  made := List.Subset.refl _

theorem le_trans {N M K : View} (h : N ≤ M) (h' : M ≤ K) : N ≤ K where
  declared := List.Subset.trans h.declared h'.declared
  functions := List.Subset.trans h.functions h'.functions
  values := h.values.trans h'.values
  labels := List.Subset.trans h.labels h'.labels
  written := List.Subset.trans h.written h'.written
  made := List.Subset.trans h.made h'.made

/-- The ids that are defined. -/
def known (N : View) : List UInt32 := resultIds N.declared ++ resultIds N.written

theorem known_subset {N M : View} (h : N ≤ M) : N.known ⊆ M.known :=
  List.append_subset.2 ⟨fun _ hid => List.mem_append_left _ (resultIds_subset h.declared hid),
    fun _ hid => List.mem_append_right _ (resultIds_subset h.written hid)⟩

/-- The ids that an instruction of a function may read: those that are defined and those of
functions and labels. -/
def Readable (N : View) (id : UInt32) : Prop :=
  id ∈ N.known ∨ id ∈ N.functions.map Prod.snd ∨ id ∈ N.labels.map Prod.snd ∨ id ∈ N.made

end View

namespace Generator

/-- The types, constants and global variables that were declared. -/
def declared (s : Generator) : List Instruction := s.assembly.types.toList

/-- The instructions in the function section. -/
def written (s : Generator) : List Instruction := s.assembly.functions.toList

/-- Nothing was refused. -/
def clean (s : Generator) : Prop := s.assembly.refusal = none

def view (s : Generator) : View where
  declared := s.declared
  functions := s.functions
  values := s.body.values
  labels := s.body.labels
  written := s.written
  made := s.body.unreachable

/-- All instructions have their shapes, declarations read what was declared before, and what is
recorded was declared. -/
structure Coherent (s : Generator) : Prop where
  current : s.assembly.current = .functions
  backed : s.interned.Backed s.declared
  declared : ∀ i ∈ s.declared, i.shaped
  inTime : InTime (fun _ => False) s.declared
  written : ∀ i ∈ s.written, i.shaped
  values : ∀ entry ∈ s.body.values, entry.2 ∈ s.view.known
  decorations : ∀ i ∈ s.assembly.decorations.toList, i.shaped
  extensions : ∀ e ∈ s.assembly.extensions, 0 ∉ bytes e

/-- An instruction gives a name to an id, or to a member of it. -/
def Names (T : Text → Prop) (ids : List UInt32) (i : Instruction) : Prop :=
  ∃ id ∈ ids, ∃ text, T text ∧
    (i = ⟨.name, id :: textWords text.bytes⟩ ∨
      ∃ member, i = ⟨.memberName, id :: member :: textWords text.bytes⟩)

theorem Names.mono {T : Text → Prop} {ids ids' : List UInt32} {i : Instruction}
    (h : Names T ids i) (hsub : ids ⊆ ids') : Names T ids' i :=
  let ⟨id, hid, rest⟩ := h
  ⟨id, hsub hid, rest⟩

/-- Every allocated id is defined or pending, and every id is read in time. -/
structure Accounted (T : Text → Prop) (s : Generator) (pending : List UInt32) : Prop where
  ids : (resultIds s.declared ++ resultIds s.written ++ pending).Perm
    (firstIds s.assembly.allocated)
  inTime : InTime (fun r => r ∈ resultIds s.declared ∨ r ∈ aheadIds s.written ∨ r ∈ pending)
    s.written
  functions : ∀ entry ∈ s.functions, entry.2 ∈ aheadIds s.written ∨ entry.2 ∈ pending
  labels : ∀ entry ∈ s.body.labels, entry.2 ∈ aheadIds s.written ∨ entry.2 ∈ pending
  made : ∀ id ∈ s.body.unreachable, id ∈ aheadIds s.written ∨ id ∈ pending
  decorations : ∀ i ∈ s.assembly.decorations.toList, ∀ r ∈ i.reads,
    r ∈ firstIds s.assembly.allocated
  debug : ∀ i ∈ s.assembly.debug.toList, Names T (firstIds s.assembly.allocated) i

namespace Accounted

variable {T : Text → Prop} {s : Generator} {pending : List UInt32}

theorem perm (h : s.Accounted T pending) {pending' : List UInt32}
    (hp : pending.Perm pending') : s.Accounted T pending' where
  ids := (List.Perm.append_left _ hp.symm).trans h.ids
  inTime := h.inTime.mono fun _ hr => hr.imp_right fun hr => hr.imp_right hp.mem_iff.1
  functions entry he := (h.functions entry he).imp_right hp.mem_iff.1
  labels entry he := (h.labels entry he).imp_right hp.mem_iff.1
  made id hid := (h.made id hid).imp_right hp.mem_iff.1
  decorations := h.decorations
  debug := h.debug

/-- What may be read is defined, or belongs to a function or a label. -/
theorem readable (h : s.Accounted T pending) {id : UInt32} (hid : s.view.Readable id) :
    (id ∈ resultIds s.declared ∨ id ∈ aheadIds s.written ∨ id ∈ pending) ∨
      id ∈ resultIds s.written := by
  rcases hid with hid | hid | hid | hid
  · exact (List.mem_append.1 hid).imp_left Or.inl
  · obtain ⟨entry, he, rfl⟩ := List.mem_map.1 hid
    exact Or.inl (Or.inr (h.functions entry he))
  · obtain ⟨entry, he, rfl⟩ := List.mem_map.1 hid
    exact Or.inl (Or.inr (h.labels entry he))
  · exact Or.inl (Or.inr (h.made id hid))

theorem mem_firstIds (h : s.Accounted T pending) {id : UInt32} (hid : s.view.Readable id) :
    id ∈ firstIds s.assembly.allocated := by
  refine h.ids.mem_iff.1 ?_
  rw [List.mem_append, List.mem_append]
  have := aheadIds_subset s.written
  rcases h.readable hid with (hid | hid | hid) | hid
  · exact Or.inl (Or.inl hid)
  · exact Or.inl (Or.inr (this hid))
  · exact Or.inr hid
  · exact Or.inl (Or.inr hid)

/-- New ids are pending. They may be those of functions and of labels. -/
theorem allocate {s' : Generator} {ids : List UInt32} (h : s.Accounted T pending)
    (hfirst : firstIds s'.assembly.allocated = firstIds s.assembly.allocated ++ ids)
    (hassembly : s'.assembly = { s.assembly with allocated := s'.assembly.allocated })
    (hfunctions : ∀ entry ∈ s'.functions, entry ∈ s.functions ∨ entry.2 ∈ ids)
    (hlabels : ∀ entry ∈ s'.body.labels, entry ∈ s.body.labels ∨ entry.2 ∈ ids)
    (hmade : ∀ id ∈ s'.body.unreachable, id ∈ s.body.unreachable ∨ id ∈ ids) :
    s'.Accounted T (ids ++ pending) := by
  have hsub : firstIds s.assembly.allocated ⊆ firstIds s'.assembly.allocated :=
    hfirst ▸ List.subset_append_left _ _
  have hold : ∀ {P : Prop} {r : UInt32}, P ∨ r ∈ pending → P ∨ r ∈ ids ++ pending :=
    fun hr => hr.imp_right (List.mem_append_right _)
  have hdeclared : s'.declared = s.declared := by rw [declared, hassembly]; rfl
  have hwritten : s'.written = s.written := by rw [written, hassembly]; rfl
  have hdecorations : s'.assembly.decorations = s.assembly.decorations := by rw [hassembly]
  have hdebug : s'.assembly.debug = s.assembly.debug := by rw [hassembly]
  constructor
  · rw [hfirst, hdeclared, hwritten]
    refine List.Perm.trans ?_ (h.ids.append_right ids)
    simp only [List.append_assoc]
    exact List.Perm.append_left _ (List.Perm.append_left _ List.perm_append_comm)
  · rw [hdeclared, hwritten]
    exact h.inTime.mono fun r hr => hr.imp_right hold
  · rw [hwritten]
    exact fun entry he => (hfunctions entry he).elim (fun he => hold (h.functions entry he))
      fun he => Or.inr (List.mem_append_left _ he)
  · rw [hwritten]
    exact fun entry he => (hlabels entry he).elim (fun he => hold (h.labels entry he))
      fun he => Or.inr (List.mem_append_left _ he)
  · rw [hwritten]
    exact fun id hid => (hmade id hid).elim (fun hid => hold (h.made id hid))
      fun hid => Or.inr (List.mem_append_left _ hid)
  · rw [hdecorations]
    exact fun j hj r hr => hsub (h.decorations j hj r hr)
  · rw [hdebug]
    exact fun j hj => (h.debug j hj).mono hsub

end Accounted

end Generator

/-! ## Effects -/

/-- What a step does to the function section and to the ids in use. -/
@[ext] structure Effect where
  /-- The pending ids that are defined. -/
  takes : List UInt32 := []
  /-- The values that are given ids. -/
  keys : List Value := []
  /-- The labels that are made for blocks that are never reached. -/
  made : List UInt32 := []
  /-- The instructions that are written. -/
  out : List Instruction := []

namespace Effect

instance : Append Effect :=
  ⟨fun e f => ⟨e.takes ++ f.takes, e.keys ++ f.keys, e.made ++ f.made, e.out ++ f.out⟩⟩

@[simp] theorem append_takes (e f : Effect) : (e ++ f).takes = e.takes ++ f.takes := rfl
@[simp] theorem append_keys (e f : Effect) : (e ++ f).keys = e.keys ++ f.keys := rfl
@[simp] theorem append_made (e f : Effect) : (e ++ f).made = e.made ++ f.made := rfl
@[simp] theorem append_out (e f : Effect) : (e ++ f).out = e.out ++ f.out := rfl

end Effect

/-- A state and a later one: the instructions that were written in between, the pending ids that
they define, and the ids that are pending instead. -/
structure Outer (T : Text → Prop) (s : Generator) (takes gives : List UInt32)
    (out : List Instruction) (s' : Generator) : Prop where
  coherent : s'.Coherent
  declared : s.declared ⊆ s'.declared
  written : s'.written = s.written ++ out
  functions : s'.functions = s.functions
  accounted : ∀ pending, s.Accounted T (takes ++ pending) →
    s'.Accounted T (gives ++ pending)

namespace Outer

variable {T : Text → Prop} {s t u : Generator}

theorem refl (hs : s.Coherent) : Outer T s [] [] [] s where
  coherent := hs
  declared := List.Subset.refl _
  written := (List.append_nil _).symm
  functions := rfl
  accounted _ h := h

theorem trans {takes gives takes' gives' : List UInt32} {out out' : List Instruction}
    (h : Outer T s takes gives out t) (h' : Outer T t takes' gives' out' u) :
    Outer T s (takes ++ takes') (gives ++ gives') (out ++ out') u where
  coherent := h'.coherent
  declared := List.Subset.trans h.declared h'.declared
  written := by rw [h'.written, h.written, List.append_assoc]
  functions := h'.functions.trans h.functions
  accounted pending hs := by
    have swap : ∀ a b : List UInt32, (a ++ (b ++ pending)).Perm (b ++ (a ++ pending)) := by
      intro a b
      rw [← List.append_assoc, ← List.append_assoc]
      exact List.perm_append_comm.append_right pending
    rw [List.append_assoc] at hs ⊢
    have ht := h.accounted (takes' ++ pending) hs
    have hu := h'.accounted (gives ++ pending) (ht.perm (swap _ _))
    exact hu.perm (swap _ _)

/-- The body of the function before is forgotten. -/
theorem reset (T : Text → Prop) (hs : s.Coherent) :
    Outer T s [] [] [] { s with body := {} } :=
  { (refl hs : Outer T s [] [] [] s) with
    coherent := { hs with values := by simp }
    accounted := fun _ h => { h with labels := by simp, made := by simp } }

end Outer

/-- A state and the state after a step of a given effect. -/
structure Change (T : Text → Prop) (s : Generator) (e : Effect) (s' : Generator) : Prop
    extends Outer T s e.takes e.made e.out s' where
  labels : s'.body.labels = s.body.labels
  values : ∃ new, s'.body.values = new ++ s.body.values ∧ new.map Prod.fst = e.keys.reverse
  merges : s'.body.merges = (mergeIds e.out).reverse ++ s.body.merges
  distinct : s.body.merges.Nodup → s'.body.merges.Nodup
  made : s'.body.unreachable = s.body.unreachable ++ e.made

namespace Change

variable {T : Text → Prop} {s t u : Generator} {e f : Effect}

theorem le (h : Change T s e t) : s.view ≤ t.view where
  declared := h.declared
  functions := by
    change s.functions ⊆ t.functions
    rw [h.functions]
    exact List.Subset.refl _
  values := by
    obtain ⟨new, hnew, -⟩ := h.values
    change s.body.values <:+ t.body.values
    rw [hnew]
    exact List.suffix_append _ _
  labels := by
    change s.body.labels ⊆ t.body.labels
    rw [h.labels]
    exact List.Subset.refl _
  written := by
    change s.written ⊆ t.written
    rw [h.written]
    exact List.subset_append_left _ _
  made := by
    change s.body.unreachable ⊆ t.body.unreachable
    rw [h.made]
    exact List.subset_append_left _ _

/-- Without values, labels and merges the body stays as it is. -/
theorem body_eq (h : Change T s e t) (hkeys : e.keys = []) (hmade : e.made = [])
    (hmerges : mergeIds e.out = []) : t.body = s.body := by
  obtain ⟨new, hnew, hnil⟩ := h.values
  rw [hkeys] at hnil
  obtain rfl := List.map_eq_nil_iff.1 hnil
  have hunreachable := h.made
  have hclaimed := h.merges
  rw [hmade, List.append_nil] at hunreachable
  rw [hmerges] at hclaimed
  change Body.mk t.body.values t.body.labels t.body.merges t.body.unreachable = _
  rw [hnew, h.labels, hclaimed, hunreachable]
  rfl

theorem refl (h : s.Coherent) : Change T s {} s where
  toOuter := .refl h
  labels := rfl
  values := ⟨[], rfl, rfl⟩
  merges := rfl
  distinct := id
  made := by simp

theorem trans (h : Change T s e t) (h' : Change T t f u) :
    Change T s (e ++ f) u where
  toOuter := h.toOuter.trans h'.toOuter
  labels := h'.labels.trans h.labels
  values := by
    obtain ⟨new, hnew, hkeys⟩ := h.values
    obtain ⟨new', hnew', hkeys'⟩ := h'.values
    exact ⟨new' ++ new, by rw [hnew', hnew, List.append_assoc], by simp [hkeys, hkeys']⟩
  merges := by simp [h'.merges, h.merges]
  distinct hn := h'.distinct (h.distinct hn)
  made := by rw [h'.made, h.made, Effect.append_made, List.append_assoc]

end Change

/-! ## Single steps -/

variable {v : Value} {target : Section} {n : Interned} {words : List UInt32}

theorem objection?_eq_none {a : Assembly} {i : Instruction} :
    a.objection? target i = none ↔
      (a.finished = false ∧ target ≠ .header ∧ target ≠ .preamble) ∧
        (∀ home, i.home? = some home → home = target) ∧ i.fits := by
  unfold Assembly.objection?
  cases a.finished <;> cases i.home? <;> simp <;> grind

namespace Generator

/-- The state after an instruction was appended to a section. -/
def add (s : Generator) (target : Section) (i : Instruction) : Generator :=
  { s with assembly := s.assembly.append target i }

@[simp] theorem add_allocated (s : Generator) (target : Section) (i : Instruction) :
    (s.add target i).assembly.allocated = s.assembly.allocated := by cases target <;> rfl

variable {s s' : Generator} {i : Instruction}

/-- An instruction that was not refused fits and was appended. -/
theorem put_clean (h : (s.put target i).clean) :
    s.clean ∧ i.fits ∧ s.put target i = s.add target i := by
  unfold clean put Assembly.emitInstr at h
  unfold put Assembly.emitInstr
  cases hobj : s.assembly.objection? target i with
  | some cause =>
    rw [hobj] at h
    unfold Assembly.refuse at h
    cases hr : s.assembly.refusal with
    | none => simp [hr] at h
    | some d => simp [hr] at h
  | none =>
    rw [hobj] at h
    refine ⟨?_, ?_, rfl⟩
    · unfold Assembly.append at h
      cases target <;> exact h
    · exact (objection?_eq_none.1 hobj).2.2

theorem clean_of_put (h : (s.put target i).clean) : s.clean := (put_clean h).1

/-- If nothing was refused, all steps were taken. -/
theorem putAll_clean {s : Generator} {steps : List (Option Instruction)}
    (hc : (s.putAll .functions steps).clean) :
    s.clean ∧ s.putAll .functions steps = { s with assembly := { s.assembly with
      allocated := s.assembly.allocated + steps.countP Option.isNone
      functions := s.assembly.functions ++ (steps.filterMap fun step => step).toArray } } := by
  induction steps generalizing s with
  | nil => exact ⟨hc, by simp [putAll]⟩
  | cons step rest ih =>
    cases step with
    | none =>
      obtain ⟨hclean, heq⟩ := ih (s := s.alloc) hc
      refine ⟨hclean, heq.trans ?_⟩
      simp [alloc, Nat.add_assoc, Nat.add_comm]
    | some i =>
      obtain ⟨hput, heq⟩ := ih (s := s.put .functions i) hc
      obtain ⟨hclean, -, hadd⟩ := put_clean hput
      refine ⟨hclean, heq.trans ?_⟩
      rw [hadd]
      simp [add, Assembly.append]

end Generator

namespace Change

variable {T : Text → Prop} {s s' : Generator} {i : Instruction} {reads : List UInt32}
  {result : Option UInt32}

/-- Writes an instruction. Its result is new or was pending, and it may name a merge block. -/
theorem write {takes merges : List UInt32} {n : Nat} (hs : s.Coherent)
    (hp : i.Profile .functions result reads)
    (hs' : s' = { s with
      assembly := { s.assembly with allocated := n, functions := s.assembly.functions.push i }
      body := { s.body with merges } })
    (hmerges : merges = (mergeIds [i]).reverse ++ s.body.merges)
    (hdistinct : s.body.merges.Nodup → merges.Nodup)
    (hreads : ∀ r ∈ reads, s.view.Readable r) (hsub : firstIds s.assembly.allocated ⊆ firstIds n)
    (htakes : takes ⊆ aheadIds [i])
    (hids : ∀ pending, (resultIds s.declared ++ resultIds s.written ++ (takes ++ pending)).Perm
        (firstIds s.assembly.allocated) →
      (resultIds s.declared ++ (resultIds s.written ++ result.toList) ++ pending).Perm
        (firstIds n)) :
    Change T s { takes, out := [i] } s' := by
  have hwritten : s'.written = s.written ++ [i] := by
    rw [hs']
    exact Array.toList_push
  have hresults : resultIds s'.written = resultIds s.written ++ result.toList := by
    rw [hwritten, resultIds_append, resultIds_cons, hp.result, resultIds_nil, List.append_nil]
  subst hs'
  refine
    { coherent := { hs with written := ?_, values := ?_ }
      declared := List.Subset.refl _
      written := hwritten
      functions := rfl
      labels := rfl
      values := ⟨[], rfl, rfl⟩
      merges := hmerges
      distinct := hdistinct
      made := (List.append_nil _).symm
      accounted := ?_ }
  · rw [hwritten]
    exact List.forall_mem_append.2 ⟨hs.written, List.forall_mem_singleton.2 hp.shaped⟩
  · intro entry he
    rw [View.known, Generator.view, hresults, ← List.append_assoc]
    exact List.mem_append_left _ (hs.values entry he)
  intro pending h
  have hmove : ∀ r, r ∈ aheadIds s.written ∨ r ∈ takes ++ pending →
      r ∈ aheadIds (s.written ++ [i]) ∨ r ∈ pending := by
    intro r hr
    rw [aheadIds_append, List.mem_append]
    rcases hr with hr | hr
    · exact Or.inl (Or.inl hr)
    · exact (List.mem_append.1 hr).imp (fun hr => Or.inr (htakes hr)) fun hr => hr
  constructor
  · rw [hresults]
    exact hids pending h.ids
  all_goals try rw [hwritten]
  · rw [inTime_append]
    refine ⟨h.inTime.mono fun r hr => hr.imp_right (hmove r), ?_, trivial⟩
    intro r hr
    rw [hp.reads] at hr
    exact (h.readable (hreads r hr)).imp_left fun hr => hr.imp_right (hmove r)
  · exact fun entry he => hmove _ (h.functions entry he)
  · exact fun entry he => hmove _ (h.labels entry he)
  · exact fun id hid => hmove id (h.made id hid)
  · exact fun j hj r hr => hsub (h.decorations j hj r hr)
  · exact fun j hj => (h.debug j hj).mono hsub

/-- A step that leaves the function section and all tables as they are. -/
theorem quiet (hs' : s'.Coherent) (hdeclared : s.declared ⊆ s'.declared)
    (hwritten : s'.written = s.written) (hfunctions : s'.functions = s.functions)
    (hbody : s'.body = s.body)
    (hids : ∀ pending, (resultIds s.declared ++ resultIds s.written ++ pending).Perm
        (firstIds s.assembly.allocated) →
      (resultIds s'.declared ++ resultIds s.written ++ pending).Perm
        (firstIds s'.assembly.allocated))
    (hdecorations : ∀ pending, s.Accounted T pending →
      ∀ i ∈ s'.assembly.decorations.toList, ∀ r ∈ i.reads, r ∈ firstIds s'.assembly.allocated)
    (hdebug : ∀ pending, s.Accounted T pending → ∀ i ∈ s'.assembly.debug.toList,
      Generator.Names T (firstIds s'.assembly.allocated) i) :
    Change T s {} s' where
  coherent := hs'
  declared := hdeclared
  written := by rw [hwritten, List.append_nil]
  functions := hfunctions
  labels := by rw [hbody]
  values := ⟨[], by rw [hbody]; rfl, rfl⟩
  merges := by rw [hbody]; rfl
  distinct := by rw [hbody]; exact fun h => h
  made := by rw [hbody, List.append_nil]
  accounted pending h := by
    constructor
    · rw [hwritten]
      exact hids pending h.ids
    · rw [hwritten]
      exact h.inTime.mono fun r hr => hr.imp_left fun hr => resultIds_subset hdeclared hr
    · rw [hfunctions, hwritten]
      exact h.functions
    · rw [hbody, hwritten]
      exact h.labels
    · rw [hbody, hwritten]
      exact h.made
    · exact hdecorations _ h
    · exact hdebug _ h

end Change

/-- What a step did, if nothing was refused: its effect, and a fact about ids that stays true
when more is declared and written. -/
structure Spec (T : Text → Prop) (s : Generator) (e : Effect) (s' : Generator)
    (fact : View → Prop) : Prop where
  clean : s'.clean → s.clean
  change : s'.clean → s.Coherent → Change T s e s'
  fact : s'.clean → s.Coherent → ∀ N, s'.view ≤ N → fact N

namespace Spec

variable {T : Text → Prop} {s t u : Generator} {e f : Effect} {F G : View → Prop}
  {i : Instruction} {reads : List UInt32} {id : UInt32}

theorem same (h : s.Coherent → ∀ N, s.view ≤ N → F N) : Spec T s {} s F :=
  ⟨fun hc => hc, fun _ hs => Change.refl hs, fun _ hs => h hs⟩

theorem effect (h : Spec T s e t F) (he : e = f) : Spec T s f t F := he ▸ h

theorem imp (h : Spec T s e t F) (hFG : ∀ N, F N → G N) : Spec T s e t G :=
  ⟨h.clean, h.change, fun hc hs N hN => hFG N (h.fact hc hs N hN)⟩

/-- A second step, which may rely on what is known after the first. -/
theorem andThen (h : Spec T s e t F) (hclean : u.clean → t.clean)
    (h' : t.Coherent → F t.view → Spec T t f u G) :
    Spec T s (e ++ f) u fun N => F N ∧ G N := by
  have hsecond : u.clean → s.Coherent → Change T s e t ∧ Spec T t f u G := by
    intro hc hs
    have hchange := h.change (hclean hc) hs
    exact ⟨hchange, h' hchange.coherent (h.fact (hclean hc) hs _ (View.le_refl _))⟩
  refine ⟨fun hc => h.clean (hclean hc), fun hc hs => ?_, fun hc hs N hN => ?_⟩
  · obtain ⟨hchange, hspec⟩ := hsecond hc hs
    exact hchange.trans (hspec.change hc hchange.coherent)
  · obtain ⟨hchange, hspec⟩ := hsecond hc hs
    have hle := (hspec.change hc hchange.coherent).le
    exact ⟨h.fact (hclean hc) hs N (View.le_trans hle hN), hspec.fact hc hchange.coherent N hN⟩

theorem trans (h : Spec T s e t F) (h' : Spec T t f u G) :
    Spec T s (e ++ f) u fun N => F N ∧ G N :=
  h.andThen h'.clean fun _ _ => h'

/-- A step that needs a precondition: without it, it is only known to keep refusals. -/
structure If (pre : Prop) (T : Text → Prop) (s : Generator) (e : Effect) (s' : Generator)
    (fact : View → Prop) : Prop where
  clean : s'.clean → s.clean
  spec : s.Coherent → pre → Spec T s e s' fact

theorem follow {pre : Prop} (h : Spec T s e t F) (h' : If pre T t f u G)
    (hpre : F t.view → pre) : Spec T s (e ++ f) u fun N => F N ∧ G N :=
  h.andThen h'.clean fun hs hF => h'.spec hs (hpre hF)

theorem mergeIds_of_not_isMerge (h : i.isMerge = false) : mergeIds [i] = [] := by
  simp [mergeIds_cons, h]

/-- Writes an instruction without result. -/
theorem emit (hp : i.Profile .functions none reads) (hmerge : i.isMerge = false)
    (hreads : ∀ r ∈ reads, s.view.Readable r) :
    Spec T s { out := [i] } (s.put s.assembly.current i) fun _ => True := by
  refine ⟨Generator.clean_of_put, fun hc hs => ?_, fun _ _ _ _ => trivial⟩
  obtain ⟨-, -, heq⟩ := Generator.put_clean hc
  rw [heq, hs.current]
  refine Change.write hs hp rfl ?_ (fun h => h) hreads (List.Subset.refl _)
    (by simp) ?_
  · rw [mergeIds_of_not_isMerge hmerge]
    rfl
  · intro pending h
    simpa using h

/-- Writes an instruction whose result is a new id. -/
theorem emitNew (hp : i.Profile .functions (some s.next) reads) (hmerge : i.isMerge = false)
    (hreads : ∀ r ∈ reads, s.view.Readable r) :
    Spec T s { out := [i] } (s.alloc.put s.assembly.current i)
      fun N => s.next ∈ N.known := by
  have hchange : (s.alloc.put s.assembly.current i).clean → s.Coherent →
      Change T s { out := [i] } (s.alloc.put s.assembly.current i) := by
    intro hc hs
    obtain ⟨-, -, heq⟩ := Generator.put_clean hc
    rw [heq, hs.current]
    refine Change.write (n := s.assembly.allocated + 1) hs hp rfl ?_ (fun h => h) hreads
      (firstIds_subset_succ _) (by simp) ?_
    · rw [mergeIds_of_not_isMerge hmerge]
      rfl
    · intro pending h
      rw [firstIds_succ]
      refine List.Perm.trans ?_ (h.append_right [s.next])
      simp only [List.append_assoc, List.nil_append, Option.toList_some]
      exact List.Perm.append_left _ (List.Perm.append_left _ List.perm_append_comm)
  refine ⟨fun hc => Generator.clean_of_put (s := s.alloc) hc, hchange, fun hc hs N hN => ?_⟩
  apply View.known_subset hN
  change s.next ∈ resultIds _ ++ resultIds (s.alloc.put s.assembly.current i).written
  rw [(hchange hc hs).written, resultIds_append, resultIds_cons, hp.result]
  simp

/-- Writes the label of a block or the header of a function, whose id was pending. -/
theorem take (hp : i.Profile .functions (some id) reads)
    (hop : i.opcode = .label ∨ i.opcode = .func) (hreads : ∀ r ∈ reads, s.view.Readable r) :
    Spec T s { takes := [id], out := [i] } (s.put s.assembly.current i)
      fun _ => True := by
  refine ⟨Generator.clean_of_put, fun hc hs => ?_, fun _ _ _ _ => trivial⟩
  obtain ⟨-, -, heq⟩ := Generator.put_clean hc
  have hmerge : i.isMerge = false := by
    rcases hop with hop | hop <;> simp [Instruction.isMerge, hop] <;> decide
  have hahead : aheadIds [i] = [id] := by
    rcases hop with hop | hop <;> simp [aheadIds, hop, resultIds_cons, hp.result]
  rw [heq, hs.current]
  refine Change.write hs hp rfl ?_ (fun h => h) hreads (List.Subset.refl _)
    ?_ ?_
  · rw [mergeIds_of_not_isMerge hmerge]
    rfl
  · rw [hahead]
    exact List.Subset.refl _
  · intro pending h
    simpa using h

/-- Writes the merge of a construct after its label was claimed. -/
theorem claim (hp : i.Profile .functions none reads) (hmerge : i.isMerge = true)
    (hwords : i.operands = id :: words) (hnew : id ∉ s.body.merges)
    (hreads : ∀ r ∈ reads, s.view.Readable r)
    (ht : t = { s with body := { s.body with merges := id :: s.body.merges } }) :
    Spec T s { out := [i] } (t.put t.assembly.current i) fun _ => True := by
  subst ht
  refine ⟨Generator.clean_of_put, fun hc hs => ?_, fun _ _ _ _ => trivial⟩
  obtain ⟨-, -, heq⟩ := Generator.put_clean hc
  have hids : mergeIds [i] = [id] := by simp [mergeIds_cons, hmerge, hwords]
  rw [heq]
  dsimp only
  rw [hs.current]
  refine Change.write hs hp rfl ?_ ?_ hreads (List.Subset.refl _) (by simp) ?_
  · rw [hids]
    rfl
  · intro hn
    exact List.nodup_cons.2 ⟨hnew, hn⟩
  · intro pending h
    simpa using h

/-- Declares a type, constant or variable under a new id, and records it. -/
theorem declare (hp : i.Profile .types (some s.next) reads)
    (hreads : ∀ r ∈ reads, r ∈ resultIds s.declared)
    (hbacked : s.Coherent → n.Backed (s.declared ++ [i]))
    (ht : t = { s.alloc.put .types i with interned := n }) :
    Spec T s {} t fun N => i ∈ N.declared := by
  subst ht
  have hsub := firstIds_subset_succ s.assembly.allocated
  have hdeclared : ({ s.alloc.add .types i with interned := n } : Generator).declared =
      s.declared ++ [i] := Array.toList_push
  have hchange : ({ s.alloc.put .types i with interned := n } : Generator).clean → s.Coherent →
      Change T s {} { s.alloc.put .types i with interned := n } := by
    intro hc hs
    obtain ⟨-, -, heq⟩ := Generator.put_clean (s := s.alloc) hc
    rw [heq]
    refine Change.quiet
      { hs with backed := ?_, declared := ?_, inTime := ?_, values := fun entry he => ?_ } ?_
      rfl rfl rfl ?_ (fun _ h j hj r hr => hsub (h.decorations j hj r hr))
      fun _ h j hj => (h.debug j hj).mono hsub
    all_goals try rw [hdeclared]
    · exact hbacked hs
    · exact List.forall_mem_append.2 ⟨hs.declared, List.forall_mem_singleton.2 hp.shaped⟩
    · rw [inTime_append]
      refine ⟨hs.inTime, ?_, trivial⟩
      intro r hr
      rw [hp.reads] at hr
      exact Or.inr (hreads r hr)
    · rw [View.known, Generator.view, hdeclared, resultIds_append, List.append_assoc]
      rcases List.mem_append.1 (hs.values entry he) with h | h
      · exact List.mem_append_left _ h
      · exact List.mem_append_right _ (List.mem_append_right _ h)
    · exact List.subset_append_left _ _
    · intro pending h
      change List.Perm _ (firstIds (s.assembly.allocated + 1))
      rw [firstIds_succ, resultIds_append, resultIds_cons, hp.result]
      refine List.Perm.trans ?_ (h.append_right [s.next])
      simp only [List.append_assoc, Option.toList_some, resultIds_nil, List.append_nil]
      refine List.Perm.append_left _ ?_
      rw [← List.append_assoc (resultIds s.written)]
      exact List.perm_append_comm
  refine ⟨fun hc => Generator.clean_of_put (s := s.alloc) hc, hchange, fun hc hs N hN => ?_⟩
  apply hN.declared
  have heq := (Generator.put_clean (s := s.alloc) hc).2.2
  change i ∈ ({ s.alloc.put .types i with interned := n } : Generator).declared
  rw [heq, hdeclared]
  simp

/-- Changes the record of declarations. -/
theorem record (hbacked : s.Coherent → n.Backed s.declared) (ht : t = { s with interned := n }) :
    Spec T s {} t fun _ => True := by
  subst ht
  refine ⟨fun hc => hc, fun _ hs => ?_, fun _ _ _ _ => trivial⟩
  exact Change.quiet { hs with backed := hbacked hs } (List.Subset.refl _) rfl rfl rfl
    (fun _ h => h) (fun _ h => h.decorations) fun _ h => h.debug

/-- Declares a capability or an extension. -/
theorem require {a : Assembly} (names : List String) (ht : t = { s with assembly := a })
    (ha : a = { s.assembly with capabilities := a.capabilities, extensions := a.extensions })
    (hnames : ∀ e ∈ a.extensions, e ∈ s.assembly.extensions ∨ e ∈ names)
    (hbytes : ∀ e ∈ names, 0 ∉ bytes e) : Spec T s {} t fun _ => True := by
  subst ht
  rw [ha]
  refine ⟨fun hc => hc, fun _ hs => ?_, fun _ _ _ _ => trivial⟩
  refine Change.quiet { hs with extensions := ?_ } (List.Subset.refl _) rfl rfl rfl
    (fun _ h => h) (fun _ h => h.decorations) fun _ h => h.debug
  intro e he
  exact (hnames e he).elim (hs.extensions e) (hbytes e)

/-- Decorates ids that are defined. -/
theorem decorate (hp : i.Profile .decorations none reads)
    (hreads : ∀ r ∈ reads, s.view.Readable r) :
    Spec T s {} (s.put .decorations i) fun _ => True := by
  refine ⟨Generator.clean_of_put, fun hc hs => ?_, fun _ _ _ _ => trivial⟩
  obtain ⟨-, -, heq⟩ := Generator.put_clean hc
  have hpush : (s.add .decorations i).assembly.decorations.toList =
      s.assembly.decorations.toList ++ [i] := Array.toList_push
  rw [heq]
  refine Change.quiet { hs with decorations := ?_ } (List.Subset.refl _) rfl rfl rfl
    (fun _ h => h) ?_ fun _ h => h.debug
  · rw [hpush]
    exact List.forall_mem_append.2 ⟨hs.decorations, List.forall_mem_singleton.2 hp.shaped⟩
  · intro pending h
    rw [hpush]
    refine List.forall_mem_append.2 ⟨h.decorations, List.forall_mem_singleton.2 fun r hr => ?_⟩
    rw [hp.reads] at hr
    exact h.mem_firstIds (hreads r hr)

/-- Names an id or a member of it. -/
theorem name {text : Text} (hid : s.view.Readable id) (htext : T text)
    (hi : i = ⟨.name, id :: textWords text.bytes⟩ ∨
      ∃ member, i = ⟨.memberName, id :: member :: textWords text.bytes⟩) :
    Spec T s {} (s.put .debug i) fun _ => True := by
  refine ⟨Generator.clean_of_put, fun hc hs => ?_, fun _ _ _ _ => trivial⟩
  obtain ⟨-, -, heq⟩ := Generator.put_clean hc
  have hpush : (s.add .debug i).assembly.debug.toList = s.assembly.debug.toList ++ [i] :=
    Array.toList_push
  rw [heq]
  refine Change.quiet { hs with } (List.Subset.refl _) rfl rfl rfl (fun _ h => h)
    (fun _ h => h.decorations) fun pending h => ?_
  rw [hpush]
  exact List.forall_mem_append.2
    ⟨h.debug, List.forall_mem_singleton.2 ⟨id, h.mem_firstIds hid, text, htext, hi⟩⟩

/-- Gives an id to a value. -/
theorem define (hid : id ∈ s.view.known)
    (ht : t = { s with body := { s.body with values := (v, id) :: s.body.values } }) :
    Spec T s { keys := [v] } t fun N => (v, id) :: s.body.values <:+ N.values := by
  subst ht
  refine ⟨fun hc => hc, fun _ hs => ?_, fun _ _ N hN => hN.values⟩
  exact
    { (Change.refl hs : Change T s {} s) with
      coherent := { hs with values := List.forall_mem_cons.2 ⟨hid, hs.values⟩ }
      values := ⟨[(v, id)], rfl, rfl⟩
      accounted := fun _ h => { h with } }

/-- Makes the label of a block that is never reached. -/
theorem make (ht : t = { s.alloc with
      body := { s.body with unreachable := s.body.unreachable ++ [s.next] } }) :
    Spec T s { made := [s.next] } t fun N => s.next ∈ N.made := by
  subst ht
  refine ⟨fun hc => hc, fun _ hs => ?_, fun _ _ N hN => hN.made ?_⟩
  · exact
      { (Change.refl hs : Change T s {} s) with
        coherent := { hs with }
        made := rfl
        accounted := fun _ h => h.allocate (firstIds_succ _) rfl (fun _ he => Or.inl he)
          (fun _ he => Or.inl he) fun _ hid => List.mem_append.1 hid }
  · change s.next ∈ s.body.unreachable ++ [s.next]
    simp

/-! The same steps, after others whose facts they rely on. -/

theorem andEmit (h : Spec T s e t F) (hp : i.Profile .functions none reads)
    (hmerge : i.isMerge = false) (hreads : F t.view → ∀ r ∈ reads, t.view.Readable r) :
    Spec T s (e ++ { out := [i] }) (t.put t.assembly.current i) F :=
  (h.andThen Generator.clean_of_put fun _ hF => emit hp hmerge (hreads hF)).imp fun _ hN => hN.1

theorem andEmitNew (h : Spec T s e t F) (hp : i.Profile .functions (some t.next) reads)
    (hmerge : i.isMerge = false) (hreads : F t.view → ∀ r ∈ reads, t.view.Readable r) :
    Spec T s (e ++ { out := [i] }) (t.alloc.put t.assembly.current i)
      fun N => F N ∧ t.next ∈ N.known :=
  h.andThen (fun hc => Generator.clean_of_put (s := t.alloc) hc) fun _ hF =>
    emitNew hp hmerge (hreads hF)

theorem andClaim (h : Spec T s e t F) (hp : i.Profile .functions none reads)
    (hmerge : i.isMerge = true) (hwords : i.operands = id :: words) (hnew : id ∉ t.body.merges)
    (hreads : F t.view → ∀ r ∈ reads, t.view.Readable r) :
    Spec T s (e ++ { out := [i] })
      (({ t with body := { t.body with merges := id :: t.body.merges } } : Generator).put
        t.assembly.current i) F := by
  have hclean : (({ t with body := { t.body with merges := id :: t.body.merges } } :
      Generator).put t.assembly.current i).clean → t.clean := fun hc =>
    Generator.clean_of_put (s := { t with body := _ }) hc
  exact (h.andThen hclean fun _ hF => claim hp hmerge hwords hnew (hreads hF) rfl).imp
    fun _ hN => hN.1

theorem andDefineNext (h : Spec T s e t F) (hid : F t.view → id ∈ t.view.known) :
    Spec T s (e ++ { keys := [v] })
      { t with body := { t.body with values := (v, id) :: t.body.values } }
      fun N => F N ∧ (v, id) :: t.body.values <:+ N.values :=
  h.andThen (fun hc => hc) fun _ hF => define (hid hF) rfl

theorem andDefine (h : Spec T s e t F) (hid : F t.view → id ∈ t.view.known) :
    Spec T s (e ++ { keys := [v] })
      { t with body := { t.body with values := (v, id) :: t.body.values } }
      fun N => F N ∧ (v, id) ∈ N.values :=
  (h.andDefineNext hid).imp fun _ hN => ⟨hN.1, hN.2.subset List.mem_cons_self⟩

theorem andRecord (h : Spec T s {} t F)
    (hbacked : t.Coherent → F t.view → n.Backed t.declared) :
    Spec T s {} { t with interned := n } F := by
  have hclean : ({ t with interned := n } : Generator).clean → t.clean := fun hc => hc
  exact (h.andThen (f := {}) hclean fun ht hF => record (fun _ => hbacked ht hF) rfl).imp
    fun _ hN => hN.1

theorem andDecorate (h : Spec T s {} t F) (hp : i.Profile .decorations none reads)
    (hreads : F t.view → ∀ r ∈ reads, t.view.Readable r) :
    Spec T s {} (t.put .decorations i) F :=
  (h.andThen (f := {}) Generator.clean_of_put fun _ hF => decorate hp (hreads hF)).imp
    fun _ hN => hN.1

theorem andName {text : Text} (h : Spec T s e t F) (htext : T text)
    (hid : t.Coherent → F t.view → t.view.Readable id)
    (hi : i = ⟨.name, id :: textWords text.bytes⟩ ∨
      ∃ member, i = ⟨.memberName, id :: member :: textWords text.bytes⟩) :
    Spec T s e (t.put .debug i) F := by
  refine effect (imp (h.andThen Generator.clean_of_put fun ht hF => name (hid ht hF) htext hi)
    fun _ hN => hN.1) ?_
  ext1 <;> simp

end Spec

end Elementwise.Spirv
