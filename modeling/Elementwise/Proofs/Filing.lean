import Elementwise.Proofs.Emission
import Elementwise.Proofs.SteadyRuns

/-!
# Filing types and constants

What asking for a type or a constant does to the state is a run of a few steps, also if it fails
in the end. Each step keeps what is on record, and keeps the ids of what is on record apart as
long as there are ids left.
-/
namespace Elementwise.Spirv
open IR Gen Relation

/-! ## Steps -/

/-- A step of asking for a type or a constant. A constant is declared only after its type. -/
inductive Files : Generator → Generator → Prop
  | report {s : Generator} (t : Ty) : Files s { s with interned := s.interned.report t }
  | require {s : Generator} (c : UInt32) :
      Files s { s with assembly := s.assembly.addCapability c }
  | declare {s : Generator} {d : Declaration} {i : Instruction} (hnew : d.id? s.interned = none)
      (htyped : ∀ type bits, d = .constant type bits →
        ∃ t, (Declaration.scalar t).id? s.interned = some type ∧
          constantInstr? type s.next bits t = some i) : Files s (s.declare d i)
  | struct {s : Generator} (i : Instruction) : Files s (s.alloc.put .types i)
  | decorate {s : Generator} (i : Instruction) : Files s (s.put .decorations i)
  | stride {s : Generator} (id : UInt32) :
      Files s { s with interned := { s.interned with strides := id :: s.interned.strides } }

variable {s t s' : Generator} {id : UInt32} {d : Declaration} {i : Instruction}
  {operands : UInt32 → List UInt32}

/-! ## What steps keep -/

namespace Generator

/-- An instruction is appended, or it is refused and no code changes. -/
theorem put_cases (s : Generator) (target : Section) (i : Instruction) :
    s.put target i = s.add target i ∨ (s.put target i).SameCode s := by
  unfold put Assembly.emitInstr
  cases s.assembly.objection? target i with
  | none => exact Or.inl rfl
  | some cause => exact Or.inr (SameCode.refuse s cause)

theorem declared_subset_put (s : Generator) (target : Section) (i : Instruction) :
    s.declared ⊆ (s.put target i).declared := by
  intro j hj
  rcases s.put_cases target i with h | h
  · rw [h]
    cases target <;> simp_all [add, Assembly.append, declared]
  · rwa [declared, h.types]

/-- What a state has on record and has declared, a later one has too. -/
structure Keeps (s s' : Generator) : Prop where
  recorded : ∀ {d : Declaration} {id : UInt32},
    d.id? s.interned = some id → d.id? s'.interned = some id
  reported : s.interned.unsupported ⊆ s'.interned.unsupported
  allocated : s.assembly.allocated ≤ s'.assembly.allocated
  finished : s'.assembly.finished = s.assembly.finished
  declared : s.declared ⊆ s'.declared

protected theorem Keeps.refl (s : Generator) : s.Keeps s :=
  ⟨id, List.Subset.refl _, Nat.le_refl _, rfl, List.Subset.refl _⟩

protected theorem Keeps.trans (h : s.Keeps t) (h' : t.Keeps s') : s.Keeps s' where
  recorded hd := h'.recorded (h.recorded hd)
  reported := List.Subset.trans h.reported h'.reported
  allocated := Nat.le_trans h.allocated h'.allocated
  finished := h'.finished.trans h.finished
  declared := List.Subset.trans h.declared h'.declared

end Generator

theorem Files.keeps (h : Files s s') : s.Keeps s' := by
  cases h with
  | report t =>
    have hid : ∀ d : Declaration, d.id? (s.interned.report t) = d.id? s.interned :=
      (quiet_report s t).id?
    refine ⟨fun hd => (hid _).trans hd, ?_, Nat.le_refl _, rfl, List.Subset.refl _⟩
    intro v hv
    dsimp only [Interned.report]
    split
    · exact hv
    · exact List.mem_append_left _ hv
  | require c => exact ⟨id, List.Subset.refl _, Nat.le_refl _, rfl, List.Subset.refl _⟩
  | @declare d i hnew htyped =>
    refine ⟨fun hd => Declaration.id?_record hd hnew, ?_, ?_, ?_, s.alloc.declared_subset_put _ _⟩
    · cases d <;> exact List.Subset.refl _
    · exact Nat.le_of_lt (Nat.lt_of_lt_of_eq (Nat.lt_succ_self _)
        (s.alloc.put_allocated .types i).symm)
    · exact s.alloc.put_finished .types i
  | struct i =>
    refine ⟨id, List.Subset.refl _, ?_, ?_, s.alloc.declared_subset_put _ _⟩
    · exact Nat.le_of_lt (Nat.lt_of_lt_of_eq (Nat.lt_succ_self _)
        (s.alloc.put_allocated .types i).symm)
    · exact s.alloc.put_finished .types i
  | decorate i =>
    exact ⟨id, List.Subset.refl _, Nat.le_of_eq (s.put_allocated _ _).symm, s.put_finished _ _,
      s.declared_subset_put _ _⟩
  | stride id =>
    refine ⟨?_, List.Subset.refl _, Nat.le_refl _, rfl, List.Subset.refl _⟩
    intro d _ hd
    cases d <;> exact hd

theorem keeps_of_files (h : ReflTransGen Files s s') : s.Keeps s' := by
  induction h with
  | refl => exact .refl s
  | tail _ hstep ih => exact ih.trans hstep.keeps

/-- Ids on record are in use and, as long as there are ids left, of one declaration each; and the
constants on record are declared after their types. -/
structure Generator.Filed (s : Generator) : Prop where
  within : ∀ {d : Declaration} {id : UInt32},
    d.id? s.interned = some id → id.toNat ≤ s.assembly.allocated
  apart : s.assembly.allocated < 2 ^ 32 - 1 → ∀ {d e : Declaration} {id : UInt32},
    d.id? s.interned = some id → e.id? s.interned = some id → d = e
  written : s.assembly.finished = false → ∀ {type : UInt32} {bits : UInt64} {id : UInt32},
    (Declaration.constant type bits).id? s.interned = some id →
    ∃ t i, (Declaration.scalar t).id? s.interned = some type ∧
      constantInstr? type id bits t = some i ∧ i ∈ s.declared

namespace Generator.Filed

theorem empty (h : s.interned = {}) : s.Filed := by
  have hnone : ∀ d : Declaration, d.id? s.interned = none := by
    intro d
    rw [h]
    cases d <;> rfl
  constructor
  · intro d id hd
    simp [hnone] at hd
  · intro _ d e id hd
    simp [hnone] at hd
  · intro _ type bits id hd
    simp [hnone] at hd

/-- Nothing goes on record. -/
theorem of_same (h : s.Filed) (hkeeps : s.Keeps s')
    (hsame : ∀ d : Declaration, d.id? s'.interned = d.id? s.interned) : s'.Filed := by
  constructor
  · intro d id hd
    exact Nat.le_trans (h.within (hsame d ▸ hd)) hkeeps.allocated
  · intro hbound d e id hd he
    have := hkeeps.allocated
    exact h.apart (by omega) (hsame d ▸ hd) (hsame e ▸ he)
  · intro hopen type bits id hd
    obtain ⟨t, i, ht, hi, hmem⟩ := h.written (hkeeps.finished ▸ hopen) (hsame _ ▸ hd)
    exact ⟨t, i, (hsame _).trans ht, hi, hkeeps.declared hmem⟩

theorem mem_declared_put (hopen : s.assembly.finished = false) (hhome : i.home? = some .types)
    (hfits : i.fits) : i ∈ (s.put .types i).declared := by
  have hobj : s.assembly.objection? .types i = none := by
    apply objection?_eq_none.2
    refine ⟨⟨hopen, by decide, by decide⟩, ?_, hfits⟩
    intro home h
    exact Option.some.inj (h.symm.trans hhome)
  simp [Generator.put, Assembly.emitInstr, hobj, Assembly.append, Generator.declared]

/-- A new declaration goes on record, under an id larger than those before. -/
theorem declare (h : s.Filed) (hnew : d.id? s.interned = none)
    (htyped : ∀ type bits, d = .constant type bits →
      ∃ t, (Declaration.scalar t).id? s.interned = some type ∧
        constantInstr? type s.next bits t = some i) : (s.declare d i).Filed := by
  have hkeeps : s.Keeps (s.declare d i) := (Files.declare hnew htyped).keeps
  have hallocated : (s.declare d i).assembly.allocated = s.assembly.allocated + 1 :=
    s.alloc.put_allocated .types i
  have hself : d.id? (s.declare d i).interned = some s.next := Declaration.id?_record_self
  have hother : ∀ {e : Declaration}, e ≠ d →
      e.id? (s.declare d i).interned = e.id? s.interned := Declaration.id?_record_of_ne
  constructor
  · intro e id he
    rw [hallocated]
    by_cases hed : e = d
    · subst hed
      obtain rfl : s.next = id := Option.some.inj (hself.symm.trans he)
      exact s.toNat_next_le
    · have := h.within (hother hed ▸ he)
      omega
  · intro hbound e f id he hf
    rw [hallocated] at hbound
    have hnext : s.next.toNat = s.assembly.allocated + 1 := Generator.toNat_next (by omega)
    -- An id that was on record before is smaller than the new one.
    have hfresh : ∀ {e : Declaration}, e ≠ d → e.id? (s.declare d i).interned ≠ some s.next := by
      intro e hed he
      have := h.within (hother hed ▸ he)
      omega
    by_cases hed : e = d
    · subst hed
      obtain rfl : s.next = id := Option.some.inj (hself.symm.trans he)
      by_contra hne
      exact hfresh (Ne.symm hne) hf
    · by_cases hfd : f = d
      · subst hfd
        obtain rfl : s.next = id := Option.some.inj (hself.symm.trans hf)
        exact absurd he (hfresh hed)
      · exact h.apart (by omega) (hother hed ▸ he) (hother hfd ▸ hf)
  · intro hopen type bits id hc
    have hopen' : s.alloc.assembly.finished = false := hkeeps.finished ▸ hopen
    by_cases hcd : .constant type bits = d
    · subst hcd
      obtain rfl : s.next = id := Option.some.inj (hself.symm.trans hc)
      obtain ⟨t, ht, hi⟩ := htyped type bits rfl
      refine ⟨t, i, hkeeps.recorded ht, hi, ?_⟩
      refine mem_declared_put (s := s.alloc) hopen' (constantInstr?_profile hi).home ?_
      cases t <;> cases hi
      · rfl
      all_goals
        simp only [Instruction.fits]
        split <;> rfl
    · obtain ⟨t, j, ht, hj, hmem⟩ := h.written hopen' (hother hcd ▸ hc)
      exact ⟨t, j, hkeeps.recorded ht, hj, hkeeps.declared hmem⟩

end Generator.Filed

theorem Files.filed (h : Files s s') (hs : s.Filed) : s'.Filed := by
  have hkeeps := h.keeps
  cases h with
  | report t => exact hs.of_same hkeeps (quiet_report s t).id?
  | require c => exact hs.of_same hkeeps fun _ => rfl
  | declare hnew htyped => exact hs.declare hnew htyped
  | struct i => exact hs.of_same hkeeps fun _ => rfl
  | decorate i => exact hs.of_same hkeeps fun _ => rfl
  | stride id => exact hs.of_same hkeeps fun d => by cases d <;> rfl

theorem filed_of_files (h : ReflTransGen Files s s') (hs : s.Filed) : s'.Filed := by
  induction h with
  | refl => exact hs
  | tail _ hstep ih => exact hstep.filed ih

/-! ## Runs of steps -/

/-- A failure is a diagnostic of a malformed program. -/
def Failure.Structural : Failure → Prop
  | .diagnostic d => d.kind = .structural
  | .panic _ => False

/-- The state after a run, which a failure keeps. -/
def Gen.after {α : Type} (x : Gen α) (s : Generator) : Generator :=
  match x s with
  | .ok _ t => t
  | .error _ t => t

namespace Gen

variable {α β : Type} {x : Gen α}

theorem after_of_ok {a : α} (h : x s = .ok a t) : after x s = t := by
  unfold after
  rw [h]

/-- A run files what it declares, and fails only for a program that is malformed. -/
structure Asks (x : Gen α) (s : Generator) : Prop where
  files : ReflTransGen Files s (after x s)
  structural : ∀ {e : Failure} {t : Generator}, x s = .error e t → e.Structural

theorem Asks.ok {a : α} (hx : Asks x s) (h : x s = .ok a t) : ReflTransGen Files s t :=
  after_of_ok h ▸ hx.files

theorem asks_of_ok {a : α} (h : x s = .ok a t) (hfiles : ReflTransGen Files s t) : Asks x s where
  files := (after_of_ok h).symm ▸ hfiles
  structural herror := by
    rw [h] at herror
    cases herror

theorem asks_pure (a : α) : Asks (pure a) s := asks_of_ok rfl .refl

theorem asks_fail {cause : Cause} (h : cause.kind = .structural) : Asks (fail cause : Gen α) s where
  files := .refl
  structural herror := by
    cases herror
    exact h

theorem asks_bind {f : α → Gen β} (hx : Asks x s)
    (hf : ∀ a t, x s = .ok a t → Asks (f a) t) : Asks (x >>= f) s := by
  cases hrun : x s with
  | ok a u =>
    have hbind : (x >>= f) s = f a u := by
      simp only [bind, EStateM.bind, hrun]
    have hafter : after (x >>= f) s = after (f a) u := by
      simp only [after, hbind]
    refine ⟨?_, fun herror => (hf a u hrun).structural (hbind.symm.trans herror)⟩
    rw [hafter]
    exact (hx.ok hrun).trans (hf a u hrun).files
  | error e u =>
    have hbind : (x >>= f) s = .error e u := by
      simp only [bind, EStateM.bind, hrun]
    have hafter : after (x >>= f) s = after x s := by
      simp only [after, hbind, hrun]
    refine ⟨hafter.symm ▸ hx.files, fun herror => ?_⟩
    rw [hbind] at herror
    cases herror
    exact hx.structural hrun

theorem asks_internAs {op : Opcode}
    (htyped : ∀ type bits, d = .constant type bits →
      ∃ t, (Declaration.scalar t).id? s.interned = some type ∧
        constantInstr? type s.next bits t = some ⟨op, operands s.next⟩) :
    Asks (internAs d op operands) s := by
  cases hid : d.id? s.interned with
  | some id => exact asks_of_ok (intern_of_recorded hid) .refl
  | none => exact asks_of_ok (internAs_of_new hid) (.single (.declare hid htyped))

theorem asks_normalize (u : Ty) : Asks (Gen.normalize u) s := by
  unfold Gen.normalize
  cases unsupportedPart? u with
  | none => exact asks_pure _
  | some scalar =>
    refine asks_bind (asks_of_ok rfl (.single ?_)) fun _ _ _ => asks_pure _
    exact .report scalar

theorem asks_storageClassOf (space : Space) : Asks (storageClassOf space) s := by
  unfold storageClassOf
  cases hclass : storageClass space with
  | ok c => exact asks_pure _
  | error cause =>
    have hcause : cause = .unknownSpace space := by
      unfold storageClass at hclass
      split_ifs at hclass
      cases hclass
      rfl
    exact asks_fail (hcause ▸ rfl)

theorem asks_pointerId (storage pointee : UInt32) : Asks (pointerId storage pointee) s :=
  asks_internAs (d := .pointer pointee storage) (by simp)

theorem files_require (s : Generator) (u : Ty) : ReflTransGen Files s (s.require u) := by
  unfold Generator.require Assembly.require
  cases scalarCapability? u with
  | none => exact .refl
  | some c => exact .single (.require c)

theorem asks_scalarId (u : Ty) : Asks (scalarId u) s := by
  cases hid : (Declaration.scalar u).id? s.interned with
  | some id => exact asks_of_ok (intern_of_recorded (d := .scalar u) hid) .refl
  | none =>
    have hrun := scalarId_of_new hid
    cases hi : scalarInstr? (s.require u).next u with
    | none =>
      rw [hi] at hrun
      refine ⟨?_, fun herror => ?_⟩
      · rw [after, hrun]
        exact files_require s u
      · cases hrun.symm.trans herror
        rfl
    | some i =>
      rw [hi] at hrun
      exact asks_of_ok hrun ((files_require s u).tail (.declare hid (by simp)))

theorem asks_declaredId (u : Ty) : Asks (declaredId u) s := by
  induction u generalizing s with
  | missing => exact asks_fail rfl
  | pointer elem space ih =>
    refine asks_bind ih fun pointee t _ => ?_
    exact asks_bind (asks_storageClassOf space) fun storage _ _ => asks_pointerId storage pointee
  | _ => exact asks_scalarId _

theorem asks_typeId (u : Ty) : Asks (typeId u) s :=
  asks_bind (asks_normalize u) fun _ _ _ => asks_declaredId _

theorem asks_byteSize (u : Ty) : Asks (byteSize u) s := by
  refine asks_bind (asks_normalize u) fun v _ _ => ?_
  cases v with
  | int w | float w => exact asks_pure _
  | _ => exact asks_fail rfl

theorem asks_stridedPointerId (elem : Ty) (space : Space) :
    Asks (stridedPointerId elem space) s := by
  refine asks_bind (asks_typeId _) fun id t _ => ?_
  refine asks_bind (x := get) (asks_of_ok rfl .refl) fun _ _ hget => ?_
  obtain ⟨rfl, rfl⟩ := get_ok.1 hget
  by_cases hfound : t.interned.strides.contains id = true
  · rw [if_pos hfound]
    exact asks_pure _
  · rw [if_neg hfound]
    refine asks_bind (asks_byteSize elem) fun size _ _ => ?_
    refine asks_bind (asks_of_ok rfl (.single (.decorate _))) fun _ _ _ => ?_
    exact asks_bind (asks_of_ok rfl (.single (.stride id))) fun _ _ _ => asks_pure _

theorem asks_runtimeArrayId (elem stride : UInt32) : Asks (runtimeArrayId elem stride) s := by
  cases hid : (Declaration.array elem).id? s.interned with
  | some id => exact asks_of_ok (intern_of_recorded (d := .array elem) hid) .refl
  | none =>
    exact asks_of_ok (runtimeArrayId_of_new stride hid)
      (.tail (.single (.declare hid (by simp))) (.decorate _))

theorem asks_constantOf {type : UInt32} {bits : UInt64} {u : Ty} {op : Opcode}
    (htype : (Declaration.scalar u).id? s.interned = some type)
    (hinstr : ∀ id, constantInstr? type id bits u = some ⟨op, operands id⟩) :
    Asks (constantOf type bits (.declare op operands)) s := by
  refine asks_internAs (d := .constant type bits) ?_
  intro type' bits' heq
  cases heq
  exact ⟨u, htype, hinstr _⟩

/-- A constant of a type that was declared before. -/
theorem asks_constant {c : Constant} {u : Ty} {type : UInt32}
    (htype : declaredId u t = .ok type s) :
    Asks (match u with
      | .bool => constantOf type (if c.bits != 0 then 1 else 0) (.constantBool type (c.bits != 0))
      | .int w => numberId type w c
      | .float w => numberId type w c
      | _ => fail (.constantType c.type)) s := by
  cases u with
  | bool =>
    refine asks_constantOf (scalarId_recorded htype) fun id => ?_
    cases c.bits != 0 <;> rfl
  | int w => exact asks_constantOf (scalarId_recorded htype) fun id => rfl
  | float w => exact asks_constantOf (scalarId_recorded htype) fun id => rfl
  | _ => exact asks_fail rfl

theorem asks_constantId (c : Constant) : Asks (constantId c) s := by
  refine asks_bind (asks_normalize _) fun u t _ => ?_
  exact asks_bind (asks_declaredId u) fun type t' htype => asks_constant htype

end Gen

end Elementwise.Spirv
