import Elementwise.Proofs.Accounting

/-!
# What asking for a type or constant gives

The id that is returned is declared as the type or constant, now and ever after: it was found in
the record or declared and recorded just now. Either way nothing is written to the function
section and no value gets an id.
-/
namespace Elementwise.Spirv
open IR Gen

/-! ## The record -/

/-- A type or constant that is declared when it is first asked for. -/
inductive Declaration where
  | scalar (t : Ty)
  | pointer (pointee storage : UInt32)
  | vector (component count : UInt32)
  | array (elem : UInt32)
  /-- By result and parameter types. -/
  | function (signature : List UInt32)
  | constant (type : UInt32) (bits : UInt64)
  deriving DecidableEq, Repr

namespace Declaration

/-- The id on record. -/
def id? (n : Interned) : Declaration → Option UInt32
  | scalar t => List.lookup t n.scalars
  | pointer pointee storage => List.lookup (pointee, storage) n.pointers
  | vector component count => List.lookup (component, count) n.vectors
  | array elem => List.lookup elem n.arrays
  | function signature => List.lookup signature n.functions
  | constant type bits => List.lookup (type, bits) n.constants

def record (id : UInt32) (n : Interned) : Declaration → Interned
  | scalar t => { n with scalars := (t, id) :: n.scalars }
  | pointer pointee storage => { n with pointers := ((pointee, storage), id) :: n.pointers }
  | vector component count => { n with vectors := ((component, count), id) :: n.vectors }
  | array elem => { n with arrays := (elem, id) :: n.arrays }
  | function signature => { n with functions := (signature, id) :: n.functions }
  | constant type bits => { n with constants := ((type, bits), id) :: n.constants }

variable {id : UInt32} {n : Interned} {d e : Declaration}

@[simp] theorem id?_record_self : d.id? (d.record id n) = some id := by
  cases d <;> simp [id?, record]

theorem id?_record_of_ne (h : e ≠ d) : e.id? (d.record id n) = e.id? n := by
  cases d <;> cases e <;> simp only [id?, record, List.lookup_cons]
  all_goals
    split
    next heq => exact absurd (by simpa using heq) h
    next => rfl

theorem id?_record (h : e.id? n = some id) (hnew : d.id? n = none) {word : UInt32} :
    e.id? (d.record word n) = some id := by
  refine (id?_record_of_ne ?_).trans h
  rintro rfl
  cases h.symm.trans hnew

end Declaration

/-- The state after a new declaration. -/
def Generator.declare (s : Generator) (d : Declaration) (i : Instruction) : Generator :=
  { s.alloc.put .types i with interned := d.record s.next s.interned }

/-- The module with the capability that a type needs, if it needs one. -/
def Assembly.require (a : Assembly) (t : Ty) : Assembly :=
  (scalarCapability? t).elim a a.addCapability

def Generator.require (s : Generator) (t : Ty) : Generator :=
  { s with assembly := s.assembly.require t }

variable {T : Text → Prop} {s s' : Generator} {id : UInt32} {t : Ty}

namespace Gen

variable {d : Declaration} {make : Gen UInt32} {op : Opcode} {operands : UInt32 → List UInt32}

/-- What is on record is found, and what is not is made. -/
def intern (d : Declaration) (make : Gen UInt32) : Gen UInt32 := do
  match d.id? (← get).interned with
  | some id => return id
  | none => make

/-- A declaration is looked up, or made and recorded. -/
def internAs (d : Declaration) (op : Opcode) (operands : UInt32 → List UInt32) : Gen UInt32 :=
  intern d do
    let id ← build (.declare op operands)
    modifyInterned fun n => d.record id n
    return id

theorem intern_of_recorded (h : d.id? s.interned = some id) : intern d make s = .ok id s := by
  change (match d.id? s.interned with | some id => pure id | none => make : Gen UInt32) s = _
  rw [h]
  rfl

theorem intern_of_new (h : d.id? s.interned = none) : intern d make s = make s := by
  change (match d.id? s.interned with | some id => pure id | none => make : Gen UInt32) s = _
  rw [h]

theorem internAs_of_new (h : d.id? s.interned = none) :
    internAs d op operands s = .ok s.next (s.declare d ⟨op, operands s.next⟩) :=
  intern_of_new h

theorem internAs_ok (h : internAs d op operands s = .ok id s') :
    d.id? s.interned = some id ∧ s = s' ∨
      d.id? s.interned = none ∧ s.next = id ∧ s.declare d ⟨op, operands id⟩ = s' := by
  cases hid : d.id? s.interned with
  | some found =>
    cases (intern_of_recorded hid).symm.trans h
    exact Or.inl ⟨rfl, rfl⟩
  | none =>
    cases (internAs_of_new hid).symm.trans h
    exact Or.inr ⟨rfl, rfl, rfl⟩

/-- A scalar is declared after the capability that it needs. -/
theorem scalarId_of_new (h : (Declaration.scalar t).id? s.interned = none) :
    scalarId t s =
      match scalarInstr? (s.require t).next t with
      | some i => .ok (s.require t).next ((s.require t).declare (.scalar t) i)
      | none => (fail .missingType : Gen UInt32) (s.require t) := by
  refine (intern_of_new (d := .scalar t) h).trans ?_
  unfold Generator.require Assembly.require
  cases scalarCapability? t <;> cases t <;> rfl

theorem scalarId_ok (h : scalarId t s = .ok id s') :
    (Declaration.scalar t).id? s.interned = some id ∧ s = s' ∨
      (Declaration.scalar t).id? s.interned = none ∧ (s.require t).next = id ∧
        ∃ i, scalarInstr? id t = some i ∧ (s.require t).declare (.scalar t) i = s' := by
  cases hid : (Declaration.scalar t).id? s.interned with
  | some found =>
    cases (intern_of_recorded (d := .scalar t) hid).symm.trans h
    exact Or.inl ⟨rfl, rfl⟩
  | none =>
    have hrun := (scalarId_of_new hid).symm.trans h
    cases hi : scalarInstr? (s.require t).next t with
    | none =>
      rw [hi] at hrun
      cases hrun
    | some i =>
      rw [hi] at hrun
      cases hrun
      exact Or.inr ⟨rfl, rfl, i, hi, rfl⟩

/-- The stride of an array is declared with it. -/
theorem runtimeArrayId_of_new {elem : UInt32} (stride : UInt32)
    (h : (Declaration.array elem).id? s.interned = none) :
    runtimeArrayId elem stride s = .ok s.next
      ((s.declare (.array elem) ⟨.typeRuntimeArray, [s.next, elem]⟩).put .decorations
        ⟨.decorate, [s.next, Decoration.arrayStride, stride]⟩) :=
  intern_of_new (d := .array elem) h

end Gen

theorem Spec.If.intern {d : Declaration} {op : Opcode} {operands : UInt32 → List UInt32}
    {pre : Prop} {F : View → Prop} {reads : List UInt32} (h : internAs d op operands s = .ok id s')
    (hp : (⟨op, operands id⟩ : Instruction).Profile .types (some id) reads)
    (hreads : pre → ∀ r ∈ reads, r ∈ resultIds s.declared)
    (hbacked : s.Coherent → pre → d.id? s.interned = none →
      (d.record id s.interned).Backed (s.declared ++ [⟨op, operands id⟩]))
    (hfound : s.Coherent → pre → d.id? s.interned = some id → ∀ N, s.view ≤ N → F N)
    (hnew : pre → ∀ N, s.view ≤ N → ⟨op, operands id⟩ ∈ N.declared → F N) :
    Spec.If pre T s {} s' F := by
  rcases internAs_ok h with ⟨hid, rfl⟩ | ⟨hid, rfl, rfl⟩
  · refine ⟨fun hc => hc, fun _ hpre => Spec.same fun hs => ?_⟩
    exact hfound hs hpre hid
  · refine ⟨fun hc => Generator.clean_of_put (s := s.alloc) hc, fun _ hpre => ?_⟩
    have hspec : Spec T s {} (s.declare d ⟨op, operands s.next⟩)
        fun N => ⟨op, operands s.next⟩ ∈ N.declared :=
      Spec.declare hp (hreads hpre) (fun hs => hbacked hs hpre hid) rfl
    refine ⟨hspec.clean, hspec.change, fun hc hs N hN => ?_⟩
    exact hnew hpre N (View.le_trans (hspec.change hc hs).le hN) (hspec.fact hc hs N hN)

/-! ## Types -/

@[simp] theorem normalized_normalized (t : Ty) : normalized (normalized t) = normalized t := by
  induction t with
  | int w =>
    have h32 : hasIntWidth 32 = true := rfl
    cases hw : hasIntWidth w <;> simp [normalized, hw, h32]
  | float w =>
    have h32 : hasFloatWidth 32 = true := rfl
    cases hw : hasFloatWidth w <;> simp [normalized, hw, h32]
  | pointer elem space ih => simp [normalized, ih]
  | _ => rfl

theorem normalize_ok {u : Ty} (h : normalize t s = .ok u s') :
    u = normalized t ∧ Spec T s {} s' fun _ => True := by
  have hreport : ∀ v, s.Coherent → (s.interned.report v).Backed s.declared := by
    intro v hs
    unfold Interned.report
    split
    · exact hs.backed
    · exact { hs.backed with }
  cases hpart : unsupportedPart? t with
  | some v =>
    simp only [Gen.normalize, hpart, bind_ok, modifyInterned_ok, pure_ok] at h
    obtain ⟨_, t', ht, rfl, rfl⟩ := h
    exact ⟨rfl, Spec.record (hreport v) ht.symm⟩
  | none =>
    simp only [Gen.normalize, hpart, pure_ok] at h
    obtain ⟨rfl, rfl⟩ := h
    exact ⟨rfl, Spec.same fun _ _ _ => trivial⟩

theorem storageClassOf_ok {space : Space} {c : UInt32} :
    storageClassOf space s = .ok c s' ↔ storageClass space = .ok c ∧ s = s' := by
  unfold storageClassOf
  cases storageClass space with
  | ok b => simp [pure_ok]
  | error e => simp [Gen.fail_ok]

theorem addCapability_spec {c : UInt32} {u : Unit} (h : addCapability c s = .ok u s') :
    Spec T s {} s' fun _ => True :=
  Spec.require [] (modify_ok.1 h).symm rfl (fun _ he => Or.inl he) (by simp)

theorem pointerId_spec {storage pointee : UInt32} (h : pointerId storage pointee s = .ok id s') :
    Spec.If (pointee ∈ resultIds s.declared) T s {} s'
      fun N => ⟨.typePointer, [id, storage, pointee]⟩ ∈ N.declared := by
  refine Spec.If.intern (d := .pointer pointee storage) h Profile.typePointer ?_ ?_ ?_ ?_
  · intro hpre r hr
    rwa [List.mem_singleton.1 hr]
  · intro hs _ hnew
    exact hs.backed.append_pointer (lookup_eq_none_iff_keys.1 hnew)
  · intro hs _ hid N hN
    exact hN.declared ((hs.backed.pointers _ _ _).1 (mem_of_lookup hid))
  · intro _ N _ hmem
    exact hmem

theorem vectorId_spec {component count : UInt32} (h : vectorId component count s = .ok id s') :
    Spec.If (component ∈ resultIds s.declared) T s {} s'
      fun N => ⟨.typeVector, [id, component, count]⟩ ∈ N.declared := by
  refine Spec.If.intern (d := .vector component count) h Profile.typeVector ?_ ?_ ?_ ?_
  · intro hpre r hr
    rwa [List.mem_singleton.1 hr]
  · intro hs _ _
    have hb := hs.backed.append_other Opcode.typeVector [id, component, count] (by decide)
    refine { hb with vectors := ?_ }
    intro c k x hm
    rcases List.mem_cons.1 hm with hm | hm
    · cases hm
      simp
    · exact hb.vectors c k x hm
  · intro hs _ hid N hN
    exact hN.declared (hs.backed.vectors _ _ _ (mem_of_lookup hid))
  · intro _ N _ hmem
    exact hmem

theorem functionTypeId_spec {result : UInt32} {params : List UInt32}
    (h : functionTypeId result params s = .ok id s') :
    Spec.If (∀ r ∈ result :: params, r ∈ resultIds s.declared) T s {} s'
      fun N => ⟨.typeFunction, id :: result :: params⟩ ∈ N.declared := by
  refine Spec.If.intern (d := .function (result :: params)) h Profile.typeFunction ?_ ?_ ?_ ?_
  · intro hpre
    exact hpre
  · intro hs _ _
    have hb := hs.backed.append_other Opcode.typeFunction (id :: result :: params) (by decide)
    refine { hb with functions := ?_ }
    intro signature x hm
    rcases List.mem_cons.1 hm with hm | hm
    · cases hm
      simp
    · exact hb.functions signature x hm
  · intro hs _ hid N hN
    exact hN.declared (hs.backed.functions _ _ (mem_of_lookup hid))
  · intro _ N _ hmem
    exact hmem

theorem require_spec (s : Generator) (t : Ty) :
    Spec T s {} (s.require t) fun _ => True := by
  refine Spec.require [] rfl ?_ (fun e he => Or.inl ?_) (by simp)
  · unfold Assembly.require
    cases scalarCapability? t <;> rfl
  · unfold Assembly.require at he
    cases hc : scalarCapability? t <;> simpa [hc, Assembly.addCapability] using he

theorem scalarId_spec (h : scalarId t s = .ok id s') :
    Spec T s {} s' fun N => Declares N.declared t id := by
  rcases scalarId_ok h with ⟨hid, rfl⟩ | ⟨hid, rfl, i, hi, rfl⟩
  · refine Spec.same fun hs N hN => ?_
    obtain ⟨i, hmem, hi⟩ := (hs.backed.scalars t id).1 (mem_of_lookup hid)
    exact .scalar hi (hN.declared hmem)
  · have hdeclare : Spec T (s.require t) {} ((s.require t).declare (.scalar t) i)
        fun N => i ∈ N.declared := by
      refine Spec.declare (scalarInstr?_profile hi) (by simp) (fun hs => ?_) rfl
      exact hs.backed.append_scalar hi (lookup_eq_none_iff_keys.1 hid)
    exact ((require_spec s t).trans hdeclare).imp fun N hN => .scalar hi hN.2

theorem declaredId_spec (h : declaredId t s = .ok id s') :
    Spec T s {} s' fun N => Declares N.declared t id := by
  induction t generalizing id s' with
  | missing => exact absurd h Gen.fail_ok.1
  | void => exact scalarId_spec h
  | bool => exact scalarId_spec h
  | int w => exact scalarId_spec h
  | float w => exact scalarId_spec h
  | pointer elem space ih =>
    simp only [declaredId, bind_ok, storageClassOf_ok] at h
    obtain ⟨pointee, s₁, helem, storage, _, ⟨hstorage, rfl⟩, hpointer⟩ := h
    refine ((ih helem).follow (pointerId_spec hpointer) fun hd => hd.mem_resultIds).imp ?_
    intro N hN
    exact .pointer hN.1 hstorage hN.2

/-- The id of a type is declared as the type that stands for it. -/
theorem typeId_spec (h : typeId t s = .ok id s') : Spec T s {} s' fun N => N.type t id := by
  simp only [typeId, bind_ok] at h
  obtain ⟨u, s₁, hnormalize, hdeclared⟩ := h
  obtain ⟨rfl, hspec⟩ : _ ∧ Spec T s {} s₁ _ := normalize_ok hnormalize
  exact (hspec.trans (declaredId_spec hdeclared)).imp fun N hN => hN.2

theorem runtimeArrayId_spec {elem stride : UInt32} (h : runtimeArrayId elem stride s = .ok id s') :
    Spec.If (elem ∈ resultIds s.declared) T s {} s'
      fun N => ⟨.typeRuntimeArray, [id, elem]⟩ ∈ N.declared := by
  cases hid : (Declaration.array elem).id? s.interned with
  | some found =>
    cases (intern_of_recorded (d := .array elem) hid).symm.trans h
    refine ⟨fun hc => hc, fun _ _ => Spec.same fun hs N hN => ?_⟩
    exact hN.declared (hs.backed.arrays _ _ (mem_of_lookup hid))
  | none =>
    cases (runtimeArrayId_of_new stride hid).symm.trans h
    refine ⟨fun hc => Generator.clean_of_put (s := s.alloc) (Generator.clean_of_put hc),
      fun _ hpre => ?_⟩
    have hdeclare : Spec T s {}
        (s.declare (.array elem) ⟨.typeRuntimeArray, [s.next, elem]⟩)
        fun N => ⟨.typeRuntimeArray, [s.next, elem]⟩ ∈ N.declared := by
      refine Spec.declare Profile.typeRuntimeArray ?_ (fun hs => ?_) rfl
      · intro r hr
        rwa [List.mem_singleton.1 hr]
      · have hb := hs.backed.append_other Opcode.typeRuntimeArray [s.next, elem] (by decide)
        refine { hb with arrays := ?_ }
        intro x y hm
        rcases List.mem_cons.1 hm with hm | hm
        · cases hm
          simp
        · exact hb.arrays x y hm
    refine hdeclare.andDecorate Profile.decorate fun hd r hr => ?_
    rw [List.mem_singleton.1 hr]
    exact Or.inl (List.mem_append_left _
      (mem_resultIds.2 ⟨_, hd, Profile.typeRuntimeArray.result⟩))

theorem structId_spec {members : List UInt32} (h : structId members s = .ok id s') :
    Spec.If (∀ r ∈ members, r ∈ resultIds s.declared) T s {} s'
      fun N => ⟨.typeStruct, id :: members⟩ ∈ N.declared := by
  simp only [structId, Build.typeStruct, declare_ok] at h
  obtain ⟨rfl, rfl⟩ := h
  refine ⟨fun hc => Generator.clean_of_put (s := s.alloc) hc, fun _ hpre => ?_⟩
  exact Spec.declare Profile.typeStruct hpre
    (fun hs => hs.backed.append_other _ _ (by decide)) rfl

theorem byteSize_spec {size : UInt32} (h : byteSize t s = .ok size s') :
    Spec T s {} s' fun _ => True := by
  simp only [byteSize, bind_ok] at h
  obtain ⟨u, s₁, hnormalize, h⟩ := h
  obtain ⟨-, hspec⟩ : _ ∧ Spec T s {} s₁ _ := normalize_ok hnormalize
  cases u <;> simp only [pure_ok, Gen.fail_ok] at h
  all_goals
    obtain ⟨-, rfl⟩ := h
    exact hspec

theorem stridedPointerId_spec {elem : Ty} {space : Space}
    (h : stridedPointerId elem space s = .ok id s') :
    Spec T s {} s' fun N => N.type (.pointer elem space) id := by
  simp only [stridedPointerId, bind_ok, get_ok, ite_ok, pure_ok] at h
  obtain ⟨type, s₁, htype, _, _, ⟨rfl, rfl⟩, h⟩ := h
  have hspec : Spec T s {} s₁ _ := typeId_spec htype
  by_cases hstride : s₁.interned.strides.contains type = true
  · rw [if_pos hstride] at h
    obtain ⟨rfl, rfl⟩ := h
    exact hspec
  · rw [if_neg hstride] at h
    simp only [Build.decorate, emitTo_ok, modifyInterned_ok] at h
    obtain ⟨size, s₂, hsize, _, _, rfl, _, _, rfl, rfl, rfl⟩ := h
    have hboth : Spec T s {} s₂ fun N => N.type (.pointer elem space) type :=
      (hspec.trans (byteSize_spec hsize)).imp fun N hN => hN.1
    refine (hboth.andDecorate Profile.decorate ?_).andRecord fun ht _ => { ht.backed with }
    intro hd r hr
    rw [List.mem_singleton.1 hr]
    exact Or.inl (List.mem_append_left _ hd.mem_resultIds)

/-! ## Constants -/

theorem constantInstr?_opcode {type : UInt32} {bits : UInt64} {i : Instruction}
    (h : constantInstr? type id bits t = some i) :
    i.opcode ∉ [.typeVoid, .typeBool, .typeInt, .typeFloat, Opcode.typePointer] := by
  cases t <;> cases h <;> dsimp only
  · cases bits != 0 <;> decide
  · decide
  · decide

/-- A constant is declared under the type id and bits that were asked for. -/
theorem constantOf_spec {type : UInt32} {bits : UInt64} {op : Opcode}
    {operands : UInt32 → List UInt32}
    (hinstr : ∀ id, constantInstr? type id bits t = some ⟨op, operands id⟩)
    (h : constantOf type bits (.declare op operands) s = .ok id s') :
    Spec.If (Declares s.declared t type) T s {} s' fun N => ∃ u i,
      Declares N.declared u type ∧ constantInstr? type id bits u = some i ∧ i ∈ N.declared := by
  have hp := constantInstr?_profile (hinstr id)
  refine Spec.If.intern (d := .constant type bits) h hp ?_ ?_ ?_ ?_
  · intro hpre r hr
    rw [List.mem_singleton.1 hr]
    exact hpre.mem_resultIds
  · intro hs hpre _
    have hb := hs.backed.append_other op (operands id) (constantInstr?_opcode (hinstr id))
    refine { hb with constants := ?_ }
    intro type' bits' id' hm
    rcases List.mem_cons.1 hm with hm | hm
    · cases hm
      refine ⟨t, _, ?_, hinstr id, by simp⟩
      cases hpre with
      | scalar hi hmem => exact (hs.backed.scalars _ _).2 ⟨_, hmem, hi⟩
      | pointer => cases hinstr id
    · exact hb.constants type' bits' id' hm
  · intro hs _ hid N hN
    obtain ⟨u, i, hu, hi, hm⟩ := hs.backed.constants _ _ _ (mem_of_lookup hid)
    obtain ⟨j, hj, hscalar⟩ := (hs.backed.scalars u type).1 hu
    exact ⟨u, i, .scalar hscalar (hN.declared hj), hi, hN.declared hm⟩
  · intro hpre N hN hmem
    exact ⟨t, _, hpre.mono hN.declared, hinstr id, hmem⟩

/-- The id of a constant is declared as it, provided that ids are unique. -/
theorem constantId_spec {c : Constant} (h : constantId c s = .ok id s') :
    Spec T s {} s' fun N => id ∈ N.known ∧
      ((resultIds N.declared).Nodup → DeclaresConstant N.declared c id) := by
  simp only [constantId, bind_ok] at h
  obtain ⟨u, s₁, hnormalize, type, s₂, htype, h⟩ := h
  obtain ⟨rfl, hspec⟩ : _ ∧ Spec T s {} s₁ _ := normalize_ok hnormalize
  have hdeclared : Spec T s {} s₂ fun N => Declares N.declared (normalized c.type) type :=
    (hspec.trans (declaredId_spec htype)).imp fun N hN => hN.2
  have hconstant : ∀ {bits : UInt64} {op : Opcode} {operands : UInt32 → List UInt32},
      bits = constantBits c (normalized c.type) →
      (∀ id, constantInstr? type id bits (normalized c.type) = some ⟨op, operands id⟩) →
      constantOf type bits (.declare op operands) s₂ = .ok id s' →
      Spec T s {} s' fun N => id ∈ N.known ∧
        ((resultIds N.declared).Nodup → DeclaresConstant N.declared c id) := by
    intro bits op operands hbits hinstr hrun
    refine Spec.imp (hdeclared.follow (constantOf_spec hinstr hrun) fun hF => hF) ?_
    rintro N ⟨ht, u, i, hu, hi, hmem⟩
    refine ⟨List.mem_append_left _ (mem_resultIds.2 ⟨i, hmem, (constantInstr?_profile hi).result⟩),
      fun hnodup => ?_⟩
    obtain rfl := ht.injective hnodup hu
    exact ⟨type, i, ht, hbits ▸ hi, hmem⟩
  cases hnorm : normalized c.type <;> rw [hnorm] at h hconstant <;>
    simp only [numberId, Gen.fail_ok] at h
  · refine hconstant ?_ ?_ h
    · rfl
    · intro id
      cases c.bits != 0 <;> rfl
  · exact hconstant rfl (fun id => rfl) h
  · exact hconstant rfl (fun id => rfl) h

end Elementwise.Spirv
