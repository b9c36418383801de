import Elementwise.Proofs.Lockstep
import Elementwise.Proofs.Lowering

/-!
# The course of a run

Types and constants are declared, functions written and kernels assembled by the steps that are
open to them, and in the same way whatever the options are: names, capabilities, extensions and
entry points come and go without a trace in the rest of the module.
-/
namespace Elementwise.Spirv
open IR Gen Relation

variable {r : Relabeling} {w debug : Bool} {s t s' : Generator}

theorem Gen.Lockstep.writes {α β : Type} {V : α → β → Prop} {x : Gen α} {y : Gen β}
    (h : Lockstep r w Interns V x y) : Lockstep r w (Writes debug) V x y :=
  h.mono fun _ _ => .interns

theorem Gen.Lockstep.assembles {α β : Type} {V : α → β → Prop} {x : Gen α} {y : Gen β}
    (h : Lockstep r w (Writes debug) V x y) : Lockstep r w (Assembles debug) V x y :=
  h.mono fun _ _ => .writes

/-- If nothing was refused in the end, nothing was before. -/
theorem Gen.Lockstep.clean {α β : Type} {V : α → β → Prop} {x : Gen α} {y : Gen β} {a : α}
    (h : Lockstep .same false (Writes debug) V x y) (hx : x s = .ok a s') (hc : s'.clean) :
    s.clean :=
  clean_of_writes (h.reaches hx) hc

theorem Gen.Silent.assembles {α : Type} {x : Gen α} {a : α} (h : Silent (Writes debug) x a) :
    Silent (Assembles debug) x a :=
  h.mono fun _ _ => .writes

theorem fail_lockstep {α β : Type} {R : Generator → Generator → Prop} {V : α → β → Prop}
    {cause cause' : Cause} (h : cause'.kind = cause.kind) :
    Lockstep r w R V (fail cause) (fail cause') :=
  .throw (congrArg Sum.inl h)

/-! ## Types and constants -/

theorem addCapability_silent (c : UInt32) : Silent Interns (addCapability c) ⟨⟩ :=
  .modify (fun _ => by constructor <;> rfl) fun _ => .quiet ⟨rfl, rfl, rfl, rfl, fun _ => rfl, rfl⟩

theorem addExtension_silent (name : String) : Silent Interns (addExtension name) ⟨⟩ :=
  .modify (fun _ => by constructor <;> rfl) fun _ => .quiet ⟨rfl, rfl, rfl, rfl, fun _ => rfl, rfl⟩

theorem addCapability_steady (c : UInt32) : Steady r w Interns (addCapability c) :=
  .modify (fun _ => .quiet ⟨rfl, rfl, rfl, rfl, fun _ => rfl, rfl⟩) (fun h => { h with })
    fun _ => rfl

theorem addExtension_steady (name : String) : Steady r w Interns (addExtension name) :=
  .modify (fun _ => .quiet ⟨rfl, rfl, rfl, rfl, fun _ => rfl, rfl⟩) (fun h => { h with })
    fun _ => rfl

theorem modifyBody_lockstep {f g : Body → Body} (h : ∀ b, (f b).relabel r = g (b.relabel r)) :
    Lockstep r w Interns Eq (modifyBody f) (modifyBody g) :=
  .modify (fun _ => .quiet ⟨rfl, rfl, rfl, rfl, fun _ => rfl, rfl⟩) (·.withBody g)
    fun s => congrArg (fun b => { s.relabel r with body := b }) (h s.body)

theorem quiet_report (s : Generator) (t : Ty) :
    s.Quiet { s with interned := s.interned.report t } := by
  refine ⟨?_, rfl, rfl, rfl, fun _ => rfl, rfl⟩
  dsimp only [Interned.report]
  split <;> rfl

theorem normalize_lockstep (t : Ty) :
    Lockstep r w Interns (fun u v => u = v ∧ u = normalized t) (normalize t) (normalize t) := by
  unfold Gen.normalize
  cases unsupportedPart? t with
  | none => exact .pure ⟨rfl, rfl⟩
  | some scalar =>
    refine Lockstep.andThen (.modify (fun s => ?_) (fun h => ?_) fun _ => rfl) fun _ =>
      .pure ⟨rfl, rfl⟩
    · exact .quiet (quiet_report s scalar)
    · exact h.withInterned (·.report scalar)

theorem normalize_steady (t : Ty) : Steady r w Interns (normalize t) :=
  (normalize_lockstep t).imp fun _ _ h => h.1

theorem storageClassOf_steady (space : Space) : Steady r w Interns (storageClassOf space) := by
  unfold storageClassOf
  cases storageClass space with
  | ok c => exact .pure rfl
  | error cause => exact fail_lockstep rfl

theorem Generator.Alike.declare (h : s.Alike r w t) (d : Declaration) (i : Instruction) :
    (s.declare d i).Alike r w (t.declare d i) := by
  unfold Generator.declare
  rw [h.next]
  exact (h.alloc.put _ _).withInterned (d.record t.next)

section Interning

variable {R : Generator → Generator → Prop} {d : Declaration} {op : Opcode}
  {operands : UInt32 → List UInt32}

/-- What is on record is found in both states. -/
theorem recorded_paired {x : Gen UInt32} (hst : s.Alike r w t)
    (hfound : ∀ {s : Generator} {id : UInt32}, d.id? s.interned = some id → x s = .ok id s)
    (hnew : d.id? s.interned = none → d.id? t.interned = none →
      Paired r w R Eq s (x s) (x t)) : Paired r w R Eq s (x s) (x t) := by
  have hsame : d.id? t.interned = d.id? s.interned := by rw [hst.interned]
  cases hid : d.id? s.interned with
  | some id =>
    rw [hfound hid, hfound (hsame.trans hid)]
    exact .ok rfl hst .refl
  | none => exact hnew hid (hsame.trans hid)

theorem internAs_steady (hd : ∀ elem, d ≠ .array elem)
    (hi : ∀ id, d.DeclaredBy id ⟨op, operands id⟩) :
    Steady r w Interns (internAs d op operands) := by
  intro s t hst
  refine recorded_paired hst intern_of_recorded fun hid hid' => ?_
  rw [internAs_of_new hid, internAs_of_new hid', ← hst.next]
  exact .ok rfl (hst.declare _ _) (.single (.declare hd hid (hi _)))

end Interning

theorem pointerId_steady (storage pointee : UInt32) :
    Steady r w Interns (pointerId storage pointee) :=
  internAs_steady (d := .pointer pointee storage) (by simp) fun _ => rfl

theorem vectorId_steady (component count : UInt32) :
    Steady r w Interns (vectorId component count) :=
  internAs_steady (d := .vector component count) (by simp) fun _ => rfl

theorem functionTypeId_steady (result : UInt32) (params : List UInt32) :
    Steady r w Interns (functionTypeId result params) :=
  internAs_steady (d := .function (result :: params)) (by simp) fun _ => rfl

theorem constantOf_steady {type : UInt32} {bits : UInt64} {op : Opcode}
    {operands : UInt32 → List UInt32}
    (hi : ∀ id, (Declaration.constant type bits).DeclaredBy id ⟨op, operands id⟩) :
    Steady r w Interns (constantOf type bits (.declare op operands)) :=
  internAs_steady (d := .constant type bits) (by simp) hi

theorem scalarId_steady (t : Ty) : Steady r w Interns (scalarId t) := by
  intro s u hsu
  refine recorded_paired (d := .scalar t) hsu intern_of_recorded fun hid hid' => ?_
  have hrequire : (s.require t).Alike r w (u.require t) := by
    refine hsu.map (g := (·.require t)) ?_ rfl
    unfold Generator.require Assembly.require
    cases scalarCapability? t <;> exact fun h => { h with }
  have hquiet : s.Quiet (s.require t) := by
    unfold Generator.require Assembly.require
    cases scalarCapability? t <;> exact ⟨rfl, rfl, rfl, rfl, fun _ => rfl, rfl⟩
  rw [scalarId_of_new hid, scalarId_of_new hid', ← hrequire.next]
  cases hi : scalarInstr? (s.require t).next t with
  | none => exact .error rfl
  | some i =>
    exact .ok rfl (hrequire.declare _ _)
      (.tail (.single (.quiet hquiet)) (.declare (by simp) hid hi))

theorem declaredId_steady (t : Ty) : Steady r w Interns (declaredId t) := by
  induction t with
  | missing => exact fail_lockstep rfl
  | pointer elem space ih =>
    refine ih.andThen fun pointee => ?_
    exact (storageClassOf_steady space).andThen fun storage => pointerId_steady storage pointee
  | _ => exact scalarId_steady _

theorem typeId_steady (t : Ty) : Steady r w Interns (typeId t) :=
  (normalize_steady t).andThen declaredId_steady

theorem byteSize_lockstep (t : Ty) :
    Lockstep r w Interns (fun m n => m = n ∧ m = numberWidth (normalized t) / 8 ∧
      ((normalized t).isInt || (normalized t).isFloat) = true) (byteSize t) (byteSize t) := by
  refine (normalize_lockstep t).bind ?_
  rintro u _ ⟨rfl, hu⟩
  rw [← hu]
  cases u with
  | int w | float w => exact .pure ⟨rfl, rfl, rfl⟩
  | _ => exact fail_lockstep rfl

theorem byteSize_steady (t : Ty) : Steady r w Interns (byteSize t) :=
  (byteSize_lockstep t).imp fun _ _ h => h.1

/-- Numbers are declared by all the bits that they have in their declared width. -/
theorem toNat_declaredBits_lt {c : Constant} {w : UInt32}
    (hw : hasIntWidth w = true ∨ hasFloatWidth w = true) :
    w = 64 ∨ (declaredBits c w).toNat < UInt32.size := by
  have hmask : ∀ (bits mask : UInt64), mask.toNat < UInt32.size →
      (bits &&& mask).toNat < UInt32.size := by
    intro bits mask h
    rw [UInt64.toNat_and]
    exact Nat.lt_of_le_of_lt Nat.and_le_right h
  have hwidth : w = 8 ∨ w = 16 ∨ w = 32 ∨ w = 64 := by
    simp only [hasIntWidth, hasFloatWidth, Bool.or_eq_true, decide_eq_true_eq] at hw
    rcases hw with (((h | h) | h) | h) | ((h | h) | h) <;> simp [h]
  unfold declaredBits
  rcases hwidth with rfl | rfl | rfl | rfl
  · exact Or.inr (hmask _ _ (by decide))
  · exact Or.inr (hmask _ _ (by decide))
  · exact Or.inr (hmask _ _ (by decide))
  · exact Or.inl rfl

theorem hasIntWidth_of_normalized {t : Ty} {w : UInt32} (h : normalized t = .int w) :
    hasIntWidth w = true := by
  have hagain := normalized_normalized t
  rw [h, normalized] at hagain
  split at hagain
  next hw => exact hw
  next => cases hagain; rfl

theorem hasFloatWidth_of_normalized {t : Ty} {w : UInt32} (h : normalized t = .float w) :
    hasFloatWidth w = true := by
  have hagain := normalized_normalized t
  rw [h, normalized] at hagain
  split at hagain
  next hw => exact hw
  next => cases hagain; rfl

theorem constantId_steady (c : Constant) : Steady r w Interns (constantId c) := by
  refine (normalize_lockstep c.type).bind ?_
  rintro t _ ⟨rfl, ht⟩
  refine (declaredId_steady t).andThen fun type => ?_
  cases t with
  | bool =>
    refine constantOf_steady fun id => ⟨.bool, ?_⟩
    cases c.bits != 0
    · exact ⟨Or.inl rfl, rfl⟩
    · exact ⟨Or.inr rfl, rfl⟩
  | int w =>
    have hw := hasIntWidth_of_normalized ht.symm
    exact constantOf_steady fun id => ⟨.int w, toNat_declaredBits_lt (Or.inl hw), rfl⟩
  | float w =>
    have hw := hasFloatWidth_of_normalized ht.symm
    exact constantOf_steady fun id => ⟨.float w, toNat_declaredBits_lt (Or.inr hw), rfl⟩
  | _ => exact fail_lockstep rfl

/-! ## Strides -/

theorem id?_of_internAs {d : Declaration} {op : Opcode} {operands : UInt32 → List UInt32}
    {id : UInt32} (h : internAs d op operands s = .ok id s') : d.id? s'.interned = some id := by
  rcases internAs_ok h with ⟨hid, rfl⟩ | ⟨-, rfl, rfl⟩
  · exact hid
  · exact Declaration.id?_record_self

theorem pointerId_recorded {storage pointee id : UInt32}
    (h : pointerId storage pointee s = .ok id s') :
    (Declaration.pointer pointee storage).id? s'.interned = some id :=
  id?_of_internAs (d := .pointer pointee storage) h

theorem scalarId_recorded {t : Ty} {id : UInt32} (h : scalarId t s = .ok id s') :
    (Declaration.scalar t).id? s'.interned = some id := by
  rcases scalarId_ok h with ⟨hid, rfl⟩ | ⟨-, rfl, i, -, rfl⟩
  · exact hid
  · exact Declaration.id?_record_self (d := .scalar t)

/-- A pointer to a number is on record with the number. -/
theorem typeId_recorded {elem : Ty} {space : Space} {id : UInt32}
    (hnumber : ((normalized elem).isInt || (normalized elem).isFloat) = true)
    (h : typeId (.pointer elem space) s = .ok id s') :
    ∃ pointee storage, (Declaration.pointer pointee storage).id? s'.interned = some id ∧
      (Declaration.scalar (normalized elem)).id? s'.interned = some pointee := by
  obtain ⟨u, s₁, hnormalize, hdeclared⟩ := bind_ok.1 h
  obtain ⟨rfl, -⟩ : _ ∧ Spec (fun _ => True) s {} s₁ _ := normalize_ok hnormalize
  obtain ⟨pointee, s₂, hpointee, hdeclared⟩ := bind_ok.1 hdeclared
  obtain ⟨storage, s₃, hstorage, hpointer⟩ := bind_ok.1 hdeclared
  obtain ⟨-, rfl⟩ := storageClassOf_ok.1 hstorage
  have hscalar : scalarId (normalized elem) s₁ = .ok pointee s₂ := by
    cases hu : normalized elem with
    | int w | float w =>
      rw [hu] at hpointee
      exact hpointee
    | _ =>
      rw [hu] at hnumber
      cases hnumber
  have hreaches := (pointerId_steady storage pointee).reaches hpointer
  refine ⟨pointee, storage, pointerId_recorded hpointer, ?_⟩
  exact recorded_of_interns hreaches (scalarId_recorded hscalar)

theorem stridedPointerId_steady (elem : Ty) (space : Space) :
    Steady r w (Writes debug) (stridedPointerId elem space) := by
  intro s t hst
  refine Paired.bind ((typeId_steady _).writes s t hst) ?_
  rintro id _ s₁ t₁ htype rfl hcode
  refine .getBind ?_
  rw [← hcode.interned]
  by_cases hfound : s₁.interned.strides.contains id = true
  · rw [if_pos hfound]
    exact .ok rfl hcode .refl
  · rw [if_neg hfound]
    refine Paired.bind ((byteSize_lockstep elem).writes s₁ t₁ hcode) ?_
    rintro size _ s₂ t₂ hsize ⟨rfl, rfl, hnumber⟩ hcode₂
    have hreaches := (byteSize_steady elem).reaches hsize
    have hnew : id ∉ s₂.interned.strides := by
      rw [strides_eq_of_reaches hreaches]
      simpa using hfound
    obtain ⟨pointee, storage, hpointer, helem⟩ := typeId_recorded hnumber htype
    have hput := hcode₂.put .decorations
      ⟨.decorate, [id, Decoration.arrayStride, numberWidth (normalized elem) / 8]⟩
    exact .ok rfl (hput.withInterned fun n => { n with strides := id :: n.strides })
      (.single (.stride hnew (recorded_of_interns hreaches hpointer)
        (recorded_of_interns hreaches helem) ⟨hnumber, normalized_normalized elem⟩))

theorem stridedPointerId_strided {elem : Ty} {space : Space} {id : UInt32}
    (h : stridedPointerId elem space s = .ok id s') : id ∈ s'.interned.strides := by
  simp only [stridedPointerId, bind_ok, get_ok] at h
  obtain ⟨type, s₁, -, _, _, ⟨rfl, rfl⟩, h⟩ := h
  by_cases hfound : s₁.interned.strides.contains type = true
  · rw [if_pos hfound] at h
    obtain ⟨rfl, rfl⟩ := pure_ok.1 h
    simpa using hfound
  · rw [if_neg hfound] at h
    simp only [bind_ok, modifyInterned_ok, pure_ok] at h
    obtain ⟨size, s₂, -, _, s₃, -, _, _, rfl, rfl, rfl⟩ := h
    exact List.mem_cons_self

/-! ## Instructions -/

/-- The same function body, under other identities. No names are written if states are compared as
a whole. -/
structure Frame.Alike (r : Relabeling) (w : Bool) (f f' : Frame) : Prop where
  program : f.program.Corresponds r f'.program
  result : f'.func.resultType = f.func.resultType
  layout : f.layout.Alike r f'.layout
  unnamed : w = true → f.debug = false ∧ f'.debug = false

theorem Frame.alike_same (f : Frame) : f.Alike .same false f :=
  ⟨f.program.corresponds_same, rfl, List.forall₂_same.2 fun b _ => ⟨rfl, b.2.alike_same⟩, nofun⟩

structure Place.Alike (r : Relabeling) (w : Bool) (p p' : Place) : Prop where
  frame : p.frame.Alike r w p'.frame
  id : p'.id = r.block p.id
  block : p.block.Alike r p'.block

section Places

variable {α β : Type} {R : Generator → Generator → Prop} {V : α → β → Prop} {p p' : Place}

theorem placeFail_lockstep {cause cause' : Cause} (h : cause'.kind = cause.kind) :
    Lockstep r w R V (p.fail cause) (p'.fail cause') :=
  .throw (congrArg Sum.inl h)

theorem run_lockstep {x : Gen α} {y : Gen β} (h : Lockstep r w R V x y) :
    Lockstep r w R V (p.run x) (p'.run y) :=
  h.located _ _ _ _

theorem define_lockstep (id : InstrId) (word : UInt32) :
    Lockstep r w Interns Eq (Place.define id word) (Place.define (r.instrId id) word) :=
  modifyBody_lockstep fun _ => rfl

/-- The last step of most instructions. -/
theorem emitDefine_lockstep (id : InstrId) {op : Opcode} {operands : UInt32 → List UInt32}
    (hhome : ∀ id, (⟨op, operands id⟩ : Instruction).home? = some .functions)
    (hop : op ≠ .ptrAccessChain) :
    Lockstep r w (Writes debug) Eq (build (.emitNew op operands) >>= Place.define id)
      (build (.emitNew op operands) >>= Place.define (r.instrId id)) :=
  (emitNew_steady hhome hop).andThen fun word => (define_lockstep id word).writes

theorem claimMerge_lockstep (label : UInt32) :
    Lockstep r w Interns Eq (p.claimMerge label) (p'.claimMerge label) := by
  refine .getBind fun s t hst => ?_
  dsimp only
  rw [← hst.code.body]
  exact Lockstep.throwIf Iff.rfl rfl fun _ => modifyBody_lockstep fun _ => rfl

end Places

namespace Place.Alike

variable {p p' : Place} (h : p.Alike r w p')
include h

theorem faithful : r.Faithful := h.frame.program.faithful

theorem position : p'.position = p.position := by
  rw [Place.position, Place.position, h.id, h.frame.layout.position? h.faithful]

theorem typeOf {R : Generator → Generator → Prop} (v : Value) :
    Lockstep r w R Eq (p.typeOf v) (p'.typeOf (r.value v)) := by
  unfold Place.typeOf
  rw [h.frame.program.typeOf]
  refine .orPanic ?_
  cases p.frame.program.typeOf v with
  | ok t => exact Or.inl ⟨t, t, rfl, rfl, rfl⟩
  | error e => exact Or.inr ⟨e, rfl, rfl⟩

theorem given (v : Value) : Lockstep r w Interns Eq (p.given v) (p'.given (r.value v)) := by
  refine .getBind fun s t hst => ?_
  rw [hst.lookup_value h.faithful]
  cases List.lookup v s.body.values with
  | some id => exact .pure rfl
  | none => exact placeFail_lockstep rfl

theorem operand (v : Value) : Lockstep r w Interns Eq (p.operand v) (p'.operand (r.value v)) := by
  cases v with
  | missing => exact placeFail_lockstep rfl
  | constant c =>
    have hc : r.value (.constant c) = .constant c := congrArg Value.constant (h.faithful.constant c)
    rw [hc]
    exact run_lockstep (constantId_steady c)
  | param id => exact h.given (.param id)
  | result id => exact h.given (.result id)

theorem label (target : Option BlockId) :
    Lockstep r w Interns Eq (p.label target) (p'.label (target.map r.block)) := by
  cases target with
  | none => exact placeFail_lockstep rfl
  | some b =>
    refine .getBind fun s t hst => ?_
    rw [hst.lookup_label h.faithful]
    cases List.lookup b s.body.labels with
    | some id => exact .pure rfl
    | none => exact placeFail_lockstep rfl

theorem checkDomain (domain : Domain) (first : Option Ty) (vs : List Value) :
    Lockstep r w Interns Eq (p.checkDomain domain first vs)
      (p'.checkDomain domain first (vs.map r.value)) := by
  induction vs generalizing first with
  | nil => exact .pure rfl
  | cons v rest ih =>
    refine (h.typeOf v).andThen fun t => Lockstep.throwIf Iff.rfl rfl fun _ => ?_
    cases first with
    | none => exact ih (some t)
    | some t₁ => exact Lockstep.throwIf Iff.rfl rfl fun _ => ih (some t₁)

theorem emitBinary (id : InstrId) {op : Opcode} (hop : op.IsBinary) (left right : Value) :
    Lockstep r w (Writes debug) Eq (p.emitBinary id op left right)
      (p'.emitBinary (r.instrId id) op (r.value left) (r.value right)) := by
  refine (h.typeOf (.result id)).andThen fun t => ?_
  refine (run_lockstep (typeId_steady t)).writes.andThen fun type => ?_
  refine (h.operand left).writes.andThen fun x => (h.operand right).writes.andThen fun y => ?_
  refine emitDefine_lockstep id (fun _ => (Profile.binary hop).home) ?_
  rintro rfl
  obtain ⟨name, hs⟩ := hop
  cases hs

theorem emitUnary (id : InstrId) {op : Opcode} (hop : op.IsUnary) (x : Value) :
    Lockstep r w (Writes debug) Eq (p.emitUnary id op x)
      (p'.emitUnary (r.instrId id) op (r.value x)) := by
  refine (h.typeOf (.result id)).andThen fun t => ?_
  refine (run_lockstep (typeId_steady t)).writes.andThen fun type => ?_
  refine (h.operand x).writes.andThen fun y => ?_
  refine emitDefine_lockstep id (fun _ => (Profile.unary hop).home) ?_
  rintro rfl
  obtain ⟨name, hs⟩ := hop
  cases hs

theorem emitConvert (id : InstrId) (x : Value) (sourceDomain : Domain) (target : Ty)
    (targetDomain : Domain) :
    Lockstep r w (Writes debug) Eq (p.emitConvert id x sourceDomain target targetDomain)
      (p'.emitConvert (r.instrId id) (r.value x) sourceDomain target targetDomain) := by
  unfold Place.emitConvert
  refine Lockstep.throwIf Iff.rfl rfl fun _ => (h.typeOf x).andThen fun source => ?_
  refine (normalize_steady source).writes.andThen fun declaredSource => ?_
  refine (normalize_steady target).writes.andThen fun declaredTarget => ?_
  cases hop : convertOpcode? declaredSource declaredTarget sourceDomain targetDomain with
  | none => exact placeFail_lockstep rfl
  | some op =>
    refine .ite Iff.rfl (fun _ => ?_) fun _ =>
      h.emitUnary id (isUnary_of_conversion (conversion_iff.2 hop)) x
    exact (h.operand x).writes.andThen fun word => (define_lockstep id word).writes

theorem emitLoad (id : InstrId) (pointer : Value) :
    Lockstep r w (Writes debug) Eq (p.emitLoad id pointer)
      (p'.emitLoad (r.instrId id) (r.value pointer)) := by
  refine (h.typeOf pointer).andThen fun t => ?_
  cases t with
  | pointer elem space =>
    refine (run_lockstep (typeId_steady elem)).writes.andThen fun type => ?_
    refine (h.operand pointer).writes.andThen fun ptr => ?_
    exact emitDefine_lockstep id (fun _ => rfl) (by decide)
  | _ => exact placeFail_lockstep rfl

theorem emitStore (value pointer : Value) :
    Lockstep r w (Writes debug) Eq (p.emitStore value pointer)
      (p'.emitStore (r.value value) (r.value pointer)) := by
  refine (h.typeOf pointer).andThen fun t => ?_
  cases t with
  | pointer elem space =>
    refine (h.typeOf value).andThen fun t => Lockstep.throwIf Iff.rfl rfl fun _ => ?_
    refine (h.operand pointer).writes.andThen fun ptr => ?_
    refine (h.operand value).writes.andThen fun v => ?_
    exact emit_steady rfl (by decide)
  | _ => exact placeFail_lockstep rfl

/-- The type of an element's address has its stride by the time the address is computed. -/
theorem elementPtr (id : InstrId) (elem : Ty) (space : Space) (base index : Value) :
    Lockstep r w (Writes debug) Eq (do
      let type ← p.run (stridedPointerId elem space)
      let b ← p.operand base
      let i ← p.operand index
      Place.define id (← build (.ptrAccessChain type b i []))) (do
      let type ← p'.run (stridedPointerId elem space)
      let b ← p'.operand (r.value base)
      let i ← p'.operand (r.value index)
      Place.define (r.instrId id) (← build (.ptrAccessChain type b i []))) := by
  intro s t hst
  refine (run_lockstep (stridedPointerId_steady elem space) s t hst).bind ?_
  rintro type _ s₁ t₁ htype rfl hcode₁
  refine ((h.operand base).writes s₁ t₁ hcode₁).bind ?_
  rintro b _ s₂ t₂ hb rfl hcode₂
  refine ((h.operand index).writes s₂ t₂ hcode₂).bind ?_
  rintro i _ s₃ t₃ hi rfl hcode₃
  have hstrided : type ∈ s₃.interned.strides := by
    rw [strides_eq_of_reaches ((h.operand index).reaches hi),
      strides_eq_of_reaches ((h.operand base).reaches hb)]
    exact stridedPointerId_strided (Place.run_ok.1 htype)
  refine (emitNew_paired (fun _ => rfl) (fun _ => ⟨type, hstrided, _, rfl⟩) hcode₃).bind ?_
  rintro word _ s₄ t₄ - rfl hcode₄
  exact (define_lockstep id word).writes s₄ t₄ hcode₄

theorem emitElementPtr (id : InstrId) (base index : Value) :
    Lockstep r w (Writes debug) Eq (p.emitElementPtr id base index)
      (p'.emitElementPtr (r.instrId id) (r.value base) (r.value index)) := by
  refine (h.typeOf base).andThen fun t => ?_
  cases t with
  | pointer elem space =>
    refine Lockstep.throwIf Iff.rfl rfl fun _ => (h.typeOf index).andThen fun t => ?_
    exact Lockstep.throwIf Iff.rfl rfl fun _ => h.elementPtr id elem space base index
  | _ => exact placeFail_lockstep rfl

theorem arguments (callee callee' : Text) {params params' : List (Option Param)}
    (hparams : List.Forall₂ (Option.Rel fun q q' : Param => q'.type = q.type) params params')
    (index : Nat) (args : List Value) :
    Lockstep r w Interns Eq (p.arguments callee index args params)
      (p'.arguments callee' index (args.map r.value) params') := by
  induction hparams generalizing index args with
  | nil => cases args <;> exact .pure rfl
  | cons hparam _ ih =>
    cases args with
    | nil => exact .pure rfl
    | cons arg rest =>
      cases hparam with
      | none => exact .throw rfl
      | @some q q' htype =>
        refine (h.typeOf arg).andThen fun t => Lockstep.throwIf (by rw [htype]) rfl fun _ => ?_
        refine (h.operand arg).andThen fun id => (ih (index + 1) rest).andThen fun ids => ?_
        exact .pure rfl

theorem emitCall (id : InstrId) (callee : Option FuncId) (args : List Value) :
    Lockstep r w (Writes debug) Eq (p.emitCall id callee args)
      (p'.emitCall (r.instrId id) (callee.map r.func) (args.map r.value)) := by
  unfold Place.emitCall
  cases callee with
  | none => exact placeFail_lockstep rfl
  | some f =>
    rw [Option.map_some, Option.bind_some, Option.bind_some]
    obtain ⟨hf, hf'⟩ | ⟨g, g', hf, hf', hg⟩ := rel_cases (h.frame.program.funcs f)
    · rw [hf, hf']
      exact placeFail_lockstep rfl
    · rw [hf, hf']
      refine .getBind fun s t hst => ?_
      dsimp only [Option.map_some]
      rw [← Option.map_some, hst.lookup_function h.faithful]
      cases List.lookup (some f) s.functions with
      | none => exact placeFail_lockstep rfl
      | some function =>
        have hlength := hg.params.length_eq
        refine Lockstep.throwIf (by rw [List.length_map, hlength]) rfl fun _ => ?_
        refine (h.arguments _ _ hg.params 0 args).writes.andThen fun ids => ?_
        rw [hg.result]
        refine (run_lockstep (typeId_steady _)).writes.andThen fun type => ?_
        exact emitDefine_lockstep id (fun _ => rfl) (by decide)

theorem emitReturn (value : Value) :
    Lockstep r w (Writes debug) Eq (p.emitReturn value) (p'.emitReturn (r.value value)) := by
  have hvalue : ∀ v, Lockstep r w (Writes debug) Eq (do
      let t ← p.typeOf v
      if t ≠ p.frame.func.resultType then p.fail (.returnMismatch t p.frame.func.resultType)
      let id ← p.operand v
      build (.returnValue id)) (do
      let t ← p'.typeOf (r.value v)
      if t ≠ p'.frame.func.resultType then p'.fail (.returnMismatch t p'.frame.func.resultType)
      let id ← p'.operand (r.value v)
      build (.returnValue id)) := by
    intro v
    refine (h.typeOf v).andThen fun t => Lockstep.throwIf (by rw [h.frame.result]) rfl fun _ => ?_
    exact (h.operand v).writes.andThen fun id => emit_steady rfl (by decide)
  have hwant : p'.frame.func.resultType ≠ .void ↔ p.frame.func.resultType ≠ .void := by
    rw [h.frame.result]
  unfold Place.emitReturn
  cases value with
  | missing => exact Lockstep.throwIf hwant rfl fun _ => emit_steady rfl (by decide)
  | constant c => exact hvalue (.constant c)
  | param id => exact hvalue (.param id)
  | result id => exact hvalue (.result id)

/-! ## Branches -/

theorem emitLoopHeader : Lockstep r w (Writes debug) Eq p.emitLoopHeader p'.emitLoopHeader := by
  unfold Place.emitLoopHeader
  rw [h.block.loop]
  cases p.block.loop with
  | none => exact .pure rfl
  | some loop =>
    refine (h.label loop.merge).writes.andThen fun merge => ?_
    refine (h.label loop.continue_).writes.andThen fun continue_ => ?_
    exact (claimMerge_lockstep merge).writes.andThen fun _ => emit_steady rfl (by decide)

theorem selectionMerge (onTrue onFalse : BlockId) (merge : Option BlockId) :
    Lockstep r w Interns Eq (p.selectionMerge onTrue onFalse merge)
      (p'.selectionMerge (r.block onTrue) (r.block onFalse) (merge.map r.block)) := by
  unfold Place.selectionMerge
  cases merge with
  | some b => exact h.label (some b)
  | none =>
    rw [h.position, Option.map_none]
    dsimp only
    rw [h.frame.layout.meeting? h.faithful]
    cases p.frame.layout.meeting? p.position onTrue onFalse with
    | some b => exact h.label (some b)
    | none =>
      refine allocId_steady.andThen fun label => ?_
      exact Lockstep.andThen (modifyBody_lockstep (by exact fun _ => rfl)) fun _ => .pure rfl

theorem emitBranch (target : Option BlockId) :
    Lockstep r w (Writes debug) Eq (p.emitBranch target)
      (p'.emitBranch (target.map r.block)) := by
  refine (h.label target).writes.andThen fun t => ?_
  exact h.emitLoopHeader.andThen fun _ => emit_steady rfl (by decide)

theorem emitCondBranch (cond : Value) (onTrue onFalse merge : Option BlockId) :
    Lockstep r w (Writes debug) Eq (p.emitCondBranch cond onTrue onFalse merge)
      (p'.emitCondBranch (r.value cond) (onTrue.map r.block) (onFalse.map r.block)
        (merge.map r.block)) := by
  unfold Place.emitCondBranch
  refine (h.typeOf cond).andThen fun t => Lockstep.throwIf Iff.rfl rfl fun _ => ?_
  refine (h.operand cond).writes.andThen fun c => (h.label onTrue).writes.andThen fun t => ?_
  refine (h.label onFalse).writes.andThen fun f => ?_
  rw [h.block.loop]
  have hbranch : Steady r w (Writes debug) (build (.branchConditional c t f)) :=
    emit_steady rfl (by decide)
  -- only without a loop and with both targets is there a selection to be merged
  have hheader := h.emitLoopHeader.andThen fun _ => hbranch
  cases p.block.loop with
  | some loop => exact hheader
  | none =>
    cases onTrue with
    | none => exact hheader
    | some bt =>
      cases onFalse with
      | none => exact hheader
      | some bf =>
        dsimp only [Option.map_some, Option.map_none]
        rw [h.position, h.frame.layout.leavesLoop h.faithful]
        refine .ite Iff.rfl (fun _ => ?_) fun _ => hbranch
        refine (h.selectionMerge bt bf merge).writes.andThen fun m => ?_
        refine (claimMerge_lockstep m).writes.andThen fun _ => ?_
        exact (emit_steady rfl (by decide)).andThen fun _ => hbranch

/-! ## Blocks -/

theorem emitInstr (id : InstrId) {slot slot' : Option Instr}
    (hslot : Option.Rel (Instr.Alike r) slot slot') :
    Lockstep r w (Writes debug) Eq (p.emitInstr id slot) (p'.emitInstr (r.instrId id) slot') := by
  obtain ⟨rfl, rfl⟩ | ⟨i, i', rfl, rfl, halike⟩ := rel_cases hslot
  · exact placeFail_lockstep rfl
  · unfold Place.emitInstr
    refine Lockstep.throwIf (by rw [halike.hasMissingOperand]) rfl fun _ => ?_
    rcases halike.cases with rfl | ⟨name, name', elem, rfl, rfl⟩
    · cases i with
      | binary op domain x y =>
        refine (h.checkDomain domain none [x, y]).writes.andThen fun _ => ?_
        cases hop : binaryOpcode? op domain with
        | none => exact placeFail_lockstep rfl
        | some opcode =>
          exact h.emitBinary id (isBinary_of_arithmetic (mem_arithmeticTable.2 hop)) x y
      | compare pred domain x y =>
        refine (h.checkDomain domain none [x, y]).writes.andThen fun _ => ?_
        cases hop : compareOpcode? pred domain with
        | none => exact placeFail_lockstep rfl
        | some opcode =>
          exact h.emitBinary id (isBinary_of_comparison (mem_comparisonTable.2 hop)) x y
      | negate domain x =>
        refine (h.checkDomain domain none [x]).writes.andThen fun _ => ?_
        exact h.emitUnary id (isUnary_negate domain) x
      | convert x source type target => exact h.emitConvert id x source type target
      | load pointer => exact h.emitLoad id pointer
      | store value pointer => exact h.emitStore value pointer
      | elementPtr base index => exact h.emitElementPtr id base index
      | localVar name elem => exact .pure rfl
      | call callee args => exact h.emitCall id callee args
      | branch target => exact h.emitBranch target
      | condBranch cond onTrue onFalse merge => exact h.emitCondBranch cond onTrue onFalse merge
      | ret value => exact h.emitReturn value
    · exact .pure rfl

theorem emitInstrs {is is' : List (InstrId × Option Instr)}
    (his : List.Forall₂ (Instr.AlikeAt r) is is') :
    Lockstep r w (Writes debug) Eq (p.emitInstrs is) (p'.emitInstrs is') := by
  induction his with
  | nil => exact .pure rfl
  | @cons e e' rest rest' he hrest ih =>
    obtain ⟨id, slot⟩ := e
    obtain ⟨id', slot'⟩ := e'
    obtain ⟨rfl, hslot⟩ := he
    have hterminator : slot'.any Instr.isTerminator = slot.any Instr.isTerminator := by
      cases hslot with
      | none => rfl
      | some halike => exact halike.isTerminator
    have hempty : rest'.isEmpty = rest.isEmpty := isEmpty_of_length_eq hrest.length_eq
    unfold Place.emitInstrs
    refine Lockstep.throwIf (by rw [hterminator, hempty]) rfl fun _ => ?_
    exact (h.emitInstr id hslot).andThen fun _ => ih

theorem emitBlock : Lockstep r w (Writes debug) Eq p.emitBlock p'.emitBlock := by
  unfold Place.emitBlock
  refine Lockstep.throwIf (by rw [h.block.terminator?, Option.isNone_map]) rfl fun _ => ?_
  rw [h.id]
  exact h.emitInstrs (h.block.instrIds p.id)

/-- Local variables are declared for their types. Their names, if they are written at all, are of
no consequence. -/
theorem hoist (id : InstrId) {slot slot' : Option Instr}
    (hslot : Option.Rel (Instr.Alike r) slot slot') :
    Lockstep r w (Writes p.frame.debug) Eq (p.hoist id slot) (p'.hoist (r.instrId id) slot') := by
  have hname : ∀ (debug : Bool) (word : UInt32) (name : Text),
      (debug && !name.isEmpty) = true → Silent (Writes debug) (build (.name word name)) ⟨⟩ :=
    fun _ word name hnamed => name_silent word name (Bool.and_eq_true_iff.1 hnamed).1
  have hlocal : ∀ (name name' : Text) (elem : Ty), Lockstep r w (Writes p.frame.debug) Eq
      (p.hoist id (some (.localVar name elem)))
      (p'.hoist (r.instrId id) (some (.localVar name' elem))) := by
    intro name name' elem
    refine (run_lockstep (typeId_steady _)).writes.andThen fun type => ?_
    refine (emitNew_steady (fun _ => rfl) (by decide)).andThen fun word => ?_
    refine (define_lockstep id word).writes.andThen fun _ => ?_
    have hend : Lockstep r w (Writes p.frame.debug) Eq (pure ()) (pure ()) := .pure rfl
    exact Silent.optional (fun hw => by simp [h.frame.unnamed hw]) (hname _ word name)
      (hname _ word name') hend
  obtain ⟨rfl, rfl⟩ | ⟨i, i', rfl, rfl, halike⟩ := rel_cases hslot
  · exact .pure rfl
  · rcases halike.cases with rfl | ⟨name, name', elem, rfl, rfl⟩
    · cases i with
      | localVar name elem => exact hlocal name name elem
      | _ => exact .pure rfl
    · exact hlocal name name' elem

theorem hoistAll {is is' : List (InstrId × Option Instr)}
    (his : List.Forall₂ (Instr.AlikeAt r) is is') :
    Lockstep r w (Writes p.frame.debug) Eq (p.hoistAll is) (p'.hoistAll is') := by
  induction his with
  | nil => exact .pure rfl
  | @cons e e' rest rest' he _ ih =>
    obtain ⟨id, slot⟩ := e
    obtain ⟨id', slot'⟩ := e'
    obtain ⟨rfl, hslot⟩ := he
    exact (h.hoist id hslot).andThen fun _ => ih

end Place.Alike

/-! ## Functions -/

theorem Layout.Alike.instrs {l l' : Layout} (h : l.Alike r l') :
    List.Forall₂ (Instr.AlikeAt r)
      (l.blocks.flatMap fun (id, b) => b.instrIds id)
      (l'.blocks.flatMap fun (id, b) => b.instrIds id) := by
  refine List.rel_flatMap h ?_
  rintro ⟨id, b⟩ ⟨id', b'⟩ ⟨rfl, hb⟩
  exact hb.instrIds id

namespace Frame

theorem Alike.emitBlocks {f f' : Frame} (h : f.Alike r w f') (isFirst : Bool)
    {bs bs' : List (BlockId × Block)} (hbs : List.Forall₂ (Block.AlikeAt r) bs bs') :
    Lockstep r w (Writes f.debug) Eq (f.emitBlocks isFirst bs) (f'.emitBlocks isFirst bs') := by
  induction hbs generalizing isFirst with
  | nil => exact .pure rfl
  | @cons b b' rest rest' hb _ ih =>
    obtain ⟨id, block⟩ := b
    obtain ⟨id', block'⟩ := b'
    obtain ⟨rfl, hblock⟩ := hb
    have hplace : Place.Alike r w ⟨f, id, block⟩ ⟨f', r.block id, block'⟩ := ⟨h, rfl, hblock⟩
    have hrest := hplace.emitBlock.andThen fun _ => ih false
    refine (hplace.label (some id)).writes.andThen fun label => ?_
    refine (emit_steady rfl (by decide)).andThen fun _ => ?_
    refine .ite Iff.rfl (fun _ => ?_) fun _ => hrest
    exact (hplace.hoistAll h.layout.instrs).andThen fun _ => hrest

theorem emitUnreachable_steady (labels : List UInt32) :
    Steady r w (Writes debug) (emitUnreachable labels) := by
  induction labels with
  | nil => exact .pure rfl
  | cons label rest ih =>
    refine (emit_steady rfl (by decide)).andThen fun _ => ?_
    exact (emit_steady rfl (by decide)).andThen fun _ => ih

theorem allocLabels_lockstep {bs bs' : List (BlockId × Block)}
    (h : List.Forall₂ (Block.AlikeAt r) bs bs') :
    Lockstep r w Interns Eq (allocLabels bs) (allocLabels bs') := by
  induction h with
  | nil => exact .pure rfl
  | @cons b b' rest rest' hb _ ih =>
    obtain ⟨id, block⟩ := b
    obtain ⟨id', block'⟩ := b'
    obtain ⟨rfl, -⟩ := hb
    refine allocId_steady.andThen fun label => ?_
    exact Lockstep.andThen (modifyBody_lockstep (by exact fun _ => rfl)) fun _ => ih

theorem emitParams_lockstep (params : List (ParamId × UInt32)) :
    Lockstep r w (Writes debug) Eq (emitParams params)
      (emitParams (params.map (Prod.map r.paramId id))) := by
  induction params with
  | nil => exact .pure rfl
  | cons entry rest ih =>
    refine (emitNew_steady (fun _ => rfl) (by decide)).andThen fun word => ?_
    exact Lockstep.andThen (modifyBody_lockstep (by exact fun _ => rfl)).writes fun _ => ih

theorem emitNames_silent (f : Frame) (word : UInt32) (params : List (ParamId × Param))
    (hdebug : debug = true) : Silent (Writes debug) (f.emitNames word params) ⟨⟩ := by
  unfold Frame.emitNames
  refine (name_silent word _ hdebug).bind ?_
  refine Silent.bind (.forIn fun entry => ?_) (Silent.bind (.forIn fun entry => ?_) .pure)
  · refine .ite (fun _ => ?_) fun _ => .pure
    exact .getBind fun s => (name_silent _ _ hdebug).bind .pure
  · refine .ite (fun _ => ?_) fun _ => .pure
    exact .getBind fun s => (name_silent _ _ hdebug).bind .pure

end Frame

theorem allPresent_related {α β : Type} {R : α → β → Prop} {xs : List (Option α)}
    {ys : List (Option β)} (h : List.Forall₂ (Option.Rel R) xs ys) :
    (∃ as bs, allPresent xs = .ok as ∧ allPresent ys = .ok bs ∧ List.Forall₂ R as bs) ∨
      ∃ e, allPresent xs = .error e ∧ allPresent ys = .error e := by
  induction h with
  | nil => exact Or.inl ⟨[], [], rfl, rfl, .nil⟩
  | @cons x y rest rest' hxy _ ih =>
    obtain ⟨rfl, rfl⟩ | ⟨a, b, rfl, rfl, hab⟩ := rel_cases hxy
    · exact Or.inr ⟨_, rfl, rfl⟩
    · rw [allPresent, allPresent]
      obtain ⟨as, bs, has, hbs, hrel⟩ | ⟨e, he, he'⟩ := ih
      · rw [has, hbs]
        exact Or.inl ⟨_, _, rfl, rfl, .cons hab hrel⟩
      · rw [he, he']
        exact Or.inr ⟨_, rfl, rfl⟩

theorem paramTypeIds_lockstep {params params' : List (ParamId × Param)}
    (h : List.Forall₂ (Param.AlikeAt r) params params') :
    Lockstep r w Interns Eq (paramTypeIds params) (paramTypeIds params') := by
  induction h with
  | nil => exact .pure rfl
  | @cons q q' rest rest' hq _ ih =>
    unfold paramTypeIds
    rw [hq.2]
    exact (typeId_steady _).andThen fun id => ih.andThen fun ids => .pure rfl

theorem declareFunctions_lockstep (hr : r.Faithful) (fs : List (Option FuncId)) :
    Lockstep r w Interns Eq (declareFunctions fs)
      (declareFunctions (fs.map (Option.map r.func))) := by
  induction fs with
  | nil => exact .pure rfl
  | cons f rest ih =>
    refine .getBind fun s t hst => ?_
    rw [hst.lookup_function hr]
    cases List.lookup f s.functions with
    | some _ => exact ih
    | none =>
      refine allocId_steady.andThen fun id =>
        Lockstep.andThen (.modify (fun _ => ?_) (fun h => ?_) fun _ => rfl) fun _ => ih
      · exact .quiet ⟨rfl, rfl, rfl, rfl, fun _ => rfl, rfl⟩
      · exact { h with functions := congrArg ((f.map r.func, id) :: ·) h.functions }

theorem functionId_lockstep (hr : r.Faithful) (f : FuncId) :
    Lockstep r w Interns Eq (functionId f) (functionId (r.func f)) := by
  refine (declareFunctions_lockstep hr [some f]).andThen fun _ => .getBind fun s t hst => .pure ?_
  exact congrArg (Option.getD · 0) (hst.lookup_function hr (some f)).symm

theorem select_writes (s : Generator) (target : Section) : Writes debug s (s.select target) :=
  .interns (.quiet ⟨rfl, rfl, rfl, rfl, fun _ => rfl, rfl⟩)

section Program

variable {p p' : Program} {other : Bool}

theorem emitFunction_lockstep (h : p.Corresponds r p')
    (hunnamed : w = true → debug = false ∧ other = false) {funcId : FuncId} {f f' : Func}
    (hf : p.func? funcId = some f) (hf' : p'.func? (r.func funcId) = some f')
    (halike : f.Alike r funcId f') (word : UInt32) :
    Lockstep r w (Writes debug) Eq (emitFunction p debug funcId f word)
      (emitFunction p' other (r.func funcId) f' word) := by
  unfold emitFunction
  refine Lockstep.andThen (.modify (fun _ => .interns ?_) (fun h => { h with body := rfl })
    fun _ => rfl) fun _ => ?_
  · exact .quiet ⟨rfl, rfl, rfl, rfl, fun _ => rfl, rfl⟩
  refine (Lockstep.orPanic (allPresent_related halike.paramIds)).bind
    fun params params' hparams => ?_
  rw [halike.result]
  refine ((typeId_steady _).located _ _ _ _).writes.andThen fun result => ?_
  refine ((paramTypeIds_lockstep hparams).located _ _ _ _).writes.andThen fun types => ?_
  refine (functionTypeId_steady result types).writes.andThen fun type => ?_
  refine (Lockstep.orPanic (allPresent_related (h.listedBlocks hf hf' halike))).bind
    fun blocks blocks' hblocks => ?_
  have hframe : Frame.Alike r w ⟨p, f, ⟨blocks⟩, debug⟩ ⟨p', f', ⟨blocks'⟩, other⟩ :=
    ⟨h, halike.result, hblocks, hunnamed⟩
  have hids : (params'.map (·.1)).zip types =
      ((params.map (·.1)).zip types).map (Prod.map r.paramId id) := by
    rw [← List.zip_map_left, map_related hparams fun _ _ hq => hq.1]
  refine (Frame.allocLabels_lockstep hblocks).writes.andThen fun _ => ?_
  refine (emit_steady rfl (by decide)).andThen fun _ => ?_
  rw [hids]
  refine (Frame.emitParams_lockstep _).andThen fun _ => ?_
  refine Silent.optional (fun hw => by simp [hunnamed hw])
    (fun hdebug => Frame.emitNames_silent _ word params hdebug)
    (fun hother => Frame.emitNames_silent _ word params' hother) ?_
  refine (hframe.emitBlocks true hblocks).andThen fun _ => .getBind fun s t hst => ?_
  rw [← hst.code.body]
  refine (Frame.emitUnreachable_steady _).andThen fun _ => ?_
  exact emit_steady rfl (by decide)

theorem lowerFunction_lockstep (h : p.Corresponds r p')
    (hunnamed : w = true → debug = false ∧ other = false) (id : FuncId) :
    Lockstep r w (Writes debug) Eq (lowerFunction p debug id)
      (lowerFunction p' other (r.func id)) := by
  unfold lowerFunction
  obtain ⟨hf, hf'⟩ | ⟨f, f', hf, hf', halike⟩ := rel_cases (h.funcs id)
  · rw [hf, hf']
    exact .throw rfl
  · rw [hf, hf']
    refine (functionId_lockstep h.faithful id).writes.andThen fun word => ?_
    refine Lockstep.throwIf (by rw [halike.isEmpty_order]) rfl fun _ => ?_
    refine Lockstep.andThen (.inFunctions select_writes ?_) fun _ => .pure rfl
    exact emitFunction_lockstep h hunnamed hf hf' halike word

theorem lowerListed_lockstep (h : p.Corresponds r p')
    (hunnamed : w = true → debug = false ∧ other = false)
    {entries entries' : List (Option (FuncId × Func))}
    (hentries : List.Forall₂ (Option.Rel fun e e' : FuncId × Func => e'.1 = r.func e.1)
      entries entries') (seen : List FuncId) :
    Lockstep r w (Writes debug) Eq (lowerListed p debug seen entries)
      (lowerListed p' other (seen.map r.func) entries') := by
  induction hentries generalizing seen with
  | nil => exact .pure rfl
  | @cons entry entry' rest rest' hentry _ ih =>
    obtain ⟨rfl, rfl⟩ | ⟨⟨id, f⟩, ⟨id', f'⟩, rfl, rfl, hid⟩ := rel_cases hentry
    · exact fail_lockstep rfl
    · cases hid
      unfold lowerListed
      refine Lockstep.throwIf (by rw [contains_map h.faithful.func]) rfl fun _ => ?_
      exact (lowerFunction_lockstep h hunnamed id).andThen fun _ => ih (id :: seen)

end Program

end Elementwise.Spirv
