import Elementwise.Proofs.Interning
import Elementwise.Proofs.Scoping
import Mathlib.Algebra.Group.Nat.Defs

/-!
# Runs that cannot fail

A step of the generator proceeds if it succeeds, or stops after so many ids were allocated that
they are no longer distinct. While nothing was refused, declaring types and constants proceeds:
types have to be whole, and the rest is up to the generator, which writes every instruction where
it belongs.
-/
namespace Elementwise

/-- The types that have literals. -/
def IR.Ty.isLiteral : IR.Ty → Bool
  | .bool | .int _ | .float _ => true
  | _ => false

variable {params : List UInt32} {operands : UInt32 → List UInt32}

namespace Spirv
open IR Text.Utf8

namespace Gen

variable {α β : Type} {s t : Generator}

/-- The step succeeds with such a result and state, or all ids are in use when it stops. -/
def Proceeds (x : Gen α) (s : Generator) (post : α → Generator → Prop) : Prop :=
  match x s with
  | .ok a t => post a t
  | .error _ t => 2 ^ 32 - 1 ≤ t.assembly.allocated

namespace Proceeds

variable {x : Gen α} {post : α → Generator → Prop} {a : α}

theorem of_ok (h : x s = .ok a t) (hpost : post a t) : Proceeds x s post := by
  unfold Proceeds
  rw [h]
  exact hpost

theorem bind {f : α → Gen β} {post' : β → Generator → Prop} (hx : Proceeds x s post)
    (hf : ∀ a t, post a t → Proceeds (f a) t post') : Proceeds (x >>= f) s post' := by
  unfold Proceeds at hx ⊢
  change match EStateM.bind x f s with | .ok b t => post' b t | .error _ t => _
  unfold EStateM.bind
  cases hxs : x s with
  | ok a t =>
    rw [hxs] at hx
    exact hf a t hx
  | error e t =>
    rw [hxs] at hx
    exact hx

/-- A step whose run is known, before others. -/
theorem okBind {f : α → Gen β} {post' : β → Generator → Prop} (h : x s = .ok a t)
    (hf : Proceeds (f a) t post') : Proceeds (x >>= f) s post' := by
  have hx : Proceeds x s fun b u => b = a ∧ u = t := of_ok h ⟨rfl, rfl⟩
  refine hx.bind ?_
  rintro _ _ ⟨rfl, rfl⟩
  exact hf

theorem mono {post' : α → Generator → Prop} (hx : Proceeds x s post)
    (h : ∀ a t, post a t → post' a t) : Proceeds x s post' := by
  unfold Proceeds at hx ⊢
  cases hxs : x s with
  | ok a t =>
    rw [hxs] at hx
    exact h a t hx
  | error e t =>
    rw [hxs] at hx
    exact hx

protected theorem pure (h : post a s) : Proceeds (pure a) s post := h

/-- A step that is taken or left out before others. -/
theorem ite {c : Prop} [Decidable c] {y : Gen α} (hx : c → Proceeds x s post)
    (hy : ¬ c → Proceeds y s post) : Proceeds (if c then x else y) s post := by
  split
  · exact hx ‹_›
  · exact hy ‹_›

theorem located {function block : Text} (hx : Proceeds x s post) :
    Proceeds (located function block x) s post := by
  unfold Proceeds at hx ⊢
  unfold Gen.located
  cases hxs : x s with
  | ok a t =>
    rw [hxs] at hx
    exact hx
  | error e t =>
    rw [hxs] at hx
    cases e <;> exact hx

/-- The state that a step stops in has the section selected that it began with. -/
theorem inFunctions (hx : Proceeds x (s.select .functions) fun a t =>
      post a (t.select s.assembly.current)) : Proceeds (inFunctions x) s post := by
  unfold Proceeds at hx ⊢
  unfold Gen.inFunctions
  change match (match x (s.select .functions) with
    | .ok a t => EStateM.Result.ok a (t.select s.assembly.current)
    | .error e t => .error e (t.select s.assembly.current)) with
    | .ok a t => post a t
    | .error _ t => _
  cases hxs : x (s.select .functions) with
  | ok a t =>
    rw [hxs] at hx
    exact hx
  | error e t =>
    rw [hxs] at hx
    exact hx

/-- What every turn of a loop keeps, the loop keeps. -/
theorem forIn {inv : Generator → Prop} {entries : List α}
    {body : α → PUnit → Gen (ForInStep PUnit)}
    (hstep : ∀ x ∈ entries, ∀ t, inv t →
      Proceeds (body x ⟨⟩) t fun r t' => r = .yield ⟨⟩ ∧ inv t')
    (hs : inv s) : Proceeds (forIn entries PUnit.unit body) s fun _ t => inv t := by
  induction entries generalizing s with
  | nil => exact hs
  | cons x rest ih =>
    rw [List.forIn_cons]
    obtain ⟨hx, hrest⟩ := List.forall_mem_cons.1 hstep
    refine (hx s hs).bind ?_
    rintro _ t ⟨rfl, ht⟩
    exact ih hrest ht

end Proceeds

end Gen

open Gen

/-! ## States in which nothing was refused -/

/-- Nothing was refused, and the module can be written to and finished. -/
structure Generator.Ready (s : Generator) : Prop where
  clean : s.clean
  unfinished : s.assembly.finished = false
  current : s.assembly.current = .functions
  extensions : ∀ e ∈ s.assembly.extensions, (⟨.extension, textWords (bytes e)⟩ : Instruction).fits

/-- A step that keeps the module ready and leaves functions and the body alone. -/
structure Generator.Advances (s t : Generator) : Prop where
  ready : t.Ready
  functions : t.functions = s.functions
  body : t.body = s.body
  allocated : s.assembly.allocated ≤ t.assembly.allocated

namespace Generator

variable {s t u : Generator} {target : Section} {i : Instruction}

theorem Advances.refl (h : s.Ready) : s.Advances s := ⟨h, rfl, rfl, Nat.le_refl _⟩

theorem Advances.trans (h : s.Advances t) (h' : t.Advances u) : s.Advances u where
  ready := h'.ready
  functions := h'.functions.trans h.functions
  body := h'.body.trans h.body
  allocated := Nat.le_trans h.allocated h'.allocated

/-- An instruction that fits is appended to its section. -/
theorem put_eq_add (h : s.Ready) (hhome : i.home? = some target) (hfits : i.fits)
    (htarget : target ≠ .header ∧ target ≠ .preamble) : s.put target i = s.add target i := by
  have hobjection : s.assembly.objection? target i = none := by
    refine objection?_eq_none.2 ⟨⟨h.unfinished, htarget⟩, ?_, hfits⟩
    intro home hsome
    exact Option.some.inj (hsome.symm.trans hhome)
  unfold put Assembly.emitInstr
  rw [hobjection]
  rfl

theorem Ready.of_assembly (h : s.Ready) (ht : t.assembly = s.assembly) : t.Ready where
  clean := (congrArg Assembly.refusal ht).trans h.clean
  unfinished := (congrArg Assembly.finished ht).trans h.unfinished
  current := (congrArg Assembly.current ht).trans h.current
  extensions := ht ▸ h.extensions

theorem Ready.add (h : s.Ready) (target : Section) (i : Instruction) : (s.add target i).Ready := by
  cases target <;> exact ⟨h.clean, h.unfinished, h.current, h.extensions⟩

theorem Ready.put (h : s.Ready) (hhome : i.home? = some target) (hfits : i.fits)
    (htarget : target ≠ .header ∧ target ≠ .preamble) : s.Advances (s.put target i) := by
  rw [put_eq_add h hhome hfits htarget]
  exact ⟨h.add target i, rfl, rfl, Nat.le_of_eq (add_allocated s target i).symm⟩

theorem Ready.alloc (h : s.Ready) : s.Advances s.alloc :=
  ⟨⟨h.clean, h.unfinished, h.current, h.extensions⟩, rfl, rfl, Nat.le_succ _⟩

theorem Ready.allocPut (h : s.Ready) (hhome : i.home? = some target) (hfits : i.fits)
    (htarget : target ≠ .header ∧ target ≠ .preamble) : s.Advances (s.alloc.put target i) :=
  h.alloc.trans (h.alloc.ready.put hhome hfits htarget)

theorem Advances.record (h : s.Advances t) (n : Interned) :
    s.Advances { t with interned := n } :=
  ⟨h.ready.of_assembly rfl, h.functions, h.body, h.allocated⟩

/-- From wherever the module advances to, the step proceeds to such a state. -/
def Leads (s : Generator) {α : Type} (x : Gen α) (post : Generator → Prop) : Prop :=
  ∀ t, s.Advances t → Proceeds x t fun _ u => post u

/-- The step advances the module. -/
abbrev Runs (s : Generator) {α : Type} (x : Gen α) : Prop := s.Leads x s.Advances

namespace Leads

variable {α β : Type} {x y : Gen α} {f : α → Gen β} {post : Generator → Prop}

theorem of (h : ∀ {t}, t.Ready → Proceeds x t fun _ u => t.Advances u) : s.Runs x :=
  fun _ ht => (h ht.ready).mono fun _ _ => ht.trans

theorem proceeds (hx : s.Leads x post) (hs : s.Ready) : Proceeds x s fun _ t => post t :=
  hx s (.refl hs)

theorem bind (hx : s.Runs x) (hf : ∀ a, s.Leads (f a) post) : s.Leads (x >>= f) post :=
  fun t ht => (hx t ht).bind hf

theorem okBind {a : α} (h : ∀ t, x t = .ok a t) (hf : s.Leads (f a) post) :
    s.Leads (x >>= f) post :=
  fun t ht => Proceeds.okBind (h t) (hf t ht)

theorem ite {c : Prop} [Decidable c] (hx : s.Leads x post) (hy : s.Leads y post) :
    s.Leads (if c then x else y) post := by
  split
  · exact hx
  · exact hy

theorem located {function block : Text} (hx : s.Leads x post) :
    s.Leads (located function block x) post :=
  fun t ht => (hx t ht).located

protected theorem pure (a : α) : s.Runs (pure a) := fun _ ht => ht

end Leads

end Generator

/-! ## Types -/

section Types

variable {s : Generator} {t : Ty}

theorem normalize_proceeds (hs : s.Ready) (t : Ty) :
    Proceeds (normalize t) s fun u s' => u = normalized t ∧ s.Advances s' := by
  unfold Gen.normalize
  cases unsupportedPart? t with
  | none => exact ⟨rfl, .refl hs⟩
  | some v => exact ⟨rfl, (Generator.Advances.refl hs).record _⟩

theorem Generator.Leads.normalize {α : Type} {f : Ty → Gen α} {post : Generator → Prop}
    (hf : s.Leads (f (normalized t)) post) : s.Leads (Gen.normalize t >>= f) post := by
  refine fun u hu => (normalize_proceeds hu.ready t).bind ?_
  rintro _ v ⟨rfl, hv⟩
  exact hf v (hu.trans hv)

/-- A declaration is looked up, or made and recorded. -/
theorem internAs_runs {d : Declaration} {op : Opcode}
    (hhome : ∀ id, (⟨op, operands id⟩ : Instruction).home? = some .types)
    (hfits : ∀ id, (⟨op, operands id⟩ : Instruction).fits) : s.Runs (internAs d op operands) := by
  refine .of fun {s} hs => ?_
  cases hid : d.id? s.interned with
  | some id => exact Proceeds.of_ok (intern_of_recorded hid) (.refl hs)
  | none =>
    refine Proceeds.of_ok (internAs_of_new hid) (Generator.Advances.record ?_ _)
    exact hs.allocPut (hhome _) (hfits _) (by decide)

theorem pointerId_runs (storage pointee : UInt32) : s.Runs (pointerId storage pointee) :=
  internAs_runs (d := .pointer pointee storage) (fun _ => rfl) fun _ => rfl

theorem vectorId_runs (component count : UInt32) : s.Runs (vectorId component count) :=
  internAs_runs (d := .vector component count) (fun _ => rfl) fun _ => rfl

theorem functionTypeId_runs {result : UInt32} (hfits : params.length + 3 < UInt16.size) :
    s.Runs (functionTypeId result params) :=
  internAs_runs (d := .function (result :: params)) (fun _ => rfl) fun _ => decide_eq_true hfits

theorem require_advances (hs : s.Ready) (t : Ty) : s.Advances (s.require t) := by
  unfold Generator.require Assembly.require
  cases scalarCapability? t with
  | none => exact .refl hs
  | some c => exact ⟨⟨hs.clean, hs.unfinished, hs.current, hs.extensions⟩, rfl, rfl, Nat.le_refl _⟩

theorem scalarId_runs (ht : ∀ id, (scalarInstr? id t).isSome) : s.Runs (scalarId t) := by
  refine .of fun {s} hs => ?_
  cases hid : (Declaration.scalar t).id? s.interned with
  | some id => exact Proceeds.of_ok (intern_of_recorded (d := .scalar t) hid) (.refl hs)
  | none =>
    have hrequire := require_advances hs t
    obtain ⟨i, hi⟩ := Option.isSome_iff_exists.1 (ht (s.require t).next)
    have hfits : i.fits := by cases t <;> cases hi <;> rfl
    have hput : (s.require t).Advances ((s.require t).alloc.put .types i) :=
      hrequire.ready.allocPut (scalarInstr?_profile hi).home hfits (by decide)
    have hrun := scalarId_of_new hid
    rw [hi] at hrun
    exact Proceeds.of_ok hrun ((hrequire.trans hput).record _)

theorem mem_codes {code : UInt8} {n : Nat} (h : code.toNat < n) :
    code ∈ (List.range n).map Nat.toUInt8 :=
  List.mem_map.2 ⟨code.toNat, List.mem_range.2 h, UInt8.ofNat_toNat⟩

theorem exists_storageClass {space : Space} (h : space.code < 4) :
    ∃ c, storageClass space = .ok c := by
  have hall : ∀ code ∈ (List.range 4).map Nat.toUInt8, (storageClass ⟨code⟩).isOk := by
    decide +kernel
  have hok := hall space.code (mem_codes (UInt8.lt_iff_toNat_lt.1 h))
  cases hc : storageClass space with
  | ok c => exact ⟨c, rfl⟩
  | error cause =>
    rw [hc] at hok
    cases hok

/-- The id of a whole type can be asked for. -/
theorem declaredId_runs (ht : t.whole) : s.Runs (declaredId t) := by
  induction t with
  | missing => cases ht
  | void => exact scalarId_runs fun _ => rfl
  | bool => exact scalarId_runs fun _ => rfl
  | int w => exact scalarId_runs fun _ => rfl
  | float w => exact scalarId_runs fun _ => rfl
  | pointer elem space ih =>
    simp only [Ty.whole, Bool.and_eq_true, decide_eq_true_eq] at ht
    obtain ⟨storage, hstorage⟩ := exists_storageClass ht.2
    refine (ih ht.1).bind fun pointee => ?_
    exact .okBind (fun _ => storageClassOf_ok.2 ⟨hstorage, rfl⟩) (pointerId_runs storage pointee)

theorem whole_normalized (ht : t.whole) : (normalized t).whole := by
  induction t with
  | int w => unfold normalized; split <;> rfl
  | float w => unfold normalized; split <;> rfl
  | pointer elem space ih =>
    simp only [normalized, Ty.whole, Bool.and_eq_true, decide_eq_true_eq] at ht ⊢
    exact ⟨ih ht.1, ht.2⟩
  | _ => exact ht

theorem typeId_runs (ht : t.whole) : s.Runs (typeId t) :=
  .normalize (declaredId_runs (whole_normalized ht))

theorem decorate_advances (hs : s.Ready) {id decoration : UInt32} (hfits : params.length < 4) :
    s.Advances (s.put .decorations
      ⟨.decorate, id :: decoration :: params⟩) := by
  refine hs.put rfl ?_ (by decide)
  simp only [Instruction.fits, List.length_cons, decide_eq_true_eq, UInt16.size]
  omega

theorem runtimeArrayId_runs (elem stride : UInt32) : s.Runs (runtimeArrayId elem stride) := by
  refine .of fun {s} hs => ?_
  cases hid : (Declaration.array elem).id? s.interned with
  | some id => exact Proceeds.of_ok (intern_of_recorded (d := .array elem) hid) (.refl hs)
  | none =>
    refine Proceeds.of_ok (runtimeArrayId_of_new stride hid) ?_
    have hdeclare : s.Advances (s.declare (.array elem) ⟨.typeRuntimeArray, [s.next, elem]⟩) :=
      Generator.Advances.record (hs.allocPut rfl rfl (by decide)) _
    exact hdeclare.trans (decorate_advances hdeclare.ready (by simp))

theorem structId_runs (member : UInt32) : s.Runs (structId [member]) :=
  .of fun hs => Proceeds.of_ok rfl (hs.allocPut rfl rfl (by decide))

theorem normalized_number (ht : t.isInt || t.isFloat) :
    (∃ w, normalized t = .int w) ∨ ∃ w, normalized t = .float w := by
  cases t with
  | int w =>
    refine Or.inl ?_
    rw [normalized]
    split <;> exact ⟨_, rfl⟩
  | float w =>
    refine Or.inr ?_
    rw [normalized]
    split <;> exact ⟨_, rfl⟩
  | _ => cases ht

/-- Integers and floats have a size. -/
theorem byteSize_runs (ht : t.isInt || t.isFloat) : s.Runs (byteSize t) := by
  refine .normalize ?_
  rcases normalized_number ht with ⟨w, hw⟩ | ⟨w, hw⟩
  · rw [hw]
    exact .pure _
  · rw [hw]
    exact .pure _

theorem stridedPointerId_runs {elem : Ty} {space : Space} (ht : (Ty.pointer elem space).whole)
    (helem : elem.isInt || elem.isFloat) : s.Runs (stridedPointerId elem space) := by
  refine (typeId_runs ht).bind fun id => .of fun {s} hs => ?_
  refine Proceeds.okBind rfl (Proceeds.ite (fun _ => .refl hs) fun _ => ?_)
  refine ((byteSize_runs helem).proceeds hs).bind fun size t ht => ?_
  refine Proceeds.of_ok rfl (Generator.Advances.record ?_ _)
  exact ht.trans (decorate_advances ht.ready (by simp))

/-! ## Constants -/

theorem whole_of_isLiteral (h : t.isLiteral) : t.whole := by
  cases t with
  | bool | int _ | float _ => rfl
  | _ => cases h

theorem constantOf_runs {type : UInt32} {bits : UInt64} {op : Opcode}
    (hinstr : ∀ id, constantInstr? type id bits t = some ⟨op, operands id⟩) :
    s.Runs (constantOf type bits (.declare op operands)) := by
  refine internAs_runs (d := .constant type bits)
    (fun id => (constantInstr?_profile (hinstr id)).home) fun id => ?_
  have hlength : (operands id).length ≤ 4 := by
    have hi := hinstr id
    cases t <;> simp only [constantInstr?, Option.some.injEq, Instruction.mk.injEq, reduceCtorEq]
      at hi
    · simp [← hi.2]
    all_goals
      rw [← hi.2]
      split <;> simp [Build.doubleWords]
  exact decide_eq_true (Nat.lt_of_le_of_lt (Nat.succ_le_succ hlength) (by decide))

/-- Constants of types with literals can be asked for. -/
theorem constantId_runs {c : Constant} (hc : c.type.isLiteral) : s.Runs (constantId c) := by
  have hwhole := whole_normalized (whole_of_isLiteral hc)
  have hcases : normalized c.type = .bool ∨ (∃ w, normalized c.type = .int w) ∨
      ∃ w, normalized c.type = .float w := by
    cases ht : c.type with
    | bool => exact Or.inl rfl
    | int w => exact Or.inr (normalized_number rfl)
    | float w => exact Or.inr (normalized_number rfl)
    | _ => rw [ht] at hc; cases hc
  refine .normalize ((declaredId_runs hwhole).bind fun type => ?_)
  rcases hcases with ht | ⟨w, ht⟩ | ⟨w, ht⟩ <;> rw [ht]
  · refine constantOf_runs (t := .bool) fun id => ?_
    cases c.bits != 0 <;> rfl
  · exact constantOf_runs (t := .int w) fun _ => rfl
  · exact constantOf_runs (t := .float w) fun _ => rfl

end Types

end Spirv

end Elementwise
