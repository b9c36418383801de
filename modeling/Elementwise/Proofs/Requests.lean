import Elementwise.Proofs.Steps
import Elementwise.Proofs.Writing

/-!
# What the generator is asked for

A run asks for types, looks values up, gives values ids and names functions to call. All this is
its request, and the requests of parts add up. Two things are told from the request alone: which types
are reported as unsupported, and that every value was given an id before it was used. Capabilities
follow the number types on record and nothing else, and no step of lowering asks for an extension.
-/
namespace Elementwise.Spirv
open IR Gen

/-! ## Requests -/

inductive Ask where
  /-- A type is asked for. -/
  | type (t : Ty)
  /-- The id of a value is looked up. -/
  | use (v : Value)
  /-- A value is given an id. -/
  | define (v : Value)
  /-- A function is called. -/
  | call (f : FuncId)

/-! ## Runs that meet a request -/

/-- The capabilities are in order, and are the given ones and those of the recorded number types. -/
structure Generator.Capable (given : UInt32 → Prop) (s : Generator) : Prop where
  ascending : s.assembly.capabilities.Pairwise (· < ·)
  mem : ∀ c, c ∈ s.assembly.capabilities ↔
    given c ∨ ∃ t ∈ s.interned.scalars.map Prod.fst, scalarCapability? t = some c

/-- A run meets a request. -/
structure Generator.Meets (r : List Ask) (s s' : Generator) : Prop where
  /-- The unsupported parts of the types are reported, and nothing else is. -/
  reported : ∀ u, u ∈ s'.interned.unsupported ↔
    u ∈ s.interned.unsupported ∨ ∃ t, .type t ∈ r ∧ unsupportedPart? t = some u
  nodup : s.interned.unsupported.Nodup → s'.interned.unsupported.Nodup
  uses : ∀ v, .use v ∈ r → .define v ∈ r ∨ v ∈ s.body.values.map Prod.fst
  defines : ∀ v ∈ s'.body.values.map Prod.fst, .define v ∈ r ∨ v ∈ s.body.values.map Prod.fst
  calls : ∀ f, .call f ∈ r → some f ∈ s.functions.map Prod.fst
  functions : s'.functions = s.functions
  extensions : s'.assembly.extensions = s.assembly.extensions
  capable : ∀ given, s.Capable given → s'.Capable given

variable {s t u s' : Generator} {r r' : List Ask} {ty : Ty} {d : Declaration}
  {operands : UInt32 → List UInt32}

/-- What requests are about: reports, number types, capabilities, extensions, functions, values. -/
def Generator.ledger (s : Generator) : List Ty × List (Ty × UInt32) × List UInt32 × List String ×
    List (Option FuncId × UInt32) × List (Value × UInt32) :=
  (s.interned.unsupported, s.interned.scalars, s.assembly.capabilities, s.assembly.extensions,
    s.functions, s.body.values)

namespace Generator.Meets

/-- A step that leaves all that alone meets the empty request. -/
theorem idle (h : s'.ledger = s.ledger) : Meets [] s s' := by
  simp only [ledger, Prod.mk.injEq] at h
  obtain ⟨hreported, hscalars, hcapabilities, hextensions, hfunctions, hvalues⟩ := h
  refine ⟨fun u => by simp [hreported], fun hn => hreported ▸ hn, by simp, fun v hv => ?_, by simp,
    hfunctions, hextensions, fun given hs => ⟨?_, ?_⟩⟩
  · exact Or.inr (hvalues ▸ hv)
  · rw [hcapabilities]
    exact hs.ascending
  · rw [hcapabilities, hscalars]
    exact hs.mem

protected theorem refl (s : Generator) : Meets [] s s := idle rfl

theorem trans (h : Meets r s t) (h' : Meets r' t u) : Meets (r ++ r') s u where
  reported v := by
    rw [h'.reported, h.reported]
    simp [or_and_right, exists_or, or_assoc]
  nodup hn := h'.nodup (h.nodup hn)
  uses v hv := by
    rw [List.mem_append] at hv ⊢
    rcases hv with hv | hv
    · exact (h.uses v hv).imp_left Or.inl
    · rcases h'.uses v hv with hv | hv
      · exact Or.inl (Or.inr hv)
      · exact (h.defines v hv).imp_left Or.inl
  defines v hv := by
    rw [List.mem_append]
    rcases h'.defines v hv with hv | hv
    · exact Or.inl (Or.inr hv)
    · exact (h.defines v hv).imp_left Or.inl
  calls f hf := by
    rcases List.mem_append.1 hf with hf | hf
    · exact h.calls f hf
    · exact h.functions ▸ h'.calls f hf
  functions := h'.functions.trans h.functions
  extensions := h'.extensions.trans h.extensions
  capable given hs := h'.capable given (h.capable given hs)

/-- Requests are told by their members, and types by their unsupported parts. -/
theorem congr (h : Meets r s s') (htypes : ∀ u, (∃ t, .type t ∈ r ∧ unsupportedPart? t = some u) ↔
      ∃ t, .type t ∈ r' ∧ unsupportedPart? t = some u)
    (hothers : ∀ a, (∀ t, a ≠ .type t) → (a ∈ r' ↔ a ∈ r)) : Meets r' s s' where
  reported u := by rw [h.reported, htypes]
  nodup := h.nodup
  uses v hv := by
    rw [hothers _ (by simp)] at hv ⊢
    exact h.uses v hv
  defines v hv := by
    rw [hothers _ (by simp)]
    exact h.defines v hv
  calls f hf := h.calls f ((hothers _ (by simp)).1 hf)
  functions := h.functions
  extensions := h.extensions
  capable := h.capable

theorem reorder (h : Meets r s s') (hr : ∀ a, a ∈ r' ↔ a ∈ r) : Meets r' s s' :=
  h.congr (by simp only [hr, implies_true]) fun a _ => hr a

theorem andIdle (h : Meets r s t) (h' : Meets [] t u) : Meets r s u :=
  List.append_nil r ▸ h.trans h'

end Generator.Meets

/-! ## Steps -/

/-- In every run that succeeds the step meets the request. -/
def Gen.Wants {α : Type} (x : Gen α) (r : List Ask) : Prop :=
  ∀ ⦃s a s'⦄, x s = .ok a s' → Generator.Meets r s s'

namespace Gen.Wants

variable {α β : Type} {x y : Gen α} {f : α → Gen β} {c : Prop} [Decidable c]

theorem bind (hx : Wants x r) (hf : ∀ a, Wants (f a) r') : Wants (x >>= f) (r ++ r') := by
  intro s b s' h
  obtain ⟨a, t, ha, hb⟩ := bind_ok.1 h
  exact (hx ha).trans (hf a hb)

theorem andIdle (hx : Wants x r) (hf : ∀ a, Wants (f a) []) : Wants (x >>= f) r :=
  List.append_nil r ▸ hx.bind hf

protected theorem pure (a : α) : Wants (pure a) [] := fun s _ _ h => (pure_ok.1 h).2 ▸ .refl s

protected theorem fail (cause : Cause) : Wants (fail cause : Gen α) r :=
  fun _ _ _ h => absurd h Gen.fail_ok.1

theorem ite (hx : Wants x r) (hy : Wants y r) : Wants (if c then x else y) r := by
  split
  · exact hx
  · exact hy

theorem located {function block : Text} (hx : Wants x r) : Wants (located function block x) r :=
  fun _ _ _ h => hx (located_ok.1 h)

theorem modify {g : Generator → Generator} (hg : ∀ s, Generator.Meets r s (g s)) :
    Wants (modify g) r := fun s _ _ h => modify_ok.1 h ▸ hg s

theorem reorder (hx : Wants x r) (hr : ∀ a, a ∈ r' ↔ a ∈ r) : Wants x r' :=
  fun _ _ _ h => (hx h).reorder hr

end Gen.Wants

open Generator

/-! ## Single steps -/

theorem ledger_put (s : Generator) (target : Section) (i : Instruction) :
    (s.put target i).ledger = s.ledger := by
  have hframe := Assembly.sameFrame_emitInstr s.assembly target i
  simp only [ledger, put, hframe.capabilities, hframe.extensions]

section Build

variable (op : Opcode) (args : List UInt32) (target : Section)

theorem emitTo_wants : Wants (build (.emitTo target op args)) [] :=
  fun s _ _ h => emitTo_ok.1 h ▸ .idle (ledger_put s target _)

theorem emit_wants : Wants (build (.emit op args)) [] :=
  fun s _ _ h => emit_ok.1 h ▸ .idle (ledger_put s _ _)

theorem emitNew_wants : Wants (build (.emitNew op operands)) [] :=
  fun s _ _ h => (emitNew_ok.1 h).2 ▸ .idle (ledger_put s.alloc _ _)

theorem declare_wants : Wants (build (.declare op operands)) [] :=
  fun s _ _ h => (declare_ok.1 h).2 ▸ .idle (ledger_put s.alloc _ _)

end Build

theorem meets_put (s : Generator) (target : Section) (i : Instruction) :
    Meets [] s (s.put target i) := .idle (ledger_put s target i)

theorem meets_define (s : Generator) (v : Value) (word : UInt32) :
    Meets [.define v] s
      { s with body := { s.body with values := (v, word) :: s.body.values } } where
  reported u := by simp
  nodup hn := hn
  uses := by simp
  defines w hw := by simpa using hw
  calls := by simp
  functions := rfl
  extensions := rfl
  capable _ hs := ⟨hs.ascending, hs.mem⟩

/-! ## Types and constants -/

theorem mem_report {n : Interned} {v : Ty} :
    v ∈ (n.report ty).unsupported ↔ v ∈ n.unsupported ∨ v = ty := by
  unfold Interned.report
  split_ifs with h
  · have hmem : ty ∈ n.unsupported := by simpa using h
    exact ⟨Or.inl, fun h => h.elim id fun heq => heq ▸ hmem⟩
  · simp

theorem nodup_report {n : Interned} (h : n.unsupported.Nodup) (ty : Ty) :
    (n.report ty).unsupported.Nodup := by
  unfold Interned.report
  split_ifs with hmem
  · exact h
  · refine List.nodup_append.2 ⟨h, by simp, ?_⟩
    rintro v hv _ hw rfl
    rw [List.mem_singleton.1 hw] at hv
    exact hmem (by simpa using hv)

theorem normalize_meets {ty' : Ty} (h : normalize ty s = .ok ty' s') :
    ty' = normalized ty ∧ Meets [.type ty] s s' := by
  cases hpart : unsupportedPart? ty with
  | none =>
    simp only [Gen.normalize, hpart, pure_ok] at h
    obtain ⟨rfl, rfl⟩ := h
    exact ⟨rfl, (Meets.refl s).congr (by simp [hpart]) fun a ha => by simp [ha]⟩
  | some scalar =>
    simp only [Gen.normalize, hpart, bind_ok, modifyInterned_ok, pure_ok] at h
    obtain ⟨_, _, rfl, rfl, rfl⟩ := h
    have hscalars : (s.interned.report scalar).scalars = s.interned.scalars := by
      unfold Interned.report
      split <;> rfl
    exact ⟨rfl,
      { reported := fun v => by simp [mem_report, hpart, eq_comm]
        nodup := fun hn => nodup_report hn scalar
        uses := by simp
        defines := fun v hv => Or.inr hv
        calls := by simp
        functions := rfl
        extensions := rfl
        capable := fun given hs => ⟨hs.ascending, fun c => by
          dsimp only
          rw [hscalars]
          exact hs.mem c⟩ }⟩

theorem normalize_wants (ty : Ty) : Wants (normalize ty) [.type ty] :=
  fun _ _ _ h => (normalize_meets h).2

section Interning

variable {id : UInt32}

/-- A declaration other than that of a number type. -/
theorem meets_declare (hd : ∀ t, d ≠ .scalar t) (i : Instruction) : Meets [] s (s.declare d i) := by
  have hput := ledger_put s.alloc .types i
  simp only [ledger, Prod.mk.injEq] at hput
  refine .idle ?_
  simp only [ledger, Generator.declare, hput.2.2.1, hput.2.2.2]
  cases d with
  | scalar t => exact absurd rfl (hd t)
  | _ => rfl

theorem internAs_wants {op : Opcode} (hd : ∀ t, d ≠ .scalar t) : Wants (internAs d op operands) [] := by
  intro s id s' h
  rcases internAs_ok h with ⟨-, rfl⟩ | ⟨-, rfl, rfl⟩
  · exact .refl s
  · exact meets_declare hd _

theorem pointerId_wants (storage pointee : UInt32) : Wants (pointerId storage pointee) [] :=
  internAs_wants (d := .pointer pointee storage) (by simp)

theorem vectorId_wants (component count : UInt32) : Wants (vectorId component count) [] :=
  internAs_wants (d := .vector component count) (by simp)

theorem functionTypeId_wants (result : UInt32) (params : List UInt32) :
    Wants (functionTypeId result params) [] :=
  internAs_wants (d := .function (result :: params)) (by simp)

theorem constantOf_wants {type : UInt32} {bits : UInt64} {op : Opcode} :
    Wants (constantOf type bits (.declare op operands)) [] :=
  internAs_wants (d := .constant type bits) (by simp)

/-- A number type is recorded together with its capability. -/
theorem Generator.Capable.record {given : UInt32 → Prop} (hs : s.Capable given)
    (hscalars : s'.interned.scalars = (ty, id) :: s.interned.scalars)
    (hcapabilities : s'.assembly.capabilities = (s.assembly.require ty).capabilities) :
    s'.Capable given := by
  have hrecord : ∀ c, (∃ t ∈ s'.interned.scalars.map Prod.fst, scalarCapability? t = some c) ↔
      scalarCapability? ty = some c ∨
        ∃ t ∈ s.interned.scalars.map Prod.fst, scalarCapability? t = some c := by
    simp [hscalars]
  unfold Assembly.require at hcapabilities
  cases hneeded : scalarCapability? ty with
  | none =>
    rw [hneeded, Option.elim_none] at hcapabilities
    refine ⟨hcapabilities ▸ hs.ascending, fun c => ?_⟩
    rw [hcapabilities, hrecord, hneeded, hs.mem]
    simp
  | some needed =>
    rw [hneeded, Option.elim_some, Assembly.addCapability] at hcapabilities
    refine ⟨?_, fun c => ?_⟩
    · rw [hcapabilities]
      exact pairwise_insertAscending hs.ascending
    · rw [hcapabilities, mem_insertAscending_iff, hrecord, hneeded, hs.mem, Option.some.injEq,
        eq_comm (a := needed)]
      exact or_assoc.trans (or_congr_right or_comm)

theorem extensions_require (a : Assembly) (ty : Ty) : (a.require ty).extensions = a.extensions := by
  unfold Assembly.require
  cases scalarCapability? ty <;> rfl

theorem scalarId_wants (ty : Ty) : Wants (scalarId ty) [] := by
  intro s id s' h
  rcases scalarId_ok h with ⟨-, rfl⟩ | ⟨-, rfl, i, -, rfl⟩
  · exact .refl s
  · have hput := ledger_put (s.require ty).alloc .types i
    simp only [ledger, Prod.mk.injEq] at hput
    obtain ⟨-, -, hcapabilities, hextensions, -, -⟩ := hput
    exact
      { reported := fun v => by simp [Generator.declare, Declaration.record, Generator.require]
        nodup := fun hn => hn
        uses := by simp
        defines := fun v hv => Or.inr hv
        calls := by simp
        functions := rfl
        extensions := hextensions.trans (extensions_require s.assembly ty)
        capable := fun given hs => hs.record rfl hcapabilities }

theorem declaredId_wants (ty : Ty) : Wants (declaredId ty) [] := by
  induction ty with
  | missing => exact .fail _
  | pointer elem space ih =>
    have hstorage : Wants (storageClassOf space) [] := by
      unfold storageClassOf
      split
      · exact .pure _
      · exact .fail _
    exact ih.bind fun _ => hstorage.bind fun _ => pointerId_wants _ _
  | _ => exact scalarId_wants _

theorem typeId_wants (ty : Ty) : Wants (typeId ty) [.type ty] :=
  (normalize_wants ty).andIdle declaredId_wants

theorem byteSize_wants (ty : Ty) : Wants (byteSize ty) [.type ty] := by
  refine (normalize_wants ty).andIdle fun u => ?_
  cases u with
  | int w | float w => exact .pure _
  | _ => exact .fail _

theorem constantId_wants (c : Constant) : Wants (constantId c) [.type c.type] := by
  refine (normalize_wants c.type).andIdle fun u => (declaredId_wants u).bind fun _ => ?_
  cases u with
  | bool | int w | float w => exact constantOf_wants
  | _ => exact .fail _

/-- The stride of a pointer is the size of what it points to, so nothing more is asked for. -/
theorem stridedPointerId_wants (elem : Ty) (space : Space) :
    Wants (stridedPointerId elem space) [.type (.pointer elem space)] := by
  intro s id s' h
  simp only [stridedPointerId, bind_ok, get_ok, ite_ok, pure_ok] at h
  obtain ⟨_, t, htype, _, _, ⟨rfl, rfl⟩, h⟩ := h
  split_ifs at h with hstrided
  · exact h.2 ▸ typeId_wants _ htype
  · simp only [Build.decorate, emitTo_ok, modifyInterned_ok] at h
    obtain ⟨_, u, hsize, _, _, rfl, _, _, rfl, -, rfl⟩ := h
    have hasked := (typeId_wants _ htype).trans (byteSize_wants _ hsize)
    refine Meets.congr ((hasked.andIdle (meets_put u .decorations _)).andIdle (.idle rfl)) ?_ ?_
    · simp [unsupportedPart?]
    · exact fun a ha => by simp [ha]

end Interning

end Elementwise.Spirv
