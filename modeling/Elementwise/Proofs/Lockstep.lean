import Elementwise.Proofs.Correspondence
import Elementwise.Proofs.Steps

/-!
# Runs in lockstep

Version, names, entry points and capabilities are of no consequence to the rest of a module. Two
states share their code if they differ in nothing else. They are alike if they do so, or do not
differ at all, once functions, blocks and values have the identities of the second. Steps run in
lockstep if from alike states they both fail for a reason of the same kind, or both succeed in
states that are alike again; what the first of the two did on the way is told by the steps that it
took.

Most parts of the generator run in lockstep with themselves: they are steady.
-/
namespace Elementwise.Spirv
open IR Gen Relation

/-- The same ids, declarations and decorations, and the same instructions of functions. -/
structure Generator.SameCode (s t : Generator) : Prop where
  interned : s.interned = t.interned
  functions : s.functions = t.functions
  body : s.body = t.body
  allocated : s.assembly.allocated = t.assembly.allocated
  current : s.assembly.current = t.assembly.current
  decorations : s.assembly.decorations = t.assembly.decorations
  types : s.assembly.types = t.assembly.types
  code : s.assembly.functions = t.assembly.functions
  finished : s.assembly.finished = t.assembly.finished

namespace Generator.SameCode

variable {s t : Generator}

protected theorem rfl : s.SameCode s := by constructor <;> rfl

theorem next (h : s.SameCode t) : s.next = t.next := by
  rw [Generator.next, Generator.next, Assembly.bound, Assembly.bound, h.allocated]

theorem alloc (h : s.SameCode t) : s.alloc.SameCode t.alloc :=
  { h with allocated := congrArg (· + 1) h.allocated }

theorem select (h : s.SameCode t) (target : Section) :
    (s.select target).SameCode (t.select target) :=
  { h with current := rfl }

theorem withInterned (h : s.SameCode t) (f : Interned → Interned) :
    SameCode { s with interned := f s.interned } { t with interned := f t.interned } :=
  { h with interned := congrArg f h.interned }

theorem withBody (h : s.SameCode t) (f : Body → Body) :
    SameCode { s with body := f s.body } { t with body := f t.body } :=
  { h with body := congrArg f h.body }

theorem refuse (s : Generator) (cause : Cause) :
    SameCode { s with assembly := s.assembly.refuse cause } s := by
  unfold Assembly.refuse
  cases s.assembly.refusal <;> constructor <;> rfl

protected theorem symm (h : s.SameCode t) : t.SameCode s :=
  ⟨h.interned.symm, h.functions.symm, h.body.symm, h.allocated.symm, h.current.symm,
    h.decorations.symm, h.types.symm, h.code.symm, h.finished.symm⟩

protected theorem trans {u : Generator} (h : s.SameCode t) (h' : t.SameCode u) : s.SameCode u :=
  ⟨h.interned.trans h'.interned, h.functions.trans h'.functions, h.body.trans h'.body,
    h.allocated.trans h'.allocated, h.current.trans h'.current,
    h.decorations.trans h'.decorations, h.types.trans h'.types, h.code.trans h'.code,
    h.finished.trans h'.finished⟩

/-- The same instruction is appended to both or refused in both. -/
theorem put (h : s.SameCode t) (target : Section) (i : Instruction) :
    (s.put target i).SameCode (t.put target i) := by
  have hobj : s.assembly.objection? target i = t.assembly.objection? target i := by
    unfold Assembly.objection?
    rw [h.finished]
  unfold Generator.put Assembly.emitInstr
  rw [hobj]
  cases t.assembly.objection? target i with
  | some cause => exact (refuse s cause).trans (h.trans (refuse t cause).symm)
  | none =>
    cases target with
    | decorations => exact { h with decorations := congrArg (·.push i) h.decorations }
    | types => exact { h with types := congrArg (·.push i) h.types }
    | functions => exact { h with code := congrArg (·.push i) h.code }
    | _ => exact { h with }

/-- Names and entry points are no code. -/
theorem put_silent (s : Generator) {target : Section} (i : Instruction)
    (htarget : target = .debug ∨ target = .entryPoints) : (s.put target i).SameCode s := by
  unfold Generator.put Assembly.emitInstr
  cases s.assembly.objection? target i with
  | some cause => exact refuse s cause
  | none => rcases htarget with rfl | rfl <;> constructor <;> rfl

end Generator.SameCode

/-! ## Other identities -/

/-- How a failure is classified: as a diagnostic of some kind, or as a panic. -/
def Failure.kind : Failure → Kind ⊕ IR.Panic
  | .diagnostic d => .inl d.kind
  | .panic p => .inr p

def Body.relabel (r : Relabeling) (b : Body) : Body :=
  { b with
    values := b.values.map (Prod.map r.value id)
    labels := b.labels.map (Prod.map r.block id) }

/-- The state in which functions, blocks and values have other identities. -/
def Generator.relabel (r : Relabeling) (s : Generator) : Generator :=
  { s with
    functions := s.functions.map (Prod.map (Option.map r.func) id)
    body := s.body.relabel r }

theorem Generator.SameCode.relabel {s t : Generator} (h : s.SameCode t) (r : Relabeling) :
    (s.relabel r).SameCode (t.relabel r) :=
  { h with
    functions := congrArg (List.map (Prod.map (Option.map r.func) id)) h.functions
    body := congrArg (Body.relabel r) h.body }

/-- Under other identities the states share their code, or are the same as a whole. -/
structure Generator.Alike (r : Relabeling) (whole : Bool) (s t : Generator) : Prop where
  code : (s.relabel r).SameCode t
  same : whole = true → s.relabel r = t

theorem Generator.relabel_same (s : Generator) : s.relabel .same = s := by
  simp [relabel, Body.relabel]

theorem lookup_map {α β : Type} [BEq α] [LawfulBEq α] [BEq β] [LawfulBEq β] {m : α → β}
    (hm : Function.Injective m) (xs : List (α × UInt32)) (a : α) :
    List.lookup (m a) (xs.map (Prod.map m id)) = List.lookup a xs := by
  induction xs with
  | nil => rfl
  | cons x rest ih =>
    have heq : (m a == m x.1) = (a == x.1) := by
      rw [Bool.eq_iff_iff, beq_iff_eq, beq_iff_eq, hm.eq_iff]
    rw [List.map_cons, List.lookup_cons, List.lookup_cons, Prod.map_fst, heq, ih]
    rfl

variable {s' : Generator}

namespace Generator.Alike

variable {r : Relabeling} {w : Bool} {s t : Generator}

theorem relabeled (s : Generator) : s.Alike r w (s.relabel r) := ⟨.rfl, fun _ => rfl⟩

/-- The same change of both states. -/
theorem map (h : s.Alike r w t) {g : Generator → Generator}
    (hcode : ∀ {s t : Generator}, s.SameCode t → (g s).SameCode (g t))
    (hcomm : s'.relabel r = g (s.relabel r)) : s'.Alike r w (g t) :=
  ⟨hcomm ▸ hcode h.code, fun hw => hcomm.trans (congrArg g (h.same hw))⟩

theorem interned (h : s.Alike r w t) : s.interned = t.interned := h.code.interned

theorem next (h : s.Alike r w t) : s.next = t.next := h.code.next

theorem current (h : s.Alike r w t) : s.assembly.current = t.assembly.current := h.code.current

theorem alloc (h : s.Alike r w t) : s.alloc.Alike r w t.alloc := h.map .alloc rfl

theorem select (h : s.Alike r w t) (target : Section) :
    (s.select target).Alike r w (t.select target) := h.map (·.select target) rfl

theorem put (h : s.Alike r w t) (target : Section) (i : Instruction) :
    (s.put target i).Alike r w (t.put target i) := h.map (·.put target i) rfl

theorem putAll (h : s.Alike r w t) (target : Section) (steps : List (Option Instruction)) :
    (s.putAll target steps).Alike r w (t.putAll target steps) := by
  induction steps generalizing s t with
  | nil => exact h
  | cons x rest ih =>
    cases x with
    | none => exact ih h.alloc
    | some i => exact ih (h.put target i)

theorem withInterned (h : s.Alike r w t) (f : Interned → Interned) :
    Alike r w { s with interned := f s.interned } { t with interned := f t.interned } :=
  h.map (·.withInterned f) rfl

theorem lookup_function (h : s.Alike r w t) (hr : r.Faithful) (f : Option FuncId) :
    List.lookup (f.map r.func) t.functions = List.lookup f s.functions := by
  rw [← h.code.functions]
  exact lookup_map (Option.map_injective hr.func) s.functions f

theorem lookup_value (h : s.Alike r w t) (hr : r.Faithful) (v : Value) :
    List.lookup (r.value v) t.body.values = List.lookup v s.body.values := by
  rw [← h.code.body]
  exact lookup_map hr.value s.body.values v

theorem lookup_label (h : s.Alike r w t) (hr : r.Faithful) (b : BlockId) :
    List.lookup (r.block b) t.body.labels = List.lookup b s.body.labels := by
  rw [← h.code.body]
  exact lookup_map hr.block s.body.labels b

end Generator.Alike

/-! ## Pairs of runs -/

/-- Both runs fail for a reason of the same kind, or succeed with related results, the first by
steps of a kind. -/
inductive Gen.Paired {α β : Type} (r : Relabeling) (w : Bool) (R : Generator → Generator → Prop)
    (V : α → β → Prop) (s : Generator) :
    EStateM.Result Failure Generator α → EStateM.Result Failure Generator β → Prop
  | ok {a : α} {b : β} {u v : Generator} (hv : V a b) (hcode : u.Alike r w v)
      (hsteps : ReflTransGen R s u) : Paired r w R V s (.ok a u) (.ok b v)
  | error {e e' : Failure} {u v : Generator} (hkind : e'.kind = e.kind) :
    Paired r w R V s (.error e u) (.error e' v)

def Gen.Lockstep {α β : Type} (r : Relabeling) (w : Bool) (R : Generator → Generator → Prop)
    (V : α → β → Prop) (x : Gen α) (y : Gen β) : Prop :=
  ∀ s t : Generator, s.Alike r w t → Paired r w R V s (x s) (y t)

/-- From alike states it takes the same course. -/
abbrev Gen.Steady {α : Type} (r : Relabeling) (w : Bool) (R : Generator → Generator → Prop)
    (x : Gen α) : Prop :=
  Gen.Lockstep r w R Eq x x

namespace Gen

variable {r : Relabeling} {w : Bool} {R : Generator → Generator → Prop} {α β γ δ : Type}
  {V : α → β → Prop} {W : γ → δ → Prop} {x : Gen α} {y : Gen β} {x' : Gen γ} {y' : Gen δ}
  {f : α → Gen γ} {g : β → Gen δ} {s t : Generator}

namespace Paired

theorem after {first : EStateM.Result Failure Generator α}
    {second : EStateM.Result Failure Generator β} {u : Generator} (hsteps : ReflTransGen R u s)
    (h : Paired r w R V s first second) : Paired r w R V u first second := by
  cases h with
  | ok hv hcode hmore => exact .ok hv hcode (hsteps.trans hmore)
  | error hkind => exact .error hkind

/-- The second step starts where the first one ended. -/
protected theorem bind (hx : Paired r w R V s (x s) (y t))
    (hf : ∀ a b s' t', x s = .ok a s' → V a b → s'.Alike r w t' →
      Paired r w R W s' (f a s') (g b t')) :
    Paired r w R W s ((x >>= f) s) ((y >>= g) t) := by
  change Paired r w R W s (EStateM.bind x f s) (EStateM.bind y g t)
  unfold EStateM.bind
  generalize hfirst : x s = first at hx
  generalize y t = second at hx
  cases hx with
  | ok hv hcode hsteps => exact (hf _ _ _ _ hfirst hv hcode).after hsteps
  | error hkind => exact .error hkind

theorem getBind {f : Generator → Gen γ} {g : Generator → Gen δ}
    (h : Paired r w R W s (f s s) (g t t)) : Paired r w R W s ((get >>= f) s) ((get >>= g) t) := h

end Paired

namespace Lockstep

/-! ## Rules -/

variable {a : α}

theorem reaches (h : Lockstep r w R V x y) (hx : x s = .ok a s') : ReflTransGen R s s' := by
  have hpaired := h s _ (.relabeled s)
  rw [hx] at hpaired
  generalize y _ = second at hpaired
  cases hpaired with
  | ok _ _ hsteps => exact hsteps

/-- Runs from states that share their code, if both succeed. -/
theorem of_ok {b : β} {t' : Generator} (h : Lockstep .same false R V x y) (hst : s.SameCode t)
    (hx : x s = .ok a s') (hy : y t = .ok b t') : V a b ∧ s'.SameCode t' := by
  have hpaired := h s t ⟨s.relabel_same.symm ▸ hst, nofun⟩
  rw [hx, hy] at hpaired
  cases hpaired with
  | ok hv hcode _ => exact ⟨hv, s'.relabel_same ▸ hcode.code⟩

theorem imp {V' : α → β → Prop} (h : Lockstep r w R V x y) (hV : ∀ a b, V a b → V' a b) :
    Lockstep r w R V' x y := by
  intro s t hst
  have hpaired := h s t hst
  generalize x s = first at hpaired
  generalize y t = second at hpaired
  cases hpaired with
  | ok hv hcode hsteps => exact .ok (hV _ _ hv) hcode hsteps
  | error hkind => exact .error hkind

theorem mono {R' : Generator → Generator → Prop} (h : Lockstep r w R V x y)
    (hR : ∀ s s', R s s' → R' s s') : Lockstep r w R' V x y := by
  intro s t hst
  have hpaired := h s t hst
  generalize x s = first at hpaired
  generalize y t = second at hpaired
  cases hpaired with
  | ok hv hcode hsteps => exact .ok hv hcode (ReflTransGen.mono hR _ _ hsteps)
  | error hkind => exact .error hkind

protected theorem pure {b : β} (h : V a b) : Lockstep r w R V (pure a) (pure b) :=
  fun _ _ hst => .ok h hst .refl

protected theorem throw {e e' : Failure} (h : e'.kind = e.kind) :
    Lockstep r w R V (throw e) (throw e') :=
  fun _ _ _ => .error h

protected theorem bind (hx : Lockstep r w R V x y)
    (hf : ∀ a b, V a b → Lockstep r w R W (f a) (g b)) : Lockstep r w R W (x >>= f) (y >>= g) :=
  fun s t hst => (hx s t hst).bind fun a b s' t' _ hv hcode => hf a b hv s' t' hcode

/-- A step with the same result in both runs, before others. -/
theorem andThen {y : Gen α} {g : α → Gen δ} (hx : Lockstep r w R Eq x y)
    (hf : ∀ a, Lockstep r w R W (f a) (g a)) : Lockstep r w R W (x >>= f) (y >>= g) := by
  refine hx.bind ?_
  rintro a _ rfl
  exact hf a

/-- Steps that depend on the state. -/
theorem getBind {f : Generator → Gen γ} {g : Generator → Gen δ}
    (h : ∀ s t : Generator, s.Alike r w t → Lockstep r w R W (f s) (g t)) :
    Lockstep r w R W (get >>= f) (get >>= g) :=
  fun s t hst => .getBind (h s t hst s t hst)

protected theorem modify {f g : Generator → Generator} (hstep : ∀ s, R s (f s))
    (hcode : ∀ {s t : Generator}, s.SameCode t → (g s).SameCode (g t))
    (hcomm : ∀ s, (f s).relabel r = g (s.relabel r)) :
    Lockstep r w R Eq (modify f) (modify g) :=
  fun s _ hst => .ok rfl (hst.map hcode (hcomm s)) (.single (hstep s))

protected theorem ite {c c' : Prop} [Decidable c] [Decidable c'] {x' : Gen α} {y' : Gen β}
    (hc : c' ↔ c) (hx : c → Lockstep r w R V x y) (hy : ¬ c → Lockstep r w R V x' y') :
    Lockstep r w R V (if c then x else x') (if c' then y else y') := by
  by_cases h : c
  · rw [if_pos h, if_pos (hc.2 h)]
    exact hx h
  · rw [if_neg h, if_neg (hc.not.2 h)]
    exact hy h

/-- Steps after a check. -/
theorem throwIf {c c' : Prop} [Decidable c] [Decidable c'] {e e' : Failure} {f : Unit → Gen α}
    {g : Unit → Gen β} (hc : c' ↔ c) (hkind : e'.kind = e.kind)
    (h : ¬ c → Lockstep r w R V (f ()) (g ())) :
    Lockstep r w R V (if c then throw e >>= f else f ()) (if c' then throw e' >>= g else g ()) :=
  .ite hc (fun _ _ _ _ => .error hkind) h

/-- Locations are not part of the kind. -/
protected theorem located (hx : Lockstep r w R V x y) (function block function' block' : Text) :
    Lockstep r w R V (located function block x) (located function' block' y) := by
  intro s t hst
  unfold Gen.located
  have h := hx s t hst
  generalize x s = first at h
  generalize y t = second at h
  cases h with
  | ok hv hcode hsteps => exact .ok hv hcode hsteps
  | @error e e' _ _ hkind =>
    have hsame : ∀ (d : Diagnostic) (function block : Text),
        (if d.function.isEmpty then { d with function, block } else d).kind = d.kind := by
      intro d function block
      split <;> rfl
    cases e <;> cases e' <;> simp only [Failure.kind, reduceCtorEq, Sum.inl.injEq] at hkind
    · exact .error (by simp only [Failure.kind, hsame, hkind])
    · exact .error hkind

/-- The section that was selected before is selected again. -/
protected theorem inFunctions (hR : ∀ s target, R s (Generator.select s target))
    (hx : Lockstep r w R V x y) : Lockstep r w R V (inFunctions x) (inFunctions y) := by
  intro s t hst
  have h := hx _ _ (hst.select .functions)
  generalize hfirst : x (s.select .functions) = first at h
  generalize hsecond : y (t.select .functions) = second at h
  unfold Generator.select at hfirst hsecond
  unfold Gen.inFunctions
  dsimp only
  rw [hfirst, hsecond]
  cases h with
  | ok hv hcode hsteps =>
    refine .ok hv ?_ (.head (hR s .functions) (hsteps.tail (hR _ s.assembly.current)))
    rw [hst.current]
    exact hcode.select _
  | error hkind => exact .error hkind

theorem orPanic {a : Except IR.Panic α} {b : Except IR.Panic β}
    (h : (∃ x y, a = .ok x ∧ b = .ok y ∧ V x y) ∨ ∃ e, a = .error e ∧ b = .error e) :
    Lockstep r w R V (orPanic a) (orPanic b) := by
  obtain ⟨x, y, rfl, rfl, hxy⟩ | ⟨e, rfl, rfl⟩ := h
  · exact .pure hxy
  · exact .throw rfl

end Lockstep

theorem Steady.reaches {a : α} (h : Steady .same false R x) (hx : x s = .ok a s') :
    ReflTransGen R s s' :=
  Lockstep.reaches h hx

/-! ## Steps of no consequence -/

/-- A step that succeeds with one result from any state and leaves the code as it is. -/
def Silent (R : Generator → Generator → Prop) (x : Gen α) (a : α) : Prop :=
  ∀ s : Generator, ∃ s', x s = .ok a s' ∧ s'.SameCode s ∧ ReflTransGen R s s'

namespace Silent

variable {R' : Generator → Generator → Prop} {a : α} {b : β} {c : γ}

protected theorem pure : Silent R (pure a) a := fun s => ⟨s, rfl, .rfl, .refl⟩

theorem of_ok {b : α} (h : Silent R x a) (hx : x s = .ok b s') :
    b = a ∧ s'.SameCode s ∧ ReflTransGen R s s' := by
  obtain ⟨_, hok, hcode, hsteps⟩ := h s
  cases hx.symm.trans hok
  exact ⟨rfl, hcode, hsteps⟩

protected theorem bind (hx : Silent R x a) (hf : Silent R (f a) c) : Silent R (x >>= f) c := by
  intro s
  obtain ⟨s₁, hrun, hcode, hsteps⟩ := hx s
  obtain ⟨s₂, hrun', hcode', hsteps'⟩ := hf s₁
  exact ⟨s₂, bind_ok.2 ⟨_, _, hrun, hrun'⟩, hcode'.trans hcode, hsteps.trans hsteps'⟩

theorem getBind {f : Generator → Gen α} (h : ∀ s, Silent R (f s) a) : Silent R (get >>= f) a :=
  fun s => h s s

protected theorem modify {f : Generator → Generator} (hcode : ∀ s, (f s).SameCode s)
    (hstep : ∀ s, R s (f s)) : Silent R (modify f) ⟨⟩ :=
  fun s => ⟨f s, rfl, hcode s, .single (hstep s)⟩

protected theorem ite {p : Prop} [Decidable p] {x' : Gen α} (hx : p → Silent R x a)
    (hx' : ¬ p → Silent R x' a) : Silent R (if p then x else x') a := by
  by_cases h : p
  · rw [if_pos h]
    exact hx h
  · rw [if_neg h]
    exact hx' h

protected theorem forIn {entries : List α} {body : α → PUnit → Gen (ForInStep PUnit)}
    (h : ∀ entry, Silent R (body entry ⟨⟩) (.yield ⟨⟩)) :
    Silent R (forIn entries PUnit.unit body) ⟨⟩ := by
  induction entries with
  | nil => exact .pure
  | cons entry rest ih =>
    rw [List.forIn_cons]
    exact (h entry).bind ih

theorem mono (h : Silent R x a) (hR : ∀ s s', R s s' → R' s s') : Silent R' x a := by
  intro s
  obtain ⟨s', hrun, hcode, hsteps⟩ := h s
  exact ⟨s', hrun, hcode, ReflTransGen.mono hR _ _ hsteps⟩

/-- The first run may take a step of no consequence by itself, unless the states are the same. -/
theorem left (hx : Silent R x a) (h : Lockstep r false R W (f a) y') :
    Lockstep r false R W (x >>= f) y' := by
  intro s t hst
  obtain ⟨s', hrun, hcode, hsteps⟩ := hx s
  have heq : (x >>= f) s = f a s' := by
    change EStateM.bind x f s = _
    unfold EStateM.bind
    rw [hrun]
  rw [heq]
  exact (h s' t ⟨(hcode.relabel r).trans hst.code, nofun⟩).after hsteps

/-- So may the second. -/
theorem right (hy : Silent R' y b) (h : Lockstep r false R W x' (g b)) :
    Lockstep r false R W x' (y >>= g) := by
  intro s t hst
  obtain ⟨t', hrun, hcode, -⟩ := hy t
  have heq : (y >>= g) t = g b t' := by
    change EStateM.bind y g t = _
    unfold EStateM.bind
    rw [hrun]
  rw [heq]
  exact h s t' ⟨hst.code.trans hcode.symm, nofun⟩

/-- Both may do so on conditions of their own. -/
theorem optional {p q : Prop} [Decidable p] [Decidable q] {step step' : Gen PUnit}
    (hw : w = true → ¬ p ∧ ¬ q) (hstep : p → Silent R step ⟨⟩) (hstep' : q → Silent R' step' ⟨⟩)
    (h : Lockstep r w R W x' y') :
    Lockstep r w R W (if p then (do step; x') else x') (if q then (do step'; y') else y') := by
  cases w with
  | true =>
    rw [if_neg (hw rfl).1, if_neg (hw rfl).2]
    exact h
  | false =>
    have hright : Lockstep r false R W x' (if q then (do step'; y') else y') := by
      split
      next hq => exact (hstep' hq).right h
      next => exact h
    split
    next hp => exact (hstep hp).left hright
    next => exact hright

theorem lockstep (hx : Silent R x a) (hy : Silent R' y b) (hv : V a b) :
    Lockstep r false R V x y := by
  intro s t hst
  obtain ⟨s', hrun, hcode, hsteps⟩ := hx s
  obtain ⟨t', hrun', hcode', -⟩ := hy t
  rw [hrun, hrun']
  exact .ok hv ⟨(hcode.relabel r).trans (hst.code.trans hcode'.symm), nofun⟩ hsteps

end Silent

/-! ## Steps that extend the module -/

section Build

variable {debug : Bool} {op : Opcode} {operands : List UInt32}
  {operandsOf : UInt32 → List UInt32}

theorem quiet_alloc (s : Generator) : s.Quiet s.alloc :=
  ⟨rfl, rfl, rfl, rfl, fun _ => rfl, rfl⟩

theorem allocId_steady : Steady r w Interns (build .allocId) :=
  fun s _ hst => .ok hst.next hst.alloc (.single (.quiet (quiet_alloc s)))

/-- An instruction of a function. -/
theorem emit_steady (hhome : (⟨op, operands⟩ : Instruction).home? = some .functions)
    (hop : op ≠ .ptrAccessChain) : Steady r w (Writes debug) (build (.emit op operands)) := by
  intro s t hst
  refine .ok (u := s.put s.assembly.current ⟨op, operands⟩) rfl ?_
    (.single (.write hhome fun h => absurd h hop))
  rw [hst.current]
  exact hst.put _ _

/-- An instruction of a function, with a new id. -/
theorem emitNew_paired (hhome : ∀ id, (⟨op, operandsOf id⟩ : Instruction).home? = some .functions)
    (hstrided : op = .ptrAccessChain →
      ∃ type ∈ s.interned.strides, ∃ rest, operandsOf s.next = type :: rest)
    (hst : s.Alike r w t) :
    Paired r w (Writes debug) Eq s (build (.emitNew op operandsOf) s)
      (build (.emitNew op operandsOf) t) := by
  refine .ok (u := s.alloc.put s.assembly.current ⟨op, operandsOf s.next⟩) hst.next ?_
    (.head (.interns (.quiet (quiet_alloc s)))
      (.single (.write (s := s.alloc) (hhome _) hstrided)))
  rw [hst.current, hst.next]
  exact hst.alloc.put _ _

theorem emitNew_steady (hhome : ∀ id, (⟨op, operandsOf id⟩ : Instruction).home? = some .functions)
    (hop : op ≠ .ptrAccessChain) : Steady r w (Writes debug) (build (.emitNew op operandsOf)) :=
  fun _ _ => emitNew_paired hhome fun h => absurd h hop

/-- A decoration of the kernel's own. -/
theorem decorate_steady (hhome : (⟨op, operands⟩ : Instruction).home? = some .decorations) :
    Steady r w (Assembles debug) (build (.emitTo .decorations op operands)) :=
  fun s _ hst => .ok (u := s.put .decorations ⟨op, operands⟩) rfl (hst.put _ _)
    (.single (.decorate hhome))

theorem name_silent (id : UInt32) (text : Text) (hdebug : debug = true) :
    Silent (Writes debug) (build (.name id text)) ⟨⟩ :=
  fun s => ⟨s.put .debug ⟨.name, id :: textWords text.bytes⟩, rfl, .put_silent s _ (Or.inl rfl),
    .single (.name hdebug (Or.inl rfl))⟩

theorem memberName_silent (id member : UInt32) (text : Text) (hdebug : debug = true) :
    Silent (Writes debug) (build (.memberName id member text)) ⟨⟩ :=
  fun s => ⟨s.put .debug ⟨.memberName, id :: member :: textWords text.bytes⟩, rfl,
    .put_silent s _ (Or.inl rfl), .single (.name hdebug (Or.inr rfl))⟩

end Build

end Gen

end Elementwise.Spirv
