import Elementwise.Spirv.Compile

/-!
# Runs of the generator

A run either succeeds with a value and a state or fails. These equivalences take a successful run
of a composed step apart into the runs of its parts, and turn the steps that extend the module
into two functions on states: allocating an id and appending an instruction.
-/
namespace Elementwise.Spirv

namespace Generator

/-- The state with one more id in use. -/
def alloc (s : Generator) : Generator :=
  { s with assembly := { s.assembly with allocated := s.assembly.allocated + 1 } }

/-- The state after an instruction was appended to a section, or refused. -/
def put (s : Generator) (target : Section) (i : Instruction) : Generator :=
  { s with assembly := s.assembly.emitInstr target i }

/-- The state with another section selected. -/
def select (s : Generator) (target : Section) : Generator :=
  { s with assembly := { s.assembly with current := target } }

/-- The id that is allocated next. -/
def next (s : Generator) : UInt32 := s.assembly.bound

/-- The state after steps that allocate an id or append an instruction to a section. -/
def putAll (s : Generator) (target : Section) (steps : List (Option Instruction)) : Generator :=
  steps.foldl (fun s step => step.elim s.alloc (s.put target)) s

end Generator

/-- All but sections and refusals is the same. -/
structure Assembly.SameFrame (a b : Assembly) : Prop where
  version : b.version = a.version
  capabilities : b.capabilities = a.capabilities
  extensions : b.extensions = a.extensions
  addressing : b.addressing = a.addressing
  memory : b.memory = a.memory
  allocated : b.allocated = a.allocated
  current : b.current = a.current
  finished : b.finished = a.finished

theorem Assembly.sameFrame_emitInstr (a : Assembly) (target : Section) (i : Instruction) :
    a.SameFrame (a.emitInstr target i) := by
  unfold emitInstr
  cases a.objection? target i with
  | some cause =>
    unfold refuse
    cases a.refusal <;> exact ⟨rfl, rfl, rfl, rfl, rfl, rfl, rfl, rfl⟩
  | none => cases target <;> exact ⟨rfl, rfl, rfl, rfl, rfl, rfl, rfl, rfl⟩

namespace Generator

variable (s : Generator) (target : Section) (i : Instruction)

@[simp] theorem put_allocated : (s.put target i).assembly.allocated = s.assembly.allocated :=
  (Assembly.sameFrame_emitInstr s.assembly target i).allocated

@[simp] theorem put_current : (s.put target i).assembly.current = s.assembly.current :=
  (Assembly.sameFrame_emitInstr s.assembly target i).current

@[simp] theorem put_finished : (s.put target i).assembly.finished = s.assembly.finished :=
  (Assembly.sameFrame_emitInstr s.assembly target i).finished

variable {s target}

/-- What single steps keep, all of them keep. -/
theorem putAll_keeps (inv : Generator → Prop) {steps : List (Option Instruction)} (hs : inv s)
    (halloc : ∀ t, inv t → inv t.alloc)
    (hput : ∀ t, ∀ x ∈ steps, ∀ i ∈ x, inv t → inv (t.put target i)) :
    inv (s.putAll target steps) := by
  induction steps generalizing s with
  | nil => exact hs
  | cons x rest ih =>
    have hrest := fun t x hx => hput t x (List.mem_cons_of_mem _ hx)
    cases x with
    | none => exact ih (halloc s hs) hrest
    | some i => exact ih (hput s _ List.mem_cons_self i rfl hs) hrest

end Generator

variable {c : Prop} {cause : Cause} {p : Place}

namespace Gen

variable {α β : Type} {s s' : Generator} {a b : α}

theorem bind_ok {x : Gen α} {f : α → Gen β} {c : β} :
    (x >>= f) s = .ok c s' ↔ ∃ a t, x s = .ok a t ∧ f a t = .ok c s' := by
  change EStateM.bind x f s = _ ↔ _
  unfold EStateM.bind
  cases x s with
  | ok a t =>
    constructor
    · intro h
      exact ⟨a, t, rfl, h⟩
    · rintro ⟨a', t', hx, hf⟩
      cases hx
      exact hf
  | error e t => simp

theorem pure_ok : (pure a : Gen α) s = .ok b s' ↔ a = b ∧ s = s' := by
  change EStateM.Result.ok a s = _ ↔ _
  simp

theorem throw_ok {e : Failure} : (throw e : Gen α) s = .ok b s' ↔ False := by
  change EStateM.Result.error e s = _ ↔ _
  simp

theorem fail_ok : (fail cause : Gen α) s = .ok b s' ↔ False := throw_ok

theorem get_ok {t : Generator} : (get : Gen Generator) s = .ok t s' ↔ s = t ∧ s = s' := by
  change EStateM.Result.ok s s = _ ↔ _
  simp

theorem modify_ok {f : Generator → Generator} {u : Unit} :
    (modify f : Gen Unit) s = .ok u s' ↔ f s = s' := by
  change EStateM.Result.ok () (f s) = _ ↔ _
  simp

theorem modifyInterned_ok {f : Interned → Interned} {u : Unit} :
    modifyInterned f s = .ok u s' ↔ { s with interned := f s.interned } = s' := modify_ok

theorem modifyBody_ok {f : Body → Body} {u : Unit} :
    modifyBody f s = .ok u s' ↔ { s with body := f s.body } = s' := modify_ok

theorem ite_ok [Decidable c] {x y : Gen α} {r : EStateM.Result Failure Generator α} :
    (if c then x else y) s = r ↔ if c then x s = r else y s = r := by
  split <;> rfl

/-- A step that is taken or left out before another. -/
theorem when_ok [Decidable c] {x : Gen Unit} {y : Gen α} :
    (if c then (do x; y) else y) s = .ok a s' ↔
      ∃ t, (if c then x else pure ()) s = .ok () t ∧ y t = .ok a s' := by
  split
  · rw [bind_ok]
    exact ⟨fun ⟨_, t, h⟩ => ⟨t, h⟩, fun ⟨t, h⟩ => ⟨(), t, h⟩⟩
  · simp [pure_ok]

/-- Steps after a check. -/
theorem check_ok [Decidable c] {e : Failure} {f : β → Gen α} {y : Gen α} :
    (if c then throw e >>= f else y) s = .ok a s' ↔ ¬ c ∧ y s = .ok a s' := by
  by_cases h : c <;> simp [h, bind_ok, throw_ok]

theorem orPanic_ok {x : Except IR.Panic α} : orPanic x s = .ok a s' ↔ x = .ok a ∧ s = s' := by
  cases x with
  | ok b => simp [orPanic, pure_ok]
  | error f => simp [orPanic, throw_ok]

theorem located_ok {function block : Text} {x : Gen α} :
    located function block x s = .ok a s' ↔ x s = .ok a s' := by
  unfold located
  cases x s with
  | ok b t => simp
  | error e t => cases e <;> simp

theorem inFunctions_ok {x : Gen α} :
    inFunctions x s = .ok a s' ↔
      ∃ t, x (s.select .functions) = .ok a t ∧ t.select s.assembly.current = s' := by
  unfold inFunctions
  dsimp only
  cases hx : x { s with assembly := { s.assembly with current := .functions } } with
  | ok b t =>
    constructor
    · intro h
      cases h
      exact ⟨t, hx, rfl⟩
    · rintro ⟨t', ht, hs⟩
      cases hx.symm.trans ht
      exact congrArg (EStateM.Result.ok a) hs
  | error e t =>
    constructor
    · intro h
      cases h
    · rintro ⟨t', ht, -⟩
      cases hx.symm.trans ht

/-- What every turn of a loop keeps, the loop keeps. -/
theorem forIn_invariant (inv : Generator → Prop) {body : α → PUnit → Gen (ForInStep PUnit)}
    {entries : List α} {u : PUnit}
    (hstep : ∀ x ∈ entries, ∀ r t t', inv t → body x ⟨⟩ t = .ok r t' → r = .yield ⟨⟩ ∧ inv t')
    (h : forIn entries PUnit.unit body s = .ok u s') (hs : inv s) : inv s' := by
  induction entries generalizing s with
  | nil =>
    rw [List.forIn_nil] at h
    exact (pure_ok.1 h).2 ▸ hs
  | cons x rest ih =>
    rw [List.forIn_cons] at h
    obtain ⟨r, t, hbody, hrest⟩ := bind_ok.1 h
    obtain ⟨rfl, ht⟩ := hstep x List.mem_cons_self r s t hs hbody
    exact ih (fun y hy => hstep y (List.mem_cons_of_mem x hy)) hrest ht

/-! ## Steps that extend the module -/

section Build

variable {op : Opcode} {operands : List UInt32} {operandsOf : UInt32 → List UInt32}
  {target : Section} {id : UInt32} {u : Unit}

theorem allocId_ok : build .allocId s = .ok id s' ↔ s.next = id ∧ s.alloc = s' := by
  change EStateM.Result.ok s.next s.alloc = _ ↔ _
  simp

theorem emitTo_ok :
    build (.emitTo target op operands) s = .ok u s' ↔ s.put target ⟨op, operands⟩ = s' := by
  change EStateM.Result.ok () (s.put target ⟨op, operands⟩) = _ ↔ _
  simp

theorem emit_ok :
    build (.emit op operands) s = .ok u s' ↔ s.put s.assembly.current ⟨op, operands⟩ = s' := by
  change EStateM.Result.ok () (s.put s.assembly.current ⟨op, operands⟩) = _ ↔ _
  simp

theorem emitNew_ok :
    build (.emitNew op operandsOf) s = .ok id s' ↔
      s.next = id ∧ s.alloc.put s.assembly.current ⟨op, operandsOf s.next⟩ = s' := by
  change EStateM.Result.ok s.next (s.alloc.put s.assembly.current ⟨op, operandsOf s.next⟩) = _ ↔ _
  simp

theorem declare_ok :
    build (.declare op operandsOf) s = .ok id s' ↔
      s.next = id ∧ s.alloc.put .types ⟨op, operandsOf s.next⟩ = s' := by
  change EStateM.Result.ok s.next (s.alloc.put .types ⟨op, operandsOf s.next⟩) = _ ↔ _
  simp

end Build

end Gen

theorem Place.fail_ok {α : Type} {s s' : Generator} {a : α} :
    (p.fail cause : Gen α) s = .ok a s' ↔ False := Gen.throw_ok

theorem Place.check_ok {α β : Type} [Decidable c] {f : β → Gen α} {y : Gen α} {s s' : Generator}
    {a : α} : (if c then p.fail cause >>= f else y) s = .ok a s' ↔ ¬ c ∧ y s = .ok a s' :=
  Gen.check_ok

theorem Place.run_ok {α : Type} {x : Gen α} {s s' : Generator} {a : α} :
    p.run x s = .ok a s' ↔ x s = .ok a s' := Gen.located_ok

theorem Place.typeOf_ok {v : IR.Value} {s s' : Generator} {t : IR.Ty} :
    p.typeOf v s = .ok t s' ↔ p.frame.program.typeOf v = .ok t ∧ s = s' := Gen.orPanic_ok

end Elementwise.Spirv
