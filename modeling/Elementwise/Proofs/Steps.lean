import Elementwise.Proofs.Interning
import Mathlib.Logic.Relation

/-!
# What a step of the generator can do

Three relations say once what the parts of the generator can do to its state. To ask for a type or
a constant is to declare what is not on record. To write functions is to do this, to append
instructions of functions, to name ids, and to give pointer types a stride. To assemble a kernel
is to do all of these and to declare blocks and variables of its own.

An instruction may be refused wherever one is appended. Refusals stay, so that what a run keeps
can be told from its last state: if nothing was refused in it, nothing was refused on the way.
-/
namespace Elementwise.Spirv
open IR Gen Relation

/-! ## Declarations on record -/

/-- The bits of a constant are those that its words hold. -/
def ExactBits (bits : UInt64) : Ty → Prop
  | .bool => bits = 0 ∨ bits = 1
  | .int w | .float w => w = 64 ∨ bits.toNat < UInt32.size
  | _ => True

namespace Declaration

/-- An instruction declares it, under an id. -/
def DeclaredBy (id : UInt32) (i : Instruction) : Declaration → Prop
  | scalar t => scalarInstr? id t = some i
  | pointer pointee storage => i = ⟨.typePointer, [id, storage, pointee]⟩
  | vector component count => i = ⟨.typeVector, [id, component, count]⟩
  | array elem => i = ⟨.typeRuntimeArray, [id, elem]⟩
  | function signature => i = ⟨.typeFunction, id :: signature⟩
  | constant type bits => ∃ t, ExactBits bits t ∧ constantInstr? type id bits t = some i

variable {id : UInt32} {i : Instruction} {d : Declaration}

theorem DeclaredBy.home (h : d.DeclaredBy id i) : i.home? = some .types := by
  cases d with
  | scalar t => exact (scalarInstr?_profile h).home
  | constant type bits =>
    obtain ⟨t, -, hi⟩ := h
    exact (constantInstr?_profile hi).home
  | _ => cases h; rfl

/-- Structures and variables are never on record. -/
theorem DeclaredBy.shared (h : d.DeclaredBy id i) :
    i.opcode ≠ .typeStruct ∧ i.opcode ≠ .variableOp := by
  have hall : ∀ op ∈ [Opcode.typeVoid, .typeBool, .typeInt, .typeFloat, .typePointer, .typeVector,
      .typeRuntimeArray, .typeFunction, .constant, .constantTrue, .constantFalse],
      op ≠ .typeStruct ∧ op ≠ .variableOp := by decide
  apply hall
  cases d with
  | scalar t => cases t <;> cases h <;> simp
  | constant type bits =>
    obtain ⟨t, -, hi⟩ := h
    cases t <;> cases hi
    · dsimp only
      split <;> simp
    · simp
    · simp
  | _ => cases h; simp

end Declaration

/-! ## Steps -/

/-- Nothing is declared, named or written. -/
structure Generator.Quiet (s s' : Generator) : Prop where
  interned : s'.interned = { s.interned with unsupported := s'.interned.unsupported }
  version : s'.assembly.version = s.assembly.version
  addressing : s'.assembly.addressing = s.assembly.addressing
  memory : s'.assembly.memory = s.assembly.memory
  sections : ∀ home, s'.assembly.sectionInstrs home = s.assembly.sectionInstrs home
  refusal : s'.assembly.refusal = s.assembly.refusal

/-- A number of a width that is declared as it stands. -/
def DeclaredNumber (t : Ty) : Prop := (t.isInt || t.isFloat) = true ∧ normalized t = t

/-- A step of asking for a type or a constant. -/
inductive Interns : Generator → Generator → Prop
  | quiet {s s' : Generator} (h : s.Quiet s') : Interns s s'
  | declare {s : Generator} {d : Declaration} {i : Instruction} (hd : ∀ elem, d ≠ .array elem)
      (hnew : d.id? s.interned = none) (hi : d.DeclaredBy s.next i) : Interns s (s.declare d i)

/-- A step of writing functions. Only with names asked for are ids named. -/
inductive Writes (debug : Bool) : Generator → Generator → Prop
  | interns {s s' : Generator} (h : Interns s s') : Writes debug s s'
  | name {s : Generator} {i : Instruction} (hdebug : debug = true)
      (hop : i.opcode = .name ∨ i.opcode = .memberName) : Writes debug s (s.put .debug i)
  | write {s : Generator} {i : Instruction} (hhome : i.home? = some .functions)
      (hstrided : i.opcode = .ptrAccessChain →
        ∃ type ∈ s.interned.strides, ∃ rest, i.operands = type :: rest) :
      Writes debug s (s.put s.assembly.current i)
  | stride {s : Generator} {id pointee storage : UInt32} {t : Ty}
      (hnew : id ∉ s.interned.strides)
      (hpointer : (Declaration.pointer pointee storage).id? s.interned = some id)
      (helem : (Declaration.scalar t).id? s.interned = some pointee)
      (hnumber : DeclaredNumber t) :
      Writes debug s { s.put .decorations
          ⟨.decorate, [id, Decoration.arrayStride, numberWidth t / 8]⟩ with
        interned := { s.interned with strides := id :: s.interned.strides } }

/-- A step of assembling a kernel. -/
inductive Assembles (debug : Bool) : Generator → Generator → Prop
  | writes {s s' : Generator} (h : Writes debug s s') : Assembles debug s s'
  | array {s : Generator} {elem : UInt32} (hnew : (Declaration.array elem).id? s.interned = none) :
      Assembles debug s (s.declare (.array elem) ⟨.typeRuntimeArray, [s.next, elem]⟩)
  | decorate {s : Generator} {i : Instruction} (hhome : i.home? = some .decorations) :
      Assembles debug s (s.put .decorations i)
  | own {s : Generator} {i : Instruction} (hhome : i.home? = some .types)
      (hop : i.opcode = .typeStruct ∨ i.opcode = .variableOp) : Assembles debug s (s.put .types i)

variable {debug : Bool} {s s' : Generator} {home target : Section}

theorem Interns.assembles (h : Interns s s') : Assembles debug s s' := .writes (.interns h)

/-! ## The record -/

theorem Generator.Quiet.id? (h : s.Quiet s') (d : Declaration) :
    d.id? s'.interned = d.id? s.interned := by
  rw [h.interned]
  cases d <;> rfl

theorem Interns.strides_eq (h : Interns s s') : s'.interned.strides = s.interned.strides := by
  cases h with
  | quiet h => rw [h.interned]
  | @declare d => cases d <;> rfl

/-- What is on record stays on record. -/
theorem Assembles.recorded (h : Assembles debug s s') {d : Declaration} {id : UInt32}
    (hd : d.id? s.interned = some id) : d.id? s'.interned = some id := by
  rcases h with h | hnew | - | -
  · rcases h with h | - | - | -
    · rcases h with h | ⟨-, hnew, -⟩
      · exact (h.id? d).trans hd
      · exact Declaration.id?_record hd hnew
    · exact hd
    · exact hd
    · cases d <;> exact hd
  · exact Declaration.id?_record hd hnew
  · exact hd
  · exact hd

theorem recorded_of_reaches (h : ReflTransGen (Assembles debug) s s') {d : Declaration}
    {id : UInt32} (hd : d.id? s.interned = some id) : d.id? s'.interned = some id := by
  induction h with
  | refl => exact hd
  | tail _ hstep ih => exact hstep.recorded ih

theorem recorded_of_interns (h : ReflTransGen Interns s s') {d : Declaration} {id : UInt32}
    (hd : d.id? s.interned = some id) : d.id? s'.interned = some id := by
  have hreaches : ReflTransGen (Assembles false) s s' :=
    ReflTransGen.mono (fun _ _ => Interns.assembles) _ _ h
  exact recorded_of_reaches hreaches hd

theorem strides_eq_of_reaches (h : ReflTransGen Interns s s') :
    s'.interned.strides = s.interned.strides := by
  induction h with
  | refl => rfl
  | tail _ hstep ih => exact hstep.strides_eq.trans ih

/-! ## Growth -/

/-- The instructions of a section so far. -/
def Generator.part (s : Generator) (home : Section) : List Instruction :=
  (s.assembly.sectionInstrs home).toList

/-- An instruction that was not refused stands in its section. -/
theorem Generator.put_at_home {i : Instruction} (hc : (s.put target i).clean)
    (hhome : i.home? = some home) : target = home ∧ s.put target i = s.add home i := by
  have htarget : home = target := by
    have hnone : s.assembly.objection? target i = none := by
      unfold clean put Assembly.emitInstr at hc
      cases hobj : s.assembly.objection? target i with
      | none => rfl
      | some cause =>
        rw [hobj] at hc
        unfold Assembly.refuse at hc
        cases hr : s.assembly.refusal <;> simp [hr] at hc
    exact (objection?_eq_none.1 hnone).2.1 home hhome
  subst htarget
  exact ⟨rfl, (put_clean hc).2.2⟩

/-- The sections that are written to before a module is finished. -/
def growingSections : List Section := [.entryPoints, .debug, .decorations, .types, .functions]

theorem Generator.part_add (s : Generator) (hhome : home ∈ growingSections) (i : Instruction)
    (other : Section) :
    (s.add home i).part other = if other = home then s.part other ++ [i] else s.part other := by
  simp only [growingSections, List.mem_cons, List.not_mem_nil, or_false] at hhome
  rcases hhome with rfl | rfl | rfl | rfl | rfl <;> cases other <;>
    simp [part, add, Assembly.append, Assembly.sectionInstrs]

/-- Instructions outside the function section compute no addresses. -/
theorem opcode_ne_ptrAccessChain {i : Instruction} (hhome : i.home? = some home)
    (hne : home ≠ .functions) : i.opcode ≠ .ptrAccessChain := by
  intro hop
  rw [Instruction.home?, hop] at hhome
  exact hne (Option.some.inj hhome).symm

theorem home?_of_name {i : Instruction} (hop : i.opcode = .name ∨ i.opcode = .memberName) :
    i.home? = some .debug := by
  rcases hop with hop | hop <;> rw [Instruction.home?, hop] <;> rfl

/-- What a run has added, if nothing was refused in it. -/
structure Generator.Grows (debug : Bool) (s s' : Generator) : Prop where
  clean : s.clean
  version : s'.assembly.version = s.assembly.version
  addressing : s'.assembly.addressing = s.assembly.addressing
  memory : s'.assembly.memory = s.assembly.memory
  entryPoints : s'.part .entryPoints = s.part .entryPoints
  strides : s.interned.strides ⊆ s'.interned.strides
  subset : ∀ home, s.part home ⊆ s'.part home
  mem : ∀ home, ∀ i ∈ s'.part home, i ∈ s.part home ∨ (i.fits ∧ i.home? = some home ∧
    (home = .debug → debug = true ∧ (i.opcode = .name ∨ i.opcode = .memberName)) ∧
    (i.opcode = .ptrAccessChain →
      ∃ type ∈ s'.interned.strides, ∃ rest, i.operands = type :: rest))

namespace Generator.Grows

protected theorem refl (hc : s.clean) : s.Grows debug s :=
  ⟨hc, rfl, rfl, rfl, rfl, List.Subset.refl _, fun _ => List.Subset.refl _, fun _ _ hi => Or.inl hi⟩

protected theorem trans {u : Generator} (h : s.Grows debug s') (h' : s'.Grows debug u) :
    s.Grows debug u where
  clean := h.clean
  version := h'.version.trans h.version
  addressing := h'.addressing.trans h.addressing
  memory := h'.memory.trans h.memory
  entryPoints := h'.entryPoints.trans h.entryPoints
  strides := List.Subset.trans h.strides h'.strides
  subset home := List.Subset.trans (h.subset home) (h'.subset home)
  mem home i hi := by
    rcases h'.mem home i hi with hi | hi
    · refine (h.mem home i hi).imp_right fun ⟨hfits, hhome, hdebug, hstrided⟩ => ?_
      refine ⟨hfits, hhome, hdebug, fun hop => ?_⟩
      obtain ⟨type, htype, hrest⟩ := hstrided hop
      exact ⟨type, h'.strides htype, hrest⟩
    · exact Or.inr hi

theorem quiet (h : s.Quiet s') (hc : s'.clean) : s.Grows debug s' := by
  have hpart : ∀ home, s'.part home = s.part home := fun home => congrArg _ (h.sections home)
  refine ⟨h.refusal.symm.trans hc, h.version, h.addressing, h.memory, hpart _, ?_, ?_, ?_⟩
  · rw [h.interned]
    exact List.Subset.refl _
  · exact fun home => hpart home ▸ List.Subset.refl _
  · exact fun home i hi => Or.inl (hpart home ▸ hi)

variable {i : Instruction}

/-- An instruction is appended, and the record is extended. -/
theorem put {n : Interned} (hc : (s.put target i).clean) (hhome : i.home? = some home)
    (hopen : home ∈ growingSections.tail)
    (hdebug : home = .debug → debug = true ∧ (i.opcode = .name ∨ i.opcode = .memberName))
    (hstrided : i.opcode = .ptrAccessChain →
      ∃ type ∈ s.interned.strides, ∃ rest, i.operands = type :: rest)
    (hstrides : s.interned.strides ⊆ n.strides) :
    s.Grows debug { s.put target i with interned := n } := by
  obtain ⟨rfl, hadd⟩ := put_at_home hc hhome
  obtain ⟨hclean, hfits, -⟩ := put_clean hc
  rw [hadd]
  have hpart := s.part_add (List.mem_of_mem_tail hopen) i
  have hsettings : (s.add target i).assembly.version = s.assembly.version ∧
      (s.add target i).assembly.addressing = s.assembly.addressing ∧
      (s.add target i).assembly.memory = s.assembly.memory := by
    cases target <;> exact ⟨rfl, rfl, rfl⟩
  refine ⟨hclean, hsettings.1, hsettings.2.1, hsettings.2.2, ?_, hstrides, ?_, ?_⟩
  · refine (hpart _).trans (if_neg ?_)
    rintro rfl
    exact absurd hopen (by decide)
  · intro other j hj
    change j ∈ (s.add target i).part other
    rw [hpart]
    split
    · exact List.mem_append_left _ hj
    · exact hj
  · intro other j hj
    change j ∈ (s.add target i).part other at hj
    rw [hpart] at hj
    split at hj
    next heq =>
      subst heq
      rcases List.mem_append.1 hj with hj | hj
      · exact Or.inl hj
      · cases List.mem_singleton.1 hj
        refine Or.inr ⟨hfits, hhome, hdebug, fun hop => ?_⟩
        obtain ⟨type, htype, hrest⟩ := hstrided hop
        exact ⟨type, hstrides htype, hrest⟩
    next => exact Or.inl hj

/-- A declaration or a decoration. -/
theorem declare {n : Interned} (hc : (s.put home i).clean) (hhome : i.home? = some home)
    (hplain : home = .decorations ∨ home = .types) (hstrides : s.interned.strides ⊆ n.strides) :
    s.Grows debug { s.put home i with interned := n } := by
  refine put hc hhome ?_ ?_ ?_ hstrides
  · rcases hplain with rfl | rfl <;> decide
  · rintro rfl
    simp at hplain
  · refine fun hop => absurd hop (opcode_ne_ptrAccessChain hhome ?_)
    rcases hplain with rfl | rfl <;> decide

end Generator.Grows

theorem Assembles.grows (h : Assembles debug s s') (hc : s'.clean) : s.Grows debug s' := by
  have hquiet : s.Quiet s.alloc := ⟨rfl, rfl, rfl, rfl, fun _ => rfl, rfl⟩
  have hdeclare : ∀ d i, d.DeclaredBy s.next i → (s.declare d i).clean →
      s.Grows debug (s.declare d i) := by
    intro d i hi hc
    have hput : (s.alloc.put .types i).clean := hc
    refine (Generator.Grows.quiet hquiet (Generator.clean_of_put hput)).trans ?_
    exact .declare hput hi.home (Or.inr rfl) (by cases d <;> exact List.Subset.refl _)
  rcases h with h | hnew | hhome | ⟨hhome, -⟩
  · rcases h with h | ⟨hdebug, hop⟩ | ⟨hhome, hstrided⟩ | ⟨-, -, -, -⟩
    · rcases h with h | ⟨-, -, hi⟩
      · exact .quiet h hc
      · exact hdeclare _ _ hi hc
    · have hhome := home?_of_name hop
      exact .put (n := s.interned) hc hhome (by decide) (fun _ => ⟨hdebug, hop⟩)
        (fun h => absurd h (opcode_ne_ptrAccessChain hhome (by decide))) (List.Subset.refl _)
    · exact .put (n := s.interned) hc hhome (by decide) (fun h => absurd h (by decide)) hstrided
        (List.Subset.refl _)
    · have hput : (s.put .decorations _).clean := hc
      exact .declare hput rfl (Or.inl rfl) (List.subset_cons_self _ _)
  · exact hdeclare (.array _) _ rfl hc
  · exact .declare (n := s.interned) hc hhome (Or.inl rfl) (List.Subset.refl _)
  · exact .declare (n := s.interned) hc hhome (Or.inr rfl) (List.Subset.refl _)

theorem grows_of_reaches (h : ReflTransGen (Assembles debug) s s') (hc : s'.clean) :
    s.Grows debug s' := by
  induction h with
  | refl => exact .refl hc
  | tail _ hstep ih =>
    have hgrows := hstep.grows hc
    exact (ih hgrows.clean).trans hgrows

theorem clean_of_writes (h : ReflTransGen (Writes debug) s s') (hc : s'.clean) : s.clean :=
  (grows_of_reaches (ReflTransGen.mono (fun _ _ => Assembles.writes) _ _ h) hc).clean

end Elementwise.Spirv
