import Elementwise.Proofs.Validity

/-!
# When validation ends

The type of a value is found by following operands, which may lead to nothing or around in a circle.
Validation asks for types of operands that it has found to be there, and for no more: an operand may
still be the result of an instruction whose own operands are not there, or of itself. Validation
returns its findings exactly if every value whose type it asks for leads to a type in the end, the
callees of calls have the parameters that arguments are compared with, and so has the kernel.
-/
namespace Elementwise.IR

/-! ## Values that have a type -/

/-- The operand that decides the type of a result. -/
def Instr.typeSource? : Instr → Option Value
  | .binary _ _ l _ => some l
  | .negate _ x => some x
  | .load pointer => some pointer
  | .elementPtr base _ => some base
  | _ => none

/-- The type of the result is known without the operands. -/
def Instr.TypedAlone (p : Program) : Instr → Prop
  | .compare .. | .convert .. | .localVar .. => True
  | .call (some f) _ => ∃ g, p.func? f = some g
  | _ => False

/-- Operands lead from a value, in finitely many steps and without one that is absent, to something
that has a type of its own. -/
inductive Program.Grounded (p : Program) : Value → Prop
  | constant (c : Constant) : p.Grounded (.constant c)
  | param {id : ParamId} {q : Param} (h : p.param? id = some q) : p.Grounded (.param id)
  | alone {id : InstrId} {i : Instr} (h : p.instr? id = some i) (hi : i.TypedAlone p) :
      p.Grounded (.result id)
  | follow {id : InstrId} {i : Instr} {v : Value} (h : p.instr? id = some i)
      (hi : i.typeSource? = some v) (hv : p.Grounded v) : p.Grounded (.result id)

variable {p : Program} {v : Value} {index : Nat} {args defined : List Value}

/-- Whether the type of a result is found depends on one operand at most. -/
theorem exists_typeStep_iff {types : Value → Except Panic Ty} {id : InstrId} :
    (∃ t, p.typeStep types id = .ok t) ↔ ∃ i, p.instr? id = some i ∧
      (i.TypedAlone p ∨ ∃ v, i.typeSource? = some v ∧ ∃ t, types v = .ok t) := by
  unfold Program.typeStep
  cases hi : p.instr? id with
  | none => simp
  | some i =>
    cases i with
    | load pointer =>
      cases hpointer : types pointer with
      | error e => simp [Instr.TypedAlone, Instr.typeSource?, hpointer, bind, Except.bind]
      | ok t =>
        cases t <;> simp [Instr.TypedAlone, Instr.typeSource?, hpointer, bind, Except.bind, pure,
          Except.pure]
    | call callee args =>
      cases callee with
      | none => simp [Instr.TypedAlone, Instr.typeSource?]
      | some f => cases hf : p.func? f <;> simp [Instr.TypedAlone, Instr.typeSource?, hf]
    | _ => simp [Instr.TypedAlone, Instr.typeSource?]

theorem grounded_of_typeWithin {k : Nat} {t : Ty} (h : p.typeWithin k v = .ok t) :
    p.Grounded v := by
  induction k generalizing v t with
  | zero =>
    cases v with
    | missing => cases h
    | constant c => exact .constant c
    | param id =>
      cases hq : p.param? id with
      | none => simp [Program.typeWithin, hq] at h
      | some q => exact .param hq
    | result id => cases h
  | succ k ih =>
    cases v with
    | result id =>
      obtain ⟨i, hi, halone | ⟨v, hv, t, ht⟩⟩ := exists_typeStep_iff.1 ⟨t, h⟩
      · exact .alone hi halone
      · exact .follow hi hv (ih ht)
    | _ => exact ih ((Program.typeWithin_of_ne_result (by simp) (k + 1)).trans h)

/-- A value has a type exactly if its operands lead to one. -/
theorem grounded_iff : p.Grounded v ↔ ∃ t, p.typeOf v = .ok t := by
  refine ⟨fun h => ?_, fun ⟨t, ht⟩ => grounded_of_typeWithin ht⟩
  induction h with
  | constant c => exact ⟨c.type, rfl⟩
  | param h => exact ⟨_, Program.typeOf_param h⟩
  | alone h hi =>
    obtain ⟨t, ht⟩ := exists_typeStep_iff.2 ⟨_, h, Or.inl hi⟩
    exact ⟨t, Program.typeOf_result_iff.2 ht⟩
  | follow h hi _ ih =>
    obtain ⟨t, ht⟩ := exists_typeStep_iff.2 ⟨_, h, Or.inr ⟨_, hi, ih⟩⟩
    exact ⟨t, Program.typeOf_result_iff.2 ht⟩

/-! ## Checks of instructions -/

/-- A computation gives a result. -/
def Returns {ε α : Type} (x : Except ε α) : Prop := ∃ a, x = .ok a

section Returns

variable {ε α β γ : Type} {x : Except ε α}

@[simp] theorem returns_ok (a : α) : Returns (.ok a : Except ε α) := ⟨a, rfl⟩

@[simp] theorem returns_pure (a : α) : Returns (pure a : Except ε α) := ⟨a, rfl⟩

@[simp] theorem not_returns_error (e : ε) : ¬ Returns (.error e : Except ε α) := by
  rintro ⟨a, h⟩
  cases h

/-- A computation that goes on in the same way, whatever was found. -/
theorem returns_bind_iff {f : α → Except ε β} {P : Prop} (hf : ∀ a, Returns (f a) ↔ P) :
    Returns (x >>= f) ↔ Returns x ∧ P := by
  cases x with
  | error e => exact iff_of_false (not_returns_error e) fun h => not_returns_error e h.1
  | ok a => exact (hf a).trans (by simp)

theorem returns_bind_pure {f : α → β} : Returns (x >>= fun a => pure (f a)) ↔ Returns x :=
  (returns_bind_iff fun _ => iff_true_intro (returns_pure _)).trans (by simp)

/-- Two computations one after the other, with a result of both. -/
theorem returns_both_iff {y : α → Except ε β} {f : α → β → γ} {P : Prop}
    (hy : ∀ a, Returns (y a) ↔ P) :
    Returns (x >>= fun a => y a >>= fun b => pure (f a b)) ↔ Returns x ∧ P :=
  returns_bind_iff fun a => returns_bind_pure.trans (hy a)

@[simp] theorem returns_map (g : α → β) : Returns (g <$> x) ↔ Returns x := by
  cases x <;> simp

theorem returns_mapM_iff {xs : List α} {f : α → Except ε β} :
    Returns (xs.mapM f) ↔ ∀ x ∈ xs, Returns (f x) := by
  induction xs with
  | nil => simp
  | cons x xs ih =>
    rw [List.mapM_cons, List.forall_mem_cons, ← ih]
    exact returns_both_iff fun _ => Iff.rfl

end Returns

/-- The values whose types the rules of an instruction ask for. The value that is stored is looked
at only if it is stored through a pointer, and arguments only if their number is right. -/
def Instr.checked (p : Program) : Instr → List Value
  | .binary _ _ l r | .compare _ _ l r => [l, r]
  | .negate _ x | .convert x _ _ _ | .load x | .condBranch x _ _ _ => [x]
  | .store x pointer =>
    match p.typeOf pointer with
    | .ok (.pointer _ _) => [pointer, x]
    | _ => [pointer]
  | .elementPtr base index => [base, index]
  | .call (some id) args =>
    match p.func? id with
    | some f =>
      if p.order.contains (some id.index) ∧ args.length = f.params.length then args else []
    | none => []
  | .ret value => if value = .missing then [] else [value]
  | _ => []

/-- The parameters that arguments are compared with are there. -/
def Instr.CalleeSound (p : Program) : Instr → Prop
  | .call (some id) args => ∃ f, p.func? id = some f ∧
      (p.order.contains (some id.index) → args.length = f.params.length → none ∉ f.params)
  | _ => True

def Instr.Checkable (p : Program) (i : Instr) : Prop :=
  i.CalleeSound p ∧ ∀ v ∈ i.checked p, p.Grounded v

/-- The instructions that are there with all their operands can be checked. -/
def Program.Checks (p : Program) (is : List (InstrId × Option Instr)) : Prop :=
  ∀ e ∈ is, ∀ i, e.2 = some i → i.hasMissingOperand = false → i.Checkable p

namespace Surroundings

variable {s : Surroundings}

theorem returns_typeOf_iff : Returns (p.typeOf v) ↔ p.Grounded v := grounded_iff.symm

theorem returns_checkArguments_iff {name : Text} {params : List (Option Param)}
    (h : args.length = params.length) :
    Returns (s.checkArguments name index args params) ↔
      none ∉ params ∧ ∀ v ∈ args, s.program.Grounded v := by
  induction args generalizing params index with
  | nil => simp [List.length_eq_zero_iff.1 h.symm, checkArguments]
  | cons arg args ih =>
    cases params with
    | nil => cases h
    | cons param params =>
      cases param with
      | none => simp [checkArguments]
      | some q =>
        rw [checkArguments, returns_both_iff fun _ => ih (Nat.succ.inj h), returns_typeOf_iff]
        rw [List.forall_mem_cons, List.mem_cons, and_left_comm]
        simp only [reduceCtorEq, false_or]

theorem returns_checkCall_iff {callee : Option FuncId} :
    Returns (s.checkCall callee args) ↔ (Instr.call callee args).Checkable s.program := by
  cases callee with
  | none => simp [checkCall, Instr.Checkable, Instr.CalleeSound, Instr.checked]
  | some id =>
    cases hf : s.program.func? id with
    | none => simp [checkCall, Instr.Checkable, Instr.CalleeSound, hf]
    | some f =>
      by_cases hlisted : some id.index ∈ s.program.order
      · by_cases harity : args.length = f.params.length
        · simp [checkCall, Instr.Checkable, Instr.CalleeSound, Instr.checked, hf, hlisted, harity,
            returns_checkArguments_iff]
        · simp [checkCall, Instr.Checkable, Instr.CalleeSound, Instr.checked, hf, hlisted, harity]
      · simp [checkCall, Instr.Checkable, Instr.CalleeSound, Instr.checked, hf, hlisted]

theorem returns_checkStore_iff {x pointer : Value} :
    Returns (s.checkTypes (.store x pointer)) ↔ (Instr.store x pointer).Checkable s.program := by
  have hpointer := returns_typeOf_iff (p := s.program) (v := pointer)
  have hx := returns_typeOf_iff (p := s.program) (v := x)
  simp only [checkTypes, Instr.Checkable, Instr.CalleeSound, Instr.checked]
  cases ht : s.program.typeOf pointer with
  | error e =>
    rw [ht] at hpointer
    simp [← hpointer, bind, Except.bind]
  | ok t =>
    rw [ht] at hpointer
    cases t with
    | pointer elem space =>
      change Returns (s.program.typeOf x >>= _) ↔ _
      simp [← hpointer, hx]
    | _ => simp [← hpointer, bind, Except.bind]

theorem returns_checkTypes_iff {i : Instr} :
    Returns (s.checkTypes i) ↔ i.Checkable s.program := by
  cases i with
  | call callee args => exact returns_checkCall_iff
  | store x pointer => exact returns_checkStore_iff
  | binary op domain l r | compare op domain l r | elementPtr l r =>
    rw [checkTypes, returns_both_iff fun _ => Iff.rfl]
    simp [returns_typeOf_iff, Instr.Checkable, Instr.CalleeSound, Instr.checked]
  | negate domain x | convert x source type target | load x | condBranch x t f merge =>
    rw [checkTypes, returns_bind_pure]
    simp [returns_typeOf_iff, Instr.Checkable, Instr.CalleeSound, Instr.checked]
  | localVar name elem | branch target =>
    simp [checkTypes, Instr.Checkable, Instr.CalleeSound, Instr.checked]
  | ret value =>
    cases value <;>
      simp [checkTypes, checkReturn, returns_typeOf_iff, Instr.Checkable, Instr.CalleeSound,
        Instr.checked]

theorem returns_checkInstr_iff {last : Bool} {i : Instr} :
    Returns (s.checkInstr defined last i) ↔
      (i.hasMissingOperand = false → i.Checkable s.program) := by
  unfold checkInstr
  cases i.hasMissingOperand with
  | true => simp
  | false => simp [returns_checkTypes_iff]

theorem returns_checkInstrs_iff {block : Text} {is : List (InstrId × Option Instr)} :
    Returns (s.checkInstrs block defined is) ↔ s.program.Checks is := by
  induction is generalizing defined with
  | nil => simp [checkInstrs, Program.Checks]
  | cons e rest ih =>
    obtain ⟨id, slot⟩ := e
    rw [Program.Checks, List.forall_mem_cons, ← Program.Checks]
    cases slot with
    | none =>
      rw [checkInstrs, returns_bind_pure, ih]
      simp
    | some i =>
      rw [checkInstrs, returns_both_iff fun _ => ih, returns_checkInstr_iff]
      simp

theorem returns_checkBlock_iff {id : BlockId} {b : Block} :
    Returns (s.checkBlock defined index id b) ↔ s.program.Checks (b.instrIds id) := by
  unfold checkBlock
  cases hempty : b.instrs with
  | nil => simp [Program.Checks, Block.instrIds, hempty]
  | cons i rest =>
    rw [if_neg (by simp), returns_bind_pure, returns_checkInstrs_iff]

theorem returns_checkBlocks_iff {blocks : List (BlockId × Block)} :
    Returns (s.checkBlocks defined index blocks) ↔
      s.program.Checks (blocks.flatMap fun b => b.2.instrIds b.1) := by
  induction blocks generalizing defined index with
  | nil => simp [checkBlocks, Program.Checks]
  | cons b rest ih =>
    rw [checkBlocks, returns_both_iff fun _ => ih, returns_checkBlock_iff, List.flatMap_cons]
    exact List.forall_mem_append.symm

end Surroundings

/-! ## Programs -/

/-- The instructions of the listed functions, as far as they are looked into, can be checked, and
the kernel's only parameter, if it has but one, is there. -/
structure Program.Checkable (p : Program) : Prop where
  kernel : ∀ f, p.kernel? = some f → f.2.params ≠ [none]
  instrs : ∀ f ∈ p.functions, none ∉ f.2.listed f.1 → p.Checks (f.2.entries f.1)

theorem returns_checkFunc_iff {id : FuncId} {f : Func} :
    Returns (checkFunc p (some (id, f))) ↔ (none ∉ f.listed id → p.Checks (f.entries id)) := by
  simp only [checkFunc]
  split_ifs with hempty habsent
  · have hnone : f.entries id = [] := by
      simp [Func.entries, Func.body, Func.listed, List.isEmpty_iff.1 hempty]
    simp [Program.Checks, hnone]
  · have hmem : none ∈ f.listed id := by simpa using habsent
    simp [hmem]
  · have hmem : none ∉ f.listed id := by simpa using habsent
    change Returns (_ <$> _) ↔ _
    rw [returns_map, Surroundings.returns_checkBlocks_iff]
    exact ⟨fun h _ => h, fun h => h hmem⟩

theorem returns_checkKernel_iff {slot : Option (FuncId × Func)} :
    Returns (checkKernel slot) ↔ ∀ f, slot = some f → f.2.params ≠ [none] := by
  cases slot with
  | none => simp [checkKernel]
  | some f =>
    simp only [checkKernel]
    split <;> simp_all

theorem forall_returns_checkFunc_iff {slots : List (Option (FuncId × Func))} :
    (∀ slot ∈ slots, Returns (checkFunc p slot)) ↔ ∀ f ∈ slots.reduceOption,
      none ∉ f.2.listed f.1 → p.Checks (f.2.entries f.1) := by
  constructor
  · intro h f hf
    exact returns_checkFunc_iff.1 (h _ (List.reduceOption_mem_iff.1 hf))
  · intro h slot hslot
    cases slot with
    | none => exact returns_ok _
    | some f => exact returns_checkFunc_iff.2 (h f (List.reduceOption_mem_iff.2 hslot))

/-- Validation returns its findings exactly if the program can be checked; else it panics. -/
theorem validate_returns_iff (p : Program) :
    (∃ findings, p.validate = .ok findings) ↔ p.Checkable := by
  change Returns p.validate ↔ _
  unfold Program.validate
  cases hlisted : p.listed with
  | nil =>
    have hkernel : p.kernel? = none := by rw [Program.kernel?, hlisted]
    have hfunctions : p.functions = [] := by rw [Program.functions, hlisted]; rfl
    exact iff_of_true (returns_ok _) ⟨by simp [hkernel], by simp [hfunctions]⟩
  | cons slot rest =>
    have hkernel : p.kernel? = slot := by cases slot <;> rw [Program.kernel?, hlisted]
    have hfunctions : p.functions = (slot :: rest).reduceOption := by
      rw [Program.functions, hlisted]
    rw [returns_both_iff fun _ => Iff.rfl, returns_checkKernel_iff, returns_mapM_iff,
      forall_returns_checkFunc_iff]
    constructor
    · rintro ⟨hslot, hinstrs⟩
      exact ⟨hkernel ▸ hslot, hfunctions ▸ hinstrs⟩
    · rintro ⟨hslot, hinstrs⟩
      exact ⟨hkernel ▸ hslot, hfunctions ▸ hinstrs⟩

/-- A kernel that negates what it is about to define. -/
def circular : Program where
  name := "m"
  funcs := [
    { name := "k"
      params := [some ⟨"p", .pointer (.int 32) .buffer⟩]
      result := .missing
      blocks := [⟨"entry", none, [
        some (.negate .signed (.result ⟨⟨⟨0⟩, 0⟩, 0⟩)),
        some (.ret .missing)]⟩]
      order := [some 0] }]
  order := [some 0]

/-- A kernel that has a place for its parameter, with nothing in it. -/
def vacant : Program where
  name := "m"
  funcs := [
    { name := "k"
      params := [none]
      result := .missing
      blocks := [⟨"entry", none, [some (.ret .missing)]⟩]
      order := [some 0] }]
  order := [some 0]

/-- An absent parameter has no type to be asked for, and neither has a chain of operands that has no
end. -/
theorem validate_panics :
    vacant.validate = .error .absent ∧ circular.validate = .error .cyclic := by decide +kernel

end Elementwise.IR
