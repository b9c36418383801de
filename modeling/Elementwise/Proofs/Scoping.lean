import Elementwise.Proofs.TypeText
import Elementwise.Proofs.ValueType
import Mathlib.Data.List.ReduceOption

/-!
# Programs whose references stay within them

What a program says is in what it lists: functions, their parameters and blocks, and the
instructions of the blocks. A program is scoped if every reference leads to something that is
listed, and every operand to a constant or to something that stands before.
-/
namespace Elementwise.IR

/-! ## Steps that may fail -/

theorem bind_eq_ok {ε α β : Type} {x : Except ε α} {f : α → Except ε β} {y : β} :
    (x >>= f) = .ok y ↔ ∃ a, x = .ok a ∧ f a = .ok y := by
  cases x with
  | ok a =>
    change f a = .ok y ↔ _
    simp
  | error fault =>
    change Except.error fault = .ok y ↔ _
    simp

theorem pure_eq_ok {ε α : Type} {x y : α} : (pure x : Except ε α) = .ok y ↔ x = y :=
  ⟨Except.ok.inj, congrArg _⟩

theorem mapM_cons_eq_ok {ε α β : Type} {x : α} {xs : List α} {f : α → Except ε β} {ys : List β} :
    (x :: xs).mapM f = .ok ys ↔ ∃ y ys', f x = .ok y ∧ xs.mapM f = .ok ys' ∧ ys = y :: ys' := by
  rw [List.mapM_cons, bind_eq_ok]
  refine exists_congr fun y => ?_
  rw [bind_eq_ok, ← exists_and_left]
  refine exists_congr fun ys' => and_congr_right' (and_congr_right' ?_)
  change Except.ok (y :: ys') = Except.ok ys ↔ _
  rw [Except.ok.injEq, eq_comm]

theorem mapM_eq_ok_iff {ε α β : Type} {xs : List α} {f : α → Except ε β} {ys : List β} :
    xs.mapM f = .ok ys ↔ List.Forall₂ (fun x y => f x = .ok y) xs ys := by
  induction xs generalizing ys with
  | nil => simp [pure, Except.pure, eq_comm]
  | cons x xs ih => simp only [mapM_cons_eq_ok, List.forall₂_cons_left_iff, ih]

theorem exists_of_mem_right {α β : Type} {R : α → β → Prop} {xs : List α} {ys : List β}
    (h : List.Forall₂ R xs ys) {y : β} (hy : y ∈ ys) : ∃ x ∈ xs, R x y := by
  induction h with
  | nil => cases hy
  | cons hx _ ih =>
    rcases List.mem_cons.1 hy with rfl | hy
    · exact ⟨_, List.mem_cons_self, hx⟩
    · obtain ⟨x, hmem, hx⟩ := ih hy
      exact ⟨x, List.mem_cons_of_mem _ hmem, hx⟩

/-! ## What is listed -/

/-- The listed functions, absent ones left out. -/
def Program.functions (p : Program) : List (FuncId × Func) := p.listed.reduceOption

namespace Func

/-- The parameters, absent ones left out. -/
def signature (f : Func) (id : FuncId) : List (ParamId × Param) := (f.paramIds id).reduceOption

/-- The listed blocks, absent ones left out. -/
def body (f : Func) (id : FuncId) : List (BlockId × Block) := (f.listed id).reduceOption

/-- The instructions in listing order. -/
def entries (f : Func) (id : FuncId) : List (InstrId × Option Instr) :=
  (f.body id).flatMap fun b => b.2.instrIds b.1

end Func

theorem reduceOption_map_some {α : Type} (xs : List α) : (xs.map some).reduceOption = xs := by
  rw [List.reduceOption, List.filterMap_map]
  exact List.filterMap_some

/-- The values that are known after an instruction, the latest first. -/
def addResult (known : List Value) (entry : InstrId × Option Instr) : List Value :=
  if entry.2.any Instr.isValue then .result entry.1 :: known else known

def Func.paramValues (f : Func) (id : FuncId) : List Value :=
  ((f.signature id).map fun q => Value.param q.1).reverse

/-- The parameters and results of a function, the latest first. -/
def Func.values (f : Func) (id : FuncId) : List Value :=
  (f.entries id).foldl addResult (f.paramValues id)

def Value.constant? : Value → Option Constant
  | .constant c => some c
  | _ => none

/-- The constants that the listed instructions read. -/
def Program.constants (p : Program) : List Constant :=
  p.functions.flatMap fun e => (e.2.entries e.1).flatMap fun x =>
    (x.2.toList.flatMap Instr.operands).filterMap Value.constant?

/-! ## References -/

/-- A constant of a type without unspecified parts. -/
def Value.WholeConstant (v : Value) : Prop := ∃ c, v = .constant c ∧ c.type.whole

instance : DecidablePred Value.WholeConstant := fun v =>
  match v with
  | .constant c => decidable_of_iff c.type.whole (by simp [Value.WholeConstant])
  | .missing | .param _ | .result _ => .isFalse (by simp [Value.WholeConstant])

/-- Every instruction is there, and its operands are constants or among the values that are known
before it. -/
def InScope (known : List Value) : List (InstrId × Option Instr) → Prop
  | [] => True
  | entry :: rest =>
    (∃ i ∈ entry.2, ∀ v ∈ i.operands, v ∈ known ∨ v.WholeConstant) ∧
      InScope (addResult known entry) rest

def InScope.decide (known : List Value) : (xs : List (InstrId × Option Instr)) →
    Decidable (InScope known xs)
  | [] => .isTrue trivial
  | entry :: rest =>
    have := InScope.decide (addResult known entry) rest
    inferInstanceAs (Decidable ((∃ i ∈ entry.2, ∀ v ∈ i.operands, v ∈ known ∨ v.WholeConstant) ∧
      InScope (addResult known entry) rest))

instance (known : List Value) (xs : List (InstrId × Option Instr)) :
    Decidable (InScope known xs) := InScope.decide known xs

/-- The target is a listed block of the function. -/
def Func.Holds (f : Func) (id : FuncId) (target : Option BlockId) : Prop :=
  ∃ b ∈ f.body id, target = some b.1

/-- The callee is a listed function of the program. -/
def Program.Lists (p : Program) (callee : Option FuncId) : Prop :=
  ∃ g ∈ p.functions, callee = some g.1

instance (f : Func) (id : FuncId) : DecidablePred (f.Holds id) := fun target =>
  inferInstanceAs (Decidable (∃ b ∈ f.body id, target = some b.1))

instance (p : Program) : DecidablePred p.Lists := fun callee =>
  inferInstanceAs (Decidable (∃ g ∈ p.functions, callee = some g.1))

/-- Operators, domains and types are known ones, and so are callees and targets. -/
def Instr.Formed (lists : Option FuncId → Prop) (holds : Option BlockId → Prop) : Instr → Prop
  | .binary op d _ _ => op.code < 5 ∧ d.code < 3
  | .compare pred d _ _ => pred.code < 6 ∧ d.code < 3
  | .negate d _ => d.code < 3
  | .convert _ source type target => source.code < 3 ∧ type.whole ∧ target.code < 3
  | .localVar _ elem => elem.whole
  | .call callee _ => lists callee
  | .branch target => holds target
  | .condBranch _ onTrue onFalse merge =>
    holds onTrue ∧ holds onFalse ∧ (merge = none ∨ holds merge)
  | .load _ | .store _ _ | .elementPtr _ _ | .ret _ => True

instance (lists : Option FuncId → Prop) (holds : Option BlockId → Prop) [DecidablePred lists]
    [DecidablePred holds] : DecidablePred (Instr.Formed lists holds) := fun i =>
  match i with
  | .binary op d _ _ => inferInstanceAs (Decidable (op.code < 5 ∧ d.code < 3))
  | .compare pred d _ _ => inferInstanceAs (Decidable (pred.code < 6 ∧ d.code < 3))
  | .negate d _ => inferInstanceAs (Decidable (d.code < 3))
  | .convert _ source type target =>
    inferInstanceAs (Decidable (source.code < 3 ∧ type.whole ∧ target.code < 3))
  | .localVar _ elem => inferInstanceAs (Decidable (elem.whole = true))
  | .call callee _ => inferInstanceAs (Decidable (lists callee))
  | .branch target => inferInstanceAs (Decidable (holds target))
  | .condBranch _ onTrue onFalse merge =>
    inferInstanceAs (Decidable (holds onTrue ∧ holds onFalse ∧ (merge = none ∨ holds merge)))
  | .load _ | .store _ _ | .elementPtr _ _ | .ret _ => .isTrue trivial

structure Func.Scoped (p : Program) (f : Func) (id : FuncId) : Prop where
  params : f.paramIds id = (f.signature id).map some
  blocks : f.listed id = (f.body id).map some
  /-- No block is listed twice. -/
  once : ((f.body id).map Prod.fst).Nodup
  paramTypes : ∀ q ∈ f.signature id, q.2.type.whole
  result : f.resultType.whole
  loops : ∀ b ∈ f.body id, ∀ l ∈ b.2.loop, f.Holds id l.merge ∧ f.Holds id l.continue_
  formed : ∀ x ∈ f.entries id, ∀ i ∈ x.2, i.Formed p.Lists (f.Holds id)
  scope : InScope (f.paramValues id) (f.entries id)

structure Program.Scoped (p : Program) : Prop where
  listed : p.listed = p.functions.map some
  /-- The names of the functions are distinct. -/
  names : (p.functions.map fun e => e.2.name).Nodup
  functions : ∀ e ∈ p.functions, e.2.Scoped p e.1

/-! ## Finding what is listed -/

variable {f : Func} {id : FuncId} {x : InstrId × Option Instr} {known : List Value}
variable {xs : List (InstrId × Option Instr)} {v : Value} {q : ParamId × Param}

theorem mem_mapIdx_iff {α β : Type} {f : Nat → α → β} {xs : List α} {y : β} :
    y ∈ xs.mapIdx f ↔ ∃ k x, xs[k]? = some x ∧ f k x = y := by
  simp only [List.mem_iff_getElem?, List.getElem?_mapIdx, Option.map_eq_some_iff]

theorem map_range_getElem? {α β : Type} (xs : List α) (f : Nat → α → β) :
    (List.range xs.length).map (fun k => xs[k]?.map (f k)) = xs.mapIdx fun k x => some (f k x) := by
  apply List.ext_getElem?
  intro k
  rw [List.getElem?_map, List.getElem?_mapIdx]
  by_cases hk : k < xs.length
  · rw [List.getElem?_range hk, List.getElem?_eq_getElem hk]
    simp [hk]
  · rw [List.getElem?_eq_none (by simpa using hk), List.getElem?_eq_none (by simpa using hk)]
    rfl

/-- A program that lists its functions as they are stored. -/
theorem Program.listed_of_order {p : Program} (h : p.order = (List.range p.funcs.length).map some) :
    p.listed = p.funcs.mapIdx fun k f => some (⟨k⟩, f) := by
  rw [← map_range_getElem?, listed, h, List.map_map]
  rfl

theorem Func.listed_of_order (h : f.order = (List.range f.blocks.length).map some) (id : FuncId) :
    f.listed id = f.blocks.mapIdx fun k b => some (⟨id, k⟩, b) := by
  rw [← map_range_getElem?, listed, h, List.map_map]
  rfl

namespace Program

variable {p : Program} {e : FuncId × Func}

theorem func?_of_mem_functions (h : e ∈ p.functions) : p.func? e.1 = some e.2 := by
  obtain ⟨slot, -, hslot⟩ := List.mem_map.1 (List.reduceOption_mem_iff.1 h)
  obtain ⟨k, -, hk⟩ := Option.bind_eq_some_iff.1 hslot
  obtain ⟨f, hf, rfl⟩ := Option.map_eq_some_iff.1 hk
  exact hf

end Program

theorem Func.block_of_mem_body {b : BlockId × Block} (h : b ∈ f.body id) :
    b.1.func = id ∧ f.blocks[b.1.index]? = some b.2 := by
  obtain ⟨slot, -, hslot⟩ := List.mem_map.1 (List.reduceOption_mem_iff.1 h)
  obtain ⟨k, -, hk⟩ := Option.bind_eq_some_iff.1 hslot
  obtain ⟨f, hf, rfl⟩ := Option.map_eq_some_iff.1 hk
  exact ⟨rfl, hf⟩

theorem Func.mem_entries :
    x ∈ f.entries id ↔ ∃ b ∈ f.body id, b.2.instrs[x.1.index]? = some x.2 ∧ x.1.block = b.1 := by
  simp only [entries, List.mem_flatMap, Block.instrIds, mem_mapIdx_iff]
  refine exists_congr fun b => and_congr_right fun _ => ?_
  constructor
  · rintro ⟨k, slot, hslot, rfl⟩
    exact ⟨hslot, rfl⟩
  · rintro ⟨hslot, hblock⟩
    exact ⟨_, _, hslot, by rw [← hblock]⟩

theorem mem_foldl_addResult :
    v ∈ xs.foldl addResult known ↔
      v ∈ known ∨ ∃ x ∈ xs, ∃ i, x.2 = some i ∧ i.isValue ∧ v = .result x.1 := by
  induction xs generalizing known with
  | nil => simp
  | cons x xs ih =>
    have hstep : v ∈ addResult known x ↔
        v ∈ known ∨ ∃ i, x.2 = some i ∧ i.isValue ∧ v = .result x.1 := by
      rw [addResult]
      by_cases hvalue : x.2.any Instr.isValue
      · obtain ⟨i, hi, hvalue'⟩ := (Option.any_eq_true _ _).1 hvalue
        simp [hi, hvalue', or_comm]
      · rw [if_neg hvalue]
        refine (or_iff_left ?_).symm
        rintro ⟨i, hi, hvalue', -⟩
        exact hvalue (by rw [hi]; exact hvalue')
    rw [List.foldl_cons, ih, hstep, or_assoc]
    simp only [List.mem_cons, exists_eq_or_imp]

theorem Func.mem_values :
    v ∈ f.values id ↔ (∃ q ∈ f.signature id, v = .param q.1) ∨
      ∃ x ∈ f.entries id, ∃ i, x.2 = some i ∧ i.isValue ∧ v = .result x.1 := by
  rw [values, mem_foldl_addResult, paramValues, List.mem_reverse, List.mem_map]
  simp only [eq_comm]

theorem InScope.operands (h : InScope known xs) (hx : x ∈ xs) :
    ∃ i, x.2 = some i ∧ ∀ v ∈ i.operands, v ∈ xs.foldl addResult known ∨ v.WholeConstant := by
  induction xs generalizing known with
  | nil => cases hx
  | cons y xs ih =>
    obtain ⟨⟨i, hi, hops⟩, hrest⟩ := h
    rcases List.mem_cons.1 hx with rfl | hx
    · refine ⟨i, hi, fun v hv => (hops v hv).imp_left fun hknown => ?_⟩
      exact mem_foldl_addResult.2 (Or.inl hknown)
    · exact ih hrest hx

theorem inScope_append {ys : List (InstrId × Option Instr)} :
    InScope known (xs ++ ys) ↔ InScope known xs ∧ InScope (xs.foldl addResult known) ys := by
  induction xs generalizing known with
  | nil => simp [InScope]
  | cons x xs ih => rw [List.cons_append, InScope, InScope, ih, List.foldl_cons, and_assoc]

theorem Func.mem_signature (h : q ∈ f.signature id) :
    q.1.func = id ∧ f.params[q.1.index]? = some (some q.2) := by
  obtain ⟨k, slot, hslot, heq⟩ :=
    mem_mapIdx_iff.1 (List.reduceOption_mem_iff.1 h)
  obtain ⟨q', rfl, rfl⟩ := Option.map_eq_some_iff.1 heq
  exact ⟨rfl, hslot⟩

theorem Func.Scoped.signature_getElem? {p : Program} (h : f.Scoped p id) {k : Nat}
    (hq : (f.signature id)[k]? = some q) : q.1 = ⟨id, k⟩ ∧ f.params[k]? = some (some q.2) := by
  have hat := congrArg (·[k]?) h.params
  simp only [List.getElem?_map, hq, Option.map_some, paramIds, List.getElem?_mapIdx,
    Option.map_eq_some_iff] at hat
  obtain ⟨slot, hslot, q', rfl, rfl⟩ := hat
  exact ⟨rfl, hslot⟩

namespace Program

variable {p : Program} {e : FuncId × Func}

theorem instr?_of_func? (hf : p.func? id = some f) (hx : x ∈ f.entries id) :
    p.instr? x.1 = x.2 := by
  obtain ⟨b, hb, hat, hblock⟩ := Func.mem_entries.1 hx
  obtain ⟨hid, hslot⟩ := Func.block_of_mem_body hb
  rw [instr?, block?, hblock, hid, hf, Option.bind_some, hslot, Option.bind_some, hat,
    Option.join_some]

theorem param?_of_func? (hf : p.func? id = some f) (hq : q ∈ f.signature id) :
    p.param? q.1 = some q.2 := by
  obtain ⟨hid, hparam⟩ := Func.mem_signature hq
  rw [param?, hid, hf, Option.bind_some, hparam, Option.join_some]

theorem instr?_of_mem_entries (he : e ∈ p.functions) (hx : x ∈ e.2.entries e.1) :
    p.instr? x.1 = x.2 := instr?_of_func? (func?_of_mem_functions he) hx

theorem param?_of_mem_signature (he : e ∈ p.functions) (hq : q ∈ e.2.signature e.1) :
    p.param? q.1 = some q.2 := param?_of_func? (func?_of_mem_functions he) hq

theorem mem_constants {c : Constant} {i : Instr} (he : e ∈ p.functions) (hx : x ∈ e.2.entries e.1)
    (hi : x.2 = some i) (hc : .constant c ∈ i.operands) : c ∈ p.constants := by
  refine List.mem_flatMap.2 ⟨e, he, List.mem_flatMap.2 ⟨x, hx, ?_⟩⟩
  exact List.mem_filterMap.2 ⟨.constant c, by simpa [hi] using hc, rfl⟩

/-! ## Types of values -/

/-- An instruction that is a value has a type if its operands do. -/
theorem exists_typeOf_result (hx : p.instr? x.1 = x.2) {i : Instr} (hi : x.2 = some i)
    (hvalue : i.isValue)
    (hcall : ∀ callee args, i = .call callee args → ∃ g ∈ p.functions, callee = some g.1)
    (hops : ∀ v ∈ i.operands, ∃ t, p.typeOf v = .ok t) :
    ∃ t, p.typeOf (.result x.1) = .ok t := by
  rw [hi] at hx
  cases i with
  | binary op d l r =>
    obtain ⟨t, ht⟩ := hops l (by simp [Instr.operands])
    exact ⟨t, typeOf_binary hx ht⟩
  | compare pred d l r => exact ⟨_, typeOf_compare hx⟩
  | negate d y =>
    obtain ⟨t, ht⟩ := hops y (by simp [Instr.operands])
    exact ⟨t, typeOf_negate hx ht⟩
  | convert y source type target => exact ⟨_, typeOf_convert hx⟩
  | load pointer =>
    obtain ⟨t, ht⟩ := hops pointer (by simp [Instr.operands])
    have hstep : ∃ u, p.typeStep p.typeOf x.1 = .ok u := by
      rw [typeStep, hx]
      dsimp only
      rw [ht]
      cases t <;> exact ⟨_, rfl⟩
    obtain ⟨u, hu⟩ := hstep
    exact ⟨u, typeOf_result_iff.2 hu⟩
  | elementPtr base index =>
    obtain ⟨t, ht⟩ := hops base (by simp [Instr.operands])
    exact ⟨t, typeOf_elementPtr hx ht⟩
  | localVar name elem => exact ⟨_, typeOf_localVar hx⟩
  | call callee args =>
    obtain ⟨g, hg, rfl⟩ := hcall callee args rfl
    exact ⟨_, typeOf_call hx (func?_of_mem_functions hg)⟩
  | _ => cases hvalue

theorem exists_typeOf_known (hscope : InScope known xs) (hxs : ∀ x ∈ xs, p.instr? x.1 = x.2)
    (hcall : ∀ x ∈ xs, ∀ callee args, x.2 = some (.call callee args) →
      ∃ g ∈ p.functions, callee = some g.1)
    (hknown : ∀ v ∈ known, ∃ t, p.typeOf v = .ok t) :
    ∀ v ∈ xs.foldl addResult known, ∃ t, p.typeOf v = .ok t := by
  induction xs generalizing known with
  | nil => exact hknown
  | cons x xs ih =>
    obtain ⟨⟨i, hi, hops⟩, hrest⟩ := hscope
    obtain ⟨hx, hxs⟩ := List.forall_mem_cons.1 hxs
    obtain ⟨hcallx, hcall⟩ := List.forall_mem_cons.1 hcall
    refine ih hrest hxs hcall fun v hv => ?_
    rw [addResult, hi, Option.any_some] at hv
    split at hv
    · rename_i hvalue
      rcases List.mem_cons.1 hv with rfl | hv
      · refine exists_typeOf_result hx hi hvalue
          (fun callee args heq => hcallx callee args (hi.trans (congrArg some heq))) ?_
        intro v hv
        rcases hops v hv with hv | ⟨c, rfl, -⟩
        · exact hknown v hv
        · exact ⟨c.type, rfl⟩
      · exact hknown v hv
    · exact hknown v hv

end Program

/-- Every value of a function has a type. -/
theorem Program.Scoped.exists_typeOf {p : Program} {e : FuncId × Func} (h : p.Scoped)
    (he : e ∈ p.functions) (hv : v ∈ e.2.values e.1) : ∃ t, p.typeOf v = .ok t := by
  refine Program.exists_typeOf_known (h.functions e he).scope
    (fun x hx => Program.instr?_of_mem_entries he hx) ?_ ?_ v hv
  · intro x hx callee args hi
    exact (h.functions e he).formed x hx _ hi
  · intro v hv
    rw [Func.paramValues, List.mem_reverse, List.mem_map] at hv
    obtain ⟨q, hq, rfl⟩ := hv
    exact ⟨_, Program.typeOf_param (Program.param?_of_mem_signature he hq)⟩

end Elementwise.IR
