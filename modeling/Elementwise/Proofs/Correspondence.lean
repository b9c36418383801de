import Elementwise.Proofs.Relabeling
import Elementwise.Spirv.Control

/-!
# Programs that differ in names and identities

Two programs correspond if one becomes the other by giving functions and blocks other identities:
they list the same, refer to the same and have the same types, constants and operators, in the same
order. What functions, parameters, blocks, local variables and the program itself are called plays
no part, nor whether a void result is spelled out.

Corresponding values have the same type, and what the structure of control flow is computed to be
corresponds as well.
-/
namespace Elementwise.IR

/-! ## Correspondence -/

/-- Different functions and blocks get different identities, and constants stay as they are. -/
structure Relabeling.Faithful (r : Relabeling) : Prop where
  func : Function.Injective r.func
  block : Function.Injective r.block
  constant : ∀ c, r.constant c = c

/-- The instruction without the name of a local variable. -/
def Instr.unnamed : Instr → Instr
  | .localVar _ elem => .localVar "" elem
  | i => i

/-- The same instruction under other identities. -/
def Instr.Alike (r : Relabeling) (i i' : Instr) : Prop := i'.unnamed = (r.instr i).unnamed

structure Block.Alike (r : Relabeling) (b b' : Block) : Prop where
  loop : b'.loop = b.loop.map r.loop
  instrs : List.Forall₂ (Option.Rel (Instr.Alike r)) b.instrs b'.instrs

/-- The same slot of a block, with its identity. -/
def Instr.AlikeAt (r : Relabeling) (e e' : InstrId × Option Instr) : Prop :=
  e'.1 = r.instrId e.1 ∧ Option.Rel (Instr.Alike r) e.2 e'.2

/-- The same block, with its identity. -/
def Block.AlikeAt (r : Relabeling) (b b' : BlockId × Block) : Prop :=
  b'.1 = r.block b.1 ∧ b.2.Alike r b'.2

/-- A parameter of the same type, with its identity. -/
def Param.AlikeAt (r : Relabeling) (q q' : ParamId × Param) : Prop :=
  q'.1 = r.paramId q.1 ∧ q'.2.type = q.2.type

/-- The same parameters and result, and corresponding blocks in the same order. -/
structure Func.Alike (r : Relabeling) (id : FuncId) (f f' : Func) : Prop where
  params : List.Forall₂ (Option.Rel fun q q' : Param => q'.type = q.type) f.params f'.params
  result : f'.resultType = f.resultType
  listed : List.Forall₂ (Option.Rel fun b b' : BlockId × Block => b'.1 = r.block b.1)
    (f.listed id) (f'.listed (r.func id))

/-- The second program is the first under other identities and names. -/
structure Program.Corresponds (r : Relabeling) (p p' : Program) : Prop where
  faithful : r.Faithful
  listed : List.Forall₂ (Option.Rel fun e e' : FuncId × Func => e'.1 = r.func e.1)
    p.listed p'.listed
  funcs : ∀ id, Option.Rel (Func.Alike r id) (p.func? id) (p'.func? (r.func id))
  blocks : ∀ id, Option.Rel (Block.Alike r) (p.block? id) (p'.block? (r.block id))

namespace Relabeling.Faithful

variable {r : Relabeling}

theorem instrId (h : r.Faithful) : Function.Injective r.instrId := by
  rintro ⟨b, k⟩ ⟨b', k'⟩ heq
  obtain ⟨hb, hk⟩ := InstrId.mk.inj heq
  cases h.block hb
  cases hk
  rfl

theorem paramId (h : r.Faithful) : Function.Injective r.paramId := by
  rintro ⟨f, k⟩ ⟨f', k'⟩ heq
  obtain ⟨hf, hk⟩ := ParamId.mk.inj heq
  cases h.func hf
  cases hk
  rfl

theorem value (h : r.Faithful) : Function.Injective r.value := by
  intro v w heq
  cases v <;> cases w <;> simp only [Relabeling.value, reduceCtorEq, Value.constant.injEq,
    Value.param.injEq, Value.result.injEq, h.constant] at heq
  · rfl
  · rw [heq]
  · rw [h.paramId heq]
  · rw [h.instrId heq]

end Relabeling.Faithful

/-- An instruction under other identities has another name only if it is a local variable. -/
theorem Instr.Alike.cases {r : Relabeling} {i i' : Instr} (h : i.Alike r i') :
    i' = r.instr i ∨ ∃ name name' elem, i = .localVar name elem ∧ i' = .localVar name' elem := by
  unfold Alike at h
  cases i <;> cases i' <;> simp_all [unnamed, Relabeling.instr]

theorem Instr.Alike.isTerminator {r : Relabeling} {i i' : Instr} (h : i.Alike r i') :
    i'.isTerminator = i.isTerminator := by
  rcases h.cases with rfl | ⟨name, name', elem, rfl, rfl⟩
  · cases i <;> rfl
  · rfl

theorem Relabeling.operands_instr (r : Relabeling) (i : Instr) :
    (r.instr i).operands = i.operands.map r.value := by
  cases i with
  | ret v => cases v <;> rfl
  | _ => rfl

theorem Instr.Alike.hasMissingOperand {r : Relabeling} {i i' : Instr} (h : i.Alike r i') :
    i'.hasMissingOperand = i.hasMissingOperand := by
  have hmissing : ∀ v, r.value v = .missing ↔ v = .missing := by
    intro v
    cases v <;> simp [Relabeling.value]
  rcases h.cases with rfl | ⟨name, name', elem, rfl, rfl⟩
  · rw [Instr.hasMissingOperand, Instr.hasMissingOperand, r.operands_instr, Bool.eq_iff_iff,
      List.contains_iff_mem, List.contains_iff_mem, List.mem_map]
    simp only [hmissing, exists_eq_right]
  · rfl

/-! ## Lists that are related entry by entry -/

section Related

variable {α β : Type} {R : α → β → Prop} {xs : List α} {ys : List β}

theorem rel_cases {x : Option α} {y : Option β} (h : Option.Rel R x y) :
    x = none ∧ y = none ∨ ∃ a b, x = some a ∧ y = some b ∧ R a b := by
  cases h with
  | none => exact Or.inl ⟨rfl, rfl⟩
  | some h => exact Or.inr ⟨_, _, rfl, rfl, h⟩

theorem rel_getElem? (h : List.Forall₂ R xs ys) (k : Nat) : Option.Rel R xs[k]? ys[k]? := by
  induction h generalizing k with
  | nil => exact .none
  | cons hx _ ih =>
    cases k with
    | zero => exact .some hx
    | succ k => simpa using ih k

theorem rel_getLast? (h : List.Forall₂ R xs ys) : Option.Rel R xs.getLast? ys.getLast? := by
  rw [List.getLast?_eq_getElem?, List.getLast?_eq_getElem?, h.length_eq]
  exact rel_getElem? h _

theorem rel_join {x : Option (Option α)} {y : Option (Option β)}
    (h : Option.Rel (Option.Rel R) x y) : Option.Rel R x.join y.join := by
  cases h with
  | none => exact .none
  | some h => exact h

theorem map_related {γ δ : Type} {f : α → γ} {g : β → δ} {m : γ → δ}
    (h : List.Forall₂ R xs ys) (hfg : ∀ x y, R x y → g y = m (f x)) :
    ys.map g = (xs.map f).map m := by
  induction h with
  | nil => rfl
  | cons hx _ ih => rw [List.map_cons, List.map_cons, List.map_cons, hfg _ _ hx, ih]

theorem filterMap_related {γ δ : Type} {f : α → Option γ} {g : β → Option δ} {m : γ → δ}
    (h : List.Forall₂ R xs ys) (hfg : ∀ x y, R x y → g y = (f x).map m) :
    ys.filterMap g = (xs.filterMap f).map m := by
  induction h with
  | nil => rfl
  | cons hx _ ih =>
    rw [List.filterMap_cons, List.filterMap_cons, hfg _ _ hx]
    cases f _ with
    | none => exact ih
    | some c => exact congrArg (m c :: ·) ih

theorem isEmpty_of_length_eq (h : xs.length = ys.length) : ys.isEmpty = xs.isEmpty := by
  rw [Bool.eq_iff_iff, List.isEmpty_iff_length_eq_zero, List.isEmpty_iff_length_eq_zero, h]

theorem mapIdx_related {γ δ : Type} {S : γ → δ → Prop} {f : Nat → α → γ} {g : Nat → β → δ}
    (h : List.Forall₂ R xs ys) (hfg : ∀ k x y, R x y → S (f k x) (g k y)) :
    List.Forall₂ S (xs.mapIdx f) (ys.mapIdx g) := by
  induction h generalizing f g with
  | nil => exact .nil
  | cons hx _ ih =>
    rw [List.mapIdx_cons, List.mapIdx_cons]
    exact .cons (hfg 0 _ _ hx) (ih fun k x y hxy => hfg (k + 1) x y hxy)

end Related

/-! ## Types of values -/

namespace Program.Corresponds

variable {r : Relabeling} {p p' : Program}

theorem instr? (h : p.Corresponds r p') (id : InstrId) :
    Option.Rel (Instr.Alike r) (p.instr? id) (p'.instr? (r.instrId id)) := by
  rw [Program.instr?, Program.instr?, Relabeling.instrId]
  dsimp only
  obtain ⟨hb, hb'⟩ | ⟨b, b', hb, hb', halike⟩ := rel_cases (h.blocks id.block)
  · rw [hb, hb']
    exact .none
  · rw [hb, hb']
    exact rel_join (rel_getElem? halike.instrs id.index)

theorem param? (h : p.Corresponds r p') (id : ParamId) :
    Option.Rel (fun q q' : Param => q'.type = q.type) (p.param? id)
      (p'.param? (r.paramId id)) := by
  rw [Program.param?, Program.param?, Relabeling.paramId]
  dsimp only
  obtain ⟨hf, hf'⟩ | ⟨f, f', hf, hf', halike⟩ := rel_cases (h.funcs id.func)
  · rw [hf, hf']
    exact .none
  · rw [hf, hf']
    exact rel_join (rel_getElem? halike.params id.index)

theorem typeStep (h : p.Corresponds r p') {types types' : Value → Except Panic Ty}
    (htypes : ∀ v, types' (r.value v) = types v) (id : InstrId) :
    p'.typeStep types' (r.instrId id) = p.typeStep types id := by
  rw [Program.typeStep, Program.typeStep]
  obtain ⟨hi, hi'⟩ | ⟨i, i', hi, hi', halike⟩ := rel_cases (h.instr? id)
  · rw [hi, hi']
  · rw [hi, hi']
    rcases halike.cases with rfl | ⟨name, name', elem, rfl, rfl⟩
    · cases i with
      | binary op d x y => exact htypes x
      | negate d x => exact htypes x
      | elementPtr base index => exact htypes base
      | load pointer =>
        dsimp only [Relabeling.instr]
        rw [htypes]
      | call callee args =>
        cases callee with
        | none => rfl
        | some g =>
          dsimp only [Relabeling.instr, Option.map_some]
          obtain ⟨hg, hg'⟩ | ⟨f, f', hg, hg', hf⟩ := rel_cases (h.funcs g)
          · rw [hg, hg']
          · rw [hg, hg']
            exact congrArg Except.ok hf.result
      | _ => rfl
    · rfl

theorem typeWithin (h : p.Corresponds r p') (k : Nat) (v : Value) :
    p'.typeWithin k (r.value v) = p.typeWithin k v := by
  have hparam : ∀ k id, p'.typeWithin k (.param (r.paramId id)) = p.typeWithin k (.param id) := by
    intro k id
    unfold Program.typeWithin
    obtain ⟨hq, hq'⟩ | ⟨q, q', hq, hq', htype⟩ := rel_cases (h.param? id)
    · simp only [hq, hq']
    · simp only [hq, hq', htype]
  have hconstant : ∀ k c, p'.typeWithin k (.constant (r.constant c)) =
      p.typeWithin k (.constant c) := by
    intro k c
    rw [h.faithful.constant]
    unfold Program.typeWithin
    rfl
  induction k generalizing v with
  | zero =>
    cases v with
    | missing => rfl
    | constant c => exact hconstant 0 c
    | param id => exact hparam 0 id
    | result id => rfl
  | succ k ih =>
    cases v with
    | missing => rfl
    | constant c => exact hconstant (k + 1) c
    | param id => exact hparam (k + 1) id
    | result id => exact h.typeStep ih id

/-- Corresponding values have the same type, or none for the same reason. The bounds on the search
may differ, but it ends on both sides or on neither. -/
theorem typeOf (h : p.Corresponds r p') (v : Value) : p'.typeOf (r.value v) = p.typeOf v := by
  by_cases hends : p.typeOf v = .error .cyclic
  · by_cases hends' : p'.typeOf (r.value v) = .error .cyclic
    · rw [hends, hends']
    · have hsame := h.typeWithin (p'.instrCount + 1) v
      have hfound : p.typeWithin (p'.instrCount + 1) v ≠ .error .cyclic := hsame ▸ hends'
      exact hsame.trans (typeOf_eq_typeWithin hfound).symm
  · have hsame := h.typeWithin (p.instrCount + 1) v
    have hfound : p'.typeWithin (p.instrCount + 1) (r.value v) ≠ .error .cyclic := hsame ▸ hends
    exact (typeOf_eq_typeWithin hfound).trans hsame

/-- The blocks that corresponding functions list are alike. -/
theorem listedBlocks (h : p.Corresponds r p') {id : FuncId} {f f' : Func}
    (hf : p.func? id = some f) (hf' : p'.func? (r.func id) = some f') (halike : f.Alike r id f') :
    List.Forall₂ (Option.Rel (Block.AlikeAt r)) (f.listed id) (f'.listed (r.func id)) := by
  have hstored : ∀ {p : Program} {f : Func} {id : FuncId}, p.func? id = some f →
      ∀ slot ∈ f.listed id, ∀ b ∈ slot, p.block? b.1 = some b.2 := by
    rintro p f id hf slot hslot b rfl
    obtain ⟨hfunc, hblock⟩ := Func.block_of_mem_body (List.reduceOption_mem_iff.2 hslot)
    rw [block?, hfunc, hf, Option.bind_some, hblock]
  have hleft := (List.forall₂_and_left _ _).2 ⟨hstored hf, halike.listed⟩
  have hboth := (List.forall₂_and_left _ _).2 ⟨hstored hf', hleft.flip⟩
  refine hboth.flip.imp ?_
  rintro slot slot' ⟨hslot', hslot, hrel⟩
  obtain ⟨rfl, rfl⟩ | ⟨b, b', rfl, rfl, hid⟩ := rel_cases hrel
  · exact .none
  · have hblock := h.blocks b.1
    rw [hslot b rfl, ← hid, hslot' b' rfl] at hblock
    cases hblock with
    | some hb => exact .some ⟨hid, hb⟩

end Program.Corresponds

/-! ## Unchanged programs -/

namespace Relabeling

/-- All identities stay as they are. -/
def same : Relabeling := ⟨id, id, id⟩

@[simp] theorem func_same : same.func = id := rfl

@[simp] theorem block_same : same.block = id := rfl

@[simp] theorem value_same : same.value = id := by
  funext v
  cases v <;> rfl

@[simp] theorem instr_same (i : Instr) : same.instr i = i := by
  cases i <;> simp [instr]

theorem faithful_same : same.Faithful := ⟨fun _ _ h => h, fun _ _ h => h, fun _ => rfl⟩

end Relabeling

theorem rel_same {α : Type} {R : α → α → Prop} (h : ∀ a, R a a) (x : Option α) :
    Option.Rel R x x := by
  cases x with
  | none => exact .none
  | some a => exact .some (h a)

theorem slots_same {α : Type} {R : α → α → Prop} (h : ∀ a, R a a) (xs : List (Option α)) :
    List.Forall₂ (Option.Rel R) xs xs :=
  List.forall₂_same.2 fun x _ => rel_same h x

theorem Block.alike_same (b : Block) : b.Alike .same b := by
  refine ⟨?_, slots_same (fun i => ?_) _⟩
  · cases b.loop <;> simp [Relabeling.loop]
  · rw [Instr.Alike, Relabeling.instr_same]

theorem Program.corresponds_same (p : Program) : p.Corresponds .same p := by
  refine ⟨Relabeling.faithful_same, slots_same ?_ _, fun id => rel_same ?_ _,
    fun id => rel_same Block.alike_same _⟩
  · exact fun _ => rfl
  · refine fun f => ⟨slots_same ?_ _, rfl, slots_same ?_ _⟩
    · exact fun _ => rfl
    · exact fun _ => rfl

/-! ## Blocks -/

namespace Block.Alike

variable {r : Relabeling} {b b' : Block}

theorem terminator? (h : b.Alike r b') : b'.terminator? = b.terminator?.map r.instr := by
  rw [Block.terminator?, Block.terminator?]
  obtain ⟨hlast, hlast'⟩ | ⟨slot, slot', hlast, hlast', hrel⟩ := rel_cases (rel_getLast? h.instrs)
  · rw [hlast, hlast']
    rfl
  · rw [hlast, hlast']
    obtain ⟨rfl, rfl⟩ | ⟨i, i', rfl, rfl, halike⟩ := rel_cases hrel
    · rfl
    · rcases halike.cases with rfl | ⟨name, name', elem, rfl, rfl⟩
      · cases i <;> rfl
      · rfl

theorem successors (h : b.Alike r b') :
    b'.successors = b.successors.map (Option.map r.block) := by
  rw [Block.successors, Block.successors, h.terminator?]
  cases b.terminator? with
  | none => rfl
  | some i => cases i <;> rfl

theorem instrIds (h : b.Alike r b') (id : BlockId) :
    List.Forall₂ (Instr.AlikeAt r) (b.instrIds id) (b'.instrIds (r.block id)) :=
  mapIdx_related h.instrs fun _ _ _ hslot => ⟨rfl, hslot⟩

end Block.Alike

theorem Func.Alike.paramIds {r : Relabeling} {id : FuncId} {f f' : Func} (h : f.Alike r id f') :
    List.Forall₂ (Option.Rel (Param.AlikeAt r)) (f.paramIds id) (f'.paramIds (r.func id)) := by
  refine mapIdx_related h.params fun k slot slot' hslot => ?_
  cases hslot with
  | none => exact .none
  | some htype => exact .some ⟨rfl, htype⟩

theorem Func.Alike.isEmpty_order {r : Relabeling} {id : FuncId} {f f' : Func}
    (h : f.Alike r id f') : f'.order.isEmpty = f.order.isEmpty := by
  have hlength := h.listed.length_eq
  rw [Func.listed, Func.listed, List.length_map, List.length_map] at hlength
  exact isEmpty_of_length_eq hlength

theorem Program.Corresponds.isEmpty_order {r : Relabeling} {p p' : Program}
    (h : p.Corresponds r p') : p'.order.isEmpty = p.order.isEmpty := by
  have hlength := h.listed.length_eq
  rw [Program.listed, Program.listed, List.length_map, List.length_map] at hlength
  exact isEmpty_of_length_eq hlength

end Elementwise.IR

namespace Elementwise.Spirv
open IR

/-! ## Control flow -/

section Injective

variable {α β : Type} [DecidableEq α] [DecidableEq β] {m : α → β} (hm : Function.Injective m)
include hm

theorem contains_map (xs : List α) (x : α) : (xs.map m).contains (m x) = xs.contains x := by
  rw [Bool.eq_iff_iff, List.contains_iff_mem, List.contains_iff_mem, List.mem_map_of_injective hm]

end Injective

/-- The same search, under other identities. -/
def Search.relabel (r : Relabeling) (s : Search) : Search :=
  ⟨s.stack.map r.block, s.seen.map r.block⟩

/-- The same blocks in the same order, under other identities. -/
def Layout.Alike (r : Relabeling) (l l' : Layout) : Prop :=
  List.Forall₂ (Block.AlikeAt r) l.blocks l'.blocks

namespace Layout.Alike

variable {r : Relabeling} {l l' : Layout}

theorem position? (hr : r.Faithful) (h : l.Alike r l') (id : BlockId) :
    l'.position? (r.block id) = l.position? id := by
  have hfrom : ∀ index, positionFrom (r.block id) index l'.blocks =
      positionFrom id index l.blocks := by
    unfold Alike at h
    generalize l.blocks = bs at h
    generalize l'.blocks = bs' at h
    induction h with
    | nil => exact fun _ => rfl
    | @cons b b' rest rest' hb _ ih =>
      intro index
      obtain ⟨other, block⟩ := b
      obtain ⟨other', block'⟩ := b'
      obtain ⟨rfl, -⟩ := hb
      rw [positionFrom, positionFrom, ih]
      simp only [hr.block.eq_iff]
  exact hfrom 0

theorem visit (hr : r.Faithful) (h : l.Alike r l') (k : Nat) (s : Search)
    (target : Option BlockId) :
    l'.visit k (s.relabel r) (target.map r.block) = (l.visit k s target).relabel r := by
  cases target with
  | none => rfl
  | some id =>
    simp only [Layout.visit, Option.map_some, h.position? hr]
    cases l.position? id with
    | none => rfl
    | some j =>
      simp only [Search.relabel, contains_map hr.block]
      split <;> rfl

theorem successors (h : l.Alike r l') (k : Nat) :
    (l'.blocks[k]?.elim [] fun e => e.2.successors) =
      (l.blocks[k]?.elim [] fun e => e.2.successors).map (Option.map r.block) := by
  unfold Alike at h
  generalize l.blocks = bs at h
  generalize l'.blocks = bs' at h
  induction h generalizing k with
  | nil => rfl
  | cons hb _ ih =>
    cases k with
    | zero => exact hb.2.successors
    | succ k => exact ih k

theorem follow (hr : r.Faithful) (h : l.Alike r l') (s : Search) (id : BlockId) :
    l'.follow (s.relabel r) (r.block id) = (l.follow s id).relabel r := by
  rw [Layout.follow, Layout.follow, h.position? hr]
  cases l.position? id with
  | none => rfl
  | some k =>
    dsimp only
    rw [h.successors, List.foldl_map]
    exact List.foldl_hom (Search.relabel r) fun s target => h.visit hr k s target

theorem search (hr : r.Faithful) (h : l.Alike r l') (s : Search) :
    l'.search (s.relabel r) = (l.search s).map r.block := by
  fun_induction l.search s with
  | case1 seen => rw [Search.relabel, List.map_nil, Layout.search]
  | case2 id rest seen ih =>
    rw [← ih, ← h.follow hr, Search.relabel, List.map_cons, Layout.search]
    rfl

theorem forwardReach (hr : r.Faithful) (h : l.Alike r l') (after : Nat) (start : BlockId) :
    l'.forwardReach after (r.block start) = (l.forwardReach after start).map r.block := by
  have hsearch := h.search hr ⟨[start], [start]⟩
  rw [Layout.forwardReach, Layout.forwardReach, h.position? hr]
  cases l.position? start with
  | none => rfl
  | some k =>
    dsimp only
    split
    · exact hsearch
    · rfl

theorem earliest? (hr : r.Faithful) (h : l.Alike r l') (among : List BlockId) :
    l'.earliest? (among.map r.block) = (l.earliest? among).map r.block := by
  rw [Layout.earliest?, Layout.earliest?, List.foldl_map]
  change List.foldl _ ((none : Option BlockId).map r.block) among = _
  refine List.foldl_hom (Option.map r.block) fun best id => ?_
  cases best with
  | none => rfl
  | some other =>
    simp only [Option.map_some, h.position? hr]
    split <;> rfl

theorem meeting? (hr : r.Faithful) (h : l.Alike r l') (at_ : Nat) (onTrue onFalse : BlockId) :
    l'.meeting? at_ (r.block onTrue) (r.block onFalse) =
      (l.meeting? at_ onTrue onFalse).map r.block := by
  rw [Layout.meeting?, Layout.meeting?, h.forwardReach hr, h.forwardReach hr, ← h.earliest? hr,
    List.filter_map]
  congr 3
  funext id
  exact contains_map hr.block _ id

theorem enclosingLoops (hr : r.Faithful) (h : l.Alike r l') (at_ : Nat) :
    l'.enclosingLoops at_ = (l.enclosingLoops at_).map r.loop := by
  refine filterMap_related (List.forall₂_take at_ h) ?_
  rintro ⟨id, b⟩ ⟨id', b'⟩ ⟨-, hb⟩
  dsimp only
  rw [hb.loop]
  cases b.loop with
  | none => rfl
  | some loop =>
    obtain ⟨merge, continue_⟩ := loop
    have hmerge : (merge.map r.block).bind l'.position? = merge.bind l.position? := by
      cases merge with
      | none => rfl
      | some id => exact h.position? hr id
    simp only [Option.map_some, Option.bind_some, Relabeling.loop, hmerge]
    cases merge.bind l.position? with
    | none => rfl
    | some k =>
      dsimp only
      split <;> rfl

theorem leavesLoop (hr : r.Faithful) (h : l.Alike r l') (at_ : Nat) (onTrue onFalse : BlockId) :
    l'.leavesLoop at_ (r.block onTrue) (r.block onFalse) = l.leavesLoop at_ onTrue onFalse := by
  have htarget : ∀ (target : Option BlockId) (id : BlockId),
      (target.map r.block == some (r.block id)) = (target == some id) := by
    intro target id
    cases target with
    | none => rfl
    | some other =>
      rw [Bool.eq_iff_iff]
      simp [hr.block.eq_iff]
  rw [Layout.leavesLoop, Layout.leavesLoop, h.enclosingLoops hr, List.any_map]
  simp only [Function.comp_def, Relabeling.loop, List.any_cons, List.any_nil, htarget]

end Layout.Alike

end Elementwise.Spirv
