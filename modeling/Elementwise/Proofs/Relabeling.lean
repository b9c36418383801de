import Elementwise.IR.Wire.Encode
import Elementwise.Proofs.Scoping

/-!
# Programs in listing order

What a program says does not depend on where its functions and blocks are stored, only on what it
lists and in which order. The settled form of a program stores its functions and blocks in listing
order, leaves out what is not listed, and gives every parameter and block the name that the listing
shows. Where references stay within the program, the settled form has the same listing and the same
wire form.
-/
namespace Elementwise.IR
open Text.Numeral

/-! ## The settled form -/

/-- Other identities for functions and blocks, and other constants. -/
structure Relabeling where
  func : FuncId → FuncId
  block : BlockId → BlockId
  constant : Constant → Constant

namespace Relabeling

def instrId (r : Relabeling) (id : InstrId) : InstrId := ⟨r.block id.block, id.index⟩

def paramId (r : Relabeling) (id : ParamId) : ParamId := ⟨r.func id.func, id.index⟩

def value (r : Relabeling) : Value → Value
  | .missing => .missing
  | .constant c => .constant (r.constant c)
  | .param id => .param (r.paramId id)
  | .result id => .result (r.instrId id)

def instr (r : Relabeling) : Instr → Instr
  | .binary op d x y => .binary op d (r.value x) (r.value y)
  | .compare pred d x y => .compare pred d (r.value x) (r.value y)
  | .negate d x => .negate d (r.value x)
  | .convert x source type target => .convert (r.value x) source type target
  | .load ptr => .load (r.value ptr)
  | .store x ptr => .store (r.value x) (r.value ptr)
  | .elementPtr base index => .elementPtr (r.value base) (r.value index)
  | .localVar name elem => .localVar name elem
  | .call callee args => .call (callee.map r.func) (args.map r.value)
  | .branch target => .branch (target.map r.block)
  | .condBranch cond t f merge =>
    .condBranch (r.value cond) (t.map r.block) (f.map r.block) (merge.map r.block)
  | .ret x => .ret (r.value x)

def loop (r : Relabeling) (l : Loop) : Loop := ⟨l.merge.map r.block, l.continue_.map r.block⟩

end Relabeling

/-- A name that was given, or else the kind of what it names and a number. -/
def filled (kind : String) (index : Nat) (name : Text) : Text :=
  if name.isEmpty then kind ++ decimal index else name

def Param.settled (index : Nat) (q : Param) : Param := { q with name := filled "arg" index q.name }

def Block.settled (r : Relabeling) (index : Nat) (b : Block) : Block :=
  ⟨filled "bb" index b.name, b.loop.map r.loop, b.instrs.map (Option.map r.instr)⟩

def Func.settled (r : Relabeling) (id : FuncId) (f : Func) : Func where
  name := f.name
  params := (f.signature id).mapIdx fun k q => some (q.2.settled k)
  result := f.resultType
  blocks := (f.body id).mapIdx fun k b => b.2.settled r k
  order := (List.range (f.body id).length).map some

/-- Functions and blocks by their places in the listing. -/
def Program.places (p : Program) (constant : Constant → Constant) : Relabeling where
  func id := ⟨(p.functions.map Prod.fst).idxOf id⟩
  block id :=
    ⟨⟨(p.functions.map Prod.fst).idxOf id.func⟩,
      ((p.func? id.func).elim [] fun f => (f.body id.func).map Prod.fst).idxOf id⟩
  constant := constant

/-- The program as it is listed, with every name filled in, an unspecified result read as void,
and its constants replaced as `constant` says. -/
def Program.settled (p : Program) (constant : Constant → Constant) : Program where
  name := p.name
  funcs := p.functions.map fun e => e.2.settled (p.places constant) e.1
  order := (List.range p.functions.length).map some

/-! ## Places in the listing -/

variable {α β γ : Type} {xs : List α} {φ : Nat → α → β} {T : Naming → Naming} {q : ParamId × Param}
  {step' : Naming → Nat → β → Except Panic Naming}
  {step : Naming → Nat → Option α → Except Panic Naming}

theorem idxOf_map_fst [BEq α] [LawfulBEq α] {xs : List (α × β)} (hxs : (xs.map Prod.fst).Nodup)
    {k : Nat} {x : α × β} (h : xs[k]? = some x) : (xs.map Prod.fst).idxOf x.1 = k := by
  obtain ⟨hk, rfl⟩ := List.getElem?_eq_some_iff.1 h
  have hidx := hxs.idxOf_getElem k (by simpa using hk)
  rwa [List.getElem_map] at hidx

theorem mapIdx_congr {f g : Nat → α → β} (h : ∀ k x, xs[k]? = some x → f k x = g k x) :
    xs.mapIdx f = xs.mapIdx g := by
  apply List.ext_getElem?
  intro k
  rw [List.getElem?_mapIdx, List.getElem?_mapIdx]
  cases hk : xs[k]? with
  | none => rfl
  | some x => exact congrArg some (h k x hk)

theorem Func.resultType_settled (r : Relabeling) (id : FuncId) (f : Func) :
    (f.settled r id).resultType = f.resultType := by
  rw [resultType, settled, resultType]
  cases f.result <;> rfl

namespace Program.Scoped

variable {p : Program} {σ : Constant → Constant} {e : FuncId × Func} {k : Nat}
  {b : BlockId × Block}

theorem nodup_ids (h : p.Scoped) : (p.functions.map Prod.fst).Nodup := by
  refine (h.names.of_map _).map_on ?_
  intro e he e' he' heq
  have hfunc := func?_of_mem_functions he
  rw [heq, func?_of_mem_functions he'] at hfunc
  exact Prod.ext heq (Option.some.inj hfunc).symm

theorem places_func (h : p.Scoped) (he : p.functions[k]? = some e) :
    (p.places σ).func e.1 = ⟨k⟩ :=
  congrArg FuncId.mk (idxOf_map_fst h.nodup_ids he)

variable (h : p.Scoped) (he : e ∈ p.functions)
include h he

theorem func?_settled :
    (p.settled σ).func? ((p.places σ).func e.1) =
      some (e.2.settled (p.places σ) e.1) := by
  obtain ⟨k, hk⟩ := List.mem_iff_getElem?.1 he
  rw [h.places_func hk, func?, settled, List.getElem?_map, hk]
  rfl

theorem places_block (hb : (e.2.body e.1)[k]? = some b) :
    (p.places σ).block b.1 = ⟨(p.places σ).func e.1, k⟩ := by
  have hfunc := (Func.block_of_mem_body (List.mem_of_getElem? hb)).1
  rw [places]
  dsimp only
  rw [hfunc, func?_of_mem_functions he, Option.elim_some,
    idxOf_map_fst (h.functions e he).once hb]

theorem block?_settled (hb : (e.2.body e.1)[k]? = some b) :
    (p.settled σ).block? ((p.places σ).block b.1) =
      some (b.2.settled (p.places σ) k) := by
  rw [h.places_block he hb, block?, h.func?_settled he, Option.bind_some, Func.settled,
    List.getElem?_mapIdx, hb]
  rfl

theorem instr?_settled (hb : b ∈ e.2.body e.1) (k : Nat) :
    (p.settled σ).instr? ((p.places σ).instrId ⟨b.1, k⟩) =
      (p.instr? ⟨b.1, k⟩).map (p.places σ).instr := by
  obtain ⟨j, hj⟩ := List.mem_iff_getElem?.1 hb
  obtain ⟨hfunc, hblock⟩ := Func.block_of_mem_body hb
  rw [instr?, instr?, Relabeling.instrId, h.block?_settled he hj, block?, hfunc,
    func?_of_mem_functions he, Option.bind_some, Option.bind_some, hblock, Option.bind_some,
    Block.settled, List.getElem?_map]
  cases b.2.instrs[k]? with
  | none => rfl
  | some i => rfl

theorem param?_settled (hq : q ∈ e.2.signature e.1) :
    (p.settled σ).param? ((p.places σ).paramId q.1) =
      some (q.2.settled q.1.index) := by
  obtain ⟨k, hk⟩ := List.mem_iff_getElem?.1 hq
  have hid := ((h.functions e he).signature_getElem? hk).1
  rw [param?, Relabeling.paramId, hid, h.func?_settled he, Option.bind_some, Func.settled,
    List.getElem?_mapIdx, hk]
  rfl

/-! ## Types of values -/

theorem typeStep_settled {x : InstrId × Option Instr}
    (hx : x ∈ e.2.entries e.1) {i : Instr} (hi : x.2 = some i)
    {types types' : Value → Except Panic Ty}
    (htypes : ∀ v ∈ i.operands, types' ((p.places σ).value v) = types v) :
    (p.settled σ).typeStep types' ((p.places σ).instrId x.1) =
      p.typeStep types x.1 := by
  obtain ⟨b, hb, -, hblock⟩ := Func.mem_entries.1 hx
  have hsettled : (p.settled σ).instr? _ = _ := h.instr?_settled he hb x.1.index
  have hid : (⟨b.1, x.1.index⟩ : InstrId) = x.1 := by rw [← hblock]
  rw [hid, instr?_of_mem_entries he hx, hi, Option.map_some] at hsettled
  rw [typeStep, typeStep, hsettled, instr?_of_mem_entries he hx, hi]
  have hformed := (h.functions e he).formed x hx i hi
  cases i with
  | binary op d l r => exact htypes l (by simp [Instr.operands])
  | negate d y => exact htypes y (by simp [Instr.operands])
  | elementPtr base index => exact htypes base (by simp [Instr.operands])
  | load pointer =>
    have hpointer := htypes pointer (by simp [Instr.operands])
    dsimp only [Relabeling.instr]
    rw [hpointer]
  | call callee args =>
    obtain ⟨g, hg, rfl⟩ := hformed
    dsimp only [Relabeling.instr, Option.map_some]
    rw [h.func?_settled hg, func?_of_mem_functions hg]
    exact congrArg Except.ok (Func.resultType_settled _ _ _)
  | _ => rfl

/-- Values of the settled form have the types they had. -/
theorem typeWithin_settled (hconstant : ∀ c ∈ p.constants, (σ c).type = c.type) {v : Value}
    (hv : v ∈ e.2.values e.1 ∨ ∃ c ∈ p.constants, v = .constant c) (k : Nat) :
    (p.settled σ).typeWithin k ((p.places σ).value v) = p.typeWithin k v := by
  have hplain : ∀ v : Value, (v ∈ e.2.values e.1 ∨ ∃ c ∈ p.constants, v = .constant c) →
      (∀ id, v ≠ .result id) → ∀ k, (p.settled σ).typeWithin k
        ((p.places σ).value v) = p.typeWithin k v := by
    rintro v (hv | ⟨c, hc, rfl⟩) hne k
    · rcases Func.mem_values.1 hv with ⟨q, hq, rfl⟩ | ⟨x, -, i, -, -, rfl⟩
      · unfold typeWithin Relabeling.value
        dsimp only
        rw [h.param?_settled he hq, param?_of_mem_signature he hq]
        rfl
      · exact absurd rfl (hne x.1)
    · unfold typeWithin Relabeling.value
      exact congrArg Except.ok (hconstant c hc)
  induction k generalizing v with
  | zero =>
    cases v with
    | result id => rfl
    | _ => exact hplain _ hv (by simp) 0
  | succ k ih =>
    cases v with
    | result id =>
      obtain ⟨x, hx, i, hi, -, hid⟩ : ∃ x ∈ e.2.entries e.1, ∃ i, x.2 = some i ∧ i.isValue ∧
          Value.result id = .result x.1 := by
        rcases hv with hv | ⟨c, -, hc⟩
        · rcases Func.mem_values.1 hv with ⟨q, -, hq⟩ | hx
          · cases hq
          · exact hx
        · cases hc
      obtain rfl := Value.result.inj hid
      refine h.typeStep_settled he hx hi fun v hv => ih ?_
      obtain ⟨j, hj, hops⟩ := (h.functions e he).scope.operands hx
      obtain rfl := Option.some.inj (hi.symm.trans hj)
      refine (hops v hv).imp_right ?_
      rintro ⟨c, rfl, -⟩
      exact ⟨c, mem_constants he hx hi hv, rfl⟩
    | _ => exact hplain _ hv (by simp) _

theorem typeOf_settled (hconstant : ∀ c ∈ p.constants, (σ c).type = c.type) {v : Value}
    (hv : v ∈ e.2.values e.1) :
    (p.settled σ).typeOf ((p.places σ).value v) = p.typeOf v := by
  obtain ⟨t, ht⟩ := h.exists_typeOf he hv
  rw [ht]
  exact typeOf_of_typeWithin ((h.typeWithin_settled he hconstant (.inl hv) _).trans ht)

end Program.Scoped

/-! ## Names -/

theorem isEmpty_filled {kind : String} (hkind : (Text.ofString kind).isEmpty = false)
    (index : Nat) (name : Text) : (filled kind index name).isEmpty = false := by
  unfold filled
  split
  · simp only [Text.isEmpty, List.isEmpty_eq_false_iff] at hkind ⊢
    exact List.append_ne_nil_of_left_ne_nil hkind _
  · rename_i hname
    exact Bool.eq_false_iff.2 hname

theorem filled_filled {kind : String} (hkind : (Text.ofString kind).isEmpty = false)
    (index index' : Nat) (name : Text) :
    filled kind index' (filled kind index name) = filled kind index name := by
  rw [filled, isEmpty_filled hkind]
  rfl

namespace Naming

def relabel (r : Relabeling) (n : Naming) : Naming where
  values := n.values.map fun e => (r.value e.1, e.2)
  blocks := n.blocks.map fun e => (r.block e.1, e.2)
  next := n.next

variable (r : Relabeling) (n : Naming)

theorem addParam_some (index : Nat) (q : ParamId × Param) :
    addParam n index (some q) =
      .ok { n with values := (.param q.1, "%" ++ filled "arg" index q.2.name) :: n.values } := rfl

theorem addParam_relabel (index : Nat) (q : ParamId × Param) :
    addParam (n.relabel r) index (some (r.paramId q.1, q.2.settled index)) =
      (addParam n index (some q)).map (relabel r) := by
  rw [addParam_some, addParam_some, Param.settled, filled_filled (by decide)]
  rfl

/-- The name of a result, and the next number after it. -/
def resultName (next : Nat) : Option Instr → Option (Text × Nat)
  | some (.localVar name _) =>
    if name.isEmpty then some (decimal next, next + 1) else some (name, next)
  | some i => if i.isValue then some (decimal next, next + 1) else none
  | none => none

theorem addInstr_eq (x : InstrId × Option Instr) :
    addInstr n x = (resultName n.next x.2).elim n fun label =>
      { n with values := (.result x.1, "%" ++ label.1) :: n.values, next := label.2 } := by
  unfold addInstr
  cases x.2 with
  | none => rfl
  | some i =>
    cases i with
    | localVar name elem =>
      dsimp only [resultName]
      split <;> rfl
    | _ => rfl

theorem resultName_cases (next : Nat) (slot : Option Instr) :
    (slot.any Instr.isValue = false ∧ resultName next slot = none) ∨
      ∃ i label, slot = some i ∧ i.isValue ∧ resultName next slot = some label ∧
        label.1.isEmpty = false ∧
        ∀ name elem, i = .localVar name elem → name.isEmpty = false → label.1 = name := by
  have hnumber : (Text.ofString (decimal next)).isEmpty = false := by
    refine Text.isEmpty_ofString fun hempty => ?_
    have hdigits : Nat.toDigits 10 next = [] := by
      simpa [decimal] using congrArg String.toList hempty
    exact Nat.toDigits_ne_nil hdigits
  cases slot with
  | none => exact .inl ⟨rfl, rfl⟩
  | some i =>
    cases i with
    | localVar name elem =>
      refine .inr ⟨_, if name.isEmpty then (↑(decimal next), next + 1) else (name, next), rfl, rfl,
        ?_, ?_, ?_⟩
      · dsimp only [resultName]
        split <;> rfl
      · split
        · exact hnumber
        · rename_i hname
          exact Bool.eq_false_iff.2 hname
      · rintro _ _ ⟨⟩ hname
        rw [hname]
        rfl
    | store | branch | condBranch | ret => exact .inl ⟨rfl, rfl⟩
    | _ =>
      refine .inr ⟨_, (↑(decimal next), next + 1), rfl, rfl, rfl, hnumber, ?_⟩
      intro name elem heq
      cases heq

theorem resultName_map_instr (next : Nat) (slot : Option Instr) :
    resultName next (slot.map r.instr) = resultName next slot := by
  cases slot with
  | none => rfl
  | some i => cases i <;> rfl

theorem addInstr_relabel (x : InstrId × Option Instr) :
    addInstr (n.relabel r) (r.instrId x.1, x.2.map r.instr) = (addInstr n x).relabel r := by
  rw [addInstr_eq, addInstr_eq, resultName_map_instr]
  cases hname : resultName n.next x.2 with
  | none => simp [relabel, hname]
  | some label => simp [relabel, hname, Relabeling.value]

theorem foldl_addInstr_relabel (xs : List (InstrId × Option Instr)) :
    (xs.map fun x => (r.instrId x.1, x.2.map r.instr)).foldl addInstr (n.relabel r) =
      (xs.foldl addInstr n).relabel r := by
  rw [List.foldl_map]
  exact List.foldl_hom (relabel r) fun n x => addInstr_relabel r n x

theorem addBlock_some (index : Nat) (b : BlockId × Block) :
    addBlock n index (some b) = .ok ((b.2.instrIds b.1).foldl addInstr
      { n with blocks := (b.1, filled "bb" index b.2.name) :: n.blocks }) := rfl

theorem instrIds_settled (index : Nat) (b : BlockId × Block) :
    (b.2.settled r index).instrIds (r.block b.1) =
      (b.2.instrIds b.1).map fun x => (r.instrId x.1, x.2.map r.instr) := by
  apply List.ext_getElem <;> simp [Block.instrIds, Block.settled, Relabeling.instrId]

theorem addBlock_relabel (index : Nat) (b : BlockId × Block) :
    addBlock (n.relabel r) index (some (r.block b.1, b.2.settled r index)) =
      (addBlock n index (some b)).map (relabel r) := by
  have hname : filled "bb" index (b.2.settled r index).name = filled "bb" index b.2.name :=
    filled_filled (by decide) index index b.2.name
  rw [addBlock_some, addBlock_some, instrIds_settled, hname]
  exact congrArg Except.ok (foldl_addInstr_relabel r
    { n with blocks := (b.1, filled "bb" index b.2.name) :: n.blocks } (b.2.instrIds b.1))

theorem addAll_mapIdx (hstep : ∀ n k x, step' (T n) k (φ k x) = (step n k (some x)).map T)
    (xs : List α) (k : Nat) :
    addAll step' (T n) k (xs.mapIdx fun j => φ (k + j)) =
      (addAll step n k (xs.map some)).map T := by
  induction xs generalizing n k with
  | nil => rfl
  | cons x xs ih =>
    rw [List.mapIdx_cons, List.map_cons, addAll, addAll, Nat.add_zero, hstep]
    cases step n k (some x) with
    | error e => rfl
    | ok n' => simpa only [Nat.add_assoc, Nat.add_comm 1, Except.map] using ih n' (k + 1)

end Naming

namespace Program.Scoped

variable {p : Program} {σ : Constant → Constant} {e : FuncId × Func}

theorem listed_settled (h : p.Scoped) :
    (p.settled σ).listed = p.functions.map fun e =>
      some ((p.places σ).func e.1, e.2.settled (p.places σ) e.1) := by
  rw [Program.listed_of_order (by simp [settled])]
  apply List.ext_getElem?
  intro k
  rw [List.getElem?_mapIdx, List.getElem?_map, settled, List.getElem?_map]
  cases hk : p.functions[k]? with
  | none => rfl
  | some e => rw [Option.map_some, Option.map_some, Option.map_some, h.places_func hk]

variable (h : p.Scoped) (he : e ∈ p.functions)
include h he

theorem paramIds_settled :
    (e.2.settled (p.places σ) e.1).paramIds ((p.places σ).func e.1) =
      (e.2.signature e.1).mapIdx fun k q =>
        some ((p.places σ).paramId q.1, q.2.settled k) := by
  rw [Func.paramIds, Func.settled, List.mapIdx_mapIdx]
  refine mapIdx_congr fun k q hk => ?_
  rw [((h.functions e he).signature_getElem? hk).1]
  rfl

theorem func_listed_settled :
    (e.2.settled (p.places σ) e.1).listed ((p.places σ).func e.1) =
      (e.2.body e.1).mapIdx fun k b =>
        some ((p.places σ).block b.1, b.2.settled (p.places σ) k) := by
  rw [Func.listed_of_order (by simp [Func.settled]), Func.settled, List.mapIdx_mapIdx]
  refine mapIdx_congr fun k b hk => ?_
  rw [h.places_block he hk]
  rfl

end Program.Scoped

/-! ## The names in force -/

/-- The names in force in a function none of whose parameters and blocks is absent. -/
def Func.naming (f : Func) (id : FuncId) : Naming :=
  let params : Naming :=
    { values := ((f.signature id).mapIdx fun k q =>
        (Value.param q.1, "%" ++ filled "arg" k q.2.name)).reverse }
  { (f.entries id).foldl Naming.addInstr params with
    blocks := ((f.body id).mapIdx fun k b => (b.1, filled "bb" k b.2.name)).reverse }

namespace Naming

variable {n : Naming}

theorem addAll_addParam (qs : List (ParamId × Param)) (index : Nat) :
    addAll addParam n index (qs.map some) =
      .ok { n with values := (qs.mapIdx fun k q =>
        (Value.param q.1, "%" ++ filled "arg" (index + k) q.2.name)).reverse ++ n.values } := by
  induction qs generalizing n index with
  | nil => rfl
  | cons q qs ih =>
    rw [List.map_cons, addAll, addParam_some]
    dsimp only
    rw [ih]
    simp [List.mapIdx_cons, Nat.add_assoc, Nat.add_comm 1]

theorem foldl_addInstr_blocks (xs : List (InstrId × Option Instr))
    (blocks : List (BlockId × Text)) :
    xs.foldl addInstr { n with blocks := blocks } =
      { xs.foldl addInstr n with blocks := blocks } := by
  refine List.foldl_hom (fun n : Naming => { n with blocks := blocks }) fun n x => ?_
  rw [addInstr_eq, addInstr_eq]
  cases resultName n.next x.2 <;> rfl

theorem addAll_addBlock (bs : List (BlockId × Block)) (index : Nat) :
    addAll addBlock n index (bs.map some) =
      .ok { (bs.flatMap fun b => b.2.instrIds b.1).foldl addInstr n with
        blocks := (bs.mapIdx fun k b =>
          (b.1, filled "bb" (index + k) b.2.name)).reverse ++ n.blocks } := by
  induction bs generalizing n index with
  | nil => rfl
  | cons b bs ih =>
    rw [List.map_cons, addAll, addBlock_some, foldl_addInstr_blocks]
    dsimp only
    rw [ih, List.flatMap_cons, List.foldl_append, foldl_addInstr_blocks]
    simp [List.mapIdx_cons, Nat.add_assoc, Nat.add_comm 1]

end Naming

theorem Func.Scoped.ofFunc_eq {p : Program} {f : Func} {id : FuncId} (h : f.Scoped p id) :
    Naming.ofFunc f id = .ok (f.naming id) := by
  rw [Naming.ofFunc, h.params, h.blocks, Naming.addAll_addParam]
  dsimp only
  rw [Naming.addAll_addBlock]
  simp [Func.naming, Func.entries]

namespace Naming

/-- What a value may be called. -/
def Shows (p : Program) : Value → Text → Prop
  | .param id, text => ∃ q, p.param? id = some q ∧ text = "%" ++ filled "arg" id.index q.name
  | .result id, text => ∃ i name, p.instr? id = some i ∧ text = "%" ++ name ∧
      name.isEmpty = false ∧ ∀ l elem, i = .localVar l elem → l.isEmpty = false → name = l
  | _, _ => False

theorem map_fst_foldl_addInstr (xs : List (InstrId × Option Instr)) (n : Naming) :
    (xs.foldl addInstr n).values.map Prod.fst = xs.foldl addResult (n.values.map Prod.fst) := by
  refine (List.foldl_hom (fun n : Naming => n.values.map Prod.fst) fun n x => ?_).symm
  rw [addInstr_eq, addResult]
  rcases resultName_cases n.next x.2 with ⟨hvalue, hname⟩ | ⟨i, label, hi, hvalue, hname, -, -⟩
  · rw [hname, hvalue]
    rfl
  · rw [hname, hi, Option.any_some, hvalue]
    rfl

theorem shows_foldl_addInstr {p : Program} {xs : List (InstrId × Option Instr)} {n : Naming}
    (hxs : ∀ x ∈ xs, p.instr? x.1 = x.2) (hn : ∀ e ∈ n.values, Shows p e.1 e.2) :
    ∀ e ∈ (xs.foldl addInstr n).values, Shows p e.1 e.2 := by
  induction xs generalizing n with
  | nil => exact hn
  | cons x xs ih =>
    obtain ⟨hx, hxs⟩ := List.forall_mem_cons.1 hxs
    refine ih hxs ?_
    rw [addInstr_eq]
    rcases resultName_cases n.next x.2 with ⟨-, hname⟩ | ⟨i, label, hi, -, hname, hlabel, hlocal⟩
    · rw [hname]
      exact hn
    · rw [hname]
      refine List.forall_mem_cons.2 ⟨⟨i, label.1, hx.trans hi, rfl, hlabel, hlocal⟩, hn⟩

end Naming

theorem lookup_map_fst [BEq α] [LawfulBEq α] [BEq γ] [LawfulBEq γ] {f : α → γ} {xs : List (α × β)}
    {k : α} (h : ∀ x ∈ xs, f x.1 = f k → x.1 = k) :
    List.lookup (f k) (xs.map fun x => (f x.1, x.2)) = List.lookup k xs := by
  induction xs with
  | nil => rfl
  | cons x xs ih =>
    obtain ⟨hx, hxs⟩ := List.forall_mem_cons.1 h
    have hkey : (f k == f x.1) = (k == x.1) := by
      rw [Bool.eq_iff_iff, beq_iff_eq, beq_iff_eq]
      exact ⟨fun heq => (hx heq.symm).symm, fun heq => congrArg f heq⟩
    rw [List.map_cons, List.lookup_cons, List.lookup_cons, hkey, ih hxs]

theorem exists_lookup [BEq α] [LawfulBEq α] {xs : List (α × β)} {k : α} (h : k ∈ xs.map Prod.fst) :
    ∃ y, List.lookup k xs = some y ∧ (k, y) ∈ xs := by
  induction xs with
  | nil => cases h
  | cons x xs ih =>
    rw [List.lookup_cons]
    by_cases hx : k = x.1
    · subst hx
      exact ⟨x.2, by rw [beq_self_eq_true], List.mem_cons_self⟩
    · obtain ⟨y, hy, hmem⟩ := ih ((List.mem_cons.1 h).resolve_left hx)
      exact ⟨y, by rw [beq_eq_false_iff_ne.2 hx, hy], List.mem_cons_of_mem _ hmem⟩

/-- The names in force in a function of the settled form. -/
def Program.naming (p : Program) (σ : Constant → Constant) (e : FuncId × Func) : Naming :=
  (e.2.naming e.1).relabel (p.places σ)

theorem Func.map_fst_naming (f : Func) (id : FuncId) :
    (f.naming id).values.map Prod.fst = f.values id := by
  have hparams : ((f.signature id).mapIdx fun k q =>
      (Value.param q.1, (("%" : Text) ++ filled "arg" k q.2.name))).reverse.map Prod.fst =
        f.paramValues id := by
    rw [List.map_reverse, paramValues]
    congr 1
    apply List.ext_getElem <;> simp
  refine (Naming.map_fst_foldl_addInstr _ _).trans ?_
  rw [values, ← hparams]

namespace Program.Scoped

variable {p : Program} {σ : Constant → Constant} {e : FuncId × Func} {v : Value}

variable (h : p.Scoped) (he : e ∈ p.functions)
include h he

theorem ofFunc_settled :
    Naming.ofFunc (e.2.settled (p.places σ) e.1) ((p.places σ).func e.1) = .ok (p.naming σ e) := by
  have hf := h.functions e he
  have hempty : Naming.relabel (p.places σ) {} = {} := rfl
  have hparams := Naming.addAll_mapIdx {} (Naming.addParam_relabel (p.places σ))
    (e.2.signature e.1) 0
  have hblocks := fun n => Naming.addAll_mapIdx n (Naming.addBlock_relabel (p.places σ))
    (e.2.body e.1) 0
  simp only [Nat.zero_add, hempty] at hparams hblocks
  have hnaming : (Naming.ofFunc e.2 e.1).map (Naming.relabel (p.places σ)) = .ok (p.naming σ e) := by
    rw [hf.ofFunc_eq]
    rfl
  rw [← hnaming, Naming.ofFunc, Naming.ofFunc, h.paramIds_settled he, h.func_listed_settled he,
    hf.params, hf.blocks, hparams]
  cases Naming.addAll Naming.addParam {} 0 ((e.2.signature e.1).map some) with
  | error panic => rfl
  | ok n => exact hblocks n

theorem shows_naming :
    ∀ x ∈ (e.2.naming e.1).values, Naming.Shows p x.1 x.2 := by
  refine Naming.shows_foldl_addInstr (fun x hx => instr?_of_mem_entries he hx) fun x hx => ?_
  obtain ⟨k, q, hq, rfl⟩ := mem_mapIdx_iff.1 (List.mem_reverse.1 hx)
  have hid := ((h.functions e he).signature_getElem? hq).1
  refine ⟨q.2, param?_of_mem_signature he (List.mem_of_getElem? hq), ?_⟩
  rw [hid]

/-- Every value of a function has a name. -/
theorem exists_name (hv : v ∈ e.2.values e.1) :
    ∃ text, Naming.Shows p v text ∧
      ∀ render, (e.2.naming e.1).valueWith render v = text := by
  rw [← Func.map_fst_naming] at hv
  obtain ⟨text, hlookup, hmem⟩ := exists_lookup hv
  have hshows := h.shows_naming he _ hmem
  refine ⟨text, hshows, fun render => ?_⟩
  cases v with
  | constant c => cases hshows
  | _ => rw [Naming.valueWith, hlookup, Option.getD_some]; nofun

theorem places_block_inj {b b' : BlockId × Block}
    (hb : b ∈ e.2.body e.1) (hb' : b' ∈ e.2.body e.1)
    (heq : (p.places σ).block b.1 = (p.places σ).block b'.1) : b.1 = b'.1 := by
  obtain ⟨k, hk⟩ := List.mem_iff_getElem?.1 hb
  obtain ⟨k', hk'⟩ := List.mem_iff_getElem?.1 hb'
  rw [h.places_block he hk, h.places_block he hk'] at heq
  obtain rfl : k = k' := congrArg BlockId.index heq
  rw [Option.some.inj (hk.symm.trans hk')]

theorem places_value_inj {w : Value}
    (hv : v ∈ e.2.values e.1) (hw : w ∈ e.2.values e.1)
    (heq : (p.places σ).value v = (p.places σ).value w) : v = w := by
  rcases Func.mem_values.1 hv with ⟨q, hq, rfl⟩ | ⟨x, hx, i, -, -, rfl⟩ <;>
    rcases Func.mem_values.1 hw with ⟨q', hq', rfl⟩ | ⟨x', hx', i', -, -, rfl⟩
  · simp only [Relabeling.value, Relabeling.paramId, Value.param.injEq, ParamId.mk.injEq] at heq
    have hfunc : q.1.func = q'.1.func :=
      (Func.mem_signature hq).1.trans (Func.mem_signature hq').1.symm
    exact congrArg Value.param (congrArg₂ ParamId.mk hfunc heq.2)
  · cases heq
  · cases heq
  · obtain ⟨b, hb, -, hblock⟩ := Func.mem_entries.1 hx
    obtain ⟨b', hb', -, hblock'⟩ := Func.mem_entries.1 hx'
    simp only [Relabeling.value, Relabeling.instrId, Value.result.injEq, InstrId.mk.injEq, hblock,
      hblock'] at heq
    have hsame : x.1.block = x'.1.block :=
      hblock.trans ((h.places_block_inj he hb hb' heq.1).trans hblock'.symm)
    exact congrArg Value.result (congrArg₂ InstrId.mk hsame heq.2)

theorem valueWith_relabel (hv : v ∈ e.2.values e.1)
    (render : Constant → String) :
    (p.naming σ e).valueWith render
      ((p.places σ).value v) = (e.2.naming e.1).valueWith render v := by
  have hlookup : List.lookup ((p.places σ).value v)
      (p.naming σ e).values =
        List.lookup v (e.2.naming e.1).values := by
    refine lookup_map_fst fun x hx heq => h.places_value_inj he ?_ hv heq
    rw [← Func.map_fst_naming]
    exact List.mem_map_of_mem hx
  rcases Func.mem_values.1 hv with ⟨q, -, rfl⟩ | ⟨x, -, i, -, -, rfl⟩
  · exact congrArg (Option.getD · _) hlookup
  · exact congrArg (Option.getD · _) hlookup

theorem block_relabel {target : Option BlockId}
    (htarget : e.2.Holds e.1 target) :
    (p.naming σ e).block (target.map (p.places σ).block) =
      (e.2.naming e.1).block target := by
  obtain ⟨b, hb, rfl⟩ := htarget
  have hlookup : List.lookup ((p.places σ).block b.1)
      (p.naming σ e).blocks =
        List.lookup b.1 (e.2.naming e.1).blocks := by
    refine lookup_map_fst fun x hx heq => ?_
    obtain ⟨k, b', hb', rfl⟩ := mem_mapIdx_iff.1 (List.mem_reverse.1 hx)
    exact h.places_block_inj he (List.mem_of_getElem? hb') hb heq
  exact congrArg (Option.getD · _) hlookup

end Program.Scoped

/-! ## The wire form and the listing -/

theorem mapM_eq_of_map_eq {ys : List β} {f : α → Except Panic γ} {g : β → Except Panic γ}
    (h : ys.map g = xs.map f) : ys.mapM g = xs.mapM f := by
  have hmap := congrArg (List.mapM id) h
  rwa [List.mapM_map, List.mapM_map] at hmap

theorem filterMap_eq_of_map_eq {ys : List β} {f : α → Option γ} {g : β → Option γ}
    (h : ys.map g = xs.map f) : ys.filterMap g = xs.filterMap f := by
  have hmap := congrArg (List.filterMap id) h
  rwa [List.filterMap_map, List.filterMap_map] at hmap

theorem map_mapIdx_eq {f : α → γ} {g : β → γ} (h : ∀ k x, xs[k]? = some x → g (φ k x) = f x) :
    (xs.mapIdx φ).map g = xs.map f := by
  apply List.ext_getElem?
  intro k
  rw [List.getElem?_map, List.getElem?_mapIdx, List.getElem?_map]
  cases hk : xs[k]? with
  | none => rfl
  | some x => exact congrArg some (h k x hk)

section

variable {p p' : Program} {n n' : Naming} {r : Relabeling} {f : Func} {id : FuncId} {i : Instr}
  (hformed : i.Formed p.Lists (f.Holds id))
  (hblocks : ∀ target, f.Holds id target → n'.block (target.map r.block) = n.block target)
  (hcallees : ∀ g ∈ p.functions, calleeName p' (some (r.func g.1)) = calleeName p (some g.1))
include hformed hblocks hcallees

/-- Instructions are written alike if what they refer to is called alike. -/
theorem Instr.texts_relabel :
    ((∀ v ∈ i.operands, n'.operand (r.value v) = n.operand v) →
      (r.instr i).encode p' n' = i.encode p n) ∧
    ((∀ v ∈ i.operands, n'.value (r.value v) = n.value v) →
      (r.instr i).listing p' n' = i.listing p n) := by
  constructor
  all_goals
    intro hops
    cases i with
    | call callee args =>
      obtain ⟨g, hg, rfl⟩ := hformed
      have hargs := List.map_congr_left hops
      simp only [operands] at hargs
      simp only [Relabeling.instr, encode, listing, Option.map_some, hcallees g hg, List.map_map,
        Function.comp_def, hargs]
    | branch target => simp only [Relabeling.instr, encode, listing, hblocks target hformed]
    | condBranch cond t e merge =>
      obtain ⟨ht, he, hmerge⟩ := hformed
      have hcond := hops cond (by simp [operands])
      simp only [Relabeling.instr, encode, listing, hcond, hblocks t ht, hblocks e he]
      rcases hmerge with rfl | hmerge
      · rfl
      · rw [hblocks merge hmerge, Option.isSome_map]
    | ret x =>
      cases x with
      | missing => rfl
      | _ =>
        have hx := hops _ List.mem_cons_self
        simp only [Relabeling.instr, Relabeling.value, encode, listing] at hx ⊢
        rw [hx]
    | localVar name elem => rfl
    | _ =>
      simp only [operands, List.forall_mem_cons, List.not_mem_nil, false_implies, implies_true,
        and_true] at hops
      simp only [Relabeling.instr, encode, listing, hops]

end

namespace Program.Scoped

variable {p : Program} {σ : Constant → Constant} {e : FuncId × Func}
variable {x : InstrId × Option Instr} {i : Instr} {k : Nat} {b : BlockId × Block}

theorem calleeName_settled (h : p.Scoped) (he : e ∈ p.functions) :
    calleeName (p.settled σ) (some ((p.places σ).func e.1)) =
      calleeName p (some e.1) := by
  rw [calleeName, calleeName, Option.bind_some, Option.bind_some, h.func?_settled he,
    func?_of_mem_functions he]
  rfl

theorem operand_relabel (h : p.Scoped) (he : e ∈ p.functions) {render : Constant → String}
    (hrender : ∀ c ∈ p.constants, render (σ c) = render c) (hx : x ∈ e.2.entries e.1)
    (hi : x.2 = some i) :
    ∀ v ∈ i.operands, (p.naming σ e).valueWith render
      ((p.places σ).value v) = (e.2.naming e.1).valueWith render v := by
  intro v hv
  obtain ⟨j, hj, hops⟩ := (h.functions e he).scope.operands hx
  obtain rfl := Option.some.inj (hi.symm.trans hj)
  rcases hops v hv with hv' | ⟨c, rfl, -⟩
  · exact h.valueWith_relabel he hv' render
  · exact congrArg Text.ofString (hrender c (mem_constants he hx hi hv))

theorem mapM_instrIds_settled {f g : InstrId × Option Instr → Except Panic α} {r : Relabeling}
    (hg : ∀ x ∈ b.2.instrIds b.1, g (r.instrId x.1, x.2.map r.instr) = f x) :
    ((b.2.settled r k).instrIds (r.block b.1)).mapM g = (b.2.instrIds b.1).mapM f := by
  rw [Naming.instrIds_settled, List.mapM_map]
  exact mapM_eq_of_map_eq (List.map_congr_left hg)

theorem mapM_listed_settled (h : p.Scoped) (he : e ∈ p.functions)
    {f g : Option (BlockId × Block) → Except Panic α}
    (hg : ∀ k b, (e.2.body e.1)[k]? = some b →
      g (some ((p.places σ).block b.1, b.2.settled (p.places σ) k)) = f (some b)) :
    ((e.2.settled (p.places σ) e.1).listed ((p.places σ).func e.1)).mapM g =
      (e.2.listed e.1).mapM f := by
  rw [h.func_listed_settled he, (h.functions e he).blocks, List.mapM_map]
  exact mapM_eq_of_map_eq (map_mapIdx_eq hg)

theorem paramText_settled (h : p.Scoped) (he : e ∈ p.functions)
    (hq : (e.2.signature e.1)[k]? = some q) :
    (p.naming σ e).value
      (.param ((p.places σ).paramId q.1)) = (e.2.naming e.1).value (.param q.1) :=
  h.valueWith_relabel he (Func.mem_values.2 (.inl ⟨q, List.mem_of_getElem? hq, rfl⟩)) _

section

variable (h : p.Scoped) (he : e ∈ p.functions)
  (htypes : ∀ c ∈ p.constants, (σ c).type = c.type)
include h he htypes

theorem hasResult_settled (hx : x ∈ e.2.entries e.1) (hi : x.2 = some i) :
    (p.settled σ).hasResult ((p.places σ).instrId x.1) ((p.places σ).instr i) =
      p.hasResult x.1 i := by
  have hvalue : ((p.places σ).instr i).isValue = i.isValue := by cases i <;> rfl
  rw [hasResult, hasResult, hvalue]
  split
  · rename_i hi'
    have hv : Value.result x.1 ∈ e.2.values e.1 := Func.mem_values.2 (.inr ⟨x, hx, i, hi, hi', rfl⟩)
    exact congrArg (Except.map _) (h.typeOf_settled he htypes hv)
  · rfl

/-- The result of an instruction, where it has one, is called the same. -/
theorem resultText_settled (hx : x ∈ e.2.entries e.1) (hi : x.2 = some i)
    (g : Bool → Text → Except Panic α) (hg : ∀ text text', g false text = g false text') :
    ((p.settled σ).hasResult ((p.places σ).instrId x.1)
        ((p.places σ).instr i) >>= fun named =>
          g named ((p.naming σ e).value
            (.result ((p.places σ).instrId x.1)))) =
      (p.hasResult x.1 i >>= fun named => g named ((e.2.naming e.1).value (.result x.1))) := by
  rw [h.hasResult_settled he htypes hx hi]
  by_cases hvalue : i.isValue
  · have hv : Value.result x.1 ∈ e.2.values e.1 :=
      Func.mem_values.2 (.inr ⟨x, hx, i, hi, hvalue, rfl⟩)
    have htext : (p.naming σ e).value _ = _ :=
      h.valueWith_relabel he hv Constant.text
    exact congrArg (fun text => p.hasResult x.1 i >>= fun named => g named text) htext
  · rw [hasResult, if_neg hvalue]
    exact hg _ _

/-- Instructions are written and listed as before. -/
theorem instrTexts_settled (hx : x ∈ e.2.entries e.1) :
    ((∀ c ∈ p.constants, (σ c).wireText = c.wireText) →
      encodeInstr (p.settled σ) (p.naming σ e)
        ((p.places σ).instrId x.1, x.2.map (p.places σ).instr) = encodeInstr p (e.2.naming e.1) x) ∧
    ((∀ c ∈ p.constants, (σ c).text = c.text) →
      instrLine (p.settled σ) (p.naming σ e)
        ((p.places σ).instrId x.1, x.2.map (p.places σ).instr) = instrLine p (e.2.naming e.1) x) := by
  obtain ⟨i, hi, -⟩ := (h.functions e he).scope.operands hx
  obtain ⟨hencode, hlisting⟩ := Instr.texts_relabel ((h.functions e he).formed x hx i hi)
    (fun _ => h.block_relabel (σ := σ) he) fun _ => h.calleeName_settled
  constructor <;> intro htexts
  · rw [encodeInstr, encodeInstr, hi]
    dsimp only [Option.map_some]
    rw [hencode (h.operand_relabel he htexts hx hi)]
    exact h.resultText_settled he htypes hx hi (fun named text => do
      let w ← i.encode p (e.2.naming e.1)
      return { w with result := if named then withoutPercent text else "" }) fun _ _ => rfl
  · rw [instrLine, instrLine, hi]
    dsimp only [Option.map_some]
    rw [hlisting (h.operand_relabel he htexts hx hi)]
    exact h.resultText_settled he htypes hx hi (fun named text => do
      let body ← i.listing p (e.2.naming e.1)
      return "  " ++ (if named then text ++ " = " else "") ++ body ++ "\n") fun _ _ => rfl

theorem blockTexts_settled (hb : (e.2.body e.1)[k]? = some b) :
    ((∀ c ∈ p.constants, (σ c).wireText = c.wireText) →
      encodeBlock (p.settled σ) (p.naming σ e)
        (some ((p.places σ).block b.1, b.2.settled (p.places σ) k)) =
      encodeBlock p (e.2.naming e.1) (some b)) ∧
    ((∀ c ∈ p.constants, (σ c).text = c.text) →
      blockListing (p.settled σ) (p.naming σ e)
        (some ((p.places σ).block b.1, b.2.settled (p.places σ) k)) =
      blockListing p (e.2.naming e.1) (some b)) := by
  have hb := List.mem_of_getElem? hb
  have hname : (p.naming σ e).block _ = _ := h.block_relabel he ⟨b, hb, rfl⟩
  have hinstrs := fun x (hx : x ∈ b.2.instrIds b.1) =>
    h.instrTexts_settled he htypes (List.mem_flatMap.2 ⟨b, hb, hx⟩)
  have hloop : ∀ l, b.2.loop = some l →
      (p.naming σ e).block (l.merge.map _) = (e.2.naming e.1).block l.merge ∧
      (p.naming σ e).block (l.continue_.map _) = (e.2.naming e.1).block l.continue_ :=
    fun l hl => ((h.functions e he).loops b hb l hl).imp (h.block_relabel he) (h.block_relabel he)
  constructor <;> intro htexts
  · have hwritten := mapM_instrIds_settled (k := k) fun x hx => (hinstrs x hx).1 htexts
    rw [encodeBlock, encodeBlock, hwritten, ← Option.map_some, hname, Block.settled]
    cases hl : b.2.loop with
    | none => rfl
    | some l => simp only [Option.map_some, Relabeling.loop, hloop l hl]
  · have hlines := mapM_instrIds_settled (k := k) fun x hx => (hinstrs x hx).2 htexts
    rw [blockListing, blockListing, hlines, ← Option.map_some, hname, Block.settled]
    cases hl : b.2.loop with
    | none => rfl
    | some l => simp only [Option.map_some, Relabeling.loop, hloop l hl]

theorem encodeFunc_settled (htexts : ∀ c ∈ p.constants, (σ c).wireText = c.wireText) :
    encodeFunc (p.settled σ)
        (some ((p.places σ).func e.1, e.2.settled (p.places σ) e.1)) =
      encodeFunc p (some e) := by
  have hf := h.functions e he
  have hparams : ((e.2.settled (p.places σ) e.1).paramIds
      ((p.places σ).func e.1)).mapM (encodeParam
        (p.naming σ e)) =
        (e.2.paramIds e.1).mapM (encodeParam (e.2.naming e.1)) := by
    rw [h.paramIds_settled he, hf.params, List.mapM_map]
    refine mapM_eq_of_map_eq (map_mapIdx_eq fun k q hq => ?_)
    exact congrArg (fun text => do
      let type ← q.2.type.wireText
      return Wire.Param.mk (withoutPercent text) type) (h.paramText_settled he hq)
  have hblocks := h.mapM_listed_settled he fun k b hb =>
    (h.blockTexts_settled he htypes hb).1 htexts
  have hresult : (if e.2.resultType = .void then ("" : Text) else e.2.resultType.text) =
      if e.2.resultType = .void then ("" : Text) else e.2.result.text := by
    cases htype : e.2.result <;> simp [Func.resultType, Ty.orVoid, htype]
  rw [encodeFunc, encodeFunc, h.ofFunc_settled he, hf.ofFunc_eq]
  dsimp only [bind, Except.bind]
  rw [hparams, hblocks, Func.resultType_settled]
  dsimp only [Func.settled]
  rw [hresult]

theorem funcListing_settled (htexts : ∀ c ∈ p.constants, (σ c).text = c.text) :
    funcListing (p.settled σ)
        (some ((p.places σ).func e.1, e.2.settled (p.places σ) e.1)) =
      funcListing p (some e) := by
  have hf := h.functions e he
  have hblocks := h.mapM_listed_settled he fun k b hb =>
    (h.blockTexts_settled he htypes hb).2 htexts
  have hparams : (((e.2.settled (p.places σ) e.1).paramIds
      ((p.places σ).func e.1)).filterMap fun entry =>
        entry.map (paramListing (p.naming σ e))) =
        (e.2.paramIds e.1).filterMap fun entry => entry.map (paramListing (e.2.naming e.1)) := by
    rw [h.paramIds_settled he, hf.params, List.filterMap_map]
    exact filterMap_eq_of_map_eq (map_mapIdx_eq fun k q hq =>
      congrArg (fun text : Text => some (text ++ ": " ++ q.2.type.text))
        (h.paramText_settled he hq))
  rw [funcListing, funcListing, h.ofFunc_settled he, hf.ofFunc_eq]
  dsimp only [bind, Except.bind]
  rw [hparams, hblocks, Func.resultType_settled]
  rfl

end

theorem encode_settled (h : p.Scoped)
    (htypes : ∀ c ∈ p.constants, (σ c).type = c.type)
    (htexts : ∀ c ∈ p.constants, (σ c).wireText = c.wireText) :
    (p.settled σ).encode = p.encode := by
  have hfunctions : (p.settled σ).listed.mapM (encodeFunc (p.settled σ)) =
      p.listed.mapM (encodeFunc p) := by
    rw [h.listed_settled, h.listed, List.mapM_map, List.mapM_map]
    exact mapM_eq_of_map_eq (List.map_congr_left fun e he => h.encodeFunc_settled he htypes htexts)
  rw [encode, encode, hfunctions]
  rfl

theorem listing_settled (h : p.Scoped)
    (htypes : ∀ c ∈ p.constants, (σ c).type = c.type)
    (htexts : ∀ c ∈ p.constants, (σ c).text = c.text) :
    (p.settled σ).listing = p.listing := by
  have hfunctions : (p.settled σ).listed.mapM (funcListing (p.settled σ)) =
      p.listed.mapM (funcListing p) := by
    rw [h.listed_settled, h.listed, List.mapM_map, List.mapM_map]
    exact mapM_eq_of_map_eq (List.map_congr_left fun e he => h.funcListing_settled he htypes htexts)
  rw [listing, listing, hfunctions]
  rfl

end Program.Scoped

end Elementwise.IR
