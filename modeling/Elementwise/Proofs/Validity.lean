import Elementwise.IR.Validation
import Elementwise.Proofs.Scoping

/-!
# Valid programs

The rules that validation checks, without the order in which it checks them: every instruction is
there and follows the rule of its kind, terminators end their blocks, and every operand is a
constant or stands before the instruction that reads it. A program without findings follows them.
-/
namespace Elementwise.IR

/-! ## Rules -/

/-- The rule of an instruction, given the blocks that can be branched to. -/
def Instr.Valid (p : Program) (f : Func) (holds : Option BlockId → Prop) : Instr → Prop
  | .binary _ d l r | .compare _ d l r =>
    ∃ t, p.typeOf l = .ok t ∧ p.typeOf r = .ok t ∧ d.accepts t
  | .negate d x => ∃ t, p.typeOf x = .ok t ∧ d.accepts t
  | .convert x source type target =>
    ∃ t, p.typeOf x = .ok t ∧ source.accepts t ∧ target.accepts type
  | .load pointer => ∃ elem space, p.typeOf pointer = .ok (.pointer elem space)
  | .store x pointer =>
    ∃ elem space, p.typeOf pointer = .ok (.pointer elem space) ∧ p.typeOf x = .ok elem
  | .elementPtr base index => ∃ elem space t,
    p.typeOf base = .ok (.pointer elem space) ∧ p.typeOf index = .ok t ∧ t.isInt
  | .localVar _ elem => elem ≠ .missing
  | .call callee args => ∃ g ∈ p.functions, ∃ params : List Param, callee = some g.1 ∧
    g.2.params = params.map some ∧
      List.Forall₂ (fun v (q : Param) => p.typeOf v = .ok q.type) args params
  | .branch target => holds target
  | .condBranch cond onTrue onFalse merge =>
    p.typeOf cond = .ok .bool ∧ holds onTrue ∧ holds onFalse ∧ (merge = none ∨ holds merge)
  | .ret value =>
    value = .missing ∧ f.resultType = .void ∨ p.typeOf value = .ok f.resultType

variable {index : Nat} {p : Program} {e : FuncId × Func} {args defined defined' : List Value}
  {xs : List (InstrId × Option Instr)}

theorem Instr.Valid.mono {f : Func} {holds holds' : Option BlockId → Prop}
    (h : ∀ target, holds target → holds' target) {i : Instr} (hi : i.Valid p f holds) :
    i.Valid p f holds' := by
  cases i with
  | branch target => exact h target hi
  | condBranch cond onTrue onFalse merge =>
    obtain ⟨hcond, htrue, hfalse, hmerge⟩ := hi
    exact ⟨hcond, h _ htrue, h _ hfalse, hmerge.imp_right (h _)⟩
  | _ => exact hi

/-- Every operand is a constant or among the values that are known before. -/
def ReadsKnown (known : List Value) : List (InstrId × Option Instr) → Prop
  | [] => True
  | x :: rest =>
    (∀ i ∈ x.2, ∀ v ∈ i.operands, v ∈ known ∨ ∃ c, v = .constant c) ∧
      ReadsKnown (addResult known x) rest

structure Func.Valid (p : Program) (f : Func) (id : FuncId) : Prop where
  params : f.paramIds id = (f.signature id).map some
  paramTypes : ∀ q ∈ f.signature id, q.2.type ≠ .missing ∧ q.2.type ≠ .void
  nonempty : f.order ≠ []
  blocks : f.listed id = (f.body id).map some
  /-- Blocks end in their only terminator. -/
  ends : ∀ b ∈ f.body id, b.2.terminator?.isSome ∧
    ∀ x ∈ (b.2.instrIds b.1).dropLast, x.2.any Instr.isTerminator = false
  loops : ∀ b ∈ f.body id, ∀ l ∈ b.2.loop, f.Holds id l.merge ∧ f.Holds id l.continue_
  instrs : ∀ x ∈ f.entries id, ∃ i, x.2 = some i ∧ i.Valid p f (f.Holds id)
  reads : ReadsKnown (f.paramValues id) (f.entries id)

structure Program.Valid (p : Program) : Prop where
  listed : p.listed = p.functions.map some
  kernel : ∃ kernel ∈ p.functions.head?, ∃ name elem,
    kernel.2.params = [some ⟨name, .pointer elem .buffer⟩] ∧ kernel.2.resultType = .void
  functions : ∀ e ∈ p.functions, e.2.Valid p e.1

/-! ## Instructions -/

theorem Program.index_mem_order (h : e ∈ p.functions) : some e.1.index ∈ p.order := by
  obtain ⟨slot, hmem, hslot⟩ := List.mem_map.1 (List.reduceOption_mem_iff.1 h)
  obtain ⟨k, rfl, hk⟩ := Option.bind_eq_some_iff.1 hslot
  obtain ⟨f, -, rfl⟩ := Option.map_eq_some_iff.1 hk
  exact hmem

namespace Surroundings

variable {s : Surroundings} {i : Instr}

/-- The target is one of the blocks. -/
def Holds (s : Surroundings) (target : Option BlockId) : Prop := ∃ b ∈ s.blocks, target = some b

theorem checkTarget_eq_nil {what : String} {target : Option BlockId} :
    s.checkTarget what target = [] ↔ s.Holds target := by
  cases target with
  | none => simp [checkTarget, Holds]
  | some b =>
    simp only [checkTarget, Holds, Option.some.injEq, exists_eq_right']
    split <;> simp_all

theorem checkNumeric_eq_nil {d : Domain} {left right : Ty} :
    checkNumeric d left right = [] ↔ left = right ∧ d.accepts left := by
  unfold checkNumeric
  by_cases heq : left = right <;> cases d.accepts left <;> simp [heq]

theorem checkOperand_eq_nil {v : Value} : s.checkOperand defined v = [] ↔
    (∃ c, v = .constant c) ∨ v ≠ .missing ∧ v ∈ s.owned ∧ v ∈ defined := by
  cases v with
  | param id | result id =>
    simp only [checkOperand]
    split_ifs <;> simp_all
  | _ => simp [checkOperand]

theorem forall₂_of_checkArguments {name : Text} {params : List (Option Param)}
    (hlength : args.length = params.length) (h : s.checkArguments name index args params = .ok []) :
    ∃ qs : List Param, params = qs.map some ∧
      List.Forall₂ (fun v (q : Param) => s.program.typeOf v = .ok q.type) args qs := by
  induction args generalizing index params with
  | nil =>
    obtain rfl := List.eq_nil_of_length_eq_zero hlength.symm
    exact ⟨[], rfl, .nil⟩
  | cons v rest ih =>
    obtain _ | ⟨_ | q, params⟩ := params
    · cases hlength
    · cases h
    · obtain ⟨got, hgot, h⟩ := bind_eq_ok.1 h
      obtain ⟨more, hmore, h⟩ := bind_eq_ok.1 h
      obtain ⟨hhead, rfl⟩ := List.append_eq_nil_iff.1 (Except.ok.inj h)
      obtain ⟨qs, rfl, hqs⟩ := ih (Nat.succ.inj hlength) hmore
      refine ⟨q :: qs, rfl, .cons ?_ hqs⟩
      split at hhead
      · cases hhead
      · rename_i heq
        rw [hgot, not_not.1 heq]

theorem valid_of_checkCall {callee : Option FuncId} (h : s.checkCall callee args = .ok []) :
    (Instr.call callee args).Valid s.program s.func s.Holds := by
  unfold checkCall at h
  split at h
  · cases h
  · split at h
    · cases h
    · split at h
      · cases h
      · split at h
        · cases h
        · rename_i id _ g hg hlisted hlength
          obtain ⟨qs, hparams, hargs⟩ := forall₂_of_checkArguments (not_not.1 hlength) h
          refine ⟨(id, g), ?_, qs, rfl, hparams, hargs⟩
          refine List.reduceOption_mem_iff.2 (List.mem_map.2 ⟨some id.index, ?_, ?_⟩)
          · simpa using hlisted
          · rw [Program.func?] at hg
            simp [hg]

theorem checkArguments_of_forall₂ {name : Text} {params : List Param}
    (h : List.Forall₂ (fun v (q : Param) => s.program.typeOf v = .ok q.type) args params)
    (index : Nat) : s.checkArguments name index args (params.map some) = .ok [] := by
  induction h generalizing index with
  | nil => rfl
  | cons hhead _ ih =>
    rw [List.map_cons, checkArguments, hhead, ih]
    simp [bind, Except.bind, pure, Except.pure]

theorem checkCall_of_valid {callee : Option FuncId}
    (h : (Instr.call callee args).Valid s.program s.func s.Holds) :
    s.checkCall callee args = .ok [] := by
  obtain ⟨g, hg, params, rfl, hparams, hargs⟩ := h
  have hlength : args.length = g.2.params.length := by
    rw [hparams, List.length_map, hargs.length_eq]
  have hlisted := Program.index_mem_order hg
  rw [checkCall, Program.func?_of_mem_functions hg]
  dsimp only
  rw [if_neg (by simpa using hlisted), if_neg (not_not.2 hlength), hparams]
  exact checkArguments_of_forall₂ hargs 0

theorem isPointer_iff {t : Ty} : t.isPointer ↔ ∃ elem space, t = .pointer elem space := by
  cases t <;> simp [Ty.isPointer]

/-- The rule of an instruction is what its check asks for. -/
theorem checkTypes_eq_nil : s.checkTypes i = .ok [] ↔ i.Valid s.program s.func s.Holds := by
  cases i with
  | binary op d l r | compare op d l r =>
    simp only [checkTypes, bind_eq_ok, pure_eq_ok, checkNumeric_eq_nil, Instr.Valid]
    constructor
    · rintro ⟨t, hl, _, hr, rfl, haccepts⟩
      exact ⟨t, hl, hr, haccepts⟩
    · rintro ⟨t, hl, hr, haccepts⟩
      exact ⟨t, hl, t, hr, rfl, haccepts⟩
  | negate d x | convert x source type target | load pointer | elementPtr base index =>
    simp only [checkTypes, bind_eq_ok, pure_eq_ok, Instr.Valid]
    simp [isPointer_iff]
  | store x pointer =>
    simp only [checkTypes, bind_eq_ok, Instr.Valid]
    constructor
    · rintro ⟨t, ht, h⟩
      cases t with
      | pointer elem space =>
        obtain ⟨u, hu, h⟩ := bind_eq_ok.1 h
        obtain rfl : elem = u := by simpa using pure_eq_ok.1 h
        exact ⟨elem, space, ht, hu⟩
      | _ => cases h
    · rintro ⟨elem, space, ht, hx⟩
      exact ⟨_, ht, bind_eq_ok.2 ⟨elem, hx, pure_eq_ok.2 (if_neg (not_not.2 rfl))⟩⟩
  | localVar name elem => simp [checkTypes, Instr.Valid]
  | call callee args => exact ⟨valid_of_checkCall, checkCall_of_valid⟩
  | branch target => simp [checkTypes, Instr.Valid, checkTarget_eq_nil]
  | condBranch cond onTrue onFalse merge =>
    simp only [checkTypes, bind_eq_ok, pure_eq_ok, List.append_eq_nil_iff, checkTarget_eq_nil,
      Instr.Valid]
    cases merge <;> simp [checkTarget_eq_nil, and_assoc]
  | ret value =>
    cases value with
    | missing =>
      have hnone : s.program.typeOf .missing ≠ .ok s.func.resultType := fun h => by cases h
      simp [checkTypes, checkReturn, Instr.Valid, hnone]
    | _ =>
      simp only [checkTypes, checkReturn, bind_eq_ok, pure_eq_ok, Instr.Valid]
      simp

theorem valid_of_checkInstr {last : Bool} (h : s.checkInstr defined last i = .ok []) :
    (i.isTerminator → last) ∧ (∀ v ∈ i.operands, v ∈ defined ∨ ∃ c, v = .constant c) ∧
      i.Valid s.program s.func s.Holds := by
  have hparts : ∃ types, (if i.hasMissingOperand then .ok [] else s.checkTypes i) = .ok types ∧
      (if (i.isTerminator && !last) = true then [.earlyTerminator] else []) ++
        i.operands.flatMap (s.checkOperand defined) ++ types = [] := by
    unfold checkInstr at h
    dsimp only at h
    by_cases hmissing : i.hasMissingOperand
    · rw [if_pos hmissing] at h ⊢
      exact ⟨[], rfl, Except.ok.inj h⟩
    · rw [if_neg hmissing] at h ⊢
      obtain ⟨types, htypes, h⟩ := bind_eq_ok.1 h
      exact ⟨types, htypes, Except.ok.inj h⟩
  obtain ⟨types, htypes, hnil⟩ := hparts
  obtain ⟨hrest, rfl⟩ := List.append_eq_nil_iff.1 hnil
  obtain ⟨hlast, hoperands⟩ := List.append_eq_nil_iff.1 hrest
  rw [List.flatMap_eq_nil_iff] at hoperands
  have hthere : i.hasMissingOperand = false := by
    rw [Instr.hasMissingOperand, List.contains_eq_mem, decide_eq_false_iff_not]
    intro hmissing
    cases hoperands _ hmissing
  rw [if_neg (by simp [hthere])] at htypes
  refine ⟨?_, fun v hv => ?_, checkTypes_eq_nil.1 htypes⟩
  · intro hterminator
    simpa [hterminator] using hlast
  · exact (checkOperand_eq_nil.1 (hoperands v hv)).symm.imp_left (·.2.2)

/-! ## Blocks -/

theorem valid_of_checkInstrs {block : Text}
    (h : s.checkInstrs block defined xs = .ok ([], defined')) :
    defined' = xs.foldl addResult defined ∧ ReadsKnown defined xs ∧
      (∀ x ∈ xs, ∃ i, x.2 = some i ∧ i.Valid s.program s.func s.Holds) ∧
      ∀ x ∈ xs.dropLast, x.2.any Instr.isTerminator = false := by
  induction xs generalizing defined with
  | nil =>
    cases h
    exact ⟨rfl, trivial, by simp, by simp⟩
  | cons x rest ih =>
    obtain ⟨id, slot⟩ := x
    cases slot with
    | none =>
      obtain ⟨r, -, h⟩ := bind_eq_ok.1 h
      cases h
    | some i =>
      obtain ⟨violations, hi, h⟩ := bind_eq_ok.1 h
      obtain ⟨⟨findings, after⟩, hrest, h⟩ := bind_eq_ok.1 h
      obtain ⟨hnil, rfl⟩ := Prod.mk.inj (Except.ok.inj h)
      obtain ⟨hviolations, rfl⟩ := List.append_eq_nil_iff.1 hnil
      rw [List.map_eq_nil_iff] at hviolations
      subst hviolations
      obtain ⟨hlast, hoperands, hvalid⟩ := valid_of_checkInstr hi
      obtain ⟨hafter, hreads, hrules, hinner⟩ := ih hrest
      refine ⟨hafter, ⟨?_, hreads⟩, List.forall_mem_cons.2 ⟨⟨i, rfl, hvalid⟩, hrules⟩, ?_⟩
      · rintro j ⟨⟩
        exact hoperands
      · cases rest with
        | nil => simp
        | cons next others =>
          rw [List.dropLast_cons_cons, List.forall_mem_cons]
          refine ⟨?_, hinner⟩
          rw [Option.any_some, Bool.eq_false_iff]
          exact fun hterminator => absurd (hlast hterminator) (by simp)

theorem valid_of_checkBlock {id : BlockId} {b : Block}
    (h : s.checkBlock defined index id b = .ok ([], defined')) :
    (b.terminator?.isSome ∧ ∀ l ∈ b.loop, s.Holds l.merge ∧ s.Holds l.continue_) ∧
      defined' = (b.instrIds id).foldl addResult defined ∧ ReadsKnown defined (b.instrIds id) ∧
      (∀ x ∈ b.instrIds id, ∃ i, x.2 = some i ∧ i.Valid s.program s.func s.Holds) ∧
      ∀ x ∈ (b.instrIds id).dropLast, x.2.any Instr.isTerminator = false := by
  unfold checkBlock at h
  dsimp only at h
  split at h
  · cases h
  · obtain ⟨⟨findings, after⟩, hinstrs, h⟩ := bind_eq_ok.1 h
    obtain ⟨hnil, rfl⟩ := Prod.mk.inj (Except.ok.inj h)
    obtain ⟨hhere, rfl⟩ := List.append_eq_nil_iff.1 hnil
    rw [List.map_eq_nil_iff, List.append_eq_nil_iff] at hhere
    refine ⟨⟨?_, ?_⟩, valid_of_checkInstrs hinstrs⟩
    · cases hterminator : b.terminator? with
      | none => simp [hterminator] at hhere
      | some i => rfl
    · intro l hl
      rw [Option.mem_def.1 hl] at hhere
      obtain ⟨hmerge, hcontinue⟩ := List.append_eq_nil_iff.1 hhere.2
      exact ⟨checkTarget_eq_nil.1 hmerge, checkTarget_eq_nil.1 hcontinue⟩

end Surroundings

theorem ReadsKnown.mono {known known' : List Value} (hsub : known ⊆ known')
    (h : ReadsKnown known xs) : ReadsKnown known' xs := by
  induction xs generalizing known known' with
  | nil => trivial
  | cons x rest ih =>
    refine ⟨fun i hi v hv => (h.1 i hi v hv).imp_left fun hv => hsub hv, ih ?_ h.2⟩
    unfold addResult
    split
    · exact List.cons_subset_cons _ hsub
    · exact hsub

theorem readsKnown_append {known : List Value} {ys : List (InstrId × Option Instr)} :
    ReadsKnown known (xs ++ ys) ↔
      ReadsKnown known xs ∧ ReadsKnown (xs.foldl addResult known) ys := by
  induction xs generalizing known with
  | nil => simp [ReadsKnown]
  | cons x xs ih => rw [List.cons_append, ReadsKnown, ReadsKnown, ih, List.foldl_cons, and_assoc]

namespace Surroundings

variable {s : Surroundings}

theorem valid_of_checkBlocks {blocks : List (BlockId × Block)}
    (h : s.checkBlocks defined index blocks = .ok []) :
    ReadsKnown defined (blocks.flatMap fun b => b.2.instrIds b.1) ∧
      ∀ b ∈ blocks, (b.2.terminator?.isSome ∧
        ∀ l ∈ b.2.loop, s.Holds l.merge ∧ s.Holds l.continue_) ∧
        (∀ x ∈ b.2.instrIds b.1, ∃ i, x.2 = some i ∧ i.Valid s.program s.func s.Holds) ∧
        ∀ x ∈ (b.2.instrIds b.1).dropLast, x.2.any Instr.isTerminator = false := by
  induction blocks generalizing defined index with
  | nil => exact ⟨trivial, by simp⟩
  | cons b rest ih =>
    obtain ⟨⟨findings, after⟩, hb, h⟩ := bind_eq_ok.1 h
    obtain ⟨more, hrest, h⟩ := bind_eq_ok.1 h
    obtain ⟨rfl, rfl⟩ := List.append_eq_nil_iff.1 (Except.ok.inj h)
    obtain ⟨hblock, rfl, hreads, hinstrs, hinner⟩ := valid_of_checkBlock hb
    obtain ⟨hreads', hblocks⟩ := ih hrest
    refine ⟨?_, List.forall_mem_cons.2 ⟨⟨hblock, hinstrs, hinner⟩, hblocks⟩⟩
    rw [List.flatMap_cons, readsKnown_append]
    exact ⟨hreads, hreads'⟩

end Surroundings

/-! ## Functions -/

theorem map_some_reduceOption {α : Type} {slots : List (Option α)}
    (h : slots.any Option.isNone = false) : slots = slots.reduceOption.map some := by
  induction slots with
  | nil => rfl
  | cons slot rest ih =>
    rw [List.any_cons, Bool.or_eq_false_iff] at h
    cases slot with
    | none => cases h.1
    | some x =>
      rw [List.reduceOption_cons_of_some, List.map_cons, ← ih h.2]

theorem exists_of_checkParam {slot : Option Param} (h : checkParam index slot = []) :
    ∃ q, slot = some q ∧ q.type ≠ .missing ∧ q.type ≠ .void := by
  cases slot with
  | none => cases h
  | some q =>
    obtain ⟨hmissing, hvoid⟩ := List.append_eq_nil_iff.1 h
    exact ⟨q, rfl, by simpa using hmissing, by simpa using hvoid⟩

theorem valid_of_checkFunc (h : checkFunc p (some e) = .ok []) :
    e.2.Valid p e.1 := by
  obtain ⟨id, f⟩ := e
  unfold checkFunc at h
  dsimp only at h
  split at h
  · cases h
  rename_i horder
  split at h
  · have hnil := Except.ok.inj h
    simp at hnil
  rename_i hblocks
  obtain ⟨findings, hfindings, hnil⟩ := Program.map_eq_ok.1 h
  obtain ⟨hparams, rfl⟩ := List.append_eq_nil_iff.1 hnil
  obtain ⟨hreads, hall⟩ := Surroundings.valid_of_checkBlocks hfindings
  rw [List.map_eq_nil_iff, List.flatMap_eq_nil_iff] at hparams
  have hslots : ∀ slot ∈ f.params, ∃ q, slot = some q ∧ q.type ≠ .missing ∧ q.type ≠ .void := by
    intro slot hslot
    obtain ⟨k, hk⟩ := List.mem_iff_getElem?.1 hslot
    exact exists_of_checkParam (hparams (slot, k) (List.mem_zipIdx_iff_getElem?.2 hk))
  have hholds : ∀ owned target,
      Surroundings.Holds ⟨p, f, (f.body id).map (·.1), owned⟩ target → f.Holds id target := by
    rintro owned target ⟨b, hb, rfl⟩
    obtain ⟨entry, hentry, rfl⟩ := List.mem_map.1 hb
    exact ⟨entry, hentry, rfl⟩
  have hpresent : (f.paramIds id).any Option.isNone = false := by
    rw [List.any_eq_false]
    intro entry hentry
    obtain ⟨k, slot, hslot, rfl⟩ := mem_mapIdx_iff.1 hentry
    obtain ⟨q, rfl, -⟩ := hslots slot (List.mem_of_getElem? hslot)
    simp
  refine
    { params := map_some_reduceOption hpresent
      paramTypes := ?_
      nonempty := fun hnil => horder (List.isEmpty_iff.2 hnil)
      blocks := map_some_reduceOption (Bool.eq_false_iff.2 hblocks)
      ends := fun b hb => ⟨(hall b hb).1.1, (hall b hb).2.2⟩
      loops := ?_
      instrs := ?_
      reads := hreads.mono ?_ }
  · intro q hq
    obtain ⟨-, hslot⟩ := Func.mem_signature hq
    obtain ⟨q', heq, htype⟩ := hslots _ (List.mem_of_getElem? hslot)
    cases heq
    exact htype
  · intro b hb l hl
    obtain ⟨hmerge, hcontinue⟩ := (hall b hb).1.2 l hl
    exact ⟨hholds _ _ hmerge, hholds _ _ hcontinue⟩
  · intro x hx
    obtain ⟨b, hb, hxb⟩ := List.mem_flatMap.1 hx
    obtain ⟨i, hi, hvalid⟩ := (hall b hb).2.1 x hxb
    exact ⟨i, hi, hvalid.mono (hholds _)⟩
  · intro v hv
    obtain ⟨entry, hentry, heq⟩ := List.mem_filterMap.1 hv
    obtain ⟨q, rfl, rfl⟩ := Option.map_eq_some_iff.1 heq
    refine List.mem_reverse.2 (List.mem_map.2 ⟨q, ?_, rfl⟩)
    exact List.reduceOption_mem_iff.2 hentry

theorem valid_of_checkKernel {id : FuncId} {f : Func} (h : checkKernel (some (id, f)) = .ok []) :
    ∃ name elem, f.params = [some ⟨name, .pointer elem .buffer⟩] ∧ f.resultType = .void := by
  unfold checkKernel at h
  dsimp only at h
  split at h
  · cases h
  · rename_i q hq
    have hnil := List.map_eq_nil_iff.1 (Except.ok.inj h)
    obtain ⟨hparam, hresult⟩ := List.append_eq_nil_iff.1 hnil
    obtain ⟨name, type⟩ := q
    cases type with
    | pointer elem space =>
      obtain rfl : space = .buffer := by simpa using hparam
      exact ⟨name, elem, hq, by simpa using hresult⟩
    | _ => cases hparam
  · cases h

/-- A program without findings follows the rules. -/
theorem valid_of_validate (h : p.validate = .ok []) : p.Valid := by
  unfold Program.validate at h
  split at h
  · cases h
  · rename_i kernel rest hlisted
    obtain ⟨signature, hkernel, h⟩ := bind_eq_ok.1 h
    obtain ⟨findings, hfindings, h⟩ := bind_eq_ok.1 h
    obtain ⟨rfl, hflatten⟩ := List.append_eq_nil_iff.1 (Except.ok.inj h)
    rw [← hlisted] at hfindings
    have hcheck : ∀ slot ∈ p.listed, checkFunc p slot = .ok [] := by
      intro slot hslot
      obtain ⟨found, hfound, hrun⟩ := exists_of_mem_right (mapM_eq_ok_iff.1 hfindings).flip hslot
      rwa [List.flatten_eq_nil_iff.1 hflatten found hfound] at hrun
    have hall : p.listed = p.functions.map some := by
      refine map_some_reduceOption (List.any_eq_false.2 fun slot hslot => ?_)
      cases slot with
      | none => cases hcheck none hslot
      | some e => simp
    refine ⟨hall, ?_, fun e he => valid_of_checkFunc (hcheck (some e) ?_)⟩
    · cases kernel with
      | none => cases hkernel
      | some e =>
        obtain ⟨name, elem, hparams, hresult⟩ := valid_of_checkKernel hkernel
        refine ⟨e, ?_, name, elem, hparams, hresult⟩
        simp [Program.functions, hlisted]
    · rw [hall]
      exact List.mem_map_of_mem he

end Elementwise.IR
