import Elementwise.Proofs.Requests
import Elementwise.Proofs.Scoping

/-!
# What a program asks for

The request of a program is read off what it lists, function by function and instruction by
instruction. The run that lowers the listed functions meets it.
-/
namespace Elementwise.IR.Instr

/-- The values whose types an instruction asks for, apart from constants. -/
def typed (id : InstrId) : Instr → List Value
  | .binary .. | .compare .. | .negate .. | .load _ | .elementPtr .. | .call .. => [.result id]
  | .convert x _ _ _ => [x, .result id]
  | _ => []

def callees : Instr → List FuncId
  | .call (some f) _ => [f]
  | _ => []

end Elementwise.IR.Instr

namespace Elementwise.Spirv
open IR Gen Generator

/-! ## Requests of programs -/

def askTypeOf (p : Program) (v : Value) : List Ask :=
  match p.typeOf v with
  | .ok t => [.type t]
  | .error _ => []

/-- A constant asks for its type, any other operand is looked up. -/
def askOperand : Value → List Ask
  | .constant c => [.type c.type]
  | v => [.use v]

def askInstr (p : Program) (id : InstrId) (i : Instr) : List Ask :=
  (i.typed id).flatMap (askTypeOf p) ++ i.operands.flatMap askOperand ++
    ((loweredKeys id i).map .define ++ i.callees.map .call)

def askSlot (p : Program) (entry : InstrId × Option Instr) : List Ask :=
  entry.2.elim [] (askInstr p entry.1)

/-- A local variable asks for the type of its address. -/
def askHoist (entry : InstrId × Option Instr) : List Ask :=
  match entry.2 with
  | some (.localVar _ elem) => [.type (.pointer elem .function), .define (.result entry.1)]
  | _ => []

def askFunc (p : Program) (entry : FuncId × Func) : List Ask :=
  (.type entry.2.resultType :: (entry.2.signature entry.1).map fun q => .type q.2.type) ++
    ((entry.2.signature entry.1).map fun q => .define (.param q.1)) ++
    ((entry.2.entries entry.1).flatMap askHoist ++ (entry.2.entries entry.1).flatMap (askSlot p))

def askProgram (p : Program) : List Ask := p.functions.flatMap (askFunc p)

variable {s t s' : Generator} {u : Unit} {label word : UInt32} {args : List Value} {r : List Ask}
  {blocks : List (BlockId × Block)} {params : List (ParamId × Param)}
  {instrs : List (InstrId × Option Instr)}

theorem askTypeOf_eq {p : Program} {v : Value} {ty : Ty} (hv : p.typeOf v = .ok ty) :
    askTypeOf p v = [.type ty] := by rw [askTypeOf, hv]

/-! ## Instructions -/

/-- To look up what is there changes nothing. -/
theorem meets_self (hr : ∀ t, .type t ∉ r)
    (huses : ∀ v, .use v ∈ r → v ∈ s.body.values.map Prod.fst)
    (hcalls : ∀ f, .call f ∈ r → some f ∈ s.functions.map Prod.fst) : Meets r s s where
  reported u := by simp [hr]
  nodup := id
  uses v hv := .inr (huses v hv)
  defines _ := .inr
  calls := hcalls
  functions := rfl
  extensions := rfl
  capable _ := id

namespace Place

variable {p : Place} {id : InstrId} {α : Type}

theorem fail_wants (cause : Cause) : Wants (p.fail cause : Gen α) r :=
  fun _ _ _ h => absurd h Place.fail_ok.1

theorem check_wants {β : Type} {c : Prop} [Decidable c] {cause : Cause} {f : β → Gen α} {y : Gen α}
    (hy : Wants y r) : Wants (if c then p.fail cause >>= f else y) r :=
  fun _ _ _ h => hy (Place.check_ok.1 h).2

theorem typeOf_wants {v : Value} {f : Ty → Gen α}
    (hf : ∀ t, p.frame.program.typeOf v = .ok t → Wants (f t) r) : Wants (p.typeOf v >>= f) r := by
  intro s a s' h
  obtain ⟨t, _, htype, h⟩ := bind_ok.1 h
  obtain ⟨ht, rfl⟩ := Place.typeOf_ok.1 htype
  exact hf t ht h

/-- The type of a value is asked for once it is known. -/
theorem askTypeOf_wants {v : Value} {ty : Ty} {x : Gen α} (hv : p.frame.program.typeOf v = .ok ty)
    (hx : Wants x (.type ty :: r)) : Wants x (askTypeOf p.frame.program v ++ r) :=
  askTypeOf_eq hv ▸ hx

theorem operand_wants (v : Value) : Wants (p.operand v) (askOperand v) := by
  intro s word s' h
  rcases operand_ok h with ⟨c, rfl, hc⟩ | ⟨rfl, hmem, -⟩
  · exact constantId_wants c hc
  · cases v with
    | constant c => exact constantId_wants c (Place.run_ok.1 h)
    | missing => exact absurd h Place.fail_ok.1
    | param q | result r =>
      have hkey := List.mem_map_of_mem (f := Prod.fst) hmem
      exact meets_self (by simp [askOperand]) (by simpa [askOperand] using hkey)
        (by simp [askOperand])

theorem label_wants (target : Option BlockId) : Wants (p.label target) [] :=
  fun s _ _ h => (label_ok h).1 ▸ .refl s

/-- The id that a step gives becomes that of the result. -/
theorem define_wants {x : Gen UInt32} (hx : Wants x r) :
    Wants (x >>= fun word => define id word) (r ++ [.define (.result id)]) :=
  hx.bind fun word => .modify fun s => meets_define s (.result id) word

theorem emitBinary_wants (id : InstrId) (op : Opcode) (l r : Value) :
    Wants (p.emitBinary id op l r) (askTypeOf p.frame.program (.result id) ++
      (askOperand l ++ (askOperand r ++ [.define (.result id)]))) := by
  refine typeOf_wants fun t ht => askTypeOf_wants ht ((typeId_wants t).located.bind fun _ => ?_)
  refine (operand_wants l).bind fun _ => (operand_wants r).bind fun _ => ?_
  exact define_wants (emitNew_wants op)

theorem emitUnary_wants (id : InstrId) (op : Opcode) (x : Value) :
    Wants (p.emitUnary id op x) (askTypeOf p.frame.program (.result id) ++
      (askOperand x ++ [.define (.result id)])) := by
  refine typeOf_wants fun t ht => askTypeOf_wants ht ((typeId_wants t).located.bind fun _ => ?_)
  exact (operand_wants x).bind fun _ => define_wants (emitNew_wants op)

/-- The target of a conversion is the type of its result, which is asked for again if the value
changes. -/
theorem emitConvert_wants {x : Value} {source target : Domain} {ty : Ty}
    (hid : p.frame.program.instr? id = some (.convert x source ty target)) :
    Wants (p.emitConvert id x source ty target) (askTypeOf p.frame.program x ++
      (askTypeOf p.frame.program (.result id) ++ (askOperand x ++ [.define (.result id)]))) := by
  intro s u s' h
  simp only [emitConvert, bind_ok, Place.typeOf_ok, Place.check_ok] at h
  obtain ⟨-, v, _, ⟨hx, rfl⟩, v', s₁, hsource, ty', s₂, htarget, h⟩ := h
  have hresult := askTypeOf_eq (Program.typeOf_convert hid)
  have htypes := (normalize_wants v hsource).trans (normalize_wants ty htarget)
  rw [askTypeOf_eq hx, hresult]
  cases hop : convertOpcode? v' ty' source target with
  | none => simp only [hop, Place.fail_ok] at h
  | some op =>
    simp only [hop, ite_ok] at h
    split_ifs at h
    · exact htypes.trans (define_wants (operand_wants x) h)
    · exact (htypes.trans (hresult ▸ emitUnary_wants id op x h)).reorder (by simp)

theorem emitLoad_wants {pointer : Value} (hid : p.frame.program.instr? id = some (.load pointer)) :
    Wants (p.emitLoad id pointer) (askTypeOf p.frame.program (.result id) ++
      (askOperand pointer ++ [.define (.result id)])) := by
  refine typeOf_wants fun t ht => ?_
  cases t with
  | pointer elem space =>
    refine askTypeOf_wants (Program.typeOf_load hid ht) ((typeId_wants elem).located.bind fun _ => ?_)
    exact (operand_wants pointer).bind fun _ => define_wants (emitNew_wants _)
  | _ => exact fail_wants _

theorem emitStore_wants (value pointer : Value) :
    Wants (p.emitStore value pointer) (askOperand pointer ++ askOperand value) := by
  refine typeOf_wants fun t ht => ?_
  cases t with
  | pointer elem space =>
    refine typeOf_wants fun _ _ => check_wants ((operand_wants pointer).bind fun _ => ?_)
    exact (operand_wants value).andIdle fun _ => emit_wants _ _
  | _ => exact fail_wants _

theorem emitElementPtr_wants {base index : Value}
    (hid : p.frame.program.instr? id = some (.elementPtr base index)) :
    Wants (p.emitElementPtr id base index) (askTypeOf p.frame.program (.result id) ++
      (askOperand base ++ (askOperand index ++ [.define (.result id)]))) := by
  refine typeOf_wants fun t ht => ?_
  cases t with
  | pointer elem space =>
    refine check_wants (typeOf_wants fun _ _ => check_wants ?_)
    refine askTypeOf_wants (Program.typeOf_elementPtr hid ht) ?_
    refine (stridedPointerId_wants elem space).located.bind fun _ => ?_
    refine (operand_wants base).bind fun _ => (operand_wants index).bind fun _ => ?_
    exact define_wants (emitNew_wants _)
  | _ => exact fail_wants _

/-! ## Calls and returns -/

theorem arguments_wants {callee : Text} {index : Nat} {params : List (Option Param)}
    (hlength : args.length = params.length) :
    Wants (p.arguments callee index args params) (args.flatMap askOperand) := by
  induction args generalizing index params with
  | nil =>
    obtain rfl := List.length_eq_zero_iff.1 hlength.symm
    exact .pure _
  | cons v rest ih =>
    obtain _ | ⟨_ | q, qs⟩ := params
    · cases hlength
    · exact fun _ _ _ h => absurd h throw_ok.1
    · refine typeOf_wants fun _ _ => check_wants ((operand_wants v).bind fun _ => ?_)
      exact (ih (Nat.succ.inj hlength)).andIdle fun _ => .pure _

theorem emitCall_wants {callee : Option FuncId}
    (hid : p.frame.program.instr? id = some (.call callee args)) :
    Wants (p.emitCall id callee args) (callee.toList.map .call ++ (args.flatMap askOperand ++
      (askTypeOf p.frame.program (.result id) ++ [.define (.result id)]))) := by
  intro s u s' h
  obtain ⟨f, g, function, ids, type, s₁, s₂, rfl, hg, hmem, hlength, hids, htype, h⟩ :=
    emitCall_ok h
  have hcall : Meets [.call f] s s :=
    meets_self (by simp) (by simp) (by simpa using List.mem_map_of_mem (f := Prod.fst) hmem)
  refine hcall.trans ((arguments_wants hlength hids).trans ?_)
  rw [askTypeOf_eq (Program.typeOf_call hid hg)]
  exact (typeId_wants _ htype).trans (define_wants (emitNew_wants _) h)

theorem emitReturn_wants (value : Value) :
    Wants (p.emitReturn value) ((Instr.ret value).operands.flatMap askOperand) := by
  have hreturn : ∀ v, Wants (do
      let t ← p.typeOf v
      if t ≠ p.frame.func.resultType then p.fail (.returnMismatch t p.frame.func.resultType)
      let id ← p.operand v
      build (.returnValue id) : Gen Unit) (askOperand v ++ []) := fun v =>
    typeOf_wants fun _ _ => check_wants ((operand_wants v).bind fun _ => emit_wants _ _)
  cases value with
  | missing => exact check_wants (emit_wants _ _)
  | _ => exact hreturn _

/-! ## Branches -/

theorem claimMerge_wants (label : UInt32) : Wants (p.claimMerge label) [] := by
  intro s _ s' h
  obtain ⟨-, rfl⟩ := claimMerge_ok h
  exact .idle rfl

theorem emitLoopHeader_wants : Wants p.emitLoopHeader [] := by
  unfold emitLoopHeader
  cases p.block.loop with
  | none => exact .pure _
  | some loop =>
    refine (label_wants _).bind fun _ => (label_wants _).bind fun _ => ?_
    exact (claimMerge_wants _).bind fun _ => emit_wants _ _

theorem selectionMerge_wants (onTrue onFalse : BlockId) (merge : Option BlockId) :
    Wants (p.selectionMerge onTrue onFalse merge) [] := by
  unfold selectionMerge
  cases merge with
  | some b => exact label_wants _
  | none =>
    cases p.frame.layout.meeting? p.position onTrue onFalse with
    | some b => exact label_wants _
    | none =>
      intro s _ s' h
      simp only [bind_ok, allocId_ok, modifyBody_ok, pure_ok] at h
      obtain ⟨_, _, ⟨rfl, rfl⟩, _, _, rfl, rfl, rfl⟩ := h
      exact .idle rfl

theorem emitBranch_wants (target : Option BlockId) : Wants (p.emitBranch target) [] :=
  (label_wants target).bind fun _ => emitLoopHeader_wants.bind fun _ => emit_wants _ _

theorem emitCondBranch_wants (cond : Value) (onTrue onFalse merge : Option BlockId) :
    Wants (p.emitCondBranch cond onTrue onFalse merge) (askOperand cond) := by
  refine typeOf_wants fun _ _ => check_wants ((operand_wants cond).andIdle fun c => ?_)
  refine (label_wants onTrue).bind fun t => (label_wants onFalse).bind fun f => ?_
  have hend : Wants (build (.branchConditional c t f)) [] := emit_wants _ _
  split
  · refine .ite ((selectionMerge_wants _ _ _).bind fun m => ?_) hend
    exact (claimMerge_wants m).bind fun _ => (emit_wants _ _).bind fun _ => hend
  · exact emitLoopHeader_wants.bind fun _ => hend

/-! ## Blocks -/

theorem checkDomain_wants (domain : Domain) (first : Option Ty) (vs : List Value) :
    Wants (p.checkDomain domain first vs) [] := by
  induction vs generalizing first with
  | nil => exact .pure _
  | cons v rest ih =>
    refine typeOf_wants fun t _ => check_wants ?_
    cases first with
    | none => exact ih _
    | some u => exact check_wants (ih _)

attribute [local simp] askInstr Instr.typed Instr.operands Instr.callees loweredKeys

theorem emitInstr_wants {i : Instr} (hid : p.frame.program.instr? id = some i) :
    Wants (p.emitInstr id (some i)) (askInstr p.frame.program id i) := by
  refine check_wants ?_
  cases i with
  | localVar name elem => exact .pure _
  | binary op domain l r =>
    refine (checkDomain_wants _ _ _).bind fun _ => ?_
    cases binaryOpcode? op domain with
    | none => exact fail_wants _
    | some opcode => exact (emitBinary_wants id opcode l r).reorder (by simp)
  | compare pred domain l r =>
    refine (checkDomain_wants _ _ _).bind fun _ => ?_
    cases compareOpcode? pred domain with
    | none => exact fail_wants _
    | some opcode => exact (emitBinary_wants id opcode l r).reorder (by simp)
  | negate domain x =>
    refine (checkDomain_wants _ _ _).bind fun _ => ?_
    exact (emitUnary_wants id _ x).reorder (by simp)
  | convert x source t target => exact (emitConvert_wants hid).reorder (by simp)
  | load pointer => exact (emitLoad_wants hid).reorder (by simp)
  | store value pointer => exact (emitStore_wants value pointer).reorder (by simp [or_comm])
  | elementPtr base index => exact (emitElementPtr_wants hid).reorder (by simp)
  | call callee args =>
    refine (emitCall_wants hid).reorder fun a => ?_
    cases callee <;> simp <;> grind
  | branch target => exact emitBranch_wants target
  | condBranch cond t f merge => exact (emitCondBranch_wants cond t f merge).reorder (by simp)
  | ret value => exact (emitReturn_wants value).reorder (by simp)

theorem emitInstrs_wants (hids : ∀ x ∈ instrs, p.frame.program.instr? x.1 = x.2) :
    Wants (p.emitInstrs instrs) (instrs.flatMap (askSlot p.frame.program)) := by
  induction instrs with
  | nil => exact .pure _
  | cons entry rest ih =>
    rw [List.forall_mem_cons] at hids
    obtain ⟨id, slot⟩ := entry
    unfold emitInstrs
    refine check_wants ?_
    cases slot with
    | none => exact (fail_wants _).bind fun _ => ih hids.2
    | some i => exact (emitInstr_wants hids.1).bind fun _ => ih hids.2

theorem emitBlock_wants (hids : ∀ x ∈ p.block.instrIds p.id, p.frame.program.instr? x.1 = x.2) :
    Wants p.emitBlock ((p.block.instrIds p.id).flatMap (askSlot p.frame.program)) :=
  check_wants (emitInstrs_wants hids)

theorem hoist_wants (id : InstrId) (slot : Option Instr) :
    Wants (p.hoist id slot) (askHoist (id, slot)) := by
  obtain _ | i := slot
  · exact .pure _
  cases i with
  | localVar name elem =>
    refine (typeId_wants _).located.bind fun type => (emitNew_wants _).bind fun word => ?_
    refine (Wants.modify fun s => meets_define s (.result id) word).andIdle fun _ => ?_
    exact .ite (emitTo_wants _ _ _) (.pure _)
  | _ => exact .pure _

theorem hoistAll_wants (instrs : List (InstrId × Option Instr)) :
    Wants (p.hoistAll instrs) (instrs.flatMap askHoist) := by
  induction instrs with
  | nil => exact .pure _
  | cons entry rest ih => exact (hoist_wants entry.1 entry.2).bind fun _ => ih

end Place

/-! ## Functions -/

variable {program : Program} {debug : Bool}

namespace Frame

variable {f : Frame}

theorem emitBlocks_wants
    (hids : ∀ x ∈ blocks.flatMap fun b => b.2.instrIds b.1, f.program.instr? x.1 = x.2) :
    Wants (f.emitBlocks false blocks)
      ((blocks.flatMap fun b => b.2.instrIds b.1).flatMap (askSlot f.program)) := by
  induction blocks with
  | nil => exact .pure _
  | cons entry rest ih =>
    rw [List.flatMap_cons, List.forall_mem_append] at hids
    rw [List.flatMap_cons, List.flatMap_append]
    refine (Place.label_wants _).bind fun _ => (emit_wants _ _).bind fun _ => ?_
    exact (Place.emitBlock_wants (p := ⟨f, entry.1, entry.2⟩) hids.1).bind fun _ => ih hids.2

/-- The first block begins with the local variables of all blocks. -/
theorem emitBlocks_first_wants (hids : ∀ x ∈ f.instrs, f.program.instr? x.1 = x.2) :
    Wants (f.emitBlocks true f.layout.blocks)
      (f.instrs.flatMap askHoist ++ f.instrs.flatMap (askSlot f.program)) := by
  cases hblocks : f.layout.blocks with
  | nil =>
    rw [instrs, hblocks]
    exact .pure _
  | cons entry rest =>
    have hinstrs : f.instrs =
        entry.2.instrIds entry.1 ++ rest.flatMap fun b => b.2.instrIds b.1 := by
      rw [instrs, hblocks, List.flatMap_cons]
    have hall := hids
    rw [hinstrs, List.forall_mem_append] at hall
    have hbody := (Place.emitBlock_wants (p := ⟨f, entry.1, entry.2⟩) hall.1).bind fun _ =>
      emitBlocks_wants hall.2
    rw [← List.flatMap_append, ← hinstrs] at hbody
    refine (Place.label_wants _).bind fun _ => (emit_wants _ _).bind fun _ => ?_
    exact (Place.hoistAll_wants _).bind fun _ => hbody

theorem emitUnreachable_wants (labels : List UInt32) : Wants (emitUnreachable labels) [] := by
  induction labels with
  | nil => exact .pure _
  | cons label rest ih => exact (emit_wants _ _).bind fun _ => (emit_wants _ _).bind fun _ => ih

theorem emitParams_wants (params : List (ParamId × UInt32)) :
    Wants (emitParams params) (params.map fun q => .define (.param q.1)) := by
  induction params with
  | nil => exact .pure _
  | cons q rest ih =>
    refine (emitNew_wants _).bind fun word => ?_
    exact (Wants.modify fun s => meets_define s (.param q.1) word).bind fun _ => ih

theorem emitNames_wants {id : UInt32} : Wants (f.emitNames id params) [] := by
  intro s _ s' h
  have hput : ∀ (t : Generator) (i : Instruction), Meets [] s t → Meets [] s (t.put .debug i) :=
    fun _ _ ht => ht.andIdle (meets_put _ _ _)
  exact emitNames_keeps (hput s _) (fun _ _ t => hput t _) (fun _ _ t => hput t _) h (.refl s)

theorem allocLabels_wants : Wants (allocLabels blocks) [] := by
  intro s _ s' h
  obtain ⟨labels, -, -, hs'⟩ := allocLabels_ok h
  rw [hs']
  exact .idle rfl

end Frame

theorem paramTypeIds_meets {types : List UInt32} (h : paramTypeIds params s = .ok types s') :
    types.length = params.length ∧ Meets (params.map fun q => .type q.2.type) s s' := by
  induction params generalizing s types with
  | nil =>
    obtain ⟨rfl, rfl⟩ := pure_ok.1 h
    exact ⟨rfl, .refl s⟩
  | cons q rest ih =>
    simp only [paramTypeIds, bind_ok, pure_ok] at h
    obtain ⟨type, s₁, htype, more, s₂, hrest, rfl, rfl⟩ := h
    obtain ⟨hlength, hmeets⟩ := ih hrest
    exact ⟨by simp [hlength], (typeId_wants _ htype).trans hmeets⟩

/-- The values of the function before are forgotten. -/
theorem meets_reset (s : Generator) : Meets [] s { s with body := {} } :=
  { Meets.refl s with defines := by simp, capable := fun _ hs => ⟨hs.ascending, hs.mem⟩ }

theorem FunctionRun.meets {id : FuncId} {func : Func}
    (hids : ∀ x ∈ func.entries id, program.instr? x.1 = x.2)
    (h : FunctionRun program debug id func word s s') :
    Meets (askFunc program (id, func)) s s' := by
  obtain @⟨params, blocks, result, type, types, s₁, s₂, s₃, s₄, s₅, s₆, s₇, s₈, hparams, hblocks,
    hresult, htypes, htype, hlabels, hemitParams, hnamed, hemitBlocks, hunreachable⟩ := h
  have hsignature : func.signature id = params := by
    rw [Func.signature, hparams, reduceOption_map_some]
  have hentries : func.entries id = Frame.instrs ⟨program, func, ⟨blocks⟩, debug⟩ := by
    rw [Func.entries, Func.body, hblocks, reduceOption_map_some]
    rfl
  obtain ⟨hlength, hparamTypes⟩ := paramTypeIds_meets htypes
  have hdefines : ((params.map (·.1)).zip types).map (fun q => Ask.define (.param q.1)) =
      params.map fun q => .define (.param q.1) := by
    have hfst : ((params.map (·.1)).zip types).map Prod.fst = params.map (·.1) :=
      List.map_fst_zip (by simp [hlength])
    have h := congrArg (List.map fun q => Ask.define (.param q)) hfst
    rwa [List.map_map, List.map_map] at h
  have htyped := ((meets_reset s).trans (typeId_wants _ hresult)).trans hparamTypes
  have hopened := ((htyped.andIdle (functionTypeId_wants _ _ htype)).andIdle
    (Frame.allocLabels_wants hlabels)).andIdle
    (meets_put s₄ s₄.assembly.current ⟨.func, [result, word, noControl, type]⟩)
  have hvalues := Frame.emitParams_wants _ hemitParams
  have hnames : Meets [] s₅ s₆ := Wants.ite Frame.emitNames_wants (.pure _) hnamed
  rw [hentries] at hids
  have hwritten :=
    Frame.emitBlocks_first_wants (f := ⟨program, func, ⟨blocks⟩, debug⟩) hids hemitBlocks
  have hclosed := (Frame.emitUnreachable_wants _ hunreachable).andIdle
    (meets_put s₈ s₈.assembly.current ⟨.functionEnd, []⟩)
  rw [hdefines] at hvalues
  rw [askFunc, hsignature, hentries]
  exact (hopened.trans (hvalues.andIdle hnames)).trans (hwritten.andIdle hclosed)

theorem ledger_select (s : Generator) (target : Section) : (s.select target).ledger = s.ledger :=
  rfl

theorem lowerFunction_meets {id : FuncId} {func : Func} (hfunc : program.func? id = some func)
    (hids : ∀ x ∈ func.entries id, program.instr? x.1 = x.2)
    (hknown : some id ∈ s.functions.map Prod.fst)
    (h : lowerFunction program debug id s = .ok word s') :
    Meets (askFunc program (id, func)) s s' := by
  obtain ⟨_, t, u, hfunc', hid, -, hrun, rfl⟩ := lowerFunction_ok h
  cases hfunc.symm.trans hfunc'
  cases hl : List.lookup (some id) s.functions with
  | none => exact absurd hknown (lookup_eq_none_iff_keys.1 hl)
  | some found =>
    obtain ⟨-, rfl⟩ := functionId_ok hl hid
    have hselect : Meets [] t (t.select .functions) := .idle (ledger_select t _)
    exact (hselect.trans (hrun.meets hids)).andIdle (.idle (ledger_select u _))

theorem lowerListed_meets {seen : List FuncId} {entries : List (FuncId × Func)}
    (hsub : ∀ e ∈ entries, e ∈ program.functions)
    (hknown : ∀ e ∈ entries, some e.1 ∈ s.functions.map Prod.fst)
    (h : lowerListed program debug seen (entries.map some) s = .ok u s') :
    Meets (entries.flatMap (askFunc program)) s s' := by
  induction entries generalizing s seen with
  | nil => exact (pure_ok.1 h).2 ▸ .refl s
  | cons entry rest ih =>
    obtain ⟨id, func⟩ := entry
    obtain ⟨hentry, hsub⟩ := List.forall_mem_cons.1 hsub
    obtain ⟨hid, hknown⟩ := List.forall_mem_cons.1 hknown
    simp only [List.map_cons, lowerListed, bind_ok, Gen.check_ok] at h
    obtain ⟨-, _, s₁, hlower, hrest⟩ := h
    have hfirst := lowerFunction_meets (Program.func?_of_mem_functions hentry)
      (fun x hx => Program.instr?_of_mem_entries hentry hx) hid hlower
    refine hfirst.trans (ih hsub (fun e he => ?_) hrest)
    rw [hfirst.functions]
    exact hknown e he

/-- The listed functions are lowered once all of them have ids. -/
theorem lowerProgram_meets (hknown : ∀ e ∈ program.functions, some e.1 ∈ s.functions.map Prod.fst)
    (h : lowerListed program debug [] program.listed s = .ok u s') :
    Meets (askProgram program) s s' := by
  obtain ⟨entries, hlisted, -, -⟩ := lowerListed_present h
  have hentries : program.functions = entries := by
    rw [Program.functions, hlisted, reduceOption_map_some]
  rw [hlisted] at h
  rw [askProgram, hentries]
  exact lowerListed_meets (fun e he => hentries ▸ he) (hentries ▸ hknown) h

end Elementwise.Spirv
