import Elementwise.Proofs.Completeness
import Elementwise.Proofs.WireIdentity

/-!
# Reading resolves every reference

A program that was read refers only to what is there: an operand is a constant, a parameter of its
function or the result of an instruction that stands earlier in it, a target is a block of its
function, a callee a function of the program. Nothing is missing, and functions and the blocks of a
function have distinct names.

So validation of such a program comes to its end, and whatever it finds is a matter of types and
shapes: never a reference that leads nowhere.
-/
namespace Elementwise.IR

/-! ## Positions -/

/-- An operand of the instruction at a position of a function: a constant of a known type, a
parameter, or the result of an instruction at an earlier position. -/
def Func.Earlier (f : Func) (id : FuncId) (k : Nat) (v : Value) : Prop :=
  v.WholeConstant ∨ (∃ q ∈ f.signature id, v = .param q.1) ∨
    ∃ j < k, ∃ y i, (f.entries id)[j]? = some (y, some i) ∧ i.isValue ∧ v = .result y

/-- Every reference of the function leads to what is there. -/
structure Func.Resolved (p : Program) (f : Func) (id : FuncId) : Prop where
  params : ∃ qs : List Param, f.params = qs.map some ∧ ∀ q ∈ qs, q.type.whole
  result : f.result.whole
  listed : f.listed id = (f.body id).map some
  /-- The names of the blocks are distinct. -/
  names : ((f.body id).map fun b => b.2.name).Nodup
  loops : ∀ b ∈ f.body id, ∀ l ∈ b.2.loop, f.Holds id l.merge ∧ f.Holds id l.continue_
  instrs : ∀ (k : Nat) (x : InstrId × Option Instr), (f.entries id)[k]? = some x →
    ∃ i, x.2 = some i ∧ i.Formed p.Lists (f.Holds id) ∧ ∀ v ∈ i.operands, f.Earlier id k v

structure Program.Resolved (p : Program) : Prop where
  listed : p.listed = p.functions.map some
  /-- The names of the functions are distinct. -/
  names : (p.functions.map fun e => e.2.name).Nodup
  functions : ∀ e ∈ p.functions, e.2.Resolved p e.1

variable {args known : List Value} {w : Wire.Module} {x : InstrId × Option Instr}
  {xs : List (InstrId × Option Instr)}

theorem InScope.getElem? (h : InScope known xs) {k : Nat} (hx : xs[k]? = some x) :
    ∃ i, x.2 = some i ∧ ∀ v ∈ i.operands, v.WholeConstant ∨ v ∈ known ∨
      ∃ j < k, ∃ y i', xs[j]? = some (y, some i') ∧ i'.isValue ∧ v = .result y := by
  obtain ⟨hk, rfl⟩ := List.getElem?_eq_some_iff.1 hx
  have hsplit : xs = xs.take k ++ xs[k] :: xs.drop (k + 1) := by simp
  rw [hsplit, inScope_append] at h
  obtain ⟨⟨i, hi, hoperands⟩, -⟩ := h.2
  refine ⟨i, hi, fun v hv => ?_⟩
  rcases hoperands v hv with hknown | hconstant
  · right
    refine (mem_foldl_addResult.1 hknown).imp_right ?_
    rintro ⟨⟨y, slot⟩, hy, i', rfl, hvalue, rfl⟩
    obtain ⟨j, hj⟩ := List.mem_iff_getElem?.1 hy
    rw [List.getElem?_take] at hj
    split at hj
    · exact ⟨j, ‹_›, y, i', hj, hvalue, rfl⟩
    · cases hj
  · exact Or.inl hconstant

/-! ## Names of blocks -/

theorem nodup_of_decodeBody {funcs : List Text} {id : FuncId} {qs : List Param}
    {w : Wire.Func} {bs : List Block} (h : Wire.decodeBody funcs id qs w = .ok bs) :
    (bs.map Block.name).Nodup := by
  unfold Wire.decodeBody at h
  dsimp only at h
  split at h
  · cases h
  · rename_i hduplicate
    obtain ⟨-, -, -, hnames⟩ := scope_of_decodeBlocks h fun v hv => hv
    rw [hnames]
    exact (firstDuplicate?_eq_none.1 hduplicate).1

theorem blockNames_of_decode {p : Program} (h : w.decode = .ok p) :
    ∀ f ∈ p.funcs, (f.blocks.map Block.name).Nodup := by
  obtain ⟨sigs, -, h⟩ := bind_eq_ok.1 h
  obtain ⟨funcs, hfuncs, h⟩ := bind_eq_ok.1 h
  have hp := Except.ok.inj h
  obtain rfl : p.funcs = funcs := by rw [← hp]
  obtain ⟨-, hbodies⟩ := body_of_decodeFuncs hfuncs
  intro f hf
  obtain ⟨k, hk⟩ := List.mem_iff_getElem?.1 hf
  obtain ⟨x, -, blocks, hbody, rfl⟩ := hbodies k f hk
  exact nodup_of_decodeBody hbody

theorem resolved_of_decode {p : Program} (h : w.decode = .ok p) : p.Resolved := by
  have hscoped := scoped_of_decode h
  have hstored := stored_of_decode h
  refine ⟨hscoped.listed, hscoped.names, fun e he => ?_⟩
  have hf := hscoped.functions e he
  have hmem := hstored.mem_funcs he
  obtain ⟨qs, hparams⟩ := hstored.params e.2 hmem
  obtain ⟨hsignature, -⟩ := e.2.signature_of_params hparams e.1
  obtain ⟨hbody, -⟩ := e.2.body_of_order (hstored.blocks e.2 hmem) e.1
  refine
    { params := ⟨qs, hparams, ?_⟩
      result := ?_
      listed := hf.blocks
      names := ?_
      loops := hf.loops
      instrs := ?_ }
  · intro q hq
    obtain ⟨k, hk⟩ := List.mem_iff_getElem?.1 hq
    refine hf.paramTypes (⟨e.1, k⟩, q) ?_
    rw [hsignature]
    exact mem_mapIdx_iff.2 ⟨k, q, hk, rfl⟩
  · have hwhole := hf.result
    unfold Func.resultType Ty.orVoid at hwhole
    split at hwhole
    · exact absurd ‹_› (hstored.results e.2 hmem)
    · exact hwhole
  · have hmap : (e.2.body e.1).map (fun b => b.2.name) = e.2.blocks.map Block.name := by
      rw [hbody]
      apply List.ext_getElem <;> simp [blocksFrom]
    rw [hmap]
    exact blockNames_of_decode h e.2 hmem
  · intro k x hx
    obtain ⟨i, hi, hoperands⟩ := hf.scope.getElem? hx
    refine ⟨i, hi, hf.formed x (List.mem_of_getElem? hx) i hi, fun v hv => ?_⟩
    refine (hoperands v hv).imp_right (Or.imp_left fun hparam => ?_)
    obtain ⟨q, hq, rfl⟩ := List.mem_map.1 (List.mem_reverse.1 hparam)
    exact ⟨q, hq, rfl⟩

/-! ## Validation -/

/-- The violation says that something is missing, or is referred to where it is not. -/
def Violation.dangling : Violation → Bool
  | .kernelAbsent | .functionAbsent | .paramAbsent _ | .paramUntyped _ | .blockAbsent
  | .targetAbsent _ | .targetForeign .. | .instrAbsent | .operandAbsent | .operandForeign _
  | .operandEarly _ | .localUntyped | .calleeAbsent | .calleeForeign _ => true
  | _ => false

namespace Surroundings

variable {s : Surroundings} {i : Instr}

theorem checkNumeric_attached {d : Domain} {left right : Ty} :
    ∀ v ∈ checkNumeric d left right, v.dangling = false := by
  unfold checkNumeric
  split
  · simp [Violation.dangling]
  · split <;> simp [Violation.dangling]

theorem checkArguments_reports {name : Text} (hargs : ∀ v ∈ args, ∃ t, s.program.typeOf v = .ok t)
    (params : List Param) (index : Nat) :
    Reports (·.dangling = false) (s.checkArguments name index args (params.map some)) := by
  induction args generalizing params index with
  | nil => exact ⟨[], by cases params <;> rfl, by simp⟩
  | cons v rest ih =>
    obtain ⟨⟨t, ht⟩, hrest⟩ := List.forall_mem_cons.1 hargs
    cases params with
    | nil => exact ⟨[], rfl, by simp⟩
    | cons q params =>
      obtain ⟨vs, hvs, hall⟩ := ih hrest params (index + 1)
      rw [List.map_cons, checkArguments, ht]
      simp only [bind, Except.bind, hvs]
      refine ⟨_, rfl, List.forall_mem_append.2 ⟨?_, hall⟩⟩
      split <;> simp [Violation.dangling]

theorem checkCall_reports {callee : Option FuncId} (hcallee : s.program.Lists callee)
    (hparams : ∀ g ∈ s.program.functions, ∃ qs : List Param, g.2.params = qs.map some)
    (hargs : ∀ v ∈ args, ∃ t, s.program.typeOf v = .ok t) :
    Reports (·.dangling = false) (s.checkCall callee args) := by
  obtain ⟨g, hg, rfl⟩ := hcallee
  obtain ⟨qs, hqs⟩ := hparams g hg
  have hlisted := Program.index_mem_order hg
  rw [checkCall, Program.func?_of_mem_functions hg]
  dsimp only
  rw [if_neg (by simpa using hlisted)]
  split
  · exact ⟨_, rfl, by simp [Violation.dangling]⟩
  · rw [hqs]
    exact checkArguments_reports hargs qs 0

theorem checkTarget_holds {what : String} {target : Option BlockId} (h : s.Holds target) :
    ∀ v ∈ s.checkTarget what target, v.dangling = false := by
  rw [checkTarget_eq_nil.2 h]
  simp

/-- Where references are resolved, an instruction can only be of the wrong type. -/
theorem checkTypes_reports (hformed : i.Formed s.program.Lists s.Holds)
    (hparams : ∀ g ∈ s.program.functions, ∃ qs : List Param, g.2.params = qs.map some)
    (htypes : ∀ v ∈ i.operands, ∃ t, s.program.typeOf v = .ok t) :
    Reports (·.dangling = false) (s.checkTypes i) := by
  cases i with
  | binary op d l r =>
    obtain ⟨tl, hl⟩ := htypes l (by simp [Instr.operands])
    obtain ⟨tr, hr⟩ := htypes r (by simp [Instr.operands])
    rw [checkTypes, hl, hr]
    exact ⟨_, rfl, checkNumeric_attached⟩
  | compare pred d l r =>
    obtain ⟨tl, hl⟩ := htypes l (by simp [Instr.operands])
    obtain ⟨tr, hr⟩ := htypes r (by simp [Instr.operands])
    rw [checkTypes, hl, hr]
    exact ⟨_, rfl, checkNumeric_attached⟩
  | negate d x =>
    obtain ⟨t, hx⟩ := htypes x (by simp [Instr.operands])
    rw [checkTypes, hx]
    refine ⟨_, rfl, ?_⟩
    split <;> simp [Violation.dangling]
  | convert x source type target =>
    obtain ⟨t, hx⟩ := htypes x (by simp [Instr.operands])
    rw [checkTypes, hx]
    refine ⟨_, rfl, List.forall_mem_append.2 ⟨?_, ?_⟩⟩
    · split <;> simp [Violation.dangling]
    · split <;> simp [Violation.dangling]
  | load pointer =>
    obtain ⟨t, ht⟩ := htypes pointer (by simp [Instr.operands])
    rw [checkTypes, ht]
    refine ⟨_, rfl, ?_⟩
    split <;> simp [Violation.dangling]
  | store x pointer =>
    obtain ⟨t, ht⟩ := htypes pointer (by simp [Instr.operands])
    obtain ⟨u, hu⟩ := htypes x (by simp [Instr.operands])
    rw [checkTypes, ht]
    cases t with
    | pointer elem space =>
      change Reports _ (do let t ← s.program.typeOf x; pure _)
      rw [hu]
      refine ⟨_, rfl, ?_⟩
      split <;> simp [Violation.dangling]
    | _ => exact ⟨_, rfl, by simp [Violation.dangling]⟩
  | elementPtr base index =>
    obtain ⟨t, ht⟩ := htypes base (by simp [Instr.operands])
    obtain ⟨u, hu⟩ := htypes index (by simp [Instr.operands])
    rw [checkTypes, ht, hu]
    refine ⟨_, rfl, List.forall_mem_append.2 ⟨?_, ?_⟩⟩
    · split <;> simp [Violation.dangling]
    · split <;> simp [Violation.dangling]
  | localVar name elem =>
    have hthere : elem ≠ .missing := by
      rintro rfl
      cases hformed
    exact ⟨[], congrArg Except.ok (if_neg hthere), by simp⟩
  | call callee args => exact checkCall_reports hformed hparams htypes
  | branch target => exact ⟨_, rfl, checkTarget_holds hformed⟩
  | condBranch cond onTrue onFalse merge =>
    obtain ⟨t, ht⟩ := htypes cond (by simp [Instr.operands])
    obtain ⟨htrue, hfalse, hmerge⟩ := hformed
    rw [checkTypes, ht]
    refine ⟨_, rfl, List.forall_mem_append.2 ⟨List.forall_mem_append.2
      ⟨List.forall_mem_append.2 ⟨?_, checkTarget_holds htrue⟩, checkTarget_holds hfalse⟩, ?_⟩⟩
    · split <;> simp [Violation.dangling]
    · rcases hmerge with rfl | hmerge
      · simp
      · rw [checkTarget_eq_nil.2 hmerge, ite_self]
        simp
  | ret value =>
    cases value with
    | missing =>
      refine ⟨_, rfl, ?_⟩
      split <;> simp [Violation.dangling]
    | constant c | param id | result id =>
      obtain ⟨t, ht⟩ := htypes _ List.mem_cons_self
      rw [checkTypes, checkReturn, ht]
      · refine ⟨_, rfl, ?_⟩
        split <;> simp [Violation.dangling]
      · simp

end Surroundings

theorem InScope.readsKnown (h : InScope known xs) : ReadsKnown known xs := by
  induction xs generalizing known with
  | nil => trivial
  | cons x rest ih =>
    obtain ⟨⟨i, hi, hoperands⟩, hrest⟩ := h
    refine ⟨fun j hj v hv => ?_, ih hrest⟩
    cases Option.mem_unique hi hj
    exact (hoperands v hv).imp_right fun ⟨c, hc, _⟩ => ⟨c, hc⟩

namespace Program.Scoped

variable {p : Program} {e : FuncId × Func}

theorem exists_params (h : p.Scoped) (he : e ∈ p.functions) :
    ∃ qs : List Param, e.2.params = qs.map some := by
  refine ⟨e.2.params.reduceOption, map_some_reduceOption (List.any_eq_false.2 fun slot hslot => ?_)⟩
  obtain ⟨k, hk⟩ := List.mem_iff_getElem?.1 hslot
  have hid : (e.2.paramIds e.1)[k]? = some (slot.map fun q => (⟨e.1, k⟩, q)) := by
    rw [Func.paramIds, List.getElem?_mapIdx, hk]
    rfl
  rw [(h.functions e he).params, List.getElem?_map] at hid
  obtain ⟨q, -, heq⟩ := Option.map_eq_some_iff.1 hid
  cases slot with
  | none => cases heq
  | some q => simp

theorem exists_typeOf_operand (h : p.Scoped) (he : e ∈ p.functions) (hx : x ∈ e.2.entries e.1)
    {i : Instr} (hi : x.2 = some i) {v : Value} (hv : v ∈ i.operands) :
    ∃ t, p.typeOf v = .ok t := by
  obtain ⟨j, hj, hoperands⟩ := (h.functions e he).scope.operands hx
  cases hi.symm.trans hj
  rcases hoperands v hv with hvalue | ⟨c, rfl, -⟩
  · exact h.exists_typeOf he hvalue
  · exact ⟨c.type, rfl⟩

theorem funcFinds (h : p.Scoped) (he : e ∈ p.functions) :
    e.2.FuncFinds p (·.dangling = false) e.1 := by
  have hf := h.functions e he
  refine
    { params := hf.params
      typed := ?_
      void := fun _ _ _ => rfl
      empty := fun _ => rfl
      listed := hf.blocks
      reads := hf.scope.readsKnown
      blocks := fun b hb => ⟨fun _ => rfl, fun _ => rfl, ?_, ?_, fun _ _ _ => rfl⟩ }
  · intro q hq hmissing
    have hwhole := hf.paramTypes q hq
    rw [hmissing] at hwhole
    cases hwhole
  · intro l hl
    rw [Func.holds_surroundings, Func.holds_surroundings]
    exact hf.loops b hb l hl
  · intro x hx
    have hentry : x ∈ e.2.entries e.1 := List.mem_flatMap.2 ⟨b, hb, hx⟩
    obtain ⟨i, hi, -⟩ := hf.scope.operands hentry
    refine ⟨i, hi, Surroundings.checkTypes_reports ?_ (fun g hg => h.exists_params hg) ?_⟩
    · exact (hf.formed x hentry i hi).mono (fun _ hc => hc) fun _ => Func.holds_surroundings.2
    · exact fun v hv => h.exists_typeOf_operand he hentry hi hv

theorem checkKernel_finds (h : p.Scoped) (he : e ∈ p.functions) :
    Finds (·.dangling = false) (checkKernel (some e)) := by
  obtain ⟨qs, hqs⟩ := h.exists_params he
  unfold checkKernel
  dsimp only
  rw [hqs]
  match qs with
  | [q] =>
    refine ⟨_, rfl, ?_⟩
    rw [List.forall_mem_map, List.forall_mem_append]
    constructor
    · cases q.type with
      | pointer elem space =>
        dsimp only
        split <;> simp [Violation.dangling]
      | _ => simp [Violation.dangling]
    · split <;> simp [Violation.dangling]
  | [] => exact ⟨_, rfl, by simp [Violation.dangling]⟩
  | _ :: _ :: _ => exact ⟨_, rfl, by simp [Violation.dangling]⟩

/-- Validation of a program whose references are resolved ends without finding one that is not. -/
theorem validate_finds (h : p.Scoped) : Finds (·.dangling = false) p.validate := by
  refine IR.validate_finds h.listed (fun _ => rfl) ?_ fun e he => h.funcFinds he
  exact fun e he => h.checkKernel_finds (List.mem_of_mem_head? he)

end Program.Scoped

/-- Reading builds only programs whose references are resolved. Validation of them comes to its
end and finds nothing missing and nothing referred to where it is not. -/
theorem decode_resolves {w : Wire.Module} {p : Program} (h : w.decode = .ok p) :
    p.Resolved ∧ ∃ findings, p.validate = .ok findings ∧
      ∀ f ∈ findings, f.violation.dangling = false :=
  ⟨resolved_of_decode h, (scoped_of_decode h).validate_finds⟩

/-- A kernel that reads through a constant is resolved, though not valid. -/
theorem decode_resolves_clashing :
    (clashing "i32 1").decode = .ok (clashed (.constant (.ofWord 1))) ∧
      (clashed (.constant (.ofWord 1))).Resolved ∧
      ∃ first rest, (clashed (.constant (.ofWord 1))).validate = .ok (first :: rest) ∧
        first.violation = .loadNotPointer (.int 32) ∧
        ∀ f ∈ first :: rest, f.violation.dangling = false := by
  have hdecode : (clashing "i32 1").decode = .ok (clashed (.constant (.ofWord 1))) := by
    decide +kernel
  obtain ⟨hresolved, findings, hvalidate, hall⟩ := decode_resolves hdecode
  refine ⟨hdecode, hresolved, ?_⟩
  have hfirst : (clashed (.constant (.ofWord 1))).validate.toOption.bind
      (fun fs => fs.head?.map Finding.violation) = some (.loadNotPointer (.int 32)) := by
    decide +kernel
  rw [hvalidate] at hfirst
  cases findings with
  | nil => cases hfirst
  | cons first rest => exact ⟨first, rest, hvalidate, Option.some.inj hfirst, hall⟩

end Elementwise.IR
