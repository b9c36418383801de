import Elementwise.Proofs.Compilation
import Elementwise.Proofs.Progress
import Elementwise.Proofs.Validity

/-!
# Supported programs

Validation leaves some questions to the generator: whether types are whole, operators known and
elements of a size, whether merge blocks are claimed once, and whether every instruction fits its
word count. These are the conditions under which a valid program can be translated. In such a
program the results of all instructions have whole types.
-/
namespace Elementwise

namespace IR

/-- Pointers to numbers in the data buffer. -/
def Ty.isElementPointer : Ty → Bool
  | .pointer elem space => space = .buffer && (elem.isInt || elem.isFloat)
  | _ => false

/-- Operators and domains are known ones, types are whole, addresses are computed in the data
buffer only, and a call can be written. -/
def Instr.Supported (p : Program) : Instr → Prop
  | .binary op d _ _ => op.code < 5 ∧ d.code < 3
  | .compare pred d _ _ => pred.code < 6 ∧ d.code < 3
  | .convert _ _ type _ => type.whole
  | .elementPtr base _ => ∃ t, p.typeOf base = .ok t ∧ t.isElementPointer
  | .localVar _ elem => elem.whole
  | .call _ args => args.length + 4 < UInt16.size
  | .negate _ _ | .load _ | .store _ _ | .branch _ | .condBranch .. | .ret _ => True

instance (p : Program) : DecidablePred (Instr.Supported p) := fun i =>
  match i with
  | .binary op d _ _ => inferInstanceAs (Decidable (op.code < 5 ∧ d.code < 3))
  | .compare pred d _ _ => inferInstanceAs (Decidable (pred.code < 6 ∧ d.code < 3))
  | .convert _ _ type _ => inferInstanceAs (Decidable (type.whole = true))
  | .elementPtr base _ => decidable_of_iff ((p.typeOf base).toOption.any Ty.isElementPointer) (by
      cases h : p.typeOf base <;> simp [Instr.Supported, h, Except.toOption])
  | .localVar _ elem => inferInstanceAs (Decidable (elem.whole = true))
  | .call _ args => inferInstanceAs (Decidable (args.length + 4 < UInt16.size))
  | .negate _ _ | .load _ | .store _ _ | .branch _ | .condBranch .. | .ret _ => .isTrue trivial

end IR

namespace Spirv
open IR Gen Text.Utf8

/-- The listed block that a block claims as the merge of a loop or of a selection. -/
def Layout.claim? (l : Layout) (b : BlockId × Block) : Option BlockId :=
  match b.2.terminator?, b.2.loop with
  | some (.branch _), some loop => loop.merge
  | some (.condBranch ..), some loop => loop.merge
  | some (.condBranch _ (some onTrue) (some onFalse) merge), none =>
    let position := (l.position? b.1).getD 0
    if l.leavesLoop position onTrue onFalse then none
    else merge.orElse fun _ => l.meeting? position onTrue onFalse
  | _, _ => none

structure SupportedFunc (p : Program) (f : Func) (id : FuncId) : Prop where
  params : ∀ q ∈ f.signature id, q.2.type.whole
  result : f.resultType.whole
  instrs : ∀ x ∈ f.entries id, ∀ i ∈ x.2, i.Supported p
  /-- No block is the merge of two constructs. -/
  merges : ((f.body id).filterMap (Layout.claim? ⟨f.body id⟩)).Nodup
  /-- The type of the function can be written. -/
  arity : f.params.length + 3 < UInt16.size

/-- The name can be given to an id. -/
def FitsName (name : Text) : Prop := (textWords name.bytes).length + 2 < UInt16.size

instance : DecidablePred FitsName := fun _ => inferInstanceAs (Decidable (_ < _))

structure Supported (p : Program) (options : Options) : Prop where
  /-- No function is listed twice. -/
  once : (p.functions.map Prod.fst).Nodup
  /-- The elements of the data buffer are numbers. -/
  element : ∀ kernel ∈ p.functions.head?, ∀ q ∈ kernel.2.signature kernel.1,
    q.2.type.isElementPointer
  functions : ∀ e ∈ p.functions, SupportedFunc p e.2 e.1
  constants : ∀ c ∈ p.constants, c.type.isLiteral
  names : options.debug → ∀ name ∈ programNames p, FitsName name
  /-- The entry point can be written with its name and variables. -/
  entry : (textWords options.entryName.bytes).length +
    (if options.version.atLeast ⟨1, 4⟩ then 3 else 1) + 3 < UInt16.size

/-! ## Types of results -/

/-- What is known of an instruction that is written. -/
structure Sound (p : Program) (f : Func) (fid : FuncId) (id : InstrId) (i : Instr) : Prop where
  found : p.instr? id = some i
  valid : i.Valid p f (f.Holds fid)
  supported : i.Supported p
  constants : ∀ c, .constant c ∈ i.operands → c.type.isLiteral
  result : i.isValue → ∃ t, p.typeOf (.result id) = .ok t ∧ t.whole

section Results

variable {p : Program} {f : Func} {fid : FuncId}

theorem whole_result {id : InstrId} {i : Instr} (hfound : p.instr? id = some i)
    (hvalid : i.Valid p f (f.Holds fid)) (hsupported : i.Supported p)
    (hcallees : ∀ g ∈ p.functions, g.2.resultType.whole) (hvalue : i.isValue)
    (hops : ∀ v ∈ i.operands, ∀ t, p.typeOf v = .ok t → t.whole) :
    ∃ t, p.typeOf (.result id) = .ok t ∧ t.whole := by
  cases i with
  | binary op d l r =>
    obtain ⟨t, hl, -, -⟩ := hvalid
    exact ⟨t, Program.typeOf_binary hfound hl, hops l (by simp [Instr.operands]) t hl⟩
  | compare pred d l r => exact ⟨.bool, Program.typeOf_compare hfound, rfl⟩
  | negate d x =>
    obtain ⟨t, hx, -⟩ := hvalid
    exact ⟨t, Program.typeOf_negate hfound hx, hops x (by simp [Instr.operands]) t hx⟩
  | convert x source type target => exact ⟨type, Program.typeOf_convert hfound, hsupported⟩
  | load pointer =>
    obtain ⟨elem, space, hpointer⟩ := hvalid
    have hwhole := hops pointer (by simp [Instr.operands]) _ hpointer
    simp only [Ty.whole, Bool.and_eq_true] at hwhole
    exact ⟨elem, Program.typeOf_load hfound hpointer, hwhole.1⟩
  | elementPtr base index =>
    obtain ⟨elem, space, -, hbase, -, -⟩ := hvalid
    exact ⟨_, Program.typeOf_elementPtr hfound hbase, hops base (by simp [Instr.operands]) _ hbase⟩
  | localVar name elem =>
    refine ⟨_, Program.typeOf_localVar hfound, ?_⟩
    simp only [Ty.whole, Bool.and_eq_true]
    exact ⟨hsupported, by decide⟩
  | call callee args =>
    obtain ⟨g, hg, params, rfl, -, -⟩ := hvalid
    exact ⟨_, Program.typeOf_call hfound (Program.func?_of_mem_functions hg), hcallees g hg⟩
  | _ => cases hvalue

/-- The operands of an instruction come before it, so its type is whole if theirs are. -/
theorem whole_results {xs : List (InstrId × Option Instr)} {known : List Value}
    (hreads : ReadsKnown known xs) (hfound : ∀ x ∈ xs, p.instr? x.1 = x.2)
    (hvalid : ∀ x ∈ xs, ∀ i ∈ x.2, i.Valid p f (f.Holds fid))
    (hsupported : ∀ x ∈ xs, ∀ i ∈ x.2, i.Supported p)
    (hconstants : ∀ x ∈ xs, ∀ i ∈ x.2, ∀ c, .constant c ∈ i.operands → c.type.isLiteral)
    (hcallees : ∀ g ∈ p.functions, g.2.resultType.whole)
    (hknown : ∀ v ∈ known, ∀ t, p.typeOf v = .ok t → t.whole) :
    ∀ x ∈ xs, ∀ i ∈ x.2, i.isValue → ∃ t, p.typeOf (.result x.1) = .ok t ∧ t.whole := by
  induction xs generalizing known with
  | nil => simp
  | cons x xs ih =>
    rw [List.forall_mem_cons] at hfound hvalid hsupported hconstants ⊢
    obtain ⟨hops, hreads⟩ := hreads
    have hresult : ∀ i ∈ x.2, i.isValue → ∃ t, p.typeOf (.result x.1) = .ok t ∧ t.whole := by
      intro i hi hvalue
      refine whole_result (hfound.1.trans hi) (hvalid.1 i hi) (hsupported.1 i hi) hcallees hvalue ?_
      intro v hv t ht
      rcases hops i hi v hv with hv | ⟨c, rfl⟩
      · exact hknown v hv t ht
      · cases ht
        exact whole_of_isLiteral (hconstants.1 i hi c hv)
    refine ⟨hresult, ih hreads hfound.2 hvalid.2 hsupported.2 hconstants.2 ?_⟩
    intro v hv t ht
    rw [addResult] at hv
    split at hv
    · rename_i hany
      obtain ⟨i, hi, hvalue⟩ := (Option.any_eq_true _ _).1 hany
      rcases List.mem_cons.1 hv with rfl | hv
      · obtain ⟨u, hu, hwhole⟩ := hresult i hi hvalue
        cases hu.symm.trans ht
        exact hwhole
      · exact hknown v hv t ht
    · exact hknown v hv t ht

end Results

/-- Every listed instruction is there and sound. -/
theorem exists_sound {p : Program} {options : Options} (hvalid : p.Valid)
    (hsupported : Supported p options) {e : FuncId × Func} (he : e ∈ p.functions)
    {x : InstrId × Option Instr} (hx : x ∈ e.2.entries e.1) :
    ∃ i, x.2 = some i ∧ Sound p e.2 e.1 x.1 i := by
  have hf := hvalid.functions e he
  have hg := hsupported.functions e he
  have hfound : ∀ y ∈ e.2.entries e.1, p.instr? y.1 = y.2 :=
    fun y hy => Program.instr?_of_mem_entries he hy
  have hrules : ∀ y ∈ e.2.entries e.1, ∀ i ∈ y.2, i.Valid p e.2 (e.2.Holds e.1) := by
    intro y hy i hi
    obtain ⟨j, hj, hrule⟩ := hf.instrs y hy
    cases hj.symm.trans hi
    exact hrule
  have hconstants : ∀ y ∈ e.2.entries e.1, ∀ i ∈ y.2, ∀ c, .constant c ∈ i.operands →
      c.type.isLiteral :=
    fun y hy i hi c hc => hsupported.constants c (Program.mem_constants he hy hi hc)
  obtain ⟨i, hi, hrule⟩ := hf.instrs x hx
  refine ⟨i, hi, (hfound x hx).trans hi, hrule, hg.instrs x hx i hi, hconstants x hx i hi, ?_⟩
  refine whole_results hf.reads hfound hrules hg.instrs hconstants
    (fun g hg => (hsupported.functions g hg).result) ?_ x hx i hi
  intro v hv t ht
  rw [Func.paramValues, List.mem_reverse, List.mem_map] at hv
  obtain ⟨q, hq, rfl⟩ := hv
  cases (Program.typeOf_param (Program.param?_of_mem_signature he hq)).symm.trans ht
  exact hg.params q hq

end Spirv

end Elementwise
