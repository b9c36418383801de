import Elementwise.Proofs.Reload
import Elementwise.Spirv.Compile

/-!
# Programs with one wire form

A program that was read stores its functions and blocks in listing order, so it is its own settled
form as soon as it has all its names. Two such programs with the same wire form are equal, and
whatever is computed from one can be kept for the other. Without distinct names this fails: a
parameter may be called as a result is numbered.
-/
namespace Elementwise.IR
open Wire

/-! ## Programs that are their own settled form -/

/-- The program lists its functions and blocks as they are stored, and all of it is there. -/
structure Program.Stored (p : Program) : Prop where
  order : p.order = (List.range p.funcs.length).map some
  blocks : ∀ f ∈ p.funcs, f.order = (List.range f.blocks.length).map some
  params : ∀ f ∈ p.funcs, ∃ qs : List Param, f.params = qs.map some
  results : ∀ f ∈ p.funcs, f.result ≠ .missing

theorem stored_of_decode {w : Wire.Module} {p : Program} (h : w.decode = .ok p) : p.Stored := by
  obtain ⟨sigs, hsigs, h⟩ := bind_eq_ok.1 h
  obtain ⟨funcs, hfuncs, h⟩ := bind_eq_ok.1 h
  have hp := Except.ok.inj h
  obtain rfl : p.funcs = funcs := by rw [← hp]
  obtain ⟨-, hbodies⟩ := body_of_decodeFuncs hfuncs
  have hbody : ∀ f ∈ p.funcs, ∃ x ∈ w.functions.zip sigs, ∃ blocks,
      f = ⟨x.1.name, x.2.1.map some, x.2.2, blocks, (List.range blocks.length).map some⟩ := by
    intro f hf
    obtain ⟨k, hk⟩ := List.mem_iff_getElem?.1 hf
    obtain ⟨x, hx, blocks, -, heq⟩ := hbodies k f hk
    exact ⟨x, hx, blocks, heq⟩
  refine ⟨by rw [← hp], ?_, ?_, ?_⟩
  · intro f hf
    obtain ⟨x, -, blocks, rfl⟩ := hbody f hf
    rfl
  · intro f hf
    obtain ⟨x, -, blocks, rfl⟩ := hbody f hf
    exact ⟨x.2.1, rfl⟩
  · intro f hf
    obtain ⟨x, hx, blocks, rfl⟩ := hbody f hf
    have hwhole := ((whole_of_decodeSignatures hsigs).2.2.2 x.2 (List.of_mem_zip hx).2).2
    intro hmissing
    change x.2.2 = .missing at hmissing
    rw [hmissing] at hwhole
    cases hwhole

theorem Program.Stored.mem_funcs {p : Program} (h : p.Stored) {e : FuncId × Func}
    (he : e ∈ p.functions) : e.2 ∈ p.funcs := by
  rw [(Program.functions_of_order h.order).1] at he
  obtain ⟨k, f, hf, rfl⟩ := mem_mapIdx_iff.1 he
  exact List.mem_of_getElem? hf

/-- Every parameter and block has a name. -/
structure Program.Named (p : Program) : Prop where
  params : ∀ f ∈ p.funcs, ∀ slot ∈ f.params, ∀ q ∈ slot, q.name.isEmpty = false
  blocks : ∀ f ∈ p.funcs, ∀ b ∈ f.blocks, b.name.isEmpty = false

theorem filled_eq_self {kind : String} {index : Nat} {name : Text} (h : name.isEmpty = false) :
    filled kind index name = name := by
  rw [filled, h]
  rfl

theorem Relabeling.instr_eq_self {r : Relabeling} {i : Instr} {lists : Option FuncId → Prop}
    {holds : Option BlockId → Prop} (hformed : i.Formed lists holds)
    (hops : ∀ v ∈ i.operands, r.value v = v)
    (hlists : ∀ callee, lists callee → callee.map r.func = callee)
    (hholds : ∀ target, holds target → target.map r.block = target) : r.instr i = i := by
  cases i with
  | call callee args =>
    have hargs : args.map r.value = args := (List.map_congr_left hops).trans (List.map_id' args)
    rw [instr, hlists callee hformed, hargs]
  | branch target => rw [instr, hholds target hformed]
  | condBranch cond onTrue onFalse merge =>
    obtain ⟨ht, hf, hmerge⟩ := hformed
    have hm : merge.map r.block = merge := by
      rcases hmerge with rfl | hmerge
      · rfl
      · exact hholds merge hmerge
    rw [instr, hops cond (by simp [Instr.operands]), hholds onTrue ht, hholds onFalse hf, hm]
  | ret x =>
    cases x with
    | missing => rfl
    | _ => exact congrArg Instr.ret (hops _ List.mem_cons_self)
  | localVar name elem => rfl
  | _ =>
    simp only [Instr.operands, List.forall_mem_cons, List.not_mem_nil, false_implies, implies_true,
      and_true] at hops
    simp only [instr, hops]

variable {b : BlockId × Block} {σ : Constant → Constant}

namespace Program.Scoped

variable {p : Program} {e : FuncId × Func} (h : p.Scoped) (hstored : p.Stored)

include h hstored

theorem places_func_eq_self (he : e ∈ p.functions) : (p.places σ).func e.1 = e.1 := by
  obtain ⟨k, hk⟩ := List.mem_iff_getElem?.1 he
  have hid := hk
  rw [(Program.functions_of_order hstored.order).1, List.getElem?_mapIdx,
    Option.map_eq_some_iff] at hid
  obtain ⟨f, -, rfl⟩ := hid
  exact h.places_func hk

theorem places_block_eq_self (he : e ∈ p.functions) (hb : b ∈ e.2.body e.1) :
    (p.places σ).block b.1 = b.1 := by
  obtain ⟨k, hk⟩ := List.mem_iff_getElem?.1 hb
  have hid := hk
  rw [(Func.body_of_order (hstored.blocks e.2 (hstored.mem_funcs he)) e.1).1, blocksFrom,
    List.getElem?_mapIdx, Option.map_eq_some_iff] at hid
  obtain ⟨b', -, rfl⟩ := hid
  rw [h.places_block he hk, h.places_func_eq_self hstored he, Nat.zero_add]

theorem places_value_eq_self (he : e ∈ p.functions) {v : Value}
    (hv : v ∈ e.2.values e.1 ∨ v.WholeConstant) : (p.places id).value v = v := by
  rcases hv with hv | ⟨c, rfl, -⟩
  · rcases Func.mem_values.1 hv with ⟨q, hq, rfl⟩ | ⟨x, hx, i, -, -, rfl⟩
    · have hfunc := (Func.mem_signature hq).1
      rw [Relabeling.value, Relabeling.paramId, hfunc, h.places_func_eq_self hstored he, ← hfunc]
    · obtain ⟨b, hb, -, hblock⟩ := Func.mem_entries.1 hx
      rw [Relabeling.value, Relabeling.instrId, hblock, h.places_block_eq_self hstored he hb,
        ← hblock]
  · rfl

theorem places_target_eq_self (he : e ∈ p.functions) {target : Option BlockId}
    (ht : e.2.Holds e.1 target) : target.map (p.places σ).block = target := by
  obtain ⟨b, hb, rfl⟩ := ht
  exact congrArg some (h.places_block_eq_self hstored he hb)

theorem block_settled_eq_self (he : e ∈ p.functions) (hb : b ∈ e.2.body e.1)
    (hname : b.2.name.isEmpty = false) (k : Nat) : b.2.settled (p.places id) k = b.2 := by
  have hf := h.functions e he
  have hloop : b.2.loop.map (p.places id).loop = b.2.loop := by
    refine (Option.map_congr fun l hl => ?_).trans Option.map_id'
    obtain ⟨hmerge, hcontinue⟩ := hf.loops b hb l hl
    rw [Relabeling.loop, h.places_target_eq_self hstored he hmerge,
      h.places_target_eq_self hstored he hcontinue]
  have hinstrs : b.2.instrs.map (Option.map (p.places id).instr) = b.2.instrs := by
    refine (List.map_congr_left fun slot hslot => ?_).trans (List.map_id' b.2.instrs)
    obtain ⟨j, hj⟩ := List.mem_iff_getElem?.1 hslot
    have hx : (⟨b.1, j⟩, slot) ∈ e.2.entries e.1 := Func.mem_entries.2 ⟨b, hb, hj, rfl⟩
    obtain ⟨i, rfl, hops⟩ := hf.scope.operands hx
    refine congrArg some (Relabeling.instr_eq_self (hf.formed _ hx i rfl) ?_ ?_ ?_)
    · exact fun v hv => h.places_value_eq_self hstored he (hops v hv)
    · rintro callee ⟨g, hg, rfl⟩
      exact congrArg some (h.places_func_eq_self hstored hg)
    · exact fun target ht => h.places_target_eq_self hstored he ht
  rw [Block.settled, filled_eq_self hname, hloop, hinstrs]

theorem func_settled_eq_self (hnamed : p.Named) (he : e ∈ p.functions) :
    e.2.settled (p.places id) e.1 = e.2 := by
  have hmem := hstored.mem_funcs he
  have hbody := (Func.body_of_order (hstored.blocks e.2 hmem) e.1).1
  have hblocks : (e.2.body e.1).mapIdx (fun k b => b.2.settled (p.places id) k) =
      e.2.blocks := by
    have hsame : (e.2.body e.1).mapIdx (fun k b => b.2.settled (p.places id) k) =
        (e.2.body e.1).mapIdx fun _ b => b.2 := by
      refine mapIdx_congr fun k b hb => ?_
      have hb := List.mem_of_getElem? hb
      exact h.block_settled_eq_self hstored he hb
        (hnamed.blocks e.2 hmem b.2 (Func.mem_body_of_order hbody hb)) k
    rw [hsame, hbody]
    apply List.ext_getElem <;> simp [blocksFrom]
  have hparams : (e.2.signature e.1).mapIdx (fun k q => some (q.2.settled k)) = e.2.params := by
    obtain ⟨qs, hqs⟩ := hstored.params e.2 hmem
    have hsame : (e.2.signature e.1).mapIdx (fun k q => some (q.2.settled k)) =
        (e.2.signature e.1).mapIdx fun _ q => some q.2 := by
      refine mapIdx_congr fun k q hq => ?_
      have hslot := (Func.mem_signature (List.mem_of_getElem? hq)).2
      rw [Param.settled,
        filled_eq_self (hnamed.params e.2 hmem _ (List.mem_of_getElem? hslot) q.2 rfl)]
    rw [hsame, (Func.signature_of_params hqs e.1).1, hqs]
    apply List.ext_getElem <;> simp
  have hresult : e.2.resultType = e.2.result := by
    have hthere := hstored.results e.2 hmem
    rw [Func.resultType]
    cases hr : e.2.result with
    | missing => exact absurd hr hthere
    | _ => rfl
  have hlength : (e.2.body e.1).length = e.2.blocks.length := by
    rw [hbody, blocksFrom, List.length_mapIdx]
  rw [Func.settled, hparams, hresult, hblocks, hlength, ← hstored.blocks e.2 hmem]

theorem settled_eq_self (hnamed : p.Named) : p.settled id = p := by
  have hfunctions := (Program.functions_of_order hstored.order).1
  have hfuncs : p.functions.map (fun e => e.2.settled (p.places id) e.1) = p.funcs := by
    rw [List.map_congr_left fun e he => h.func_settled_eq_self hstored hnamed he, hfunctions]
    apply List.ext_getElem <;> simp
  have hlength : p.functions.length = p.funcs.length := by
    rw [hfunctions, List.length_mapIdx]
  rw [settled, hfuncs, hlength, ← hstored.order]

end Program.Scoped

/-! ## Wire forms tell programs apart -/

/-- Two programs that were read, with names for everything and names that can be told apart, are
equal when they are written alike. So they compile alike. -/
theorem eq_of_encode_eq {w₁ w₂ : Wire.Module} {p₁ p₂ : Program} (h₁ : w₁.decode = .ok p₁)
    (h₂ : w₂.decode = .ok p₂) (hnamed₁ : p₁.Named) (hnamed₂ : p₂.Named)
    (hlegible₁ : p₁.Legible) (hlegible₂ : p₂.Legible)
    (hconstants₁ : ∀ c ∈ p₁.constants, Constant.parse c.wireText = .ok c)
    (hconstants₂ : ∀ c ∈ p₂.constants, Constant.parse c.wireText = .ok c)
    (hencode : p₁.encode = p₂.encode) :
    p₁ = p₂ ∧ ∀ options, Spirv.compile p₁ options = Spirv.compile p₂ options := by
  have hscoped₁ := scoped_of_decode h₁
  have hscoped₂ := scoped_of_decode h₂
  obtain ⟨w, hw₁, hsettled₁⟩ := hscoped₁.decode_encoded hlegible₁ hconstants₁
  obtain ⟨w', hw₂, hsettled₂⟩ := hscoped₂.decode_encoded hlegible₂ hconstants₂
  obtain rfl : w = w' := Except.ok.inj (hw₁.symm.trans (hencode.trans hw₂))
  have heq : p₁ = p₂ := by
    calc p₁ = p₁.settled id := (hscoped₁.settled_eq_self (stored_of_decode h₁) hnamed₁).symm
      _ = p₂.settled id := Except.ok.inj (hsettled₁.symm.trans hsettled₂)
      _ = p₂ := hscoped₂.settled_eq_self (stored_of_decode h₂) hnamed₂
  exact ⟨heq, fun options => by rw [heq]⟩

/-- The names of results other than local variables leave no trace. -/
theorem eq_of_encode_eq_copying : ∃ p₁ p₂, (copying "x" "y").decode = .ok p₁ ∧
    (copying "to" "from").decode = .ok p₂ ∧ p₁.encode = p₂.encode ∧
    p₁ = p₂ ∧ ∀ options, Spirv.compile p₁ options = Spirv.compile p₂ options := by
  have hdecode : (copying "to" "from").decode = .ok copied := by decide +kernel
  have hnamed : copied.Named := ⟨by decide, by decide⟩
  exact ⟨copied, copied, decode_copying, hdecode, rfl,
    eq_of_encode_eq decode_copying hdecode hnamed hnamed legible_copied legible_copied
      parse_constants_copied parse_constants_copied rfl⟩

/-- Where a parameter is called as a result is numbered, two valid programs that differ in what
they do can be written alike. -/
theorem encode_clashing_eq : ∃ p₁ p₂, (clashing "%0").decode = .ok p₁ ∧
    (clashing "%x").decode = .ok p₂ ∧ p₁.validate = .ok [] ∧ p₂.validate = .ok [] ∧
    p₁.encode = p₂.encode ∧ Spirv.compile p₁ {} ≠ Spirv.compile p₂ {} :=
  ⟨clashed (.param ⟨⟨0⟩, 0⟩), clashed (.result ⟨⟨⟨0⟩, 0⟩, 0⟩), by decide +kernel,
    by decide +kernel, by decide +kernel, by decide +kernel, by decide +kernel, by decide +kernel⟩

end Elementwise.IR
