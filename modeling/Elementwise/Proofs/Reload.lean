import Elementwise.IR.Fingerprint
import Elementwise.IR.Validation
import Elementwise.Proofs.RoundTrip

/-!
# Saving and reloading

Whatever was read from the wire form refers only to what is there, so it can be written again. It
reads back as it was, up to names that were left out, if its names can be told apart and its
constants have texts that they are read back from.
-/
namespace Elementwise.IR
open Text.Names Wire

/-! ## What can be read -/

variable {index : Nat} {f : Func} {name : Text} {p : Program} {funcs : List Text} {pred : Predicate}
  {known : List Value} {qs : List Param}

theorem codeOf?_lt {table : List String} {code : UInt8} (h : codeOf? table name = some code) :
    code.toNat < table.length := by
  obtain ⟨k, hk, rfl⟩ := Option.map_eq_some_iff.1 h
  have hlt := (List.findIdx?_eq_some_iff_getElem.1 hk).1
  exact Nat.lt_of_le_of_lt (Nat.mod_le k _) hlt

theorem Domain.code_lt {d : Domain} (h : Domain.parse? name = some d) : d.code < 3 := by
  obtain ⟨code, hcode, rfl⟩ := Option.map_eq_some_iff.1 h
  exact UInt8.lt_iff_toNat_lt.2 (codeOf?_lt hcode)

theorem BinaryOp.code_lt {op : BinaryOp} (h : BinaryOp.parse? name = some op) : op.code < 5 := by
  obtain ⟨code, hcode, rfl⟩ := Option.map_eq_some_iff.1 h
  exact UInt8.lt_iff_toNat_lt.2 (codeOf?_lt hcode)

theorem Predicate.code_lt (h : Predicate.parse? name = some pred) : pred.code < 6 := by
  obtain ⟨code, hcode, rfl⟩ := Option.map_eq_some_iff.1 h
  exact UInt8.lt_iff_toNat_lt.2 (codeOf?_lt hcode)

theorem Constant.whole_ofFloat (width : UInt32) (bits : UInt64) :
    (ofFloat width bits).type.whole := by
  unfold ofFloat
  split
  · rfl
  · split <;> rfl

theorem Constant.whole_of_parseLiteral {source : Text} {t : Ty} (ht : t.whole)
    {lit : List Text.Utf8.Piece} {c : Constant} (h : parseLiteral source t lit = .ok c) :
    c.type.whole := by
  unfold parseLiteral parseBits parseInt at h
  repeat' split at h
  all_goals cases h
  all_goals first | rfl | exact ht | exact whole_ofFloat _ _

theorem Constant.whole_of_parse {text : Text} {c : Constant} (h : Constant.parse text = .ok c) :
    c.type.whole := by
  unfold parse at h
  split at h
  · split_ifs at h <;> cases h <;> rfl
  · split at h
    · cases h
    next ht => exact whole_of_parseLiteral (Ty.spells_of_parsePieces ht).whole h

/-! ## Instructions -/

namespace Wire.Scope

/-- A function that a call can name. -/
def Lists (s : Scope) (callee : Option FuncId) : Prop :=
  ∃ k < s.funcs.length, callee = some ⟨k⟩

/-- A block that a branch can name. -/
def Holds (s : Scope) (target : Option BlockId) : Prop :=
  ∃ k < s.blocks.length, target = some ⟨s.func, k⟩

/-- A value that an operand can name, or a constant. -/
def Knows (s : Scope) (v : Value) : Prop := v ∈ s.values.map Prod.snd ∨ v.WholeConstant

variable {s : Scope} {w : Wire.Instr} {text : Text} {v x y : Value}

theorem knows_of_value (h : s.value text = .ok v) : s.Knows v := by
  unfold value at h
  split at h
  · split at h
    · rename_i hlookup
      cases h
      obtain ⟨before, after, heq, -⟩ := List.lookup_eq_some_iff.1 hlookup
      exact .inl (by simp [heq])
    · cases h
  · split at h
    · rename_i c hparse
      cases h
      exact .inr ⟨c, rfl, Constant.whole_of_parse hparse⟩
    · cases h

theorem holds_of_block {b : BlockId} (h : s.block text = some b) : s.Holds (some b) := by
  obtain ⟨k, hk, rfl⟩ := Option.map_eq_some_iff.1 h
  exact ⟨k, (List.findIdx?_eq_some_iff_getElem.1 hk).1, rfl⟩

theorem holds_of_target {b : BlockId} (h : s.target text = .ok b) : s.Holds (some b) := by
  unfold target at h
  split at h
  · cases h
    exact holds_of_block ‹_›
  · cases h

theorem knows_of_one (h : s.one w = .ok v) : s.Knows v := by
  unfold one at h
  split at h
  · exact knows_of_value h
  · cases h

theorem knows_of_two (h : s.two w = .ok (x, y)) : s.Knows x ∧ s.Knows y := by
  unfold two at h
  split at h
  · obtain ⟨x', hx, h⟩ := bind_eq_ok.1 h
    obtain ⟨y', hy, h⟩ := bind_eq_ok.1 h
    cases h
    exact ⟨knows_of_value hx, knows_of_value hy⟩
  · cases h

end Wire.Scope

theorem Wire.code_of_domain {d : Domain} (h : Wire.domain name = .ok d) : d.code < 3 := by
  unfold Wire.domain at h
  split at h
  · cases h
    exact Domain.code_lt ‹_›
  · cases h

theorem Wire.code_of_predicate (h : Wire.predicate name = .ok pred) : pred.code < 6 := by
  unfold Wire.predicate at h
  split at h
  · cases h
    exact Predicate.code_lt ‹_›
  · cases h

theorem Wire.whole_of_type {text : Text} {t : Ty} (h : Wire.type text = .ok t) : t.whole := by
  unfold Wire.type at h
  split at h
  · cases h
    exact (Ty.spells_of_parsePieces ‹_›).whole
  · cases h

section

variable {s : Scope} {w : Wire.Instr} {i : Instr}

theorem formed_of_decodeCall (h : decodeCall s w = .ok i) :
    i.Formed s.Lists s.Holds ∧ ∀ v ∈ i.operands, s.Knows v := by
  unfold decodeCall at h
  split at h
  · cases h
  next k hk =>
    obtain ⟨args, hargs, h⟩ := bind_eq_ok.1 h
    cases h
    refine ⟨⟨k, (List.findIdx?_eq_some_iff_getElem.1 hk).1, rfl⟩, fun v hv => ?_⟩
    obtain ⟨text, -, htext⟩ := exists_of_mem_right (mapM_eq_ok_iff.1 hargs) hv
    exact Scope.knows_of_value htext

theorem formed_of_decodeBranch (h : decodeBranch s w = .ok i) :
    i.Formed s.Lists s.Holds ∧ ∀ v ∈ i.operands, s.Knows v := by
  unfold decodeBranch at h
  split at h
  · obtain ⟨t, ht, h⟩ := bind_eq_ok.1 h
    cases h
    exact ⟨Scope.holds_of_target ht, by simp [Instr.operands]⟩
  · cases h

theorem formed_of_decodeCondBranch (h : decodeCondBranch s w = .ok i) :
    i.Formed s.Lists s.Holds ∧ ∀ v ∈ i.operands, s.Knows v := by
  obtain ⟨cond, hcond, h⟩ := bind_eq_ok.1 h
  have hknows := Scope.knows_of_one hcond
  split at h
  all_goals simp only [bind_eq_ok, pure_eq_ok, reduceCtorEq] at h
  · obtain ⟨t, ht, f, hf, rfl⟩ := h
    exact ⟨⟨Scope.holds_of_target ht, Scope.holds_of_target hf, .inl rfl⟩,
      by simpa [Instr.operands] using hknows⟩
  · obtain ⟨t, ht, f, hf, m, hm, rfl⟩ := h
    exact ⟨⟨Scope.holds_of_target ht, Scope.holds_of_target hf, .inr (Scope.holds_of_target hm)⟩,
      by simpa [Instr.operands] using hknows⟩

/-- What is read refers to what is in scope. -/
theorem formed_of_decodeInstr (h : decodeInstr s w = .ok i) :
    i.Formed s.Lists s.Holds ∧ ∀ v ∈ i.operands, s.Knows v := by
  unfold decodeInstr at h
  split at h
  · simp only [bind_eq_ok, pure_eq_ok, Prod.exists] at h
    obtain ⟨x, y, hxy, d, hd, rfl⟩ := h
    exact ⟨⟨BinaryOp.code_lt ‹_›, code_of_domain hd⟩,
      by simpa [Instr.operands] using Scope.knows_of_two hxy⟩
  · split at h
    all_goals try simp only [bind_eq_ok, pure_eq_ok, Prod.exists, reduceCtorEq] at h
    · -- cmp
      obtain ⟨x, y, hxy, d, hd, pred, hpred, rfl⟩ := h
      exact ⟨⟨code_of_predicate hpred, code_of_domain hd⟩,
        by simpa [Instr.operands] using Scope.knows_of_two hxy⟩
    · -- neg
      obtain ⟨x, hx, d, hd, rfl⟩ := h
      exact ⟨code_of_domain hd, by simpa [Instr.operands] using Scope.knows_of_one hx⟩
    · -- convert
      obtain ⟨x, hx, source, hsource, target, htarget, t, ht, rfl⟩ := h
      exact ⟨⟨code_of_domain hsource, whole_of_type ht, code_of_domain htarget⟩,
        by simpa [Instr.operands] using Scope.knows_of_one hx⟩
    · -- load
      obtain ⟨x, hx, rfl⟩ := h
      exact ⟨trivial, by simpa [Instr.operands] using Scope.knows_of_one hx⟩
    · -- store
      obtain ⟨x, y, hxy, rfl⟩ := h
      exact ⟨trivial, by simpa [Instr.operands] using Scope.knows_of_two hxy⟩
    · -- elementptr
      obtain ⟨x, y, hxy, rfl⟩ := h
      exact ⟨trivial, by simpa [Instr.operands] using Scope.knows_of_two hxy⟩
    · -- local
      obtain ⟨elem, helem, rfl⟩ := h
      exact ⟨whole_of_type helem, by simp [Instr.operands]⟩
    · exact formed_of_decodeCall h
    · exact formed_of_decodeBranch h
    · exact formed_of_decodeCondBranch h
    · -- ret
      split at h
      · cases h
        exact ⟨trivial, by simp [Instr.operands]⟩
      · obtain ⟨x, hx, h⟩ := bind_eq_ok.1 h
        cases h
        refine ⟨trivial, ?_⟩
        cases x with
        | missing => simp [Instr.operands]
        | _ => simpa [Instr.operands] using Scope.knows_of_one hx

end

/-! ## Bodies -/

/-- The instructions of a block from a position on, with their identities. -/
def instrsFrom (id : BlockId) (index : Nat) (is : List (Option Instr)) :
    List (InstrId × Option Instr) := is.mapIdx fun k i => (⟨id, index + k⟩, i)

theorem instrsFrom_cons (id : BlockId) (index : Nat) (i : Option Instr)
    (is : List (Option Instr)) :
    instrsFrom id index (i :: is) = (⟨id, index⟩, i) :: instrsFrom id (index + 1) is := by
  simp [instrsFrom, List.mapIdx_cons, Nat.add_assoc, Nat.add_comm 1]

theorem scope_of_decodeInstrs {id : BlockId} {block : Text} {s s' : Scope} {ws : List Wire.Instr}
    {is : List (Option Instr)} (h : decodeInstrs id block s index ws = .ok (is, s'))
    (hknown : ∀ v ∈ s.values.map Prod.snd, v ∈ known) :
    InScope known (instrsFrom id index is) ∧
      (∀ v ∈ s'.values.map Prod.snd, v ∈ (instrsFrom id index is).foldl addResult known) ∧
      (∀ slot ∈ is, ∀ i ∈ slot, i.Formed s.Lists s.Holds) ∧
      ∃ values, s' = { s with values := values } := by
  induction ws generalizing s index is known with
  | nil =>
    cases h
    exact ⟨trivial, hknown, nofun, _, rfl⟩
  | cons w ws ih =>
    obtain ⟨i, is', hinstr, rfl, hrest⟩ := decodeInstrs_cons_eq_ok.1 h
    obtain ⟨hformed, hops⟩ := formed_of_decodeInstr hinstr
    rw [instrsFrom_cons]
    have hscope : ∃ j ∈ some i, ∀ v ∈ j.operands, v ∈ known ∨ v.WholeConstant :=
      ⟨i, rfl, fun v hv => (hops v hv).imp_left (hknown v)⟩
    have hgrow : ∀ v ∈ known, v ∈ addResult known (⟨id, index⟩, some i) := by
      intro v hv
      unfold addResult
      split
      · exact List.mem_cons_of_mem _ hv
      · exact hv
    obtain ⟨values, hvalues, hrest⟩ : ∃ values : List (Text × Value),
        (∀ v ∈ values.map Prod.snd, v ∈ addResult known (⟨id, index⟩, some i)) ∧
        decodeInstrs id block { s with values } (index + 1) ws = .ok (is', s') := by
      rcases hrest with ⟨-, hrest⟩ | ⟨-, hvalue, -, hrest⟩
      · exact ⟨s.values, fun v hv => hgrow v (hknown v hv), hrest⟩
      · refine ⟨(w.result, .result ⟨id, index⟩) :: s.values, ?_, hrest⟩
        refine List.forall_mem_cons.2 ⟨?_, fun v hv => hgrow v (hknown v hv)⟩
        rw [addResult, Option.any_some, if_pos hvalue]
        exact List.mem_cons_self
    obtain ⟨hin, hvalues, hforms, hsame⟩ := ih hrest hvalues
    exact ⟨⟨hscope, hin⟩, hvalues,
      List.forall_mem_cons.2 ⟨fun j hj => Option.some.inj hj ▸ hformed, hforms⟩, hsame⟩

theorem holds_of_decodeLoop {s : Scope} {w : Wire.Loop} {l : Loop}
    (h : decodeLoop s w = .ok l) : s.Holds l.merge ∧ s.Holds l.continue_ := by
  unfold decodeLoop at h
  split at h
  · cases h
  · rename_i m hm
    split at h
    · cases h
    · rename_i c hc
      cases h
      exact ⟨Scope.holds_of_block hm, Scope.holds_of_block hc⟩

/-- The blocks of a function from a position on, with their identities. -/
def blocksFrom (id : FuncId) (index : Nat) (bs : List Block) : List (BlockId × Block) :=
  bs.mapIdx fun k b => (⟨id, index + k⟩, b)

theorem blocksFrom_cons (id : FuncId) (index : Nat) (b : Block) (bs : List Block) :
    blocksFrom id index (b :: bs) = (⟨id, index⟩, b) :: blocksFrom id (index + 1) bs := by
  simp [blocksFrom, List.mapIdx_cons, Nat.add_assoc, Nat.add_comm 1]

theorem scope_of_decodeBlocks {s : Scope} {ws : List Wire.Block} {bs : List Block}
    (h : decodeBlocks s index ws = .ok bs) (hknown : ∀ v ∈ s.values.map Prod.snd, v ∈ known) :
    InScope known ((blocksFrom s.func index bs).flatMap fun b => b.2.instrIds b.1) ∧
      (∀ b ∈ bs, ∀ l ∈ b.loop, s.Holds l.merge ∧ s.Holds l.continue_) ∧
      (∀ b ∈ bs, ∀ slot ∈ b.instrs, ∀ i ∈ slot, i.Formed s.Lists s.Holds) ∧
      bs.map Block.name = ws.map Wire.Block.name := by
  induction ws generalizing s index bs known with
  | nil =>
    cases h
    exact ⟨trivial, nofun, nofun, rfl⟩
  | cons w ws ih =>
    obtain ⟨loop, instrs, s', blocks, hloop, hinstrs, hblocks, rfl⟩ := decodeBlocks_cons_eq_ok.1 h
    obtain ⟨hin, hvalues, hforms, values, rfl⟩ := scope_of_decodeInstrs hinstrs hknown
    obtain ⟨hin', hloops, hforms', hnames⟩ := ih hblocks hvalues
    have hids : instrsFrom ⟨s.func, index⟩ 0 instrs =
        Block.instrIds ⟨w.name, loop, instrs⟩ ⟨s.func, index⟩ := by
      simp [instrsFrom, Block.instrIds]
    refine ⟨?_, ?_, ?_, ?_⟩
    · rw [blocksFrom_cons, List.flatMap_cons, inScope_append, ← hids]
      exact ⟨hin, hin'⟩
    · rw [List.forall_mem_cons]
      refine ⟨fun l hl => ?_, hloops⟩
      rcases hloop with ⟨-, rfl⟩ | ⟨wl, l', -, hdecode, rfl⟩
      · cases hl
      · obtain rfl := Option.some.inj hl
        exact holds_of_decodeLoop hdecode
    · rw [List.forall_mem_cons]
      exact ⟨hforms, hforms'⟩
    · rw [List.map_cons, List.map_cons, hnames]

/-! ## Programs -/

theorem whole_of_decodeParams {func : Text} {ws : List Wire.Param}
    (h : decodeParams func ws = .ok qs) : ∀ q ∈ qs, q.type.whole := by
  induction ws generalizing qs with
  | nil =>
    cases h
    nofun
  | cons w ws ih =>
    obtain ⟨t, qs', ht, hqs, rfl⟩ := decodeParams_cons_eq_ok.1 h
    exact List.forall_mem_cons.2 ⟨(Ty.spells_of_parsePieces ht).whole, ih hqs⟩

theorem whole_of_decodeSignatures {seen : List Text} {ws : List Wire.Func}
    {sigs : List (List Param × Ty)} (h : decodeSignatures seen ws = .ok sigs) :
    sigs.length = ws.length ∧ (ws.map Wire.Func.name).Nodup ∧
      (∀ w ∈ ws, w.name ∉ seen) ∧
      ∀ sig ∈ sigs, (∀ q ∈ sig.1, q.type.whole) ∧ sig.2.whole := by
  induction ws generalizing seen sigs with
  | nil =>
    cases h
    exact ⟨rfl, List.nodup_nil, nofun, nofun⟩
  | cons w ws ih =>
    obtain ⟨hseen, result, params, sigs', hresult, hparams, hsigs, rfl⟩ :=
      decodeSignatures_cons_eq_ok.1 h
    obtain ⟨hlength, hnodup, hnew, hwhole⟩ := ih hsigs
    refine ⟨by rw [List.length_cons, List.length_cons, hlength], ?_, ?_, ?_⟩
    · rw [List.map_cons, List.nodup_cons]
      refine ⟨fun hmem => ?_, hnodup⟩
      obtain ⟨w', hw', heq⟩ := List.mem_map.1 hmem
      exact hnew w' hw' (heq ▸ List.mem_cons_self)
    · rw [List.forall_mem_cons]
      exact ⟨hseen, fun w' hw' hmem => hnew w' hw' (List.mem_cons_of_mem _ hmem)⟩
    · rw [List.forall_mem_cons]
      exact ⟨⟨whole_of_decodeParams hparams, (Ty.spells_of_parsePieces hresult).whole⟩, hwhole⟩

theorem body_of_decodeFuncs {xs : List (Wire.Func × List Param × Ty)} {fs : List Func}
    (h : decodeFuncs funcs index xs = .ok fs) :
    fs.map Func.name = xs.map (fun x => x.1.name) ∧
      ∀ (k : Nat) (f : Func), fs[k]? = some f → ∃ x ∈ xs, ∃ blocks,
        decodeBody funcs ⟨index + k⟩ x.2.1 x.1 = .ok blocks ∧
        f = ⟨x.1.name, x.2.1.map some, x.2.2, blocks, (List.range blocks.length).map some⟩ := by
  induction xs generalizing index fs with
  | nil =>
    cases h
    exact ⟨rfl, nofun⟩
  | cons x xs ih =>
    obtain ⟨blocks, fs', hbody, hrest, rfl⟩ := decodeFuncs_cons_eq_ok.1 h
    obtain ⟨hnames, hfuncs⟩ := ih hrest
    refine ⟨by rw [List.map_cons, List.map_cons, hnames], fun k f hk => ?_⟩
    cases k with
    | zero =>
      obtain rfl := Option.some.inj hk
      exact ⟨x, List.mem_cons_self, blocks, hbody, rfl⟩
    | succ k =>
      obtain ⟨x', hx', blocks', hbody', rfl⟩ := hfuncs k f hk
      refine ⟨x', List.mem_cons_of_mem x hx', blocks', ?_, rfl⟩
      rwa [Nat.add_assoc, Nat.add_comm 1] at hbody'

theorem mapIdx_some {α β : Type} (xs : List α) (f : Nat → α → β) :
    (xs.mapIdx fun k x => some (f k x)) = (xs.mapIdx f).map some := by
  apply List.ext_getElem <;> simp

/-- A program that lists its functions as they are stored. -/
theorem Program.functions_of_order (h : p.order = (List.range p.funcs.length).map some) :
    p.functions = p.funcs.mapIdx (fun k f => (⟨k⟩, f)) ∧ p.listed = p.functions.map some := by
  have hfunctions : p.functions = p.funcs.mapIdx fun k f => (⟨k⟩, f) := by
    rw [functions, listed_of_order h, mapIdx_some, reduceOption_map_some]
  exact ⟨hfunctions, by rw [hfunctions, listed_of_order h, mapIdx_some]⟩

theorem Func.body_of_order (h : f.order = (List.range f.blocks.length).map some) (id : FuncId) :
    f.body id = blocksFrom id 0 f.blocks ∧ f.listed id = (f.body id).map some := by
  have hbody : f.body id = f.blocks.mapIdx fun k b => (⟨id, k⟩, b) := by
    rw [body, listed_of_order h, mapIdx_some, reduceOption_map_some]
  refine ⟨?_, by rw [hbody, listed_of_order h, mapIdx_some]⟩
  rw [hbody]
  simp [blocksFrom]

theorem Func.signature_of_params (h : f.params = qs.map some) (id : FuncId) :
    f.signature id = qs.mapIdx (fun k q => (⟨id, k⟩, q)) ∧
      f.paramIds id = (f.signature id).map some := by
  have hids : f.paramIds id = (qs.mapIdx fun k q => (⟨id, k⟩, q)).map some := by
    rw [paramIds, h]
    apply List.ext_getElem <;> simp
  have hsignature : f.signature id = qs.mapIdx fun k q => (⟨id, k⟩, q) := by
    rw [signature, hids, reduceOption_map_some]
  exact ⟨hsignature, by rw [hids, hsignature]⟩

theorem Instr.Formed.mono {lists lists' : Option FuncId → Prop}
    {holds holds' : Option BlockId → Prop} {i : Instr} (h : i.Formed lists holds)
    (hlists : ∀ callee, lists callee → lists' callee)
    (hholds : ∀ target, holds target → holds' target) : i.Formed lists' holds' := by
  cases i with
  | call callee args => exact hlists callee h
  | branch target => exact hholds target h
  | condBranch cond onTrue onFalse merge =>
    exact ⟨hholds _ h.1, hholds _ h.2.1, h.2.2.imp_right (hholds _)⟩
  | _ => exact h

theorem Func.nodup_blocksFrom (id : FuncId) (index : Nat) (bs : List Block) :
    ((blocksFrom id index bs).map Prod.fst).Nodup := by
  have hfst : (blocksFrom id index bs).map Prod.fst =
      (List.range bs.length).map fun k => ⟨id, index + k⟩ := by
    apply List.ext_getElem <;> simp [blocksFrom]
  rw [hfst]
  refine List.nodup_range.map fun k k' heq => ?_
  exact Nat.add_left_cancel (BlockId.mk.inj heq).2

theorem Func.mem_body_of_order {id : FuncId} (h : f.body id = blocksFrom id 0 f.blocks)
    {b : BlockId × Block} (hb : b ∈ f.body id) : b.2 ∈ f.blocks := by
  rw [h] at hb
  obtain ⟨k, b', hb', rfl⟩ := mem_mapIdx_iff.1 hb
  exact List.mem_of_getElem? hb'

/-- A body that was read refers to its own blocks, to what stands before, and to functions of the
program. -/
theorem scoped_of_decodeBody (hfuncs : ∀ k < funcs.length, p.Lists (some ⟨k⟩)) {id : FuncId}
    (hparams : f.params = qs.map some) (hqs : ∀ q ∈ qs, q.type.whole) (hresult : f.result.whole)
    (horder : f.order = (List.range f.blocks.length).map some) {w : Wire.Func}
    (h : decodeBody funcs id qs w = .ok f.blocks) : f.Scoped p id := by
  obtain ⟨hsignature, hparamIds⟩ := f.signature_of_params hparams id
  obtain ⟨hbody, hlisted⟩ := f.body_of_order horder id
  rw [decodeBody] at h
  dsimp only at h
  split at h
  · cases h
  · have hknown : ∀ v ∈ ((qs.mapIdx fun k q => (q.name, Value.param ⟨id, k⟩)).reverse).map Prod.snd,
        v ∈ f.paramValues id := by
      intro v hv
      rw [List.map_reverse, List.mem_reverse] at hv
      obtain ⟨entry, hentry, rfl⟩ := List.mem_map.1 hv
      obtain ⟨k, q, hq, rfl⟩ := mem_mapIdx_iff.1 hentry
      rw [Func.paramValues, List.mem_reverse, List.mem_map, hsignature]
      exact ⟨_, mem_mapIdx_iff.2 ⟨k, q, hq, rfl⟩, rfl⟩
    obtain ⟨hscope, hloops, hforms, hnames⟩ := scope_of_decodeBlocks h hknown
    have hlength : (w.blocks.map Wire.Block.name).length = f.blocks.length := by
      simpa using (congrArg List.length hnames).symm
    have hholds : ∀ target, Scope.Holds ⟨id, funcs, w.blocks.map Wire.Block.name,
        (qs.mapIdx fun k q => (q.name, Value.param ⟨id, k⟩)).reverse⟩ target →
          f.Holds id target := by
      rintro target ⟨k, hk, rfl⟩
      have hlt : k < f.blocks.length := hlength ▸ hk
      refine ⟨(⟨id, k⟩, f.blocks[k]), ?_, rfl⟩
      rw [hbody]
      exact mem_mapIdx_iff.2 ⟨k, _, List.getElem?_eq_getElem hlt, by rw [Nat.zero_add]⟩
    exact
      { params := hparamIds
        blocks := hlisted
        once := by
          rw [hbody]
          exact Func.nodup_blocksFrom id 0 f.blocks
        paramTypes := by
          intro q hq
          rw [hsignature] at hq
          obtain ⟨k, q', hq', rfl⟩ := mem_mapIdx_iff.1 hq
          exact hqs q' (List.mem_of_getElem? hq')
        result := by
          unfold Func.resultType Ty.orVoid
          split
          · rfl
          · exact hresult
        loops := by
          intro b hb l hl
          obtain ⟨hmerge, hcontinue⟩ := hloops b.2 (Func.mem_body_of_order hbody hb) l hl
          exact ⟨hholds _ hmerge, hholds _ hcontinue⟩
        formed := by
          intro x hx i hi
          obtain ⟨b, hb, hat, -⟩ := Func.mem_entries.1 hx
          refine (hforms b.2 (Func.mem_body_of_order hbody hb) x.2 (List.mem_of_getElem? hat) i
            hi).mono ?_ hholds
          rintro callee ⟨k, hk, rfl⟩
          exact hfuncs k hk
        scope := by
          rw [Func.entries, hbody]
          exact hscope }

/-- Whatever was read can be written. -/
theorem scoped_of_decode {w : Wire.Module} (h : w.decode = .ok p) : p.Scoped := by
  obtain ⟨sigs, hsigs, h⟩ := bind_eq_ok.1 h
  obtain ⟨funcs, hfuncs, h⟩ := bind_eq_ok.1 h
  have hp := Except.ok.inj h
  have horder : p.order = (List.range p.funcs.length).map some := by rw [← hp]
  obtain rfl : p.funcs = funcs := by rw [← hp]
  obtain ⟨hlength, hnodup, -, hwhole⟩ := whole_of_decodeSignatures hsigs
  obtain ⟨hnames, hbodies⟩ := body_of_decodeFuncs hfuncs
  obtain ⟨hfunctions, hlisted⟩ := Program.functions_of_order horder
  have hzip : (w.functions.zip sigs).map (fun x => x.1.name) = w.functions.map Wire.Func.name := by
    have hfst := List.map_fst_zip (Nat.le_of_eq hlength.symm)
    exact List.map_map.symm.trans (congrArg (List.map Wire.Func.name) hfst)
  rw [hzip] at hnames
  have hlists : ∀ k < (w.functions.map Wire.Func.name).length, p.Lists (some ⟨k⟩) := by
    intro k hk
    rw [← hnames, List.length_map] at hk
    refine ⟨(⟨k⟩, p.funcs[k]), ?_, rfl⟩
    rw [hfunctions]
    exact mem_mapIdx_iff.2 ⟨k, _, List.getElem?_eq_getElem hk, rfl⟩
  refine ⟨hlisted, ?_, ?_⟩
  · have hmap : p.functions.map (fun e => e.2.name) = p.funcs.map Func.name := by
      rw [hfunctions]
      apply List.ext_getElem <;> simp
    rw [hmap, hnames]
    exact hnodup
  · intro e he
    rw [hfunctions] at he
    obtain ⟨k, f, hf, rfl⟩ := mem_mapIdx_iff.1 he
    obtain ⟨x, hx, blocks, hbody, rfl⟩ := hbodies k f hf
    obtain ⟨hqs, hresult⟩ := hwhole x.2 (List.of_mem_zip hx).2
    rw [Nat.zero_add] at hbody
    exact scoped_of_decodeBody hlists rfl hqs hresult rfl hbody

/-! ## Reloading -/

/-- The constant that the text of a constant is read as. -/
def Constant.reread (c : Constant) : Constant :=
  match Constant.parse c.wireText with
  | .ok c' => c'
  | .error _ => c

/-- A program that was read, and whose names can be told apart, keeps its wire form and its
fingerprint when it is written and read again, provided that the texts of its constants are read
as constants of the same type that have the same text. -/
theorem encode_reloaded {w : Wire.Module} {p : Program} (hdecode : w.decode = .ok p)
    (hlegible : p.Legible)
    (hconstants : ∀ c ∈ p.constants, ∃ c', Constant.parse c.wireText = .ok c' ∧
      c'.type = c.type ∧ c'.wireText = c.wireText) :
    ∃ w' p', p.encode = .ok w' ∧ w'.decode = .ok p' ∧ p'.encode = .ok w' ∧
      p'.fingerprint = p.fingerprint := by
  have hscoped := scoped_of_decode hdecode
  have hreread : ∀ c ∈ p.constants, Constant.parse c.wireText = .ok c.reread ∧
      c.reread.type = c.type ∧ c.reread.wireText = c.wireText := by
    intro c hc
    obtain ⟨c', hparse, htype, htext⟩ := hconstants c hc
    rw [Constant.reread, hparse]
    exact ⟨rfl, htype, htext⟩
  obtain ⟨w', hencode, hagain⟩ := hscoped.decode_encoded hlegible fun c hc => (hreread c hc).1
  have hsame := hscoped.encode_settled (fun c hc => (hreread c hc).2.1)
    fun c hc => (hreread c hc).2.2
  refine ⟨w', _, hencode, hagain, hsame.trans hencode, ?_⟩
  rw [Program.fingerprint, Program.fingerprint, Program.msgpack, Program.msgpack, hsame]

/-- Copies an element to its neighbour, with the given names for the address and the element. -/
def copying (address element : Text) : Wire.Module where
  name := "m"
  functions := [{
    name := "copy"
    params := [⟨"data", "ptr<buffer, i32>"⟩]
    blocks := [{
      name := "entry"
      instrs := [
        { result := "seen", op := "local", type := "i32" },
        { result := address, op := "elementptr", args := ["%data", "i32 1"] },
        { result := element, op := "load", args := ["%data"] },
        { op := "store", args := ["%" ++ element, "%seen"] },
        { op := "br", targets := ["write"] }] }, {
      name := "write"
      instrs := [
        { op := "store", args := ["%" ++ element, "%" ++ address] },
        { op := "ret" }] }] }]

/-- What the copying kernel is read as. -/
def copied : Program where
  name := "m"
  funcs := [{
    name := "copy"
    params := [some ⟨"data", .pointer (.int 32) .buffer⟩]
    result := .void
    blocks := [
      ⟨"entry", none, [
        some (.localVar "seen" (.int 32)),
        some (.elementPtr (.param ⟨⟨0⟩, 0⟩) (.constant (.ofWord 1))),
        some (.load (.param ⟨⟨0⟩, 0⟩)),
        some (.store (.result ⟨⟨⟨0⟩, 0⟩, 2⟩) (.result ⟨⟨⟨0⟩, 0⟩, 0⟩)),
        some (.branch (some ⟨⟨0⟩, 1⟩))]⟩,
      ⟨"write", none, [
        some (.store (.result ⟨⟨⟨0⟩, 0⟩, 2⟩) (.result ⟨⟨⟨0⟩, 0⟩, 1⟩)),
        some (.ret .missing)]⟩]
    order := [some 0, some 1] }]
  order := [some 0]

theorem decode_copying : (copying "x" "y").decode = .ok copied := by decide +kernel

theorem legible_copied : copied.Legible := by
  intro e he
  refine ((scoped_of_decode decode_copying).functions e he).legible ?_ ?_ ?_ ?_ <;>
    revert e <;> decide

theorem parse_constants_copied :
    ∀ c ∈ copied.constants, Constant.parse c.wireText = .ok c := by
  have hconstants : copied.constants = [.ofWord 1] := by decide
  rw [hconstants]
  decide +kernel

theorem encode_reloaded_copying : ∃ w' p', copied.encode = .ok w' ∧ w'.decode = .ok p' ∧
    p'.encode = .ok w' ∧ p'.fingerprint = copied.fingerprint :=
  encode_reloaded decode_copying legible_copied fun c hc =>
    ⟨c, parse_constants_copied c hc, rfl, rfl⟩

/-- A kernel whose parameter is called as its first result is numbered. The second instruction
reads the given operand. -/
def clashing (source : Text) : Wire.Module where
  name := "m"
  functions := [{
    name := "k"
    params := [⟨"0", "ptr<buffer, i32>"⟩]
    blocks := [{
      name := "entry"
      instrs := [
        { result := "x", op := "elementptr", args := ["%0", "i32 1"] },
        { result := "y", op := "load", args := [source] },
        { op := "store", args := ["%y", "%x"] },
        { op := "ret" }] }] }]

/-- What the kernel is read as, given the value that its second instruction reads. -/
def clashed (source : Value) : Program where
  name := "m"
  funcs := [{
    name := "k"
    params := [some ⟨"0", .pointer (.int 32) .buffer⟩]
    result := .void
    blocks := [⟨"entry", none, [
      some (.elementPtr (.param ⟨⟨0⟩, 0⟩) (.constant (.ofWord 1))),
      some (.load source),
      some (.store (.result ⟨⟨⟨0⟩, 0⟩, 1⟩) (.result ⟨⟨⟨0⟩, 0⟩, 0⟩)),
      some (.ret .missing)]⟩]
    order := [some 0] }]
  order := [some 0]

/-- A valid program need not be readable again once it was written. -/
theorem decode_encode_clashing : ∃ p w', (clashing "%x").decode = .ok p ∧ p.validate = .ok [] ∧
    p.encode = .ok w' ∧ ∀ p', w'.decode ≠ .ok p' := by
  have hdecode : (clashing "%x").decode = .ok (clashed (.result ⟨⟨⟨0⟩, 0⟩, 0⟩)) := by
    decide +kernel
  have hvalidate : (clashed (.result ⟨⟨⟨0⟩, 0⟩, 0⟩)).validate = .ok [] := by decide +kernel
  have hagain : ((clashed (.result ⟨⟨⟨0⟩, 0⟩, 0⟩)).encode.toOption.map
      fun w' => w'.decode.isOk) = some false := by decide +kernel
  cases hencode : (clashed (.result ⟨⟨⟨0⟩, 0⟩, 0⟩)).encode with
  | error panic =>
    rw [hencode] at hagain
    cases hagain
  | ok w' =>
    refine ⟨_, w', hdecode, hvalidate, hencode, fun p' hp' => ?_⟩
    rw [hencode] at hagain
    simp [Except.toOption, hp', Except.isOk, Except.toBool] at hagain

end Elementwise.IR
