import Elementwise.Proofs.Interning

/-!
# What the generator writes for an instruction

Every instruction of a block is written as the relation of programs and translations has it, and
gives an id to its value, if it has one that is not a local variable.
-/
namespace Elementwise.Spirv
open IR Gen

namespace Opcode

variable {op : Opcode} {words : List UInt32}

theorem IsUnary.isMerge (h : op.IsUnary) : (⟨op, words⟩ : Instruction).isMerge = false := by
  obtain ⟨name, hs⟩ := h
  simp only [Instruction.isMerge, Bool.or_eq_false_iff, decide_eq_false_iff_not]
  constructor <;> rintro rfl <;> cases hs

theorem IsBinary.isMerge (h : op.IsBinary) : (⟨op, words⟩ : Instruction).isMerge = false := by
  obtain ⟨name, hs⟩ := h
  simp only [Instruction.isMerge, Bool.or_eq_false_iff, decide_eq_false_iff_not]
  constructor <;> rintro rfl <;> cases hs

end Opcode

variable {v value x : Value} {domain : Domain} {label word : UInt32} {opcode : Opcode}
  {args : List Value} {callee : Option FuncId} {target : Option BlockId}
  {instrs : List (InstrId × Option Instr)}

theorem isBinary_of_arithmetic {op : BinaryOp} (h : (op, domain, opcode) ∈ arithmeticTable) :
    opcode.IsBinary := by
  have hrows : ∀ row ∈ arithmeticTable, row.2.2.IsBinary := by
    simp only [arithmeticTable, List.forall_mem_cons, List.not_mem_nil, false_implies,
      implies_true, and_true]
    refine ⟨?_, ?_, ?_, ?_, ?_, ?_, ?_, ?_, ?_, ?_, ?_, ?_, ?_, ?_, ?_⟩ <;> exact ⟨_, rfl⟩
  exact hrows _ h

theorem isBinary_of_comparison {pred : Predicate} (h : (pred, domain, opcode) ∈ comparisonTable) :
    opcode.IsBinary := by
  have hrows : ∀ row ∈ comparisonTable, row.2.2.IsBinary := by
    simp only [comparisonTable, List.forall_mem_cons, List.not_mem_nil, false_implies,
      implies_true, and_true]
    refine ⟨?_, ?_, ?_, ?_, ?_, ?_, ?_, ?_, ?_, ?_, ?_, ?_, ?_, ?_, ?_, ?_, ?_, ?_⟩ <;>
      exact ⟨_, rfl⟩
  exact hrows _ h

theorem isUnary_of_conversion {source target : Ty} {d e : Domain}
    (h : Conversion source target d e opcode) : opcode.IsUnary := by
  cases h <;> exact ⟨_, rfl⟩

theorem isUnary_negate (domain : Domain) :
    (if domain = .float then Opcode.fNegate else Opcode.sNegate).IsUnary := by
  split <;> exact ⟨_, rfl⟩

namespace Place

variable {T : Text → Prop} {p : Place} {s s' : Generator} {id : InstrId} {u : Unit}

/-! ## Operands and labels -/

/-- Parameters and results have the ids that they were given. -/
theorem given_ok (h : p.given v s = .ok word s') : s = s' ∧ (v, word) ∈ s.body.values := by
  simp only [given, bind_ok, get_ok] at h
  obtain ⟨_, _, ⟨rfl, rfl⟩, h⟩ := h
  cases hl : List.lookup v s.body.values with
  | none => simp only [hl, Place.fail_ok] at h
  | some found =>
    simp only [hl, pure_ok] at h
    obtain ⟨rfl, rfl⟩ := h
    exact ⟨rfl, mem_of_lookup hl⟩

theorem operand_ok (h : p.operand v s = .ok word s') :
    (∃ c, v = .constant c ∧ constantId c s = .ok word s') ∨
      (s = s' ∧ (v, word) ∈ s.body.values ∧
        ∀ N : Naming, (v, word) ∈ N.values → N.operand v word) := by
  cases v with
  | missing => exact absurd h Place.fail_ok.1
  | constant c => exact Or.inl ⟨c, rfl, Place.run_ok.1 h⟩
  | param q =>
    obtain ⟨hs, hmem⟩ := given_ok (v := .param q) h
    exact Or.inr ⟨hs, hmem, fun _ hN => hN⟩
  | result r =>
    obtain ⟨hs, hmem⟩ := given_ok (v := .result r) h
    exact Or.inr ⟨hs, hmem, fun _ hN => hN⟩

theorem operand_spec (h : p.operand v s = .ok word s') :
    Spec T s {} s' fun N => word ∈ N.known ∧
      ((resultIds N.declared).Nodup → N.operand v word) := by
  rcases operand_ok h with ⟨c, rfl, hc⟩ | ⟨rfl, hmem, hoperand⟩
  · exact constantId_spec hc
  · refine Spec.same fun hs N hN => ⟨?_, fun _ => hoperand _ (hN.values.subset hmem)⟩
    exact View.known_subset hN (hs.values _ hmem)

/-- An operand that is not a constant was given its id before. -/
theorem operand_earlier (h : p.operand v s = .ok word s') :
    (∃ c, v = .constant c) ∨ (v, word) ∈ s'.body.values := by
  rcases operand_ok h with ⟨c, hc, -⟩ | ⟨rfl, hmem, -⟩
  · exact Or.inl ⟨c, hc⟩
  · exact Or.inr hmem

theorem label_ok (h : p.label target s = .ok word s') :
    s = s' ∧ ∃ b, target = some b ∧ List.lookup b s.body.labels = some word := by
  cases target with
  | none => exact absurd h Place.fail_ok.1
  | some b =>
    simp only [label, bind_ok, get_ok] at h
    obtain ⟨_, _, ⟨rfl, rfl⟩, h⟩ := h
    cases hl : List.lookup b s.body.labels with
    | none => simp only [hl, Place.fail_ok] at h
    | some found =>
      simp only [hl, pure_ok] at h
      exact ⟨h.2, b, rfl, by rw [hl, h.1]⟩

theorem label_spec (h : p.label target s = .ok word s') :
    Spec T s {} s' fun N => N.label target word := by
  obtain ⟨rfl, b, rfl, hl⟩ := label_ok h
  exact Spec.same fun _ N hN => ⟨b, rfl, hN.labels (mem_of_lookup hl)⟩

theorem readable_label {N : View} (h : N.label target word) : N.Readable word := by
  obtain ⟨b, -, hmem⟩ := h
  exact Or.inr (Or.inr (Or.inl (List.mem_map.2 ⟨_, hmem, rfl⟩)))

theorem readable_type {N : View} {t : Ty} (h : N.type t word) :
    N.Readable word := Or.inl (List.mem_append_left _ h.mem_resultIds)

/-! ## Computations -/

theorem emitBinary_spec (T : Text → Prop) {op : Opcode} {l r : Value} (hop : op.IsBinary)
    (h : p.emitBinary id op l r s = .ok u s') :
    ∃ type word a b, Spec T s
      { keys := [.result id], out := [⟨op, [type, word, a, b]⟩] } s' fun N =>
        (resultIds N.declared).Nodup →
          (∃ t, p.frame.program.typeOf (.result id) = .ok t ∧ N.type t type) ∧
          N.operand l a ∧ N.operand r b ∧ (.result id, word) ∈ N.values := by
  simp only [emitBinary, bind_ok, Place.typeOf_ok, Place.run_ok, Build.binary, emitNew_ok,
    Place.define, modifyBody_ok] at h
  obtain ⟨t, _, ⟨ht, rfl⟩, type, s₁, htype, a, s₂, ha, b, s₃, hb, _, _, ⟨rfl, rfl⟩, rfl⟩ := h
  have hids : Spec T s {} s₃ _ :=
    ((typeId_spec htype).trans (operand_spec ha)).trans (operand_spec hb)
  refine ⟨type, s₃.next, a, b, Spec.imp
    ((hids.andEmitNew (Profile.binary hop) hop.isMerge ?_).andDefine fun hF => hF.2) ?_⟩
  · rintro ⟨⟨hN, ha, -⟩, hb, -⟩
    exact List.forall_iff_forall_mem.1 ⟨readable_type hN, Or.inl ha, Or.inl hb⟩
  · rintro N ⟨⟨⟨⟨hN, -, ha⟩, -, hb⟩, -⟩, hvalue⟩ hnodup
    exact ⟨⟨t, ht, hN⟩, ha hnodup, hb hnodup, hvalue⟩

theorem emitUnary_spec (T : Text → Prop) {op : Opcode} (hop : op.IsUnary)
    (h : p.emitUnary id op x s = .ok u s') :
    ∃ type word a, Spec T s
      { keys := [.result id], out := [⟨op, [type, word, a]⟩] } s' fun N =>
        (resultIds N.declared).Nodup →
          (∃ t, p.frame.program.typeOf (.result id) = .ok t ∧ N.type t type) ∧
          N.operand x a ∧ (.result id, word) ∈ N.values := by
  simp only [emitUnary, bind_ok, Place.typeOf_ok, Place.run_ok, Build.unary, emitNew_ok,
    Place.define, modifyBody_ok] at h
  obtain ⟨t, _, ⟨ht, rfl⟩, type, s₁, htype, a, s₂, ha, _, _, ⟨rfl, rfl⟩, rfl⟩ := h
  have hids : Spec T s {} s₂ _ := (typeId_spec htype).trans (operand_spec ha)
  refine ⟨type, s₂.next, a, Spec.imp
    ((hids.andEmitNew (Profile.unary hop) hop.isMerge ?_).andDefine fun hF => hF.2) ?_⟩
  · rintro ⟨hN, ha, -⟩
    exact List.forall_iff_forall_mem.1 ⟨readable_type hN, Or.inl ha⟩
  · rintro N ⟨⟨⟨hN, -, ha⟩, -⟩, hvalue⟩ hnodup
    exact ⟨⟨t, ht, hN⟩, ha hnodup, hvalue⟩

theorem checkDomain_pair {l r : Value} (h : p.checkDomain domain none [l, r] s = .ok u s') :
    s = s' ∧ ∃ t, p.frame.program.typeOf l = .ok t ∧ p.frame.program.typeOf r = .ok t ∧
      domain.accepts t = true := by
  simp only [checkDomain, bind_ok, Place.typeOf_ok, Place.check_ok, pure_ok] at h
  obtain ⟨t, _, ⟨hl, rfl⟩, haccepts, t', _, ⟨hr, rfl⟩, -, heq, -, rfl⟩ := h
  obtain rfl := not_not.1 heq
  exact ⟨rfl, t', hl, hr, by simpa using haccepts⟩

theorem checkDomain_single (h : p.checkDomain domain none [x] s = .ok u s') :
    s = s' ∧ ∃ t, p.frame.program.typeOf x = .ok t ∧ domain.accepts t = true := by
  simp only [checkDomain, bind_ok, Place.typeOf_ok, Place.check_ok, pure_ok] at h
  obtain ⟨t, _, ⟨hx, rfl⟩, haccepts, -, rfl⟩ := h
  exact ⟨rfl, t, hx, by simpa using haccepts⟩

/-- What is written for an instruction, and the labels that are made for it. -/
abbrev LowersSpec (T : Text → Prop) (p : Place) (s : Generator) (keys : List Value)
    (id : InstrId) (i : Instr) (s' : Generator) : Prop :=
  ∃ made out, Spec T s { keys, made, out } s' fun N =>
    (resultIds N.declared).Nodup → Lowers N.toNaming p id i made out

theorem emitConvert_spec {source target : Domain} {t : Ty}
    (h : p.emitConvert id x source t target s = .ok u s') :
    LowersSpec T p s [.result id] id (.convert x source t target) s' := by
  simp only [emitConvert, bind_ok, Place.typeOf_ok, Place.check_ok] at h
  obtain ⟨-, v, _, ⟨hx, rfl⟩, _, s₁, hsource, _, s₂, htarget, h⟩ := h
  obtain ⟨rfl, hspec⟩ : _ ∧ Spec T s {} s₁ _ := normalize_ok hsource
  obtain ⟨rfl, hspec'⟩ : _ ∧ Spec T s₁ {} s₂ _ := normalize_ok htarget
  cases hop : convertOpcode? (normalized v) (normalized t) source target with
  | none => simp only [hop, Place.fail_ok] at h
  | some op =>
    have hconversion := conversion_iff.2 hop
    simp only [hop, ite_ok] at h
    by_cases heq : normalized v = normalized t
    · rw [if_pos heq] at h
      simp only [bind_ok, Place.define, modifyBody_ok] at h
      obtain ⟨a, s₃, ha, rfl⟩ := h
      have hids : Spec T s {} s₃ _ := (hspec.trans hspec').trans (operand_spec ha)
      refine ⟨[], [], Spec.imp (hids.andDefineNext fun hF => hF.2.1) ?_⟩
      rintro N ⟨⟨-, -, hN⟩, hvalue⟩ hnodup
      exact .standsFor hx hconversion heq (hN hnodup) ⟨_, hvalue, operand_earlier ha⟩
    · rw [if_neg heq] at h
      obtain ⟨type, word, a, hunary⟩ :=
        emitUnary_spec T (isUnary_of_conversion hconversion) h
      refine ⟨[], _, Spec.imp ((hspec.trans hspec').trans hunary) ?_⟩
      rintro N ⟨-, hN⟩ hnodup
      obtain ⟨htype, ha, hvalue⟩ := hN hnodup
      exact .convert hx hconversion heq htype ha hvalue

/-! ## Memory -/

theorem emitLoad_spec {pointer : Value} (h : p.emitLoad id pointer s = .ok u s') :
    LowersSpec T p s [.result id] id (.load pointer) s' := by
  simp only [emitLoad, bind_ok, Place.typeOf_ok] at h
  obtain ⟨t, _, ⟨ht, rfl⟩, h⟩ := h
  cases t <;> simp only [Place.fail_ok] at h
  next elem space =>
  simp only [bind_ok, Place.run_ok, Build.load, Build.unary, emitNew_ok, Place.define,
    modifyBody_ok] at h
  obtain ⟨type, s₁, htype, a, s₂, ha, _, _, ⟨rfl, rfl⟩, rfl⟩ := h
  have hids : Spec T s {} s₂ _ := (typeId_spec htype).trans (operand_spec ha)
  refine ⟨[], _, Spec.imp ((hids.andEmitNew Profile.load rfl ?_).andDefine fun hF => hF.2) ?_⟩
  · rintro ⟨hN, ha, -⟩
    exact List.forall_iff_forall_mem.1 ⟨readable_type hN, Or.inl ha⟩
  · rintro N ⟨⟨⟨hN, -, ha⟩, -⟩, hvalue⟩ hnodup
    exact .load ht hN (ha hnodup) hvalue

theorem emitStore_spec {pointer : Value} (h : p.emitStore value pointer s = .ok u s') :
    LowersSpec T p s [] id (.store value pointer) s' := by
  simp only [emitStore, bind_ok, Place.typeOf_ok] at h
  obtain ⟨t, _, ⟨ht, rfl⟩, h⟩ := h
  cases t <;> simp only [Place.fail_ok] at h
  next elem space =>
  simp only [bind_ok, Place.typeOf_ok, Place.check_ok, Build.store, emit_ok] at h
  obtain ⟨v, _, ⟨hv, rfl⟩, heq, a, s₁, ha, b, s₂, hb, rfl⟩ := h
  obtain rfl := not_not.1 heq
  have hids : Spec T s {} s₂ _ := (operand_spec ha).trans (operand_spec hb)
  refine ⟨[], _, Spec.imp (hids.andEmit Profile.store rfl ?_) ?_⟩
  · rintro ⟨⟨ha, -⟩, hb, -⟩
    exact List.forall_iff_forall_mem.1 ⟨Or.inl ha, Or.inl hb⟩
  · rintro N ⟨⟨-, ha⟩, -, hb⟩ hnodup
    exact .store ht hv (ha hnodup) (hb hnodup)

theorem emitElementPtr_spec {base index : Value} (h : p.emitElementPtr id base index s = .ok u s') :
    LowersSpec T p s [.result id] id (.elementPtr base index) s' := by
  simp only [emitElementPtr, bind_ok, Place.typeOf_ok] at h
  obtain ⟨t, _, ⟨ht, rfl⟩, h⟩ := h
  cases t <;> simp only [Place.fail_ok] at h
  next elem space =>
  simp only [bind_ok, Place.typeOf_ok, Place.run_ok, Place.check_ok, Build.ptrAccessChain,
    emitNew_ok, Place.define, modifyBody_ok] at h
  obtain ⟨hspace, v, _, ⟨hv, rfl⟩, hint, type, s₁, htype, a, s₂, ha, b, s₃, hb, _, _,
    ⟨rfl, rfl⟩, rfl⟩ := h
  obtain rfl := not_not.1 hspace
  have hids : Spec T s {} s₃ _ :=
    ((stridedPointerId_spec htype).trans (operand_spec ha)).trans (operand_spec hb)
  refine ⟨[], _, Spec.imp
    ((hids.andEmitNew Profile.ptrAccessChain rfl ?_).andDefine fun hF => hF.2) ?_⟩
  · rintro ⟨⟨hN, ha, -⟩, hb, -⟩
    exact List.forall_iff_forall_mem.1 ⟨readable_type hN, Or.inl ha, Or.inl hb⟩
  · rintro N ⟨⟨⟨⟨hN, -, ha⟩, -, hb⟩, -⟩, hvalue⟩ hnodup
    exact .elementPtr ht hv (by simpa using hint) hN (ha hnodup) (hb hnodup) hvalue

/-! ## Calls and returns -/

theorem arguments_spec (T : Text → Prop) {callee : Text} {index : Nat}
    {params : List (Option Param)} {ids : List UInt32}
    (h : p.arguments callee index args params s = .ok ids s')
    (hlength : args.length = params.length) :
    ∃ qs, params = qs.map some ∧
      List.Forall₂ (fun v (q : Param) => p.frame.program.typeOf v = .ok q.type) args qs ∧
      Spec T s {} s' fun N => (∀ w ∈ ids, w ∈ N.known) ∧
        ((resultIds N.declared).Nodup → List.Forall₂ N.operand args ids) := by
  induction args generalizing index params ids s with
  | nil =>
    obtain rfl := List.length_eq_zero_iff.1 hlength.symm
    simp only [arguments, pure_ok] at h
    obtain ⟨rfl, rfl⟩ := h
    exact ⟨[], rfl, .nil, Spec.same fun _ _ _ => ⟨by simp, fun _ => .nil⟩⟩
  | cons v rest ih =>
    obtain _ | ⟨_ | q, qs⟩ := params
    · cases hlength
    · exact absurd h throw_ok.1
    · simp only [arguments, bind_ok, Place.typeOf_ok, Place.check_ok, pure_ok] at h
      obtain ⟨t, _, ⟨ht, rfl⟩, heq, a, s₁, ha, tail, s₂, htail, rfl, rfl⟩ := h
      obtain rfl := not_not.1 heq
      obtain ⟨qs, rfl, htypes, hspec⟩ := ih htail (Nat.succ.inj hlength)
      refine ⟨q :: qs, rfl, .cons ht htypes, Spec.imp ((operand_spec ha).trans hspec) ?_⟩
      rintro N ⟨⟨hknown, ha⟩, hrest, hoperands⟩
      exact ⟨List.forall_mem_cons.2 ⟨hknown, hrest⟩, fun hn => .cons (ha hn) (hoperands hn)⟩

/-- A call is of a function that has an id, with an argument for each parameter. -/
theorem emitCall_ok (h : p.emitCall id callee args s = .ok u s') :
    ∃ f g function ids type s₁ s₂, callee = some f ∧ p.frame.program.func? f = some g ∧
      (some f, function) ∈ s.functions ∧ args.length = g.params.length ∧
      p.arguments g.name 0 args g.params s = .ok ids s₁ ∧ typeId g.resultType s₁ = .ok type s₂ ∧
      (build (.functionCall type function ids) >>= define id) s₂ = .ok u s' := by
  unfold emitCall at h
  cases hcallee : callee.bind fun f => (p.frame.program.func? f).map fun g => (f, g) with
  | none => simp only [hcallee, Place.fail_ok] at h
  | some entry =>
    obtain ⟨f, g⟩ := entry
    obtain ⟨_, rfl, hfunc⟩ := Option.bind_eq_some_iff.1 hcallee
    obtain ⟨_, hg, heq⟩ := Option.map_eq_some_iff.1 hfunc
    cases heq
    simp only [hcallee, bind_ok, get_ok] at h
    obtain ⟨_, _, ⟨rfl, rfl⟩, h⟩ := h
    cases hl : List.lookup (some f) s.functions with
    | none => simp only [hl, Place.fail_ok] at h
    | some function =>
      simp only [hl, bind_ok, Place.check_ok, Place.run_ok] at h
      obtain ⟨hlength, ids, s₁, hids, type, s₂, htype, h⟩ := h
      exact ⟨f, g, function, ids, type, s₁, s₂, rfl, hg, mem_of_lookup hl, not_not.1 hlength, hids,
        htype, bind_ok.2 h⟩

theorem emitCall_spec (h : p.emitCall id callee args s = .ok u s') :
    LowersSpec T p s [.result id] id (.call callee args) s' := by
  obtain ⟨f, g, function, ids, type, s₁, s₂, rfl, hg, hmem, hlength, hids, htype, h⟩ :=
    emitCall_ok h
  simp only [bind_ok, Build.functionCall, emitNew_ok, Place.define, modifyBody_ok] at h
  obtain ⟨_, _, ⟨rfl, rfl⟩, rfl⟩ := h
  obtain ⟨qs, hparams, hargs, hspec⟩ := arguments_spec T hids hlength
  have hfunction : Spec T s {} s fun N => (some f, function) ∈ N.functions :=
    Spec.same fun _ N hN => hN.functions hmem
  have hall : Spec T s {} s₂ _ := (hfunction.trans hspec).trans (typeId_spec htype)
  refine ⟨[], _, Spec.imp
    ((hall.andEmitNew Profile.functionCall rfl ?_).andDefine fun hF => hF.2) ?_⟩
  · rintro ⟨⟨hf, hknown, -⟩, hN⟩
    simp only [List.forall_mem_cons]
    exact ⟨readable_type hN, Or.inr (Or.inl (List.mem_map.2 ⟨_, hf, rfl⟩)),
      fun r hr => Or.inl (hknown r hr)⟩
  · rintro N ⟨⟨⟨⟨hf, -, hoperands⟩, hN⟩, -⟩, hvalue⟩ hnodup
    exact .call hg hf hparams hargs (hoperands hnodup) hN hvalue

/-- A value is returned by its id, if it has the type of the result. -/
theorem emitReturn_ok (hv : value ≠ .missing) (h : p.emitReturn value s = .ok u s') :
    p.frame.program.typeOf value = .ok p.frame.func.resultType ∧ ∃ a t,
      p.operand value s = .ok a t ∧ t.put t.assembly.current ⟨.returnValue, [a]⟩ = s' := by
  have hrun : (do
      let t ← p.typeOf value
      if t ≠ p.frame.func.resultType then p.fail (.returnMismatch t p.frame.func.resultType)
      let id ← p.operand value
      build (.returnValue id) : Gen Unit) s = .ok u s' := by
    cases value with
    | missing => exact absurd rfl hv
    | constant c => exact h
    | param q => exact h
    | result r => exact h
  simp only [bind_ok, Place.typeOf_ok, Place.check_ok, Build.returnValue, emit_ok] at hrun
  obtain ⟨t, _, ⟨ht, rfl⟩, heq, hrest⟩ := hrun
  exact ⟨not_not.1 heq ▸ ht, hrest⟩

theorem emitReturn_spec (h : p.emitReturn value s = .ok u s') :
    LowersSpec T p s [] id (.ret value) s' := by
  by_cases hv : value = .missing
  · subst hv
    simp only [emitReturn, Place.check_ok, Build.ret, emit_ok] at h
    obtain ⟨hvoid, rfl⟩ := h
    exact ⟨[], _, (Spec.emit Profile.ret rfl (by simp)).imp fun N _ _ => .ret (not_not.1 hvoid)⟩
  · obtain ⟨ht, a, s₁, ha, rfl⟩ := emitReturn_ok hv h
    have hid : Spec T s {} s₁ _ := operand_spec ha
    refine ⟨[], _, Spec.imp (hid.andEmit Profile.returnValue rfl ?_) ?_⟩
    · rintro ⟨ha, -⟩ r hr
      rw [List.mem_singleton.1 hr]
      exact Or.inl ha
    · rintro N ⟨-, ha⟩ hnodup
      exact .returnValue hv ht (ha hnodup)

/-! ## Branches -/

theorem claimMerge_ok (h : p.claimMerge label s = .ok u s') :
    label ∉ s.body.merges ∧
      s' = { s with body := { s.body with merges := label :: s.body.merges } } := by
  simp only [claimMerge, bind_ok, get_ok, Place.check_ok, modifyBody_ok] at h
  obtain ⟨_, _, ⟨rfl, rfl⟩, hnew, rfl⟩ := h
  exact ⟨by simpa using hnew, rfl⟩

theorem emitLoopHeader_spec (T : Text → Prop) (h : p.emitLoopHeader s = .ok u s') :
    ∃ out, Spec T s { out } s' fun N => LoopHeader N.toNaming p out := by
  unfold emitLoopHeader at h
  cases hloop : p.block.loop with
  | none =>
    simp only [hloop, pure_ok] at h
    obtain ⟨-, rfl⟩ := h
    exact ⟨[], Spec.same fun _ _ _ => .none hloop⟩
  | some loop =>
    simp only [hloop, bind_ok, Build.loopMerge, emit_ok] at h
    obtain ⟨merge, s₁, hmerge, continue_, s₂, hcontinue, _, s₃, hclaim, rfl⟩ := h
    have hlabels : Spec T s {} s₂ _ := (label_spec hmerge).trans (label_spec hcontinue)
    obtain ⟨hnew, rfl⟩ := claimMerge_ok hclaim
    refine ⟨_, Spec.imp (hlabels.andClaim Profile.loopMerge rfl rfl hnew ?_) ?_⟩
    · rintro ⟨hm, hc⟩
      exact List.forall_iff_forall_mem.1 ⟨readable_label hm, readable_label hc⟩
    · rintro N ⟨hm, hc⟩
      exact .loop hloop hm hc

/-- The label that is chosen for a merge: that of a listed block, or a new one. -/
theorem selectionMerge_spec (T : Text → Prop) {onTrue onFalse : BlockId}
    {merge : Option BlockId} (h : p.selectionMerge onTrue onFalse merge s = .ok label s')
    (hleaves : p.frame.layout.leavesLoop p.position onTrue onFalse = false) :
    ∃ made, Spec T s { made } s' fun N => N.Readable label ∧
      SelectionHeader N.toNaming p onTrue onFalse merge made
        [⟨.selectionMerge, [label, noControl]⟩] := by
  unfold selectionMerge at h
  cases merge with
  | some b =>
    refine ⟨[], (label_spec h).imp fun N hN => ⟨readable_label hN, .named hleaves hN⟩⟩
  | none =>
    cases hmeet : p.frame.layout.meeting? p.position onTrue onFalse with
    | some b =>
      simp only [hmeet] at h
      exact ⟨[], (label_spec h).imp fun N hN => ⟨readable_label hN, .meeting hleaves hmeet hN⟩⟩
    | none =>
      simp only [hmeet, bind_ok, allocId_ok, modifyBody_ok, pure_ok] at h
      obtain ⟨_, _, ⟨rfl, rfl⟩, _, _, rfl, rfl, rfl⟩ := h
      refine ⟨[s.next], (Spec.make rfl).imp fun N hN => ⟨?_, .synthesized hleaves hmeet⟩⟩
      exact Or.inr (Or.inr (Or.inr hN))

theorem emitBranch_spec (h : p.emitBranch target s = .ok u s') :
    LowersSpec T p s [] id (.branch target) s' := by
  simp only [emitBranch, bind_ok, Build.branch, emit_ok] at h
  obtain ⟨label, s₁, hlabel, _, s₂, hheader, rfl⟩ := h
  obtain ⟨header, hspec⟩ := emitLoopHeader_spec T hheader
  have hall : Spec T s _ s₂ _ := (label_spec hlabel).trans hspec
  refine ⟨[], _, Spec.imp (hall.andEmit Profile.branch rfl ?_) ?_⟩
  · rintro ⟨hN, -⟩ r hr
    rw [List.mem_singleton.1 hr]
    exact readable_label hN
  · rintro N ⟨hN, hheader⟩ _
    exact .branch hN hheader

/-- The end of a conditional branch, after its merge was written. -/
theorem branchConditional_spec {e : Effect} {cond : Value} {onTrue onFalse : Option BlockId}
    {c t f : UInt32} {s₁ s₂ : Generator} {F : View → Prop}
    (hids : Spec T s {} s₁ fun N => ((c ∈ N.known ∧
      ((resultIds N.declared).Nodup → N.operand cond c)) ∧ N.label onTrue t) ∧ N.label onFalse f)
    (hheader : Spec T s₁ e s₂ F) :
    Spec T s ({} ++ e ++ { out := [⟨.branchConditional, [c, t, f]⟩] })
      (s₂.put s₂.assembly.current ⟨.branchConditional, [c, t, f]⟩) fun N =>
        ((resultIds N.declared).Nodup → N.operand cond c) ∧ N.label onTrue t ∧
          N.label onFalse f ∧ F N := by
  refine Spec.imp ((hids.trans hheader).andEmit Profile.branchConditional rfl ?_) ?_
  · rintro ⟨⟨⟨⟨hc, -⟩, ht⟩, hf⟩, -⟩
    exact List.forall_iff_forall_mem.1 ⟨Or.inl hc, readable_label ht, readable_label hf⟩
  · rintro N ⟨⟨⟨⟨-, hc⟩, ht⟩, hf⟩, hF⟩
    exact ⟨hc, ht, hf, hF⟩

theorem emitCondBranch_spec {cond : Value} {onTrue onFalse merge : Option BlockId}
    (h : p.emitCondBranch cond onTrue onFalse merge s = .ok u s') :
    LowersSpec T p s [] id (.condBranch cond onTrue onFalse merge) s' := by
  simp only [emitCondBranch, bind_ok, Place.typeOf_ok, Place.check_ok] at h
  obtain ⟨ty, _, ⟨hty, rfl⟩, hbool, c, s₁, hc, t, s₂, ht, f, s₃, hf, h⟩ := h
  obtain rfl := not_not.1 hbool
  have hids : Spec T s {} s₃ _ :=
    ((operand_spec hc).trans (label_spec ht)).trans (label_spec hf)
  obtain ⟨-, bt, rfl, -⟩ := label_ok ht
  obtain ⟨-, bf, rfl, -⟩ := label_ok hf
  cases hloop : p.block.loop with
  | some loop =>
    simp only [hloop, bind_ok, Build.branchConditional, emit_ok] at h
    obtain ⟨_, s₄, hheader, rfl⟩ := h
    obtain ⟨header, hspec⟩ := emitLoopHeader_spec T hheader
    refine ⟨[], _, Spec.imp (branchConditional_spec hids hspec) ?_⟩
    rintro N ⟨hc, ht, hf, hheader⟩ hnodup
    exact .loopBranch hty (hc hnodup) ht hf (by simp [hloop]) hheader
  | none =>
    simp only [hloop, ite_ok, bind_ok, Build.selectionMerge, Build.branchConditional,
      emit_ok] at h
    by_cases hleaves : p.frame.layout.leavesLoop p.position bt bf = true
    · rw [if_neg (by simp [hleaves])] at h
      subst h
      have hnothing : Spec T s₃ {} s₃ fun N =>
          SelectionHeader N.toNaming p bt bf merge [] [] := Spec.same fun _ _ _ => .leaves hleaves
      refine ⟨[], _, Spec.imp (branchConditional_spec hids hnothing) ?_⟩
      rintro N ⟨hc, ht, hf, hheader⟩ hnodup
      exact .condBranch hty (hc hnodup) ht hf hloop hheader
    · rw [if_pos (by simpa using hleaves)] at h
      obtain ⟨label, s₄, hmerge, _, s₅, hclaim, _, _, rfl, rfl⟩ := h
      obtain ⟨made, hspec⟩ := selectionMerge_spec T hmerge (by simpa using hleaves)
      obtain ⟨hnew, rfl⟩ := claimMerge_ok hclaim
      have hheader : Spec T s₃
          ({ made } ++ { out := [⟨.selectionMerge, [label, noControl]⟩] }) _ _ :=
        hspec.andClaim Profile.selectionMerge rfl rfl hnew fun hF r hr => by
          rw [List.mem_singleton.1 hr]
          exact hF.1
      refine ⟨made, [⟨.selectionMerge, [label, noControl]⟩, ⟨.branchConditional, [c, t, f]⟩],
        Spec.effect (Spec.imp (branchConditional_spec hids hheader) ?_) ?_⟩
      · rintro N ⟨hc, ht, hf, -, hheader⟩ hnodup
        exact .condBranch hty (hc hnodup) ht hf hloop hheader
      · ext1 <;> simp

/-! ## Instructions and blocks -/

theorem emitInstr_spec (T : Text → Prop) {slot : Option Instr}
    (h : p.emitInstr id slot s = .ok u s') :
    ∃ i, slot = some i ∧ LowersSpec T p s (loweredKeys id i) id i s' := by
  cases slot with
  | none => exact absurd h Place.fail_ok.1
  | some i =>
    refine ⟨i, rfl, ?_⟩
    simp only [emitInstr, Place.check_ok] at h
    obtain ⟨-, h⟩ := h
    cases i with
    | localVar name elem =>
      obtain ⟨-, rfl⟩ := pure_ok.1 h
      exact ⟨[], [], Spec.same fun _ _ _ _ => .localVar⟩
    | binary op domain l r =>
      obtain ⟨_, s₁, hdomain, h⟩ := bind_ok.1 h
      obtain ⟨rfl, t, hl, hr, haccepts⟩ := checkDomain_pair hdomain
      cases hop : binaryOpcode? op domain with
      | none => simp only [hop, Place.fail_ok] at h
      | some opcode =>
        have hrow := mem_arithmeticTable.2 hop
        simp only [hop] at h
        obtain ⟨type, word, a, b, hspec⟩ :=
          emitBinary_spec T (isBinary_of_arithmetic hrow) h
        refine ⟨[], _, hspec.imp fun N hN hnodup => ?_⟩
        obtain ⟨htype, ha, hb, hvalue⟩ := hN hnodup
        exact .binary hl hr haccepts hrow htype ha hb hvalue
    | compare pred domain l r =>
      obtain ⟨_, s₁, hdomain, h⟩ := bind_ok.1 h
      obtain ⟨rfl, t, hl, hr, haccepts⟩ := checkDomain_pair hdomain
      cases hop : compareOpcode? pred domain with
      | none => simp only [hop, Place.fail_ok] at h
      | some opcode =>
        have hrow := mem_comparisonTable.2 hop
        simp only [hop] at h
        obtain ⟨type, word, a, b, hspec⟩ :=
          emitBinary_spec T (isBinary_of_comparison hrow) h
        refine ⟨[], _, hspec.imp fun N hN hnodup => ?_⟩
        obtain ⟨htype, ha, hb, hvalue⟩ := hN hnodup
        exact .compare hl hr haccepts hrow htype ha hb hvalue
    | negate domain x =>
      obtain ⟨_, s₁, hdomain, h⟩ := bind_ok.1 h
      obtain ⟨rfl, t, hx, haccepts⟩ := checkDomain_single hdomain
      obtain ⟨type, word, a, hspec⟩ := emitUnary_spec T (isUnary_negate domain) h
      refine ⟨[], _, hspec.imp fun N hN hnodup => ?_⟩
      obtain ⟨htype, ha, hvalue⟩ := hN hnodup
      exact .negate hx haccepts htype ha hvalue
    | convert x source t target => exact emitConvert_spec h
    | load pointer => exact emitLoad_spec h
    | store value pointer => exact emitStore_spec h
    | elementPtr base index => exact emitElementPtr_spec h
    | call callee args => exact emitCall_spec h
    | branch target => exact emitBranch_spec h
    | condBranch cond t f merge => exact emitCondBranch_spec h
    | ret value => exact emitReturn_spec h

theorem emitInstrs_spec (T : Text → Prop) (h : p.emitInstrs instrs s = .ok u s') :
    (∀ entry ∈ instrs.dropLast, ¬ entry.2.any Instr.isTerminator) ∧
      ∃ made out, Spec T s { keys := loweredValues instrs, made, out } s' fun N =>
        (resultIds N.declared).Nodup → LowersAll N.toNaming p instrs made out := by
  induction instrs generalizing s with
  | nil =>
    obtain ⟨-, rfl⟩ := pure_ok.1 h
    exact ⟨by simp, [], [], Spec.same fun _ _ _ _ => .nil⟩
  | cons entry rest ih =>
    obtain ⟨id, slot⟩ := entry
    simp only [emitInstrs, bind_ok, Place.check_ok] at h
    obtain ⟨hlast, _, s₁, hinstr, hrest⟩ := h
    obtain ⟨i, rfl, made, out, hspec⟩ := emitInstr_spec T hinstr
    obtain ⟨hinner, more, tail, htail⟩ := ih hrest
    refine ⟨?_, made ++ more, out ++ tail, Spec.effect (Spec.imp (hspec.trans htail) ?_) ?_⟩
    · cases rest with
      | nil => simp
      | cons next others =>
        rw [List.dropLast_cons_cons, List.forall_mem_cons]
        exact ⟨fun hterm => hlast (by simpa using hterm), hinner⟩
    · rintro N ⟨hhead, htail⟩ hnodup
      exact .cons (hhead hnodup) (htail hnodup)
    · ext1 <;> simp [loweredValues]

theorem map_snd_instrIds (b : Block) (id : BlockId) : (b.instrIds id).map Prod.snd = b.instrs := by
  apply List.ext_getElem <;> simp [Block.instrIds]

/-- The instructions of a block end in its only terminator. -/
theorem emitBlock_spec (T : Text → Prop) (h : p.emitBlock s = .ok u s') :
    p.block.terminator?.isSome ∧
      (∀ i ∈ p.block.instrs.dropLast, ¬ i.any Instr.isTerminator) ∧
      ∃ made out, Spec T s
        { keys := loweredValues (p.block.instrIds p.id), made, out } s' fun N =>
          (resultIds N.declared).Nodup →
            LowersAll N.toNaming p (p.block.instrIds p.id) made out := by
  simp only [emitBlock, Place.check_ok] at h
  obtain ⟨hterminator, hinstrs⟩ := h
  obtain ⟨hinner, hspec⟩ := emitInstrs_spec T hinstrs
  refine ⟨Option.isSome_iff_ne_none.2 fun hnone => hterminator (by simp [hnone]), ?_, hspec⟩
  rw [← map_snd_instrIds p.block p.id, ← List.map_dropLast]
  intro i hi
  obtain ⟨entry, he, rfl⟩ := List.mem_map.1 hi
  exact hinner entry he

/-! ## Local variables -/

theorem hoist_localVar_spec {name : Text} {elem : Ty} (hname : p.frame.debug → T name)
    (h : p.hoist id (some (.localVar name elem)) s = .ok u s') :
    ∃ type word, Spec T s
      { keys := [.result id], out := [⟨.variableOp, [type, word, StorageClass.function]⟩] } s'
      fun N => N.type (.pointer elem .function) type ∧ (.result id, word) ∈ N.values := by
  simp only [hoist, bind_ok, Place.run_ok, Build.localVariable, emitNew_ok, Place.define,
    modifyBody_ok, ite_ok] at h
  obtain ⟨type, s₁, htype, _, _, ⟨rfl, rfl⟩, _, _, rfl, h⟩ := h
  have hid : Spec T s {} s₁ _ := typeId_spec htype
  have hdefine : Spec T s
      { keys := [.result id]
        out := [⟨.variableOp, [type, s₁.next, StorageClass.function]⟩] } _ _ :=
    (hid.andEmitNew Profile.localVariable rfl fun hN r hr => by
      rw [List.mem_singleton.1 hr]
      exact readable_type hN).andDefine fun hF => hF.2
  refine ⟨type, s₁.next, ?_⟩
  by_cases hdebug : (p.frame.debug && !name.isEmpty) = true
  · rw [if_pos hdebug] at h
    simp only [Build.name, emitTo_ok] at h
    subst h
    refine Spec.effect (Spec.imp (hdefine.andThen Generator.clean_of_put fun _ hF =>
      Spec.name (Or.inl hF.1.2) (hname (by simp_all)) (Or.inl rfl)) ?_) rfl
    rintro N ⟨⟨⟨hN, -⟩, hvalue⟩, -⟩
    exact ⟨hN, hvalue⟩
  · rw [if_neg hdebug] at h
    obtain ⟨-, rfl⟩ := pure_ok.1 h
    exact hdefine.imp fun N hN => ⟨hN.1.1, hN.2⟩

theorem hoistAll_spec
    (hnames : p.frame.debug → ∀ id name elem, (id, some (.localVar name elem)) ∈ instrs →
      T name) (h : p.hoistAll instrs s = .ok u s') :
    ∃ locals, Spec T s { keys := hoistedValues instrs, out := locals } s' fun N =>
      Hoists N.toNaming instrs locals := by
  induction instrs generalizing s with
  | nil =>
    obtain ⟨-, rfl⟩ := pure_ok.1 h
    exact ⟨[], Spec.same fun _ _ _ => .nil⟩
  | cons entry rest ih =>
    obtain ⟨id, slot⟩ := entry
    simp only [hoistAll, bind_ok] at h
    obtain ⟨_, s₁, hhead, htail⟩ := h
    obtain ⟨locals, hspec⟩ := ih
      (fun hdebug id name elem hmem => hnames hdebug id name elem (List.mem_cons_of_mem _ hmem))
      htail
    by_cases hlocal : ∃ name elem, slot = some (.localVar name elem)
    · obtain ⟨name, elem, rfl⟩ := hlocal
      obtain ⟨type, word, hvar⟩ := hoist_localVar_spec
        (fun hdebug => hnames hdebug id name elem List.mem_cons_self) hhead
      refine ⟨_, Spec.effect (Spec.imp (hvar.trans hspec) ?_) rfl⟩
      rintro N ⟨⟨htype, hvalue⟩, htail⟩
      exact .localVar htype hvalue htail
    · have hother : ∀ name elem, slot ≠ some (.localVar name elem) :=
        fun name elem heq => hlocal ⟨name, elem, heq⟩
      have hsame : s = s₁ ∧ hoistedKeys id slot = [] := by
        cases slot with
        | none => exact ⟨(pure_ok.1 hhead).2, rfl⟩
        | some i =>
          cases i with
          | localVar name elem => exact absurd rfl (hother name elem)
          | _ => exact ⟨(pure_ok.1 hhead).2, rfl⟩
      obtain ⟨rfl, hkeys⟩ := hsame
      refine ⟨locals, Spec.effect (hspec.imp fun N hN => .other hother hN) ?_⟩
      simp [hoistedValues, hkeys]

end Place

end Elementwise.Spirv
