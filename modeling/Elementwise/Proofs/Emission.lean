import Elementwise.Proofs.Meeting
import Elementwise.Proofs.Support

/-!
# Writing instructions cannot fail

The instructions of a supported program are written without a failure. While a body is written,
every value that was computed has an id, every listed block and function has one, and the labels
that are merges belong to blocks that claimed them, or were made for the purpose.
-/
namespace Elementwise.Spirv
open IR Gen

attribute [local simp] Instr.operands

/-! ## Single instructions -/

variable {elem : Ty} {d : Domain} {args : List Value} {params : List Param} {operands : List UInt32}
  {target : Option BlockId}

section Steps

variable {s : Generator} {op : Opcode}

theorem emitTo_runs {target : Section} (hhome : (⟨op, operands⟩ : Instruction).home? = some target)
    (hfits : (⟨op, operands⟩ : Instruction).fits)
    (htarget : target ≠ .header ∧ target ≠ .preamble) : s.Runs (build (.emitTo target op operands)) :=
  .of fun hs => Proceeds.of_ok rfl (hs.put hhome hfits htarget)

theorem emit_runs (hhome : (⟨op, operands⟩ : Instruction).home? = some .functions)
    (hfits : (⟨op, operands⟩ : Instruction).fits) : s.Runs (build (.emit op operands)) := by
  refine .of fun hs => Proceeds.of_ok rfl (hs.put ?_ hfits (by rw [hs.current]; decide))
  rwa [hs.current]

theorem emitNew_runs {operands : UInt32 → List UInt32}
    (hhome : ∀ id, (⟨op, operands id⟩ : Instruction).home? = some .functions)
    (hfits : ∀ id, (⟨op, operands id⟩ : Instruction).fits) :
    s.Runs (build (.emitNew op operands)) := by
  refine .of fun hs => Proceeds.of_ok rfl (hs.allocPut ?_ (hfits _) (by rw [hs.current]; decide))
  rw [hs.current]
  exact hhome _

theorem name_runs {text : Text} (hname : FitsName text) (id : UInt32) :
    s.Runs (build (.name id text)) :=
  emitTo_runs rfl (decide_eq_true hname) (by decide)

end Steps

namespace Generator

variable {s t : Generator} {v : Value}

/-- The value can be read: it is a literal or was given an id. -/
def Supplies (s : Generator) : Value → Prop
  | .missing => False
  | .constant c => c.type.isLiteral
  | .param id => (List.lookup (.param id) s.body.values).isSome
  | .result id => (List.lookup (.result id) s.body.values).isSome

def define (s : Generator) (v : Value) (word : UInt32) : Generator :=
  { s with body := { s.body with values := (v, word) :: s.body.values } }

/-- Declarations may be added, and the result of the instruction has an id. -/
def Yields (s : Generator) (id : InstrId) (t : Generator) : Prop :=
  ∃ u word, s.Advances u ∧ t = u.define (.result id) word

theorem supplies_congr (h : t.body.values = s.body.values) : t.Supplies v ↔ s.Supplies v := by
  cases v <;> simp only [Supplies, h]

theorem Advances.supplies (h : s.Advances t) (hv : s.Supplies v) : t.Supplies v :=
  (supplies_congr (by rw [h.body])).2 hv

theorem isSome_lookup_cons {α β : Type} [BEq α] [LawfulBEq α] {table : List (α × β)} {k l : α}
    {b : β} (h : k = l ∨ (List.lookup k table).isSome) :
    (List.lookup k ((l, b) :: table)).isSome := by
  rw [List.lookup_cons]
  split
  · rfl
  · rename_i hne
    exact h.resolve_left fun heq => by simp [heq] at hne

theorem Supplies.define (hv : s.Supplies v) (w : Value) (word : UInt32) :
    (s.define w word).Supplies v := by
  cases v with
  | missing => exact hv
  | constant c => exact hv
  | param id => exact isSome_lookup_cons (Or.inr hv)
  | result id => exact isSome_lookup_cons (Or.inr hv)

theorem Ready.define (h : s.Ready) (v : Value) (word : UInt32) : (s.define v word).Ready :=
  h.of_assembly rfl

end Generator

namespace Place

variable {p : Place} {s : Generator} {id : InstrId} {fid : FuncId} {i : Instr} {t : Ty}

theorem given_runs {v : Value} (hv : (List.lookup v s.body.values).isSome) : s.Runs (p.given v) := by
  intro t ht
  obtain ⟨word, hword⟩ := Option.isSome_iff_exists.1 hv
  refine Proceeds.okBind rfl ?_
  rw [ht.body, hword]
  exact ht

theorem operand_runs {v : Value} (hv : s.Supplies v) : s.Runs (p.operand v) := by
  cases v with
  | missing => cases hv
  | constant c => exact (constantId_runs hv).located
  | param q => exact given_runs hv
  | result r => exact given_runs hv

theorem typeOf_leads {α : Type} {f : Ty → Gen α} {post : Generator → Prop} {v : Value}
    (hv : p.frame.program.typeOf v = .ok t) (hf : s.Leads (f t) post) :
    s.Leads (p.typeOf v >>= f) post :=
  .okBind (fun _ => Place.typeOf_ok.2 ⟨hv, rfl⟩) hf

/-- The id that a step gives becomes that of the result. -/
theorem define_leads {x : Gen UInt32} (hx : s.Runs x) :
    s.Leads (x >>= fun word => define id word) (s.Yields id) :=
  fun t ht => (hx t ht).bind fun word u hu => Proceeds.of_ok rfl ⟨u, word, hu, rfl⟩

theorem emitBinary_leads {op : Opcode} {l r : Value} (hop : op.IsBinary)
    (hresult : ∃ t, p.frame.program.typeOf (.result id) = .ok t ∧ t.whole)
    (hl : s.Supplies l) (hr : s.Supplies r) : s.Leads (p.emitBinary id op l r) (s.Yields id) := by
  obtain ⟨t, ht, hwhole⟩ := hresult
  refine typeOf_leads ht ((typeId_runs hwhole).located.bind fun type => ?_)
  refine (operand_runs hl).bind fun a => (operand_runs hr).bind fun b => ?_
  exact define_leads (emitNew_runs (fun _ => (Profile.binary hop).home) fun _ => rfl)

theorem emitUnary_leads {op : Opcode} {x : Value} (hop : op.IsUnary)
    (hresult : ∃ t, p.frame.program.typeOf (.result id) = .ok t ∧ t.whole)
    (hx : s.Supplies x) : s.Leads (p.emitUnary id op x) (s.Yields id) := by
  obtain ⟨t, ht, hwhole⟩ := hresult
  refine typeOf_leads ht ((typeId_runs hwhole).located.bind fun type => ?_)
  refine (operand_runs hx).bind fun a => ?_
  exact define_leads (emitNew_runs (fun _ => (Profile.unary hop).home) fun _ => rfl)

/-- Operands of one type, which belongs to the domain, pass the check. -/
theorem checkDomain_eq_ok (haccepts : d.accepts t) {vs : List Value}
    (hvs : ∀ v ∈ vs, p.frame.program.typeOf v = .ok t) {first : Option Ty}
    (hfirst : ∀ u ∈ first, u = t) : p.checkDomain d first vs s = .ok () s := by
  induction vs generalizing first with
  | nil => rfl
  | cons v rest ih =>
    rw [List.forall_mem_cons] at hvs
    refine bind_ok.2 ⟨t, s, Place.typeOf_ok.2 ⟨hvs.1, rfl⟩, ?_⟩
    rw [haccepts]
    cases first with
    | none => exact ih hvs.2 (by simp)
    | some u =>
      obtain rfl := hfirst u rfl
      simp only [ne_eq, not_true_eq_false, if_false]
      exact ih hvs.2 hfirst

theorem number_of_accepts (h : d.accepts t) : t.isInt || t.isFloat := by
  unfold Domain.accepts at h
  split at h <;> simp [h]

/-- Between numbers there is a conversion. -/
theorem exists_convertOpcode {u : Ty} {e : Domain} (ht : d.accepts t) (hu : e.accepts u) :
    ∃ op, convertOpcode? (normalized t) (normalized u) d e = some op ∧ op.IsUnary := by
  have hsome : (convertOpcode? (normalized t) (normalized u) d e).isSome := by
    rcases normalized_number (number_of_accepts ht) with ⟨w, hw⟩ | ⟨w, hw⟩ <;>
      rcases normalized_number (number_of_accepts hu) with ⟨w', hw'⟩ | ⟨w', hw'⟩ <;>
        rw [hw, hw'] <;> rfl
  obtain ⟨op, hop⟩ := Option.isSome_iff_exists.1 hsome
  exact ⟨op, hop, isUnary_of_conversion (conversion_iff.2 hop)⟩

theorem emitConvert_leads {x : Value} {type : Ty} {source target : Domain}
    (ht : p.frame.program.typeOf x = .ok t) (hsource : source.accepts t)
    (htarget : target.accepts type)
    (hresult : ∃ t, p.frame.program.typeOf (.result id) = .ok t ∧ t.whole) (hx : s.Supplies x) :
    s.Leads (p.emitConvert id x source type target) (s.Yields id) := by
  have htype : type ≠ .missing := by
    rintro rfl
    have hnumber := number_of_accepts htarget
    cases hnumber
  obtain ⟨op, hop, hunary⟩ := exists_convertOpcode hsource htarget
  unfold emitConvert
  rw [if_neg htype]
  refine typeOf_leads ht (.normalize (.normalize ?_))
  rw [hop]
  exact .ite (define_leads (operand_runs hx)) (emitUnary_leads hunary hresult hx)

theorem emitLoad_leads {pointer : Value} {space : Space}
    (ht : p.frame.program.typeOf pointer = .ok (.pointer elem space)) (helem : elem.whole)
    (hpointer : s.Supplies pointer) : s.Leads (p.emitLoad id pointer) (s.Yields id) := by
  refine typeOf_leads ht ((typeId_runs helem).located.bind fun type => ?_)
  refine (operand_runs hpointer).bind fun a => ?_
  exact define_leads (emitNew_runs (fun _ => Profile.load.home) fun _ => rfl)

theorem emitStore_runs {value pointer : Value} {space : Space}
    (ht : p.frame.program.typeOf pointer = .ok (.pointer elem space))
    (hu : p.frame.program.typeOf value = .ok elem) (hpointer : s.Supplies pointer)
    (hvalue : s.Supplies value) : s.Runs (p.emitStore value pointer) := by
  refine typeOf_leads ht (typeOf_leads hu ?_)
  rw [if_neg (not_not.2 rfl)]
  refine (operand_runs hpointer).bind fun a => (operand_runs hvalue).bind fun b => ?_
  exact emit_runs Profile.store.home rfl

theorem emitElementPtr_leads {base index : Value}
    (hbase : p.frame.program.typeOf base = .ok (.pointer elem .buffer))
    (hindex : p.frame.program.typeOf index = .ok t) (ht : t.isInt)
    (hwhole : (Ty.pointer elem .buffer).whole) (helem : elem.isInt || elem.isFloat)
    (hb : s.Supplies base) (hi : s.Supplies index) :
    s.Leads (p.emitElementPtr id base index) (s.Yields id) := by
  refine typeOf_leads hbase ?_
  dsimp only
  rw [if_neg (not_not.2 rfl)]
  refine typeOf_leads hindex ?_
  rw [if_neg (by simp [ht])]
  refine (stridedPointerId_runs hwhole helem).located.bind fun type => ?_
  refine (operand_runs hb).bind fun a => (operand_runs hi).bind fun b => ?_
  exact define_leads (emitNew_runs (fun _ => Profile.ptrAccessChain.home) fun _ => rfl)

/-- Every argument has the type of its parameter. -/
theorem arguments_proceeds {callee : Text} {index : Nat}
    (htypes : List.Forall₂ (fun v (q : Param) => p.frame.program.typeOf v = .ok q.type) args params)
    (hs : s.Ready) (hargs : ∀ v ∈ args, s.Supplies v) :
    Proceeds (p.arguments callee index args (params.map some)) s fun ids t =>
      ids.length = args.length ∧ s.Advances t := by
  induction htypes generalizing index s with
  | nil => exact ⟨rfl, .refl hs⟩
  | cons htype hrest ih =>
    rw [List.forall_mem_cons] at hargs
    refine Proceeds.okBind (Place.typeOf_ok.2 ⟨htype, rfl⟩) ?_
    rw [if_neg (not_not.2 rfl)]
    refine ((operand_runs hargs.1).proceeds hs).bind fun word s₁ h₁ => ?_
    refine (ih h₁.ready fun v hv => h₁.supplies (hargs.2 v hv)).bind ?_
    rintro ids s₂ ⟨hlength, h₂⟩
    exact ⟨by rw [List.length_cons, hlength, List.length_cons], h₁.trans h₂⟩

theorem emitCall_proceeds {g : FuncId × Func} (hg : g ∈ p.frame.program.functions)
    (hparams : g.2.params = params.map some)
    (htypes : List.Forall₂ (fun v (q : Param) => p.frame.program.typeOf v = .ok q.type) args params)
    (hresult : g.2.resultType.whole) (hfits : args.length + 4 < UInt16.size) (hs : s.Ready)
    (hlisted : (List.lookup (some g.1) s.functions).isSome) (hargs : ∀ v ∈ args, s.Supplies v) :
    Proceeds (p.emitCall id (some g.1) args) s fun _ t => s.Yields id t := by
  obtain ⟨word, hword⟩ := Option.isSome_iff_exists.1 hlisted
  unfold emitCall
  rw [Option.bind_some, Program.func?_of_mem_functions hg]
  refine Proceeds.okBind rfl ?_
  rw [hword, hparams]
  dsimp only
  rw [if_neg (by simp [htypes.length_eq])]
  refine (arguments_proceeds htypes hs hargs).bind ?_
  rintro ids s₁ ⟨hlength, h₁⟩
  have hcall : ∀ type id callee,
      (⟨.functionCall, type :: id :: callee :: ids⟩ : Instruction).fits := by
    intro type id callee
    rw [Instruction.fits, decide_eq_true_eq]
    simp only [List.length_cons, hlength]
    omega
  refine (?_ : s.Leads _ (s.Yields id)) s₁ h₁
  refine (typeId_runs hresult).located.bind fun type => ?_
  exact define_leads (emitNew_runs (fun _ => Profile.functionCall.home) fun _ => hcall _ _ _)

theorem emitReturn_runs {value : Value}
    (hvalue : value = .missing ∧ p.frame.func.resultType = .void ∨
      p.frame.program.typeOf value = .ok p.frame.func.resultType ∧ s.Supplies value) :
    s.Runs (p.emitReturn value) := by
  rcases hvalue with ⟨rfl, hvoid⟩ | ⟨htype, hvalue⟩
  · unfold emitReturn
    rw [hvoid]
    exact emit_runs Profile.ret.home rfl
  · have hreturn : s.Runs (do
        let t ← p.typeOf value
        if t ≠ p.frame.func.resultType then
          p.fail (.returnMismatch t p.frame.func.resultType)
        let id ← p.operand value
        build (.returnValue id) : Gen Unit) := by
      refine typeOf_leads htype ?_
      rw [if_neg (not_not.2 rfl)]
      exact (operand_runs hvalue).bind fun word => emit_runs Profile.returnValue.home rfl
    cases value with
    | missing => cases hvalue
    | _ => exact hreturn

/-- A table that has an entry for all small codes has one for the codes of an operator. -/
theorem isSome_of_codes (table : UInt8 → UInt8 → Option Opcode) {m n : Nat} {o d : UInt8}
    (ho : o.toNat < m) (hd : d.toNat < n) (hall : ∀ o ∈ (List.range m).map Nat.toUInt8,
      ∀ d ∈ (List.range n).map Nat.toUInt8, (table o d).isSome) : ∃ op, table o d = some op :=
  Option.isSome_iff_exists.1 (hall o (mem_codes ho) d (mem_codes hd))

theorem exists_binaryOpcode {op : BinaryOp} (hop : op.code < 5) (hd : d.code < 3) :
    ∃ opcode, binaryOpcode? op d = some opcode ∧ opcode.IsBinary := by
  obtain ⟨opcode, h⟩ := isSome_of_codes (fun o d => binaryOpcode? ⟨o⟩ ⟨d⟩)
    (UInt8.lt_iff_toNat_lt.1 hop) (UInt8.lt_iff_toNat_lt.1 hd) (by decide +kernel)
  exact ⟨opcode, h, isBinary_of_arithmetic (mem_arithmeticTable.2 h)⟩

theorem exists_compareOpcode {pred : Predicate} (hpred : pred.code < 6) (hd : d.code < 3) :
    ∃ opcode, compareOpcode? pred d = some opcode ∧ opcode.IsBinary := by
  obtain ⟨opcode, h⟩ := isSome_of_codes (fun o d => compareOpcode? ⟨o⟩ ⟨d⟩)
    (UInt8.lt_iff_toNat_lt.1 hpred) (UInt8.lt_iff_toNat_lt.1 hd) (by decide +kernel)
  exact ⟨opcode, h, isBinary_of_comparison (mem_comparisonTable.2 h)⟩

theorem hasMissingOperand_eq_false (hops : ∀ v ∈ i.operands, s.Supplies v) :
    i.hasMissingOperand = false := by
  rw [Instr.hasMissingOperand, List.contains_eq_mem, decide_eq_false_iff_not]
  exact fun hmissing => hops _ hmissing

/-- An instruction that is no terminator gives an id to its result, unless it has none or is a
local variable, whose id was given before. -/
theorem emitInstr_proceeds (h : Sound p.frame.program p.frame.func fid id i)
    (hinner : i.isTerminator = false) (hs : s.Ready)
    (hcallees : ∀ g ∈ p.frame.program.functions, (List.lookup (some g.1) s.functions).isSome)
    (hops : ∀ v ∈ i.operands, s.Supplies v) :
    Proceeds (p.emitInstr id (some i)) s fun _ t => s.Yields id t ∨
      s.Advances t ∧ (i.isValue → ∃ name elem, i = .localVar name elem) := by
  have hmissing := hasMissingOperand_eq_false hops
  have hyields : ∀ {x : Gen Unit}, s.Leads x (s.Yields id) → Proceeds x s fun _ t => s.Yields id t ∨
      s.Advances t ∧ (i.isValue → ∃ name elem, i = .localVar name elem) :=
    fun hx => (hx.proceeds hs).mono fun _ _ => Or.inl
  unfold emitInstr
  dsimp only
  rw [hmissing, if_neg Bool.false_ne_true]
  cases i with
  | binary op d l r =>
    obtain ⟨t, hl, hr, haccepts⟩ := h.valid
    obtain ⟨opcode, hopcode, hbinary⟩ := exists_binaryOpcode h.supported.1 h.supported.2
    refine Proceeds.okBind (checkDomain_eq_ok haccepts (by simp [hl, hr]) (by simp)) ?_
    rw [hopcode]
    exact hyields (emitBinary_leads hbinary (h.result rfl)
      (hops l (by simp)) (hops r (by simp)))
  | compare pred d l r =>
    obtain ⟨t, hl, hr, haccepts⟩ := h.valid
    obtain ⟨opcode, hopcode, hbinary⟩ := exists_compareOpcode h.supported.1 h.supported.2
    refine Proceeds.okBind (checkDomain_eq_ok haccepts (by simp [hl, hr]) (by simp)) ?_
    rw [hopcode]
    exact hyields (emitBinary_leads hbinary (h.result rfl)
      (hops l (by simp)) (hops r (by simp)))
  | negate d x =>
    obtain ⟨t, hx, haccepts⟩ := h.valid
    refine Proceeds.okBind (checkDomain_eq_ok haccepts (by simp [hx]) (by simp)) ?_
    exact hyields (emitUnary_leads (isUnary_negate d) (h.result rfl)
      (hops x (by simp)))
  | convert x source type target =>
    obtain ⟨t, hx, hsource, htarget⟩ := h.valid
    exact hyields (emitConvert_leads hx hsource htarget (h.result rfl)
      (hops x (by simp)))
  | load pointer =>
    obtain ⟨elem, space, hpointer⟩ := h.valid
    obtain ⟨t, ht, hwhole⟩ := h.result rfl
    cases (Program.typeOf_load h.found hpointer).symm.trans ht
    exact hyields (emitLoad_leads hpointer hwhole (hops pointer (by simp)))
  | store value pointer =>
    obtain ⟨elem, space, hpointer, hvalue⟩ := h.valid
    refine ((emitStore_runs hpointer hvalue (hops pointer (by simp))
      (hops value (by simp))).proceeds hs).mono fun _ t ht => Or.inr ⟨ht, ?_⟩
    rintro ⟨⟩
  | elementPtr base index =>
    obtain ⟨elem, space, t, hbase, hindex, ht⟩ := h.valid
    obtain ⟨u, hu, hwhole⟩ := h.result rfl
    cases (Program.typeOf_elementPtr h.found hbase).symm.trans hu
    obtain ⟨_, hpointer, helem⟩ := h.supported
    cases hbase.symm.trans hpointer
    simp only [Ty.isElementPointer, Bool.and_eq_true, decide_eq_true_eq] at helem
    obtain ⟨rfl, helem⟩ := helem
    exact hyields (emitElementPtr_leads hbase hindex ht hwhole helem
      (hops base (by simp)) (hops index (by simp)))
  | localVar name elem =>
    exact Proceeds.pure (Or.inr ⟨.refl hs, fun _ => ⟨name, elem, rfl⟩⟩)
  | call callee args =>
    obtain ⟨g, hg, params, rfl, hparams, htypes⟩ := h.valid
    obtain ⟨t, ht, hwhole⟩ := h.result rfl
    cases (Program.typeOf_call h.found (Program.func?_of_mem_functions hg)).symm.trans ht
    exact (emitCall_proceeds hg hparams htypes hwhole h.supported hs (hcallees g hg) hops).mono
      fun _ _ => Or.inl
  | _ => cases hinner

end Place

/-! ## Merges -/

namespace Generator

variable {s t : Generator} {claimed : List BlockId} {claim : Option BlockId} {label : UInt32}

/-- As long as ids are distinct, blocks have distinct labels, and only the labels of blocks that
claimed it are merges. -/
structure Merging (s : Generator) (claimed : List BlockId) : Prop where
  labels : ∀ b l, List.lookup b s.body.labels = some l → l.toNat ≤ s.assembly.allocated
  distinct : s.assembly.allocated < 2 ^ 32 - 1 → ∀ b b' l,
    List.lookup b s.body.labels = some l → List.lookup b' s.body.labels = some l → b = b'
  merges : ∀ m ∈ s.body.merges, m.toNat ≤ s.assembly.allocated
  claimed : s.assembly.allocated < 2 ^ 32 - 1 → ∀ m ∈ s.body.merges, ∀ b,
    List.lookup b s.body.labels = some m → b ∈ claimed

/-- The label can be claimed as a merge; if it is the label of a block, it is that of `claim`. -/
structure Free (s : Generator) (label : UInt32) (claim : Option BlockId) : Prop where
  allocated : label.toNat ≤ s.assembly.allocated
  unclaimed : s.assembly.allocated < 2 ^ 32 - 1 → label ∉ s.body.merges
  owner : s.assembly.allocated < 2 ^ 32 - 1 → ∀ b,
    List.lookup b s.body.labels = some label → claim = some b

theorem Merging.mono (h : s.Merging claimed) (hlabels : t.body.labels = s.body.labels)
    (hmerges : t.body.merges = s.body.merges)
    (hle : s.assembly.allocated ≤ t.assembly.allocated) : t.Merging claimed where
  labels b l hl := Nat.le_trans (h.labels b l (hlabels ▸ hl)) hle
  distinct ht := hlabels ▸ h.distinct (Nat.lt_of_le_of_lt hle ht)
  merges m hm := Nat.le_trans (h.merges m (hmerges ▸ hm)) hle
  claimed ht := hlabels ▸ hmerges ▸ h.claimed (Nat.lt_of_le_of_lt hle ht)

theorem Merging.add (h : s.Merging claimed) (hfree : s.Free label claim) :
    Merging { s with body := { s.body with merges := label :: s.body.merges } }
      (claim.toList ++ claimed) where
  labels := h.labels
  distinct := h.distinct
  merges m hm := by
    rcases List.mem_cons.1 hm with rfl | hm
    · exact hfree.allocated
    · exact h.merges m hm
  claimed hs m hm b hb := by
    rcases List.mem_cons.1 hm with rfl | hm
    · rw [hfree.owner hs b hb]
      exact List.mem_cons_self
    · exact List.mem_append_right _ (h.claimed hs m hm b hb)

theorem Merging.free_label (h : s.Merging claimed) {b : BlockId} (hb : b ∉ claimed)
    (hlabel : List.lookup b s.body.labels = some label) : s.Free label (some b) where
  allocated := h.labels b label hlabel
  unclaimed hs hmem := hb (h.claimed hs label hmem b hlabel)
  owner hs b' hb' := congrArg some (h.distinct hs b b' label hlabel hb')

theorem toNat_next_le (s : Generator) : s.next.toNat ≤ s.assembly.allocated + 1 := by
  rw [next, Assembly.bound, Nat.toUInt32_eq, UInt32.toNat_ofNat']
  exact Nat.mod_le _ _

/-- As long as ids are distinct, the next is larger than those before. -/
theorem toNat_next (h : s.assembly.allocated + 1 < 2 ^ 32 - 1) :
    s.next.toNat = s.assembly.allocated + 1 := by
  rw [next, Assembly.bound, Nat.toUInt32_eq]
  exact UInt32.toNat_ofNat_of_lt' (Nat.lt_of_lt_of_le h (by decide))

theorem Merging.free_next (h : s.Merging claimed) (hlabels : t.body.labels = s.body.labels)
    (hmerges : t.body.merges = s.body.merges)
    (hallocated : t.assembly.allocated = s.assembly.allocated + 1) : t.Free s.next none where
  allocated := hallocated ▸ s.toNat_next_le
  unclaimed ht hmem := by
    have hle := h.merges _ (hmerges ▸ hmem)
    rw [toNat_next (by omega)] at hle
    omega
  owner ht b hb := by
    have hle := h.labels b _ (hlabels ▸ hb)
    rw [toNat_next (by omega)] at hle
    omega

/-- The state in which a block has a new label. -/
def addLabel (s : Generator) (id : BlockId) : Generator :=
  { s.alloc with body := { s.body with labels := (id, s.next) :: s.body.labels } }

theorem Merging.addLabel (h : s.Merging claimed) (id : BlockId) :
    (s.addLabel id).Merging claimed := by
  have hlookup : ∀ {b l}, List.lookup b (s.addLabel id).body.labels = some l →
      b = id ∧ l = s.next ∨ List.lookup b s.body.labels = some l := by
    intro b l hl
    simp only [Generator.addLabel, List.lookup_cons] at hl
    split at hl
    · rename_i heq
      cases hl
      exact Or.inl ⟨by simpa using heq, rfl⟩
    · exact Or.inr hl
  have hnew : s.assembly.allocated + 1 < 2 ^ 32 - 1 → ∀ {b},
      List.lookup b s.body.labels ≠ some s.next := by
    intro hs b hb
    have hle := h.labels b _ hb
    rw [toNat_next hs] at hle
    omega
  refine ⟨fun b l hl => ?_, fun hs b b' l hl hl' => ?_, fun m hm => ?_, fun hs m hm b hb => ?_⟩
  · rcases hlookup hl with ⟨-, rfl⟩ | hl
    · exact s.toNat_next_le
    · exact Nat.le_succ_of_le (h.labels b l hl)
  · rcases hlookup hl with ⟨hb, hnext⟩ | hold <;> rcases hlookup hl' with ⟨hb', hnext'⟩ | hold'
    · rw [hb, hb']
    · exact absurd (hnext ▸ hold') (hnew hs)
    · exact absurd (hnext' ▸ hold) (hnew hs)
    · exact h.distinct (Nat.lt_of_succ_lt hs) b b' l hold hold'
  · exact Nat.le_succ_of_le (h.merges m hm)
  · rcases hlookup hb with ⟨-, rfl⟩ | hb
    · have hle := h.merges _ hm
      rw [toNat_next hs] at hle
      omega
    · exact h.claimed (Nat.lt_of_succ_lt hs) m hm b hb

end Generator

/-! ## Terminators -/

/-- The target is one of the blocks. -/
def Layout.Holds (l : Layout) (target : Option BlockId) : Prop :=
  ∃ b ∈ l.blocks, target = some b.1

theorem Layout.holds_meeting? {l : Layout} {at_ : Nat} {onTrue onFalse b : BlockId}
    (h : l.meeting? at_ onTrue onFalse = some b) : l.Holds (some b) := by
  have hmem := List.mem_of_mem_filter (mem_of_earliest? h)
  obtain ⟨k, block, hk⟩ := stands_of_mem_forwardReach hmem
  exact ⟨(b, block), List.mem_of_getElem? hk, rfl⟩

/-- The state while a body is written: listed functions and blocks and known values have ids, and
merges belong to the blocks that were claimed. -/
structure Writing (f : Frame) (known : List Value) (claimed : List BlockId) (s : Generator) :
    Prop where
  ready : s.Ready
  functions : ∀ g ∈ f.program.functions, (List.lookup (some g.1) s.functions).isSome
  labels : ∀ b ∈ f.layout.blocks, (List.lookup b.1 s.body.labels).isSome
  known : ∀ v ∈ known, s.Supplies v
  merging : s.Merging claimed

namespace Writing

variable {f : Frame} {known : List Value} {claimed : List BlockId} {s t : Generator}

theorem advance (h : Writing f known claimed s) (ht : s.Advances t) :
    Writing f known claimed t where
  ready := ht.ready
  functions := ht.functions ▸ h.functions
  labels := ht.body ▸ h.labels
  known v hv := ht.supplies (h.known v hv)
  merging := h.merging.mono (by rw [ht.body]) (by rw [ht.body]) ht.allocated

theorem define (h : Writing f known claimed s) {v : Value} {word : UInt32}
    (hv : (s.define v word).Supplies v) : Writing f (v :: known) claimed (s.define v word) where
  ready := h.ready.define v word
  functions := h.functions
  labels := h.labels
  known := List.forall_mem_cons.2 ⟨hv, fun w hw => (h.known w hw).define v word⟩
  merging := h.merging.mono rfl rfl (Nat.le_refl _)

theorem yield (h : Writing f known claimed s) {id : InstrId} (ht : s.Yields id t) :
    Writing f (.result id :: known) claimed t := by
  obtain ⟨u, word, hu, rfl⟩ := ht
  exact (h.advance hu).define (Generator.isSome_lookup_cons (Or.inl rfl))

theorem subset (h : Writing f known claimed s) {known' : List Value} (hsub : known' ⊆ known) :
    Writing f known' claimed s :=
  { h with known := fun v hv => h.known v (hsub hv) }

theorem exists_label (h : Writing f known claimed s) {p : Place} (htarget : f.layout.Holds target) :
    ∃ b l, target = some b ∧ List.lookup b s.body.labels = some l ∧ p.label target s = .ok l s := by
  obtain ⟨b, hb, rfl⟩ := htarget
  obtain ⟨l, hl⟩ := Option.isSome_iff_exists.1 (h.labels b hb)
  refine ⟨b.1, l, rfl, hl, bind_ok.2 ⟨s, s, rfl, ?_⟩⟩
  rw [hl]
  rfl

/-- A step that advances the module leaves the body to be written on. -/
theorem run {α : Type} {x : Gen α} (h : Writing f known claimed s) (hx : s.Runs x) :
    Proceeds x s fun _ t => Writing f known claimed t :=
  (hx.proceeds h.ready).mono fun _ _ => h.advance

theorem claimMerge_proceeds (h : Writing f known claimed s) {p : Place} {label : UInt32}
    {claim : Option BlockId} (hfree : s.Free label claim) :
    Proceeds (p.claimMerge label) s fun _ t => Writing f known (claim.toList ++ claimed) t := by
  refine Proceeds.okBind rfl ?_
  dsimp only
  by_cases hmem : s.body.merges.contains label
  · rw [if_pos hmem]
    exact Nat.le_of_not_lt fun hlt => hfree.unclaimed hlt (by simpa using hmem)
  · rw [if_neg hmem]
    exact Proceeds.of_ok rfl ⟨h.ready.of_assembly rfl, h.functions, h.labels, h.known,
      h.merging.add hfree⟩

section Terminators

variable {p : Place} (h : Writing p.frame known claimed s)
  (hloop : ∀ l ∈ p.block.loop, p.frame.layout.Holds l.merge ∧ p.frame.layout.Holds l.continue_)
include h hloop

theorem emitLoopHeader_proceeds
    (hfree : ∀ b ∈ p.block.loop.bind Loop.merge, b ∉ claimed) :
    Proceeds p.emitLoopHeader s fun _ t =>
      Writing p.frame known ((p.block.loop.bind Loop.merge).toList ++ claimed) t := by
  unfold Place.emitLoopHeader
  cases hl : p.block.loop with
  | none => exact Proceeds.pure h
  | some loop =>
    rw [hl] at hfree
    obtain ⟨hmerge, hcontinue⟩ := hloop loop hl
    obtain ⟨b, merge, hb, hlookup, hlabel⟩ := h.exists_label hmerge
    obtain ⟨-, continue_, -, -, hlabel'⟩ := h.exists_label hcontinue
    refine Proceeds.okBind hlabel (Proceeds.okBind hlabel' ?_)
    have hfree' := h.merging.free_label (hfree b hb) hlookup
    refine (h.claimMerge_proceeds hfree').bind fun _ s₁ h₁ => ?_
    rw [Option.bind_some, hb]
    exact h₁.run (emit_runs Profile.loopMerge.home rfl)

theorem emitBranch_proceeds (htarget : p.frame.layout.Holds target)
    (hfree : ∀ b ∈ p.block.loop.bind Loop.merge, b ∉ claimed) :
    Proceeds (p.emitBranch target) s fun _ t =>
      Writing p.frame known ((p.block.loop.bind Loop.merge).toList ++ claimed) t := by
  obtain ⟨-, label, -, -, hlabel⟩ := h.exists_label htarget
  refine Proceeds.okBind hlabel ?_
  refine (h.emitLoopHeader_proceeds hloop hfree).bind fun _ s₁ h₁ => ?_
  exact h₁.run (emit_runs Profile.branch.home rfl)

omit hloop in
/-- A new label is free, and so is that of a block that was not claimed. -/
theorem selectionMerge_proceeds {onTrue onFalse : BlockId} {merge : Option BlockId}
    (hmerge : merge = none ∨ p.frame.layout.Holds merge)
    (hfree : ∀ b ∈ merge.orElse fun _ => p.frame.layout.meeting? p.position onTrue onFalse,
      b ∉ claimed) :
    Proceeds (p.selectionMerge onTrue onFalse merge) s fun label t =>
      Writing p.frame known claimed t ∧
        t.Free label (merge.orElse fun _ => p.frame.layout.meeting? p.position onTrue onFalse) := by
  have hblock : ∀ target, p.frame.layout.Holds target → (∀ b ∈ target, b ∉ claimed) →
      Proceeds (p.label target) s fun label t =>
        Writing p.frame known claimed t ∧ t.Free label target := by
    intro target htarget hunclaimed
    obtain ⟨b, label, rfl, hlookup, hlabel⟩ := h.exists_label htarget
    exact Proceeds.of_ok hlabel ⟨h, h.merging.free_label (hunclaimed b rfl) hlookup⟩
  unfold Place.selectionMerge
  cases merge with
  | some b => exact hblock (some b) (hmerge.resolve_left (by simp)) hfree
  | none =>
    dsimp only [Option.orElse_none] at hfree ⊢
    cases hmeeting : p.frame.layout.meeting? p.position onTrue onFalse with
    | some b => exact hblock (some b) (Layout.holds_meeting? hmeeting) (hmeeting ▸ hfree)
    | none =>
      refine Proceeds.of_ok rfl ⟨?_, h.merging.free_next rfl rfl rfl⟩
      exact ⟨h.ready.alloc.ready.of_assembly rfl, h.functions, h.labels, h.known,
        h.merging.mono rfl rfl (Nat.le_succ _)⟩

theorem emitCondBranch_proceeds {cond : Value} {onTrue onFalse merge : Option BlockId}
    (htype : p.frame.program.typeOf cond = .ok .bool) (hcond : s.Supplies cond)
    (htrue : p.frame.layout.Holds onTrue) (hfalse : p.frame.layout.Holds onFalse)
    (hmerge : merge = none ∨ p.frame.layout.Holds merge)
    (hterm : p.block.terminator? = some (.condBranch cond onTrue onFalse merge))
    (hfree : ∀ b ∈ p.frame.layout.claim? (p.id, p.block), b ∉ claimed) :
    Proceeds (p.emitCondBranch cond onTrue onFalse merge) s fun _ t =>
      Writing p.frame known ((p.frame.layout.claim? (p.id, p.block)).toList ++ claimed) t := by
  unfold Place.emitCondBranch
  refine Proceeds.okBind (Place.typeOf_ok.2 ⟨htype, rfl⟩) ?_
  rw [if_neg (not_not.2 rfl)]
  refine (h.run (Place.operand_runs hcond)).bind fun c s₁ h => ?_
  obtain ⟨bt, t, rfl, -, hlabel⟩ := h.exists_label htrue
  obtain ⟨bf, f, rfl, -, hlabel'⟩ := h.exists_label hfalse
  refine Proceeds.okBind hlabel (Proceeds.okBind hlabel' ?_)
  have hend : ∀ {claims : List BlockId} {s₂ : Generator}, Writing p.frame known claims s₂ →
      Proceeds (build (.branchConditional c t f)) s₂ fun _ t => Writing p.frame known claims t :=
    fun h₂ => h₂.run (emit_runs Profile.branchConditional.home rfl)
  cases hl : p.block.loop with
  | some loop =>
    have hclaim : p.frame.layout.claim? (p.id, p.block) = p.block.loop.bind Loop.merge := by
      simp [Layout.claim?, hterm, hl]
    rw [hclaim] at hfree ⊢
    exact (h.emitLoopHeader_proceeds hloop hfree).bind fun _ s₂ h₂ => hend h₂
  | none =>
    have hclaim : p.frame.layout.claim? (p.id, p.block) =
        if p.frame.layout.leavesLoop p.position bt bf then none
        else merge.orElse fun _ => p.frame.layout.meeting? p.position bt bf := by
      simp [Layout.claim?, hterm, hl, Place.position]
    rw [hclaim] at hfree ⊢
    by_cases hleaves : p.frame.layout.leavesLoop p.position bt bf
    · rw [if_pos hleaves]
      simp only [hleaves, Bool.not_true, Bool.false_eq_true, if_false]
      exact hend h
    · rw [if_neg hleaves] at hfree ⊢
      simp only [hleaves, Bool.not_false, if_true]
      refine (h.selectionMerge_proceeds hmerge hfree).bind ?_
      rintro m s₂ ⟨h₂, hfree₂⟩
      refine (h₂.claimMerge_proceeds hfree₂).bind fun _ s₃ h₃ => ?_
      exact (h₃.run (emit_runs Profile.selectionMerge.home rfl)).bind fun _ s₄ h₄ => hend h₄

/-- A terminator claims the merge of its block. -/
theorem emitTerminator_proceeds {fid : FuncId} {id : InstrId} {i : Instr}
    (hi : Sound p.frame.program p.frame.func fid id i)
    (hlayout : p.frame.layout = ⟨p.frame.func.body fid⟩)
    (hterm : p.block.terminator? = some i)
    (hfree : ∀ b ∈ p.frame.layout.claim? (p.id, p.block), b ∉ claimed)
    (hops : ∀ v ∈ i.operands, s.Supplies v) :
    Proceeds (p.emitInstr id (some i)) s fun _ t =>
      Writing p.frame known ((p.frame.layout.claim? (p.id, p.block)).toList ++ claimed) t := by
  have hmissing := Place.hasMissingOperand_eq_false hops
  have hholds : p.frame.func.Holds fid = p.frame.layout.Holds := by
    rw [hlayout]
    rfl
  have hvalid := hi.valid
  rw [hholds] at hvalid
  unfold Place.emitInstr
  dsimp only
  rw [hmissing, if_neg Bool.false_ne_true]
  cases i with
  | branch target =>
    have hclaim : p.frame.layout.claim? (p.id, p.block) = p.block.loop.bind Loop.merge := by
      cases hl : p.block.loop <;> simp [Layout.claim?, hterm, hl]
    rw [hclaim] at hfree ⊢
    exact h.emitBranch_proceeds hloop hvalid hfree
  | condBranch cond onTrue onFalse merge =>
    obtain ⟨htype, htrue, hfalse, hmerge⟩ := hvalid
    exact h.emitCondBranch_proceeds hloop htype (hops cond (by simp)) htrue hfalse hmerge hterm hfree
  | ret value =>
    have hclaim : p.frame.layout.claim? (p.id, p.block) = none := by
      simp [Layout.claim?, hterm]
    rw [hclaim]
    refine h.run (Place.emitReturn_runs ?_)
    refine hvalid.imp_right fun htype => ⟨htype, hops value ?_⟩
    cases value with
    | missing => cases htype
    | _ => simp [Instr.operands]
  | _ =>
    exfalso
    unfold Block.terminator? at hterm
    split at hterm
    · split at hterm
      · cases hterm
        rename_i hterminator
        cases hterminator
      · cases hterm
    · cases hterm

end Terminators

end Writing

end Elementwise.Spirv
