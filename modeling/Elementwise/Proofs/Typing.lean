import Elementwise.Proofs.Faithfulness
import Elementwise.Proofs.ValueType

/-!
# Types in binaries

An instruction with a result says which type the result has. The instructions of functions obey
rules about the types of what they read: arithmetic keeps a type, comparisons give truth values,
pointers lead to what is loaded and stored, and calls fit the type of the function.
-/
namespace Elementwise.Spirv
open IR

/-! ## Rules -/

/-- The type that an instruction gives to its result. -/
def Instruction.resultType? (i : Instruction) : Option UInt32 :=
  match i.readAt 0 with
  | .ok d => d.resultType
  | .error _ => none

/-- The instruction that defines an id gives it a type. -/
def HasType (all : List Instruction) (id type : UInt32) : Prop :=
  ∃ i ∈ all, i.result? = some id ∧ i.resultType? = some type

/-- The kinds of rules about types. -/
inductive TypeRule where
  | free
  | arithmetic
  | negation
  | comparison
  | load
  | store
  | element
  | call
  | ret
  | returnValue
  | condition
  | intWidth
  | floatWidth
  | intToFloat
  | floatToInt
  deriving DecidableEq, Repr

def typeRules : List (Opcode × TypeRule) := [
  (.iAdd, .arithmetic), (.fAdd, .arithmetic), (.iSub, .arithmetic), (.fSub, .arithmetic),
  (.iMul, .arithmetic), (.fMul, .arithmetic), (.uDiv, .arithmetic), (.sDiv, .arithmetic),
  (.fDiv, .arithmetic), (.uMod, .arithmetic), (.sRem, .arithmetic), (.sMod, .arithmetic),
  (.fRem, .arithmetic), (.fMod, .arithmetic), (.sNegate, .negation), (.fNegate, .negation),
  (.iEqual, .comparison), (.iNotEqual, .comparison), (.uGreaterThan, .comparison),
  (.sGreaterThan, .comparison), (.uGreaterThanEqual, .comparison),
  (.sGreaterThanEqual, .comparison), (.uLessThan, .comparison), (.sLessThan, .comparison),
  (.uLessThanEqual, .comparison), (.sLessThanEqual, .comparison), (.fOrdEqual, .comparison),
  (.fOrdNotEqual, .comparison), (.fOrdLessThan, .comparison), (.fOrdGreaterThan, .comparison),
  (.fOrdLessThanEqual, .comparison), (.fOrdGreaterThanEqual, .comparison), (.load, .load),
  (.store, .store), (.ptrAccessChain, .element), (.functionCall, .call), (.ret, .ret),
  (.returnValue, .returnValue), (.branchConditional, .condition), (.sConvert, .intWidth),
  (.uConvert, .intWidth), (.fConvert, .floatWidth), (.convertSToF, .intToFloat),
  (.convertUToF, .intToFloat), (.convertFToS, .floatToInt), (.convertFToU, .floatToInt)]

def Opcode.typeRule (op : Opcode) : TypeRule := (List.lookup op typeRules).getD .free

/-- What a rule asks of the words after the opcode, in a function with the given result type. -/
def TypeRule.Holds (all : List Instruction) (result : UInt32) : TypeRule → List UInt32 → Prop
  | .free, _ => True
  | .arithmetic, [type, _, a, b] => HasType all a type ∧ HasType all b type
  | .negation, [type, _, a] => HasType all a type
  | .comparison, [type, _, a, b] =>
    ⟨.typeBool, [type]⟩ ∈ all ∧ ∃ t, HasType all a t ∧ HasType all b t
  | .load, [type, _, a] => ∃ pointer storage, HasType all a pointer ∧
    ⟨.typePointer, [pointer, storage, type]⟩ ∈ all
  | .store, [a, b] => ∃ pointer storage type, HasType all a pointer ∧
    ⟨.typePointer, [pointer, storage, type]⟩ ∈ all ∧ HasType all b type
  | .element, [type, _, a, b] => HasType all a type ∧
    ∃ t width, HasType all b t ∧ ⟨.typeInt, [t, width, 0]⟩ ∈ all
  | .call, type :: _ :: function :: args => ∃ functionType params,
    ⟨.func, [type, function, noControl, functionType]⟩ ∈ all ∧
      ⟨.typeFunction, functionType :: type :: params⟩ ∈ all ∧
      List.Forall₂ (HasType all) args params
  | .ret, [] => ⟨.typeVoid, [result]⟩ ∈ all
  | .returnValue, [a] => HasType all a result
  | .condition, [c, _, _] => ∃ t, HasType all c t ∧ ⟨.typeBool, [t]⟩ ∈ all
  | .intWidth, [type, _, a] => ∃ t v w, HasType all a t ∧ ⟨.typeInt, [t, v, 0]⟩ ∈ all ∧
    ⟨.typeInt, [type, w, 0]⟩ ∈ all ∧ v ≠ w
  | .floatWidth, [type, _, a] => ∃ t v w, HasType all a t ∧ ⟨.typeFloat, [t, v]⟩ ∈ all ∧
    ⟨.typeFloat, [type, w]⟩ ∈ all ∧ v ≠ w
  | .intToFloat, [type, _, a] => ∃ t v w, HasType all a t ∧ ⟨.typeInt, [t, v, 0]⟩ ∈ all ∧
    ⟨.typeFloat, [type, w]⟩ ∈ all
  | .floatToInt, [type, _, a] => ∃ t v w, HasType all a t ∧ ⟨.typeFloat, [t, v]⟩ ∈ all ∧
    ⟨.typeInt, [type, w, 0]⟩ ∈ all
  | _, _ => False

/-- An instruction obeys the rule of its opcode. -/
def Instruction.Obeys (all : List Instruction) (result : UInt32) (i : Instruction) : Prop :=
  i.opcode.typeRule.Holds all result i.operands

/-- An instruction within a function of the given result type. -/
def Instruction.Inner (all : List Instruction) (result : UInt32) (i : Instruction) : Prop :=
  i.opcode ≠ .func ∧ i.Obeys all result

/-- Instructions obey their rules, where a function gives the result type from its header on. -/
def WellTyped (all : List Instruction) : UInt32 → List Instruction → Prop
  | _, [] => True
  | result, i :: rest =>
    let current := if i.opcode = .func then i.operands.headD 0 else result
    i.Obeys all current ∧ WellTyped all current rest

/-! ## Results with types -/

section HasType

variable {all : List Instruction} {op : Opcode} {shape : Shape} {type id : UInt32}
  {ws : List UInt32}

theorem hasType_of_mem (hshaped : ∀ i ∈ all, i.shaped) (hs : op.shape? = some shape)
    (ht : shape.hasResultType = true) (hr : shape.hasResult = true)
    (h : ⟨op, type :: id :: ws⟩ ∈ all) : HasType all id type := by
  obtain ⟨d, hd⟩ := (Instruction.shaped_iff 0).1 (hshaped _ h)
  have hread := hd
  simp only [Instruction.readAt, decodeInstr, hs, readOptional, ht, hr, if_true, bind,
    Except.bind] at hread
  split at hread
  · cases hread
  cases hread
  refine ⟨_, h, ?_, ?_⟩
  · rw [Instruction.result?, hd]
  · rw [Instruction.resultType?, hd]

end HasType

variable {t : Ty} {p : Place} {domain : Domain} {opcode : Opcode} {made words : List UInt32}
  {header : List Instruction}

section Declared

variable {all declared : List Instruction} {id : UInt32}

theorem mem_of_declares_scalar {i : Instruction} (hi : scalarInstr? id t = some i)
    (h : Declares declared t id) : i ∈ declared := by
  cases h with
  | scalar hi' h =>
    cases hi.symm.trans hi'
    exact h
  | pointer => cases hi

/-- A constant has its type. -/
theorem DeclaresConstant.hasType {c : Constant} (h : DeclaresConstant declared c id)
    (hsub : declared ⊆ all) (hshaped : ∀ i ∈ all, i.shaped) :
    ∃ type, Declares declared (normalized c.type) type ∧ HasType all id type := by
  obtain ⟨type, i, htype, hi, hmem⟩ := h
  refine ⟨type, htype, ?_⟩
  generalize normalized c.type = t at hi
  unfold constantInstr? at hi
  split at hi
  · cases hi
    split at hmem
    · exact hasType_of_mem hshaped rfl rfl rfl (hsub hmem)
    · exact hasType_of_mem hshaped rfl rfl rfl (hsub hmem)
  · cases hi
    exact hasType_of_mem hshaped rfl rfl rfl (hsub hmem)
  · cases hi
    exact hasType_of_mem hshaped rfl rfl rfl (hsub hmem)
  · cases hi

end Declared

/-! ## Instructions -/

/-- A function is declared with the types of its result and parameters. -/
def DeclaresFunction (all : List Instruction) (N : Naming) (g : Func) (function : UInt32) : Prop :=
  ∃ result type types params, ⟨.func, [result, function, noControl, type]⟩ ∈ all ∧
    ⟨.typeFunction, type :: result :: types⟩ ∈ all ∧ N.type g.resultType result ∧
    g.params = params.map some ∧ List.Forall₂ (fun (q : Param) t => N.type q.type t) params types

/-- The ids of values have the declared types of the values, and those of functions are declared
with their signatures. -/
structure Typed (all : List Instruction) (program : Program) (N : Naming) : Prop where
  sub : N.declared ⊆ all
  unique : ∀ {t : Ty} {a b : UInt32}, N.type t a → N.type t b → a = b
  values : ∀ v id, N.operand v id →
    ∃ t type, program.typeOf v = .ok t ∧ N.type t type ∧ HasType all id type
  functions : ∀ f g function, (some f, function) ∈ N.functions → program.func? f = some g →
    DeclaresFunction all N g function

section Instructions

variable {all : List Instruction} {program : Program} {N : Naming} {result : UInt32}

theorem Typed.operand (h : Typed all program N) {v : Value} {id type : UInt32} (hv : N.operand v id)
    (ht : program.typeOf v = .ok t) (htype : N.type t type) : HasType all id type := by
  obtain ⟨u, found, hu, hfound, hid⟩ := h.values v id hv
  cases ht.symm.trans hu
  rwa [h.unique htype hfound]

theorem Typed.exists_operand (h : Typed all program N) {v : Value} {id : UInt32}
    (hv : N.operand v id) (ht : program.typeOf v = .ok t) :
    ∃ type, N.type t type ∧ HasType all id type := by
  obtain ⟨u, type, hu, htype, hid⟩ := h.values v id hv
  cases ht.symm.trans hu
  exact ⟨type, htype, hid⟩

theorem typeRule_arithmetic {op : BinaryOp} (h : (op, domain, opcode) ∈ arithmeticTable) :
    opcode.typeRule = .arithmetic := by
  have hrows : ∀ row ∈ arithmeticTable, row.2.2.typeRule = .arithmetic := by decide
  exact hrows _ h

theorem typeRule_comparison {pred : Predicate} (h : (pred, domain, opcode) ∈ comparisonTable) :
    opcode.typeRule = .comparison := by
  have hrows : ∀ row ∈ comparisonTable, row.2.2.typeRule = .comparison := by decide
  exact hrows _ h

theorem inner_of_rule {op : Opcode} (rule : TypeRule) (hrule : op.typeRule = rule)
    (hfree : rule ≠ .free) (h : rule.Holds all result words) :
    (⟨op, words⟩ : Instruction).Inner all result := by
  have hfunc : Opcode.func.typeRule = .free := by decide
  subst hrule
  refine ⟨?_, h⟩
  rintro rfl
  exact hfree hfunc

theorem inner_free {op : Opcode} (hrule : op.typeRule = .free) (hop : op ≠ .func) :
    (⟨op, words⟩ : Instruction).Inner all result := by
  refine ⟨hop, ?_⟩
  rw [Instruction.Obeys, hrule]
  trivial

/-- A conversion changes a width, or goes between integers and floats. -/
theorem inner_conversion (h : Typed all program N) {s : Ty} {source target : Domain}
    {type word a A : UInt32} (hop : Conversion (normalized s) (normalized t) source target opcode)
    (hne : normalized s ≠ normalized t) (htype : N.type t type) (hA : N.type s A)
    (ha : HasType all a A) : (⟨opcode, [type, word, a]⟩ : Instruction).Inner all result := by
  unfold Naming.type at htype hA
  generalize normalized s = s' at *
  generalize normalized t = t' at *
  have hsource : ∀ {i : Instruction}, scalarInstr? A s' = some i → i ∈ all := fun hi =>
    h.sub (mem_of_declares_scalar hi hA)
  have htarget : ∀ {i : Instruction}, scalarInstr? type t' = some i → i ∈ all := fun hi =>
    h.sub (mem_of_declares_scalar hi htype)
  cases hop with
  | float v w =>
    exact inner_of_rule .floatWidth rfl (by decide)
      ⟨A, v, w, ha, hsource rfl, htarget rfl, fun heq => hne (heq ▸ rfl)⟩
  | signed v w =>
    exact inner_of_rule .intWidth rfl (by decide)
      ⟨A, v, w, ha, hsource rfl, htarget rfl, fun heq => hne (heq ▸ rfl)⟩
  | unsigned v w =>
    exact inner_of_rule .intWidth rfl (by decide)
      ⟨A, v, w, ha, hsource rfl, htarget rfl, fun heq => hne (heq ▸ rfl)⟩
  | signedToFloat v w =>
    exact inner_of_rule .intToFloat rfl (by decide)
      ⟨A, v, w, ha, hsource rfl, htarget rfl⟩
  | unsignedToFloat v w =>
    exact inner_of_rule .intToFloat rfl (by decide)
      ⟨A, v, w, ha, hsource rfl, htarget rfl⟩
  | floatToSigned v w =>
    exact inner_of_rule .floatToInt rfl (by decide)
      ⟨A, v, w, ha, hsource rfl, htarget rfl⟩
  | floatToUnsigned v w =>
    exact inner_of_rule .floatToInt rfl (by decide)
      ⟨A, v, w, ha, hsource rfl, htarget rfl⟩

theorem exists_normalized_int (w : UInt32) : ∃ v, normalized (.int w) = .int v := by
  unfold normalized
  split
  · exact ⟨w, rfl⟩
  · exact ⟨32, rfl⟩

/-- The arguments of a call have the types of the parameters. -/
theorem Typed.arguments (h : Typed all program N) {args : List Value} {params : List Param}
    {ids types : List UInt32}
    (hargs : List.Forall₂ (fun v (q : Param) => program.typeOf v = .ok q.type) args params)
    (hids : List.Forall₂ N.operand args ids)
    (htypes : List.Forall₂ (fun (q : Param) t => N.type q.type t) params types) :
    List.Forall₂ (HasType all) ids types := by
  induction hargs generalizing ids types with
  | nil =>
    cases hids
    cases htypes
    exact .nil
  | cons hv _ ih =>
    cases hids with
    | cons hid hids =>
      cases htypes with
      | cons htype htypes => exact .cons (h.operand hid hv htype) (ih hids htypes)

theorem LoopHeader.inner (h : LoopHeader N p header) : ∀ j ∈ header, j.Inner all result := by
  cases h with
  | none => simp
  | loop => exact List.forall_mem_singleton.2 (inner_free rfl (by decide))

theorem SelectionHeader.inner {onTrue onFalse : BlockId} {merge : Option BlockId}
    (h : SelectionHeader N p onTrue onFalse merge made header) :
    ∀ j ∈ header, j.Inner all result := by
  cases h with
  | leaves => simp
  | _ => exact List.forall_mem_singleton.2 (inner_free rfl (by decide))

theorem Typed.inner_condition (h : Typed all program N) {cond : Value} {c t f : UInt32}
    (hcond : program.typeOf cond = .ok .bool) (hc : N.operand cond c) :
    (⟨.branchConditional, [c, t, f]⟩ : Instruction).Inner all result := by
  obtain ⟨type, htype, hc⟩ := h.exists_operand hc hcond
  exact inner_of_rule .condition rfl (by decide)
    ⟨type, hc, h.sub (mem_of_declares_scalar rfl htype)⟩

/-- What is written for an instruction obeys the rules. -/
theorem Lowers.inner {id : InstrId} {i : Instr} {out : List Instruction}
    (h : Typed all p.frame.program N) (hi : p.frame.program.instr? id = some i)
    (hresult : N.type p.frame.func.resultType result) (hlowers : Lowers N p id i made out) :
    ∀ j ∈ out, j.Inner all result := by
  have hone : ∀ {j : Instruction}, j.Inner all result → ∀ x ∈ [j], x.Inner all result :=
    List.forall_mem_singleton.2
  cases hlowers with
  | localVar => simp
  | binary hl hr _ hop htype ha hb =>
    obtain ⟨u, hu, htype⟩ := htype
    cases hu.symm.trans (Program.typeOf_binary hi hl)
    exact hone (inner_of_rule .arithmetic (typeRule_arithmetic hop) (by decide)
      ⟨h.operand ha hl htype, h.operand hb hr htype⟩)
  | compare hl hr _ hop htype ha hb =>
    obtain ⟨u, hu, htype⟩ := htype
    cases hu.symm.trans (Program.typeOf_compare hi)
    obtain ⟨A, hA, ha⟩ := h.exists_operand ha hl
    exact hone (inner_of_rule .comparison (typeRule_comparison hop) (by decide)
      ⟨h.sub (mem_of_declares_scalar rfl htype), A, ha, h.operand hb hr hA⟩)
  | negate hx _ htype ha =>
    obtain ⟨u, hu, htype⟩ := htype
    cases hu.symm.trans (Program.typeOf_negate hi hx)
    refine hone (inner_of_rule .negation ?_ (by decide) (h.operand ha hx htype))
    split <;> rfl
  | convert hx hop hne htype ha =>
    obtain ⟨u, hu, htype⟩ := htype
    cases hu.symm.trans (Program.typeOf_convert hi)
    obtain ⟨A, hA, ha⟩ := h.exists_operand ha hx
    exact hone (inner_conversion h hop hne htype hA ha)
  | standsFor => simp
  | load hpointer htype ha =>
    obtain ⟨A, hA, ha⟩ := h.exists_operand ha hpointer
    cases hA with
    | scalar hi => cases hi
    | @pointer _ pointee storage _ _ hpointee _ hA =>
      obtain rfl := h.unique hpointee htype
      exact hone (inner_of_rule .load rfl (by decide) ⟨A, storage, ha, h.sub hA⟩)
  | store hpointer hvalue ha hb =>
    obtain ⟨A, hA, ha⟩ := h.exists_operand ha hpointer
    cases hA with
    | scalar hi => cases hi
    | @pointer _ pointee storage _ _ hpointee _ hA =>
      exact hone (inner_of_rule .store rfl (by decide)
        ⟨A, storage, pointee, ha, h.sub hA, h.operand hb hvalue hpointee⟩)
  | @elementPtr _ _ _ t _ _ _ _ hbase hindex hint htype ha hb =>
    obtain ⟨B, hB, hb⟩ := h.exists_operand hb hindex
    cases t with
    | int w =>
      obtain ⟨v, hv⟩ := exists_normalized_int w
      rw [Naming.type, hv] at hB
      exact hone (inner_of_rule .element rfl (by decide)
        ⟨h.operand ha hbase htype, B, v, hb, h.sub (mem_of_declares_scalar rfl hB)⟩)
    | _ => cases hint
  | call hcallee hfunction hparams hargs hids htype =>
    obtain ⟨found, functionType, types, params, hfunc, hsignature, hfound, hparams', htypes⟩ :=
      h.functions _ _ _ hfunction hcallee
    obtain rfl := h.unique hfound htype
    obtain rfl := List.map_injective_iff.2 (fun _ _ => Option.some.inj)
      (hparams.symm.trans hparams')
    exact hone (inner_of_rule .call rfl (by decide)
      ⟨functionType, types, hfunc, hsignature, h.arguments hargs hids htypes⟩)
  | branch _ hheader =>
    exact List.forall_mem_append.2
      ⟨hheader.inner, hone (inner_free rfl (by decide))⟩
  | loopBranch hcond hc _ _ _ hheader =>
    exact List.forall_mem_append.2 ⟨hheader.inner, hone (h.inner_condition hcond hc)⟩
  | condBranch hcond hc _ _ _ hheader =>
    exact List.forall_mem_append.2 ⟨hheader.inner, hone (h.inner_condition hcond hc)⟩
  | ret hvoid =>
    rw [hvoid] at hresult
    exact hone (inner_of_rule .ret rfl (by decide)
      (h.sub (mem_of_declares_scalar rfl hresult)))
  | returnValue _ htype ha =>
    exact hone (inner_of_rule .returnValue rfl (by decide) (h.operand ha htype hresult))

end Instructions

end Elementwise.Spirv
