import Elementwise.Proofs.Faithfulness
import Elementwise.Proofs.Judgement
import Mathlib.Data.List.Chain

/-!
# The function section of a binary that passes

A function is a header, parameters, blocks and an end. Verification looks at each instruction with
no more than the scope in which it stands, so that it lets two things pass that are no part of this
form: a parameter after a block, and an instruction of function bodies outside of all functions.
Both can be told from two neighbours. Where neither occurs, the section is a sequence of functions.
-/
namespace Elementwise.Spirv

/-- Blocks, one after the other. -/
inductive BlockSeq : List Instruction → Prop
  | nil : BlockSeq []
  | block {label terminator : Instruction} {inner rest : List Instruction}
      (hlabel : label.role = .label) (hinner : ∀ i ∈ inner, i.role = .plain ∨ i.role = .merge)
      (hterminator : terminator.role = .terminator) (h : BlockSeq rest) :
      BlockSeq (label :: (inner ++ terminator :: rest))

/-- Functions, one after the other: a header, parameters, blocks and an end each. -/
inductive FunctionSeq : List Instruction → Prop
  | nil : FunctionSeq []
  | function {header close : Instruction} {params blocks rest : List Instruction}
      (hheader : header.role = .opens) (hparams : ∀ i ∈ params, i.role = .parameter)
      (hblocks : BlockSeq blocks) (hclose : close.role = .closes) (h : FunctionSeq rest) :
      FunctionSeq (header :: (params ++ (blocks ++ close :: rest)))

/-- The second instruction may follow the first: it is no parameter after a block, and does not
stand alone after a function. -/
def MayFollow (i j : Instruction) : Prop :=
  (i.role = .terminator → j.role ≠ .parameter) ∧ (i.role = .closes → j.role ≠ .plain)

instance (i j : Instruction) : Decidable (MayFollow i j) := inferInstanceAs (Decidable (_ ∧ _))

/-- All instructions may stand where they do, the first one included. -/
def InPlace (is : List Instruction) : Prop :=
  (∀ i ∈ is.head?, i.role ≠ .plain) ∧ is.IsChain MayFollow

instance (is : List Instruction) : Decidable (InPlace is) :=
  inferInstanceAs (Decidable (_ ∧ _))

section Chains

variable {is rest body blocks : List Instruction}

/-- After instructions that end neither blocks nor functions anything may follow. -/
theorem isChain_append_iff (h : ∀ i ∈ is, i.role ≠ .terminator ∧ i.role ≠ .closes) :
    (is ++ rest).IsChain MayFollow ↔ rest.IsChain MayFollow := by
  induction is with
  | nil => rfl
  | cons i is ih =>
    obtain ⟨hi, his⟩ := List.forall_mem_cons.1 h
    rw [List.cons_append, List.isChain_cons, ih his, and_iff_right]
    intro j _
    exact ⟨fun hrole => absurd hrole hi.1, fun hrole => absurd hrole hi.2⟩

theorem isChain_block_iff {label : Instruction} {inner : List Instruction}
    (hlabel : label.role = .label) (hinner : ∀ i ∈ inner, i.role = .plain ∨ i.role = .merge) :
    (label :: (inner ++ rest)).IsChain MayFollow ↔ rest.IsChain MayFollow := by
  rw [← List.cons_append]
  refine isChain_append_iff (List.forall_mem_cons.2 ⟨by simp [hlabel], fun i hi => ?_⟩)
  rcases hinner i hi with hrole | hrole <;> simp [hrole]

/-- After a block come blocks only. -/
theorem blockSeq_of_isChain {terminator : Instruction} (hbody : FunctionBody body)
    (hterminator : terminator.role = .terminator)
    (h : (terminator :: (body ++ rest)).IsChain MayFollow) : BlockSeq body := by
  induction hbody generalizing terminator with
  | nil => exact .nil
  | parameter hi _ _ => exact absurd hi (((List.isChain_cons.1 h).1 _ rfl).1 hterminator)
  | block hlabel hinner hlast _ ih =>
    refine .block hlabel hinner hlast (ih hlast ?_)
    have htail := h.of_cons
    rw [List.cons_append, List.append_assoc, isChain_block_iff hlabel hinner] at htail
    exact htail

theorem exists_params_of_isChain (hbody : FunctionBody body)
    (h : (body ++ rest).IsChain MayFollow) :
    ∃ params blocks, body = params ++ blocks ∧ (∀ i ∈ params, i.role = .parameter) ∧
      BlockSeq blocks := by
  induction hbody with
  | nil => exact ⟨[], [], rfl, List.forall_mem_nil _, .nil⟩
  | parameter hi _ ih =>
    obtain ⟨params, blocks, rfl, hparams, hblocks⟩ := ih h.of_cons
    exact ⟨_ :: params, blocks, rfl, List.forall_mem_cons.2 ⟨hi, hparams⟩, hblocks⟩
  | block hlabel hinner hterminator hrest _ =>
    rw [List.cons_append, List.append_assoc, isChain_block_iff hlabel hinner] at h
    exact ⟨[], _, rfl, List.forall_mem_nil _,
      .block hlabel hinner hterminator (blockSeq_of_isChain hrest hterminator h)⟩

theorem BlockSeq.isChain {close : Instruction} (h : BlockSeq blocks) (hclose : close.role = .closes)
    (hrest : (close :: rest).IsChain MayFollow) :
    (blocks ++ close :: rest).IsChain MayFollow := by
  induction h with
  | nil => exact hrest
  | @block label terminator inner more hlabel hinner hterminator hmore ih =>
    rw [List.cons_append, List.append_assoc, isChain_block_iff hlabel hinner]
    refine List.isChain_cons.2 ⟨fun j hj => ⟨fun _ hrole => ?_, by simp [hterminator]⟩, ih⟩
    cases hmore with
    | nil =>
      cases hj
      cases hclose.symm.trans hrole
    | block hlabel' =>
      cases hj
      cases hlabel'.symm.trans hrole

end Chains

/-- Instructions that nest are a sequence of functions exactly if all are in place. -/
theorem functionSeq_iff_inPlace {is : List Instruction} (hnested : Nested is) :
    FunctionSeq is ↔ InPlace is := by
  constructor
  · intro h
    clear hnested
    induction h with
    | nil => exact ⟨nofun, .nil⟩
    | @function header close params blocks rest hheader hparams hblocks hclose _ ih =>
      refine ⟨by simp [hheader], ?_⟩
      rw [← List.cons_append, isChain_append_iff]
      · refine hblocks.isChain hclose (List.isChain_cons.2 ⟨fun j hj => ?_, ih.2⟩)
        exact ⟨by simp [hclose], fun _ => ih.1 j hj⟩
      · exact List.forall_mem_cons.2 ⟨by simp [hheader], fun i hi => by simp [hparams i hi]⟩
  · rintro ⟨hfirst, hchain⟩
    induction hnested with
    | nil => exact .nil
    | plain hi _ _ => exact absurd hi (hfirst _ rfl)
    | function hheader hbody hclose _ ih =>
      obtain ⟨params, blocks, rfl, hparams, hblocks⟩ := exists_params_of_isChain hbody hchain.of_cons
      have hrest := (hchain.of_cons).right_of_append
      rw [List.append_assoc]
      refine .function hheader hparams hblocks hclose (ih (fun j hj => ?_) hrest.of_cons)
      exact ((List.isChain_cons.1 hrest).1 j hj).2 hclose

/-! ## The section -/

theorem home?_of_role {i : Instruction} (h : i.role ≠ .plain) : i.home? = some .functions := by
  have hcases : i.opcode ∈ [.selectionMerge, .loopMerge, .func, .functionEnd, .label, .branch,
      .branchConditional, .ret, .returnValue, .unreachable, .functionParameter] := by
    simp only [List.mem_cons, List.not_mem_nil, or_false]
    grind [Instruction.role, Instruction.isMerge, isTerminatorOp]
  have hhome : ∀ op ∈ [.selectionMerge, .loopMerge, .func, .functionEnd, .label, .branch,
      .branchConditional, .ret, .returnValue, .unreachable, Opcode.functionParameter],
      op ≠ .variableOp ∧ op.shape?.map Shape.home = some .functions := by decide
  obtain ⟨hvariable, hshape⟩ := hhome _ hcases
  rw [Instruction.home?, Opcode.home?, if_neg (by simp [hvariable]), hshape]

theorem eq_functions_of_code_le {i : Instruction} {s : Section} (h : i.home? = some s)
    (hle : Section.functions.code ≤ s.code) : s = .functions := by
  have hrows : ∀ row ∈ Opcode.shapes, Section.functions.code ≤ row.2.home.code →
      row.2.home = .functions := by decide
  unfold Instruction.home? Opcode.home? at h
  split at h
  · cases h
    rfl
  · obtain ⟨shape, hshape, rfl⟩ := Option.map_eq_some_iff.1 h
    exact hrows _ (mem_of_lookup hshape) hle

/-- The functions of ordered instructions stand together, so the section nests by itself. -/
theorem Nested.filter_functions {is : List Instruction} (h : Nested is)
    (hshaped : ∀ i ∈ is, i.shaped) (hsorted : is.Pairwise fun i j =>
      ∀ s t, i.home? = some s → j.home? = some t → s.code ≤ t.code) :
    Nested (is.filter fun i => i.home? = some .functions) := by
  induction h with
  | nil => exact .nil
  | plain hi _ ih =>
    have hrest := ih (fun j hj => hshaped j (List.mem_cons_of_mem _ hj)) hsorted.of_cons
    rw [List.filter_cons]
    split_ifs
    · exact .plain hi hrest
    · exact hrest
  | @function header close body rest hheader hbody hclose hrest _ =>
    have hhome := home?_of_role (i := header) (by simp [hheader])
    have hall : ∀ i ∈ header :: (body ++ close :: rest), i.home? = some .functions := by
      refine List.forall_mem_cons.2 ⟨hhome, fun j hj => ?_⟩
      obtain ⟨d, hd⟩ := (Instruction.shaped_iff 0).1 (hshaped j (List.mem_cons_of_mem _ hj))
      have hj' := (Instruction.readAs_of_readAt hd).home
      rw [hj', eq_functions_of_code_le hj' ((List.pairwise_cons.1 hsorted).1 j hj _ _ hhome hj')]
    rw [List.filter_eq_self.2 (by simpa using hall)]
    exact .function hheader hbody hclose hrest

theorem exists_nested_functions {words : List UInt32} (h : verify words = .ok ()) :
    ∃ contents, readModule words = .ok contents ∧ Nested (contents.part .functions) := by
  obtain ⟨version, generator, bound, instrs, hfits, rfl⟩ := exists_binaryWords_of_verify h
  have hlegal := (verify_binaryWords_iff version generator hfits).1 h
  obtain ⟨ds, hds⟩ := exists_readAll hlegal.shaped headerSize
  have hmodule := readModule_binaryWords version generator bound hfits
  rw [hds] at hmodule
  have hnested := (Scope.run_eq_outside_iff.1 hlegal.nested).filter_functions hlegal.shaped
    hlegal.sorted
  rw [← (readList_of_readAll hds).map_filter_home] at hnested
  exact ⟨_, hmodule, hnested⟩

/-- The function section of a binary that passes nests: functions are closed, and all blocks end in
terminators. It is a sequence of functions exactly if all instructions are in place. -/
theorem functions_of_verify {words : List UInt32} (h : verify words = .ok ()) :
    ∃ contents, readModule words = .ok contents ∧ Nested (contents.part .functions) ∧
      (FunctionSeq (contents.part .functions) ↔ InPlace (contents.part .functions)) := by
  obtain ⟨contents, hcontents, hnested⟩ := exists_nested_functions h
  exact ⟨contents, hcontents, hnested, functionSeq_iff_inPlace hnested⟩

/-- A binary with the given instructions after the types of a function without parameters. -/
def functionBinary (bound : UInt32) (instrs : List Instruction) : List UInt32 :=
  binaryWords 0x10300 0 bound
    ([⟨.memoryModel, [0, 1]⟩, ⟨.typeVoid, [1]⟩, ⟨.typeFunction, [2, 1]⟩] ++ instrs)

/-- A function that returns, and `more` before its end. -/
def returningFunction (more : List Instruction) : List Instruction :=
  [⟨.func, [1, 3, 0, 2]⟩, ⟨.label, [4]⟩, ⟨.ret, []⟩] ++ more ++ [⟨.functionEnd, []⟩]

theorem functions_of_verify_returning :
    verify (functionBinary 5 (returningFunction [])) = .ok () ∧
      ∃ contents, readModule (functionBinary 5 (returningFunction [])) = .ok contents ∧
        FunctionSeq (contents.part .functions) := by
  have hverify : verify (functionBinary 5 (returningFunction [])) = .ok () := by decide +kernel
  have hplace : ((readModule (functionBinary 5 (returningFunction []))).toOption.any
    fun contents => InPlace (contents.part .functions)) = true := by decide +kernel
  obtain ⟨contents, hcontents, -, hiff⟩ := functions_of_verify hverify
  rw [hcontents] at hplace
  exact ⟨hverify, contents, hcontents, hiff.2 (of_decide_eq_true hplace)⟩

theorem exists_not_functionSeq {words : List UInt32} (h : verify words = .ok ())
    (hplace : ((readModule words).toOption.any
      fun contents => InPlace (contents.part .functions)) = false) :
    ∃ contents, readModule words = .ok contents ∧ ¬ FunctionSeq (contents.part .functions) := by
  obtain ⟨contents, hcontents, hnested⟩ := exists_nested_functions h
  rw [hcontents] at hplace
  refine ⟨contents, hcontents, fun hseq => of_decide_eq_false hplace ?_⟩
  exact (functionSeq_iff_inPlace hnested).1 hseq

/-- A parameter stands after the block of its function. -/
def lateParameter : List UInt32 :=
  functionBinary 6 (returningFunction [⟨.functionParameter, [1, 5]⟩])

/-- A load stands before the function. -/
def strayLoad : List UInt32 := functionBinary 6 (⟨.load, [1, 5, 1]⟩ :: returningFunction [])

/-- Both are accepted. -/
theorem verify_misplaced :
    verify lateParameter = .ok () ∧ verify strayLoad = .ok () ∧
      ∀ words ∈ [lateParameter, strayLoad], ∃ contents, readModule words = .ok contents ∧
        ¬ FunctionSeq (contents.part .functions) := by
  have hparameter : verify lateParameter = .ok () := by decide +kernel
  have hload : verify strayLoad = .ok () := by decide +kernel
  refine ⟨hparameter, hload, List.forall_iff_forall_mem.1 ⟨?_, ?_⟩⟩
  · exact exists_not_functionSeq hparameter (by decide +kernel)
  · exact exists_not_functionSeq hload (by decide +kernel)

end Elementwise.Spirv
