import Elementwise.Proofs.Validity

/-!
# What validation can find

A walk over a program in which every reference leads somewhere comes to its end, and what it finds
are the findings of the instructions and of the shape of blocks and functions. This is said once,
for any property of violations that these have.

A program that follows the rules has no findings at all: whatever an early return skips has been
ruled out before it. With the converse, validation decides the rules.
-/
namespace Elementwise.IR
open Text.Numeral

/-- The check comes to an end, and all it reports has a property. -/
def Reports (P : Violation → Prop) (check : Except Panic (List Violation)) : Prop :=
  ∃ vs, check = .ok vs ∧ ∀ v ∈ vs, P v

/-- The check comes to an end, and all it finds has a property. -/
def Finds (P : Violation → Prop) (check : Except Panic (List Finding)) : Prop :=
  ∃ fs, check = .ok fs ∧ ∀ f ∈ fs, P f.violation

theorem reports_false {check : Except Panic (List Violation)} :
    Reports (fun _ => False) check ↔ check = .ok [] := by
  constructor
  · rintro ⟨vs, hcheck, hvs⟩
    rw [hcheck, List.eq_nil_iff_forall_not_mem.2 hvs]
  · intro hcheck
    exact ⟨[], hcheck, by simp⟩

theorem finds_false {check : Except Panic (List Finding)} :
    Finds (fun _ => False) check ↔ check = .ok [] := by
  constructor
  · rintro ⟨fs, hcheck, hfs⟩
    rw [hcheck, List.eq_nil_iff_forall_not_mem.2 hfs]
  · intro hcheck
    exact ⟨[], hcheck, by simp⟩

/-! ## Blocks -/

variable {f : Func} {id : FuncId} {e : FuncId × Func}
  {xs : List (InstrId × Option Instr)}

namespace Surroundings

variable {s : Surroundings} {i : Instr} {defined : List Value} {P : Violation → Prop}

/-- What is defined so far belongs to the function and is not missing. -/
structure Owns (s : Surroundings) (defined : List Value) : Prop where
  subset : defined ⊆ s.owned
  present : .missing ∉ defined

theorem checkInstr_reports (howns : s.Owns defined) {last : Bool}
    (hoperands : ∀ v ∈ i.operands, v ∈ defined ∨ ∃ c, v = .constant c)
    (hlast : i.isTerminator → last = false → P .earlyTerminator)
    (htypes : Reports P (s.checkTypes i)) : Reports P (s.checkInstr defined last i) := by
  have hnone : i.operands.flatMap (s.checkOperand defined) = [] := by
    refine List.flatMap_eq_nil_iff.2 fun v hv => checkOperand_eq_nil.2 ?_
    refine (hoperands v hv).symm.imp_right fun hknown => ⟨?_, howns.subset hknown, hknown⟩
    rintro rfl
    exact howns.present hknown
  have hending : ∀ v ∈ (if (i.isTerminator && !last) = true then [.earlyTerminator] else []),
      P v := by
    intro v hv
    split at hv
    · rename_i hearly
      rw [Bool.and_eq_true, Bool.not_eq_true'] at hearly
      rw [List.mem_singleton.1 hv]
      exact hlast hearly.1 hearly.2
    · cases hv
  obtain ⟨types, hok, htypes⟩ := htypes
  unfold checkInstr
  dsimp only
  rw [hnone, List.append_nil]
  split
  · refine ⟨_, rfl, ?_⟩
    rwa [List.append_nil]
  · rw [hok]
    exact ⟨_, rfl, List.forall_mem_append.2 ⟨hending, htypes⟩⟩

theorem Owns.add {x : InstrId × Option Instr} (howns : s.Owns defined)
    (hx : x.2.any Instr.isValue → .result x.1 ∈ s.owned) : s.Owns (addResult defined x) := by
  unfold addResult
  split
  · rename_i hvalue
    exact ⟨List.cons_subset.2 ⟨hx hvalue, howns.subset⟩, by simpa using howns.present⟩
  · exact howns

/-- The results among entries belong to the function. -/
def OwnsResults (s : Surroundings) (xs : List (InstrId × Option Instr)) : Prop :=
  ∀ x ∈ xs, x.2.any Instr.isValue → .result x.1 ∈ s.owned

theorem Owns.foldl (howns : s.Owns defined) (hresults : s.OwnsResults xs) :
    s.Owns (xs.foldl addResult defined) := by
  induction xs generalizing defined with
  | nil => exact howns
  | cons x rest ih =>
    obtain ⟨hx, hrest⟩ := List.forall_mem_cons.1 hresults
    exact ih (howns.add hx) hrest

theorem checkInstrs_finds (block : Text) (howns : s.Owns defined) (hresults : s.OwnsResults xs)
    (hreads : ReadsKnown defined xs)
    (htypes : ∀ x ∈ xs, ∃ i, x.2 = some i ∧ Reports P (s.checkTypes i))
    (hinner : ∀ x ∈ xs.dropLast, x.2.any Instr.isTerminator → P .earlyTerminator) :
    ∃ fs, s.checkInstrs block defined xs = .ok (fs, xs.foldl addResult defined) ∧
      ∀ f ∈ fs, P f.violation := by
  induction xs generalizing defined with
  | nil => exact ⟨[], rfl, by simp⟩
  | cons x rest ih =>
    obtain ⟨id, slot⟩ := x
    obtain ⟨⟨i, rfl, hi⟩, hrest⟩ := List.forall_mem_cons.1 htypes
    obtain ⟨hx, hmore⟩ := List.forall_mem_cons.1 hresults
    have hlast : i.isTerminator → rest.isEmpty = false → P .earlyTerminator := by
      intro hterminator hrest
      cases rest with
      | nil => cases hrest
      | cons y others => exact hinner (id, some i) (by simp) hterminator
    obtain ⟨violations, hcheck, hviolations⟩ :=
      checkInstr_reports howns (hreads.1 i rfl) hlast hi
    have hadd : (if i.isValue then .result id :: defined else defined) =
        addResult defined (id, some i) := rfl
    obtain ⟨fs, htail, hfs⟩ := ih (howns.add hx) hmore hreads.2 hrest fun y hy => hinner y (by
      cases rest with
      | nil => cases hy
      | cons z others => exact List.mem_cons_of_mem _ hy)
    rw [checkInstrs, hcheck, hadd]
    simp only [bind, Except.bind, htail]
    refine ⟨_, rfl, List.forall_mem_append.2 ⟨?_, hfs⟩⟩
    rw [List.forall_mem_map]
    exact hviolations

/-- What can be said of a block without looking at others. -/
structure BlockFinds (s : Surroundings) (P : Violation → Prop) (b : BlockId × Block) : Prop where
  empty : b.2.instrs = [] → P .blockEmpty
  ends : b.2.terminator? = none → P .noTerminator
  loop : ∀ l ∈ b.2.loop, s.Holds l.merge ∧ s.Holds l.continue_
  types : ∀ x ∈ b.2.instrIds b.1, ∃ i, x.2 = some i ∧ Reports P (s.checkTypes i)
  inner : ∀ x ∈ (b.2.instrIds b.1).dropLast, x.2.any Instr.isTerminator → P .earlyTerminator

theorem checkBlock_finds {id : BlockId} {b : Block} (howns : s.Owns defined)
    (hresults : s.OwnsResults (b.instrIds id)) (hreads : ReadsKnown defined (b.instrIds id))
    (hb : s.BlockFinds P (id, b)) (index : Nat) :
    ∃ fs, s.checkBlock defined index id b = .ok (fs, (b.instrIds id).foldl addResult defined) ∧
      ∀ f ∈ fs, P f.violation := by
  obtain ⟨fs, hinstrs, hfs⟩ := checkInstrs_finds
    (if b.name.isEmpty then "#" ++ decimal index else b.name) howns hresults hreads hb.types hb.inner
  unfold checkBlock
  cases hempty : b.instrs with
  | nil =>
    simp only [List.isEmpty_nil, if_true, Block.instrIds, hempty, List.mapIdx_nil, List.foldl_nil]
    exact ⟨_, rfl, by simpa using hb.empty hempty⟩
  | cons first rest =>
    have hending : ∀ v ∈ (if b.terminator?.isNone then [Violation.noTerminator] else []), P v := by
      intro v hv
      split at hv
      · rename_i hnone
        rw [List.mem_singleton.1 hv]
        exact hb.ends (Option.isNone_iff_eq_none.1 hnone)
      · cases hv
    simp only [List.isEmpty_cons, Bool.false_eq_true, if_false, hinstrs, bind, Except.bind]
    refine ⟨_, rfl, List.forall_mem_append.2 ⟨?_, hfs⟩⟩
    rw [List.forall_mem_map, List.forall_mem_append]
    refine ⟨hending, ?_⟩
    cases hl : b.loop with
    | none => simp
    | some l =>
      obtain ⟨hmerge, hcontinue⟩ := hb.loop l hl
      simp [checkTarget_eq_nil.2 hmerge, checkTarget_eq_nil.2 hcontinue]

theorem checkBlocks_finds {blocks : List (BlockId × Block)} (howns : s.Owns defined)
    (hresults : s.OwnsResults (blocks.flatMap fun b => b.2.instrIds b.1))
    (hreads : ReadsKnown defined (blocks.flatMap fun b => b.2.instrIds b.1))
    (hblocks : ∀ b ∈ blocks, s.BlockFinds P b) (index : Nat) :
    Finds P (s.checkBlocks defined index blocks) := by
  induction blocks generalizing defined index with
  | nil => exact ⟨[], rfl, by simp⟩
  | cons b rest ih =>
    obtain ⟨id, b⟩ := b
    rw [List.flatMap_cons] at hresults hreads
    obtain ⟨hreads, hmore⟩ := readsKnown_append.1 hreads
    obtain ⟨hresults, hothers⟩ := List.forall_mem_append.1 hresults
    obtain ⟨hb, hrest⟩ := List.forall_mem_cons.1 hblocks
    obtain ⟨fs, hblock, hfs⟩ := checkBlock_finds howns hresults hreads hb index
    obtain ⟨more, htail, hmore⟩ := ih (howns.foldl hresults) hothers hmore hrest (index + 1)
    rw [checkBlocks, hblock]
    simp only [bind, Except.bind, htail]
    exact ⟨_, rfl, List.forall_mem_append.2 ⟨hfs, hmore⟩⟩

end Surroundings

/-! ## Functions and programs -/

variable {p : Program} {P : Violation → Prop}

/-- The checks of a function refer to its listed blocks and to its parameters and results. -/
def Func.surroundings (p : Program) (f : Func) (id : FuncId) : Surroundings where
  program := p
  func := f
  blocks := (f.body id).map (·.1)
  owned := (f.paramIds id).filterMap (fun entry => entry.map (.param ·.1)) ++
    (f.body id).flatMap fun b => b.2.results b.1

theorem Func.holds_surroundings {target : Option BlockId} :
    (f.surroundings p id).Holds target ↔ f.Holds id target := by
  constructor
  · rintro ⟨b, hb, rfl⟩
    obtain ⟨entry, hentry, rfl⟩ := List.mem_map.1 hb
    exact ⟨entry, hentry, rfl⟩
  · rintro ⟨b, hb, rfl⟩
    exact ⟨b.1, List.mem_map_of_mem hb, rfl⟩

/-- What can be said of a function without looking at others. -/
structure Func.FuncFinds (p : Program) (P : Violation → Prop) (f : Func) (id : FuncId) : Prop where
  params : f.paramIds id = (f.signature id).map some
  typed : ∀ q ∈ f.signature id, q.2.type ≠ .missing
  void : ∀ q ∈ f.signature id, q.2.type = .void → P (.paramVoid q.1.index)
  empty : f.order = [] → P .noBlocks
  listed : f.listed id = (f.body id).map some
  reads : ReadsKnown (f.paramValues id) (f.entries id)
  blocks : ∀ b ∈ f.body id, (f.surroundings p id).BlockFinds P b

theorem Func.FuncFinds.checkParams (h : f.FuncFinds p P id) :
    ∀ v ∈ f.params.zipIdx.flatMap (fun (q, i) => checkParam i q), P v := by
  intro v hv
  obtain ⟨⟨slot, k⟩, hslot, hv⟩ := List.mem_flatMap.1 hv
  have hat : f.params[k]? = some slot := List.mem_zipIdx_iff_getElem?.1 hslot
  have hid : (f.paramIds id)[k]? = some (slot.map fun q => (⟨id, k⟩, q)) := by
    rw [Func.paramIds, List.getElem?_mapIdx, hat]
    rfl
  rw [h.params, List.getElem?_map] at hid
  obtain ⟨q, hq, heq⟩ := Option.map_eq_some_iff.1 hid
  cases slot with
  | none => cases heq
  | some param =>
    cases heq
    have hmem := List.mem_of_getElem? hq
    simp only [checkParam, if_neg (h.typed _ hmem), List.nil_append] at hv
    split at hv
    · rename_i hvoid
      rw [List.mem_singleton.1 hv]
      exact h.void _ hmem hvoid
    · cases hv

theorem checkFunc_finds (h : e.2.FuncFinds p P e.1) : Finds P (checkFunc p (some e)) := by
  obtain ⟨id, f⟩ := e
  have hblocks : (f.listed id).any Option.isNone = false := by
    rw [h.listed]
    simp
  have howns : (f.surroundings p id).Owns
      ((f.paramIds id).filterMap fun entry => entry.map (.param ·.1)) := by
    refine ⟨List.subset_append_left .., ?_⟩
    simp
  have hresults : (f.surroundings p id).OwnsResults (f.entries id) := by
    intro x hx hvalue
    obtain ⟨b, hb, hxb⟩ := List.mem_flatMap.1 hx
    refine List.mem_append_right _ (List.mem_flatMap.2 ⟨b, hb, ?_⟩)
    exact List.mem_filterMap.2 ⟨x, hxb, if_pos hvalue⟩
  have hreads : ReadsKnown ((f.paramIds id).filterMap fun entry => entry.map (.param ·.1))
      (f.entries id) := by
    refine h.reads.mono fun v hv => ?_
    obtain ⟨q, hq, rfl⟩ := List.mem_map.1 (List.mem_reverse.1 hv)
    exact List.mem_filterMap.2 ⟨some q, List.reduceOption_mem_iff.1 hq, rfl⟩
  obtain ⟨fs, hwalk, hfs⟩ := Surroundings.checkBlocks_finds howns hresults hreads h.blocks 0
  unfold checkFunc
  dsimp only
  split
  · rename_i hempty
    refine ⟨_, rfl, ?_⟩
    simpa using h.empty (List.isEmpty_iff.1 hempty)
  · rw [hblocks, if_neg (by simp)]
    refine ⟨_, congrArg _ hwalk, List.forall_mem_append.2 ⟨?_, hfs⟩⟩
    rw [List.forall_mem_map]
    exact h.checkParams

theorem mapM_finds {α : Type} {xs : List α} {f : α → Except Panic (List Finding)}
    (h : ∀ x ∈ xs, Finds P (f x)) : ∃ ys, xs.mapM f = .ok ys ∧ ∀ g ∈ ys.flatten, P g.violation := by
  induction xs with
  | nil => exact ⟨[], rfl, by simp⟩
  | cons x rest ih =>
    obtain ⟨⟨fs, hx, hfs⟩, hrest⟩ := List.forall_mem_cons.1 h
    obtain ⟨ys, hys, hall⟩ := ih hrest
    refine ⟨fs :: ys, mapM_cons_eq_ok.2 ⟨fs, ys, hx, hys, rfl⟩, ?_⟩
    rw [List.flatten_cons]
    exact List.forall_mem_append.2 ⟨hfs, hall⟩

theorem validate_finds (hlisted : p.listed = p.functions.map some)
    (hempty : p.functions = [] → P .noFunctions)
    (hkernel : ∀ e ∈ p.functions.head?, Finds P (checkKernel (some e)))
    (hfunctions : ∀ e ∈ p.functions, e.2.FuncFinds p P e.1) : Finds P p.validate := by
  unfold Program.validate
  cases hfuncs : p.functions with
  | nil =>
    rw [hlisted, hfuncs]
    exact ⟨_, rfl, by simpa using hempty hfuncs⟩
  | cons kernel rest =>
    obtain ⟨signature, hsignature, hsigned⟩ := hkernel kernel (by rw [hfuncs]; rfl)
    have hchecks : ∀ slot ∈ p.listed, Finds P (checkFunc p slot) := by
      intro slot hslot
      rw [hlisted] at hslot
      obtain ⟨e, he, rfl⟩ := List.mem_map.1 hslot
      exact checkFunc_finds (hfunctions e he)
    obtain ⟨findings, hfindings, hall⟩ := mapM_finds hchecks
    rw [hlisted, hfuncs, List.map_cons] at hfindings
    rw [hlisted, hfuncs, List.map_cons]
    simp only [hsignature, hfindings, bind, Except.bind]
    exact ⟨_, rfl, List.forall_mem_append.2 ⟨hsigned, hall⟩⟩

/-! ## Programs that follow the rules -/

theorem Func.Valid.funcFinds (h : f.Valid p id) : f.FuncFinds p (fun _ => False) id where
  params := h.params
  typed q hq := (h.paramTypes q hq).1
  void q hq := (h.paramTypes q hq).2
  empty := h.nonempty
  listed := h.blocks
  reads := h.reads
  blocks b hb := by
    obtain ⟨hends, hinner⟩ := h.ends b hb
    constructor
    · intro hempty
      simp [Block.terminator?, hempty] at hends
    · intro hnone
      rw [hnone] at hends
      cases hends
    · intro l hl
      rw [Func.holds_surroundings, Func.holds_surroundings]
      exact h.loops b hb l hl
    · intro x hx
      obtain ⟨i, hi, hvalid⟩ := h.instrs x (List.mem_flatMap.2 ⟨b, hb, hx⟩)
      refine ⟨i, hi, reports_false.2 (Surroundings.checkTypes_eq_nil.2 (hvalid.mono ?_))⟩
      exact fun target => Func.holds_surroundings.2
    · intro x hx hterminator
      rw [hinner x hx] at hterminator
      cases hterminator

theorem checkKernel_of_valid {name : Text} {elem : Ty}
    (hparams : e.2.params = [some ⟨name, .pointer elem .buffer⟩])
    (hresult : e.2.resultType = .void) : checkKernel (some e) = .ok [] := by
  simp [checkKernel, hparams, hresult]

/-- A program that follows the rules has no findings. -/
theorem validate_of_valid (h : p.Valid) : p.validate = .ok [] := by
  obtain ⟨kernel, hkernel, name, elem, hparams, hresult⟩ := h.kernel
  rw [← finds_false]
  refine validate_finds h.listed ?_ ?_ fun e he => (h.functions e he).funcFinds
  · intro hempty
    rw [hempty] at hkernel
    cases hkernel
  · intro e he
    obtain rfl := Option.mem_unique hkernel he
    exact finds_false.2 (checkKernel_of_valid hparams hresult)

/-- Validation finds nothing exactly in the programs that follow the rules. -/
theorem validate_eq_nil_iff {p : Program} : p.validate = .ok [] ↔ p.Valid :=
  ⟨valid_of_validate, validate_of_valid⟩

end Elementwise.IR
