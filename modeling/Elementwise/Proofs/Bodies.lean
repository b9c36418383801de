import Elementwise.Proofs.Emission
import Elementwise.Proofs.Nesting

/-!
# Writing functions cannot fail

The blocks of a function are written one after the other: each makes the results of its
instructions known to the next, and claims a merge that no block before it claimed. The listed
functions are written in turn, after all of them were given ids.
-/
namespace Elementwise.Spirv
open IR Gen

/-! ## Blocks -/

theorem subset_addResult (known : List Value) (x : InstrId × Option Instr) :
    known ⊆ addResult known x := by
  unfold addResult
  split
  · exact List.subset_cons_self _ _
  · exact List.Subset.refl _

/-- The local variables among the instructions are known. -/
def KnowsLocals (known : List Value) (xs : List (InstrId × Option Instr)) : Prop :=
  ∀ x ∈ xs, (∃ name elem, x.2 = some (.localVar name elem)) → .result x.1 ∈ known

variable {blocks : List (BlockId × Block)} {last : InstrId × Option Instr}
  {params : List (ParamId × Param)}

theorem terminator?_eq {b : Block} {id : BlockId} (h : (b.instrIds id).getLast? = some last)
    (hterminator : last.2.any Instr.isTerminator) : b.terminator? = last.2 := by
  have hslot : b.instrs.getLast? = some last.2 := by
    rw [← Place.map_snd_instrIds b id, List.getLast?_map, h]
    rfl
  obtain ⟨i, hi, hi'⟩ := (Option.any_eq_true _ _).1 hterminator
  rw [Block.terminator?, hslot, hi]
  exact if_pos hi'

namespace Writing

variable {p : Place} {fid : FuncId} {known : List Value} {claimed : List BlockId} {s : Generator}

theorem supplies_operands {f : Frame} (h : Writing f known claimed s) {id : InstrId} {i : Instr}
    {func : Func} (hi : Sound f.program func fid id i)
    (hreads : ∀ v ∈ i.operands, v ∈ known ∨ ∃ c, v = .constant c) :
    ∀ v ∈ i.operands, s.Supplies v := by
  intro v hv
  rcases hreads v hv with hknown | ⟨c, rfl⟩
  · exact h.known v hknown
  · exact hi.constants c hv

/-- After an instruction its result is known. -/
theorem emitInstr_proceeds {id : InstrId} {i : Instr}
    (hi : Sound p.frame.program p.frame.func fid id i) (hinner : i.isTerminator = false)
    (hreads : ∀ v ∈ i.operands, v ∈ known ∨ ∃ c, v = .constant c)
    (hlocal : (∃ name elem, i = .localVar name elem) → .result id ∈ known)
    (h : Writing p.frame known claimed s) :
    Proceeds (p.emitInstr id (some i)) s fun _ t =>
      Writing p.frame (addResult known (id, some i)) claimed t := by
  refine (Place.emitInstr_proceeds hi hinner h.ready h.functions
    (h.supplies_operands hi hreads)).mono fun _ t ht => ?_
  unfold addResult
  rw [Option.any_some]
  rcases ht with hyields | ⟨hadvances, hvalue⟩
  · split
    · exact h.yield hyields
    · exact (h.yield hyields).subset (List.subset_cons_self _ _)
  · split
    · rename_i hi'
      exact (h.advance hadvances).subset
        (List.cons_subset.2 ⟨hlocal (hvalue hi'), List.Subset.refl _⟩)
    · exact h.advance hadvances

/-- The instructions of a block before the last make their results known; the last claims the
merge of the block. -/
theorem emitInstrs_proceeds {init : List (InstrId × Option Instr)}
    (hlayout : p.frame.layout = ⟨p.frame.func.body fid⟩)
    (hloop : ∀ l ∈ p.block.loop, p.frame.layout.Holds l.merge ∧ p.frame.layout.Holds l.continue_)
    (hfree : ∀ b ∈ p.frame.layout.claim? (p.id, p.block), b ∉ claimed)
    (hsound : ∀ x ∈ init ++ [last], ∃ i, x.2 = some i ∧
      Sound p.frame.program p.frame.func fid x.1 i)
    (hinner : ∀ x ∈ init, x.2.any Instr.isTerminator = false)
    (hlast : last.2.any Instr.isTerminator) (hterm : p.block.terminator? = last.2)
    (hlocals : KnowsLocals known init)
    (hreads : ReadsKnown known (init ++ [last])) (h : Writing p.frame known claimed s) :
    Proceeds (p.emitInstrs (init ++ [last])) s fun _ t =>
      Writing p.frame ((init ++ [last]).foldl addResult known)
        ((p.frame.layout.claim? (p.id, p.block)).toList ++ claimed) t := by
  induction init generalizing known s with
  | nil =>
    obtain ⟨id, slot⟩ := last
    obtain ⟨i, rfl, hi⟩ := hsound _ List.mem_cons_self
    have hvalue : i.isValue = false := by
      cases i <;> first | rfl | cases hlast
    have hops := h.supplies_operands hi (hreads.1 i rfl)
    have hknown : addResult known (id, some i) = known := by
      rw [addResult, Option.any_some, hvalue, if_neg Bool.false_ne_true]
    rw [List.nil_append, List.foldl_cons, List.foldl_nil, hknown]
    unfold Place.emitInstrs
    rw [if_neg (by simp)]
    refine (h.emitTerminator_proceeds hloop hi hlayout hterm hfree hops).bind fun _ t ht => ?_
    exact Proceeds.pure ht
  | cons x init ih =>
    obtain ⟨id, slot⟩ := x
    rw [List.cons_append, List.forall_mem_cons] at hsound
    rw [List.forall_mem_cons] at hinner
    rw [KnowsLocals, List.forall_mem_cons] at hlocals
    obtain ⟨⟨i, rfl, hi⟩, hsound⟩ := hsound
    rw [List.cons_append]
    unfold Place.emitInstrs
    rw [hinner.1, Bool.false_and, if_neg Bool.false_ne_true]
    refine (h.emitInstr_proceeds hi hinner.1 (hreads.1 i rfl) ?_).bind fun _ s₁ h₁ => ?_
    · rintro ⟨name, elem, rfl⟩
      exact hlocals.1 ⟨name, elem, rfl⟩
    · exact ih hsound hinner.2
        (fun y hy hlocal => subset_addResult _ _ (hlocals.2 y hy hlocal)) hreads.2 h₁

end Writing

/-- The frame in which a listed function is written. -/
def frameOf (program : Program) (debug : Bool) (e : FuncId × Func) : Frame :=
  ⟨program, e.2, ⟨e.2.body e.1⟩, debug⟩

section Function

variable {program : Program} {options : Options} {e : FuncId × Func} (hvalid : program.Valid)
  (hsupported : Supported program options) (he : e ∈ program.functions) {known : List Value}
  {claimed : List BlockId} {s : Generator} {f : Frame} (hf : f = frameOf program options.debug e)
include hvalid hsupported he hf

theorem emitBlock_proceeds {b : BlockId × Block} (hb : b ∈ e.2.body e.1)
    (hreads : ReadsKnown known (b.2.instrIds b.1))
    (hlocals : KnowsLocals known (e.2.entries e.1))
    (hfree : ∀ c ∈ Layout.claim? ⟨e.2.body e.1⟩ b, c ∉ claimed) (h : Writing f known claimed s) :
    Proceeds (Place.emitBlock ⟨f, b.1, b.2⟩) s fun _ t =>
      Writing f ((b.2.instrIds b.1).foldl addResult known)
        ((Layout.claim? ⟨e.2.body e.1⟩ b).toList ++ claimed) t := by
  subst hf
  have hf := hvalid.functions e he
  obtain ⟨hterm, hinner⟩ := hf.ends b hb
  obtain ⟨last, hlast, hterminator⟩ := terminator_of_isSome b.1 hterm
  have hmem : ∀ x ∈ b.2.instrIds b.1, x ∈ e.2.entries e.1 :=
    fun x hx => List.mem_flatMap.2 ⟨b, hb, hx⟩
  have hsplit := List.dropLast_append_getLast? last hlast
  unfold Place.emitBlock
  dsimp only
  rw [if_neg (by simpa [Option.isSome_iff_ne_none] using hterm)]
  rw [← hsplit] at hreads hmem ⊢
  refine Writing.emitInstrs_proceeds rfl (hf.loops b hb) hfree
    (fun x hx => exists_sound hvalid hsupported he (hmem x hx)) hinner hterminator
    (terminator?_eq hlast hterminator) (fun x hx => hlocals x (hmem x ?_)) hreads h
  exact List.mem_append_left _ hx

omit hvalid hf in
theorem fitsName (hdebug : options.debug) : ∀ name ∈ debugNames e.2 e.1, FitsName name := by
  intro name hname
  have hlisted : some e ∈ program.listed := List.reduceOption_mem_iff.1 he
  exact hsupported.names hdebug name (List.mem_flatMap.2 ⟨some e, hlisted, hname⟩)

theorem hoist_proceeds {p : Place} (hp : p.frame = f) {x : InstrId × Option Instr}
    (hx : x ∈ e.2.entries e.1) (h : Writing f known claimed s) :
    Proceeds (p.hoist x.1 x.2) s fun _ t => ∃ known', known ⊆ known' ∧ KnowsLocals known' [x] ∧
      Writing f known' claimed t := by
  obtain ⟨id, slot⟩ := x
  unfold Place.hoist
  dsimp only
  split
  · rename_i name elem
    have hwhole : elem.whole := (hsupported.functions e he).instrs _ hx _ rfl
    refine (h.run (typeId_runs (t := .pointer elem .function) ?_).located).bind fun type s₁ h₁ => ?_
    · simp only [Ty.whole, Bool.and_eq_true]
      exact ⟨hwhole, by decide⟩
    refine (h₁.run (emitNew_runs (fun _ => Profile.localVariable.home) fun _ => rfl)).bind
      fun word s₂ h₂ => ?_
    have h₃ : Writing f (.result id :: known) claimed (s₂.define (.result id) word) :=
      h₂.define (Generator.isSome_lookup_cons (Or.inl rfl))
    have hend : ∀ {t}, Writing f (.result id :: known) claimed t → ∃ known', known ⊆ known' ∧
        KnowsLocals known' [(id, some (.localVar name elem))] ∧ Writing f known' claimed t :=
      fun ht => ⟨_, List.subset_cons_self _ _, by simp [KnowsLocals], ht⟩
    refine Proceeds.okBind rfl (Proceeds.ite (fun hdebug => ?_) fun _ => Proceeds.pure (hend h₃))
    rw [Bool.and_eq_true, hp, hf] at hdebug
    have hentry : (id, some (.localVar name elem)) ∈ (frameOf program options.debug e).instrs := hx
    have hname : FitsName name := permitted_local (fitsName hsupported he hdebug.1)
      (hvalid.functions e he).blocks hentry
    exact (h₃.run (name_runs hname word)).mono fun _ _ => hend
  · rename_i hnot
    refine Proceeds.pure ⟨known, List.Subset.refl _, ?_, h⟩
    simpa [KnowsLocals] using fun name elem heq => absurd heq (hnot name elem)

/-- Local variables are declared in front, so that all of them are known. -/
theorem hoistAll_proceeds {p : Place} (hp : p.frame = f) {xs : List (InstrId × Option Instr)}
    (hxs : ∀ x ∈ xs, x ∈ e.2.entries e.1) (h : Writing f known claimed s) :
    Proceeds (p.hoistAll xs) s fun _ t => ∃ known', known ⊆ known' ∧ KnowsLocals known' xs ∧
      Writing f known' claimed t := by
  induction xs generalizing known s with
  | nil => exact Proceeds.pure ⟨known, List.Subset.refl _, by simp [KnowsLocals], h⟩
  | cons x xs ih =>
    rw [List.forall_mem_cons] at hxs
    refine (hoist_proceeds hvalid hsupported he hf hp hxs.1 h).bind ?_
    rintro _ s₁ ⟨known₁, hsub, hlocal, h₁⟩
    refine (ih hxs.2 h₁).mono ?_
    rintro _ t ⟨known', hsub', hlocals, ht⟩
    refine ⟨known', List.Subset.trans hsub hsub', List.forall_mem_cons.2 ⟨fun hvar => ?_, hlocals⟩, ht⟩
    exact hsub' (hlocal x List.mem_cons_self hvar)

/-- Blocks make their results known to those after them, and claim different merges. -/
theorem emitBlocks_proceeds {isFirst : Bool}
    (hblocks : ∀ b ∈ blocks, b ∈ e.2.body e.1)
    (hreads : ReadsKnown known (blocks.flatMap fun b => b.2.instrIds b.1))
    (hlocals : isFirst = false → KnowsLocals known (e.2.entries e.1))
    (hclaims : (blocks.filterMap (Layout.claim? ⟨e.2.body e.1⟩)).Nodup)
    (hfree : ∀ c ∈ blocks.filterMap (Layout.claim? ⟨e.2.body e.1⟩), c ∉ claimed)
    (h : Writing f known claimed s) :
    Proceeds (f.emitBlocks isFirst blocks) s fun _ t =>
      ∃ known claimed, Writing f known claimed t := by
  induction blocks generalizing isFirst known claimed s with
  | nil => exact Proceeds.pure ⟨known, claimed, h⟩
  | cons b rest ih =>
    rw [List.forall_mem_cons] at hblocks
    rw [List.flatMap_cons, readsKnown_append] at hreads
    have hcons : (b :: rest).filterMap (Layout.claim? ⟨e.2.body e.1⟩) =
        (Layout.claim? ⟨e.2.body e.1⟩ b).toList ++
          rest.filterMap (Layout.claim? ⟨e.2.body e.1⟩) := by
      rw [List.filterMap_cons]
      cases Layout.claim? ⟨e.2.body e.1⟩ b <;> rfl
    rw [hcons] at hclaims hfree
    obtain ⟨-, hclaims, hdisjoint⟩ := List.nodup_append'.1 hclaims
    rw [List.forall_mem_append] at hfree
    have hwritten : ∀ {known₁ : List Value} {s₁ : Generator}, known ⊆ known₁ →
        KnowsLocals known₁ (e.2.entries e.1) → Writing f known₁ claimed s₁ → Proceeds (do
          Place.emitBlock ⟨f, b.1, b.2⟩
          f.emitBlocks false rest) s₁ fun _ t => ∃ known claimed, Writing f known claimed t := by
      intro known₁ s₁ hsub hlocals₁ h₁
      refine (emitBlock_proceeds hvalid hsupported he hf hblocks.1 (hreads.1.mono hsub) hlocals₁
        (fun c hc => hfree.1 c (Option.mem_toList.2 hc)) h₁).bind fun _ s₂ h₂ => ?_
      refine ih hblocks.2 (hreads.2.mono ?_) (fun _ x hx hvar => ?_) hclaims ?_ h₂
      · intro v hv
        exact mem_foldl_addResult.2 ((mem_foldl_addResult.1 hv).imp_left fun hv => hsub hv)
      · exact mem_foldl_addResult.2 (Or.inl (hlocals₁ x hx hvar))
      · intro c hc hmem
        rcases List.mem_append.1 hmem with hmem | hmem
        · exact hdisjoint hmem hc
        · exact hfree.2 c hc hmem
    have hheld : f.layout.Holds (some b.1) := hf ▸ ⟨b, hblocks.1, rfl⟩
    obtain ⟨-, label, -, -, hlabel⟩ := h.exists_label (p := ⟨f, b.1, b.2⟩) hheld
    refine Proceeds.okBind hlabel ?_
    refine (h.run (emit_runs Profile.label.home rfl)).bind fun _ s₁ h₁ => ?_
    cases isFirst with
    | false => exact hwritten (List.Subset.refl _) (hlocals rfl) h₁
    | true =>
      subst hf
      refine (hoistAll_proceeds hvalid hsupported he rfl rfl (fun x hx => hx) h₁).bind ?_
      rintro _ s₂ ⟨known₂, hsub, hlocals₂, h₂⟩
      exact hwritten hsub hlocals₂ h₂

end Function

/-! ## Functions -/

section Headers

variable {s : Generator}

theorem paramTypeIds_proceeds (hparams : ∀ q ∈ params, q.2.type.whole) (hs : s.Ready) :
    Proceeds (paramTypeIds params) s fun ids t => ids.length = params.length ∧ s.Advances t := by
  induction params generalizing s with
  | nil => exact Proceeds.pure ⟨rfl, .refl hs⟩
  | cons q rest ih =>
    rw [List.forall_mem_cons] at hparams
    refine ((typeId_runs hparams.1).proceeds hs).bind fun id s₁ h₁ => (ih hparams.2 h₁.ready).bind ?_
    rintro ids s₂ ⟨hlength, h₂⟩
    exact Proceeds.pure ⟨by rw [List.length_cons, hlength, List.length_cons], h₁.trans h₂⟩

/-- Every block has a label of its own. -/
theorem allocLabels_proceeds (hs : s.Ready) (hmerging : s.Merging []) :
    Proceeds (Frame.allocLabels blocks) s fun _ t => t.Ready ∧ t.functions = s.functions ∧
      t.Merging [] ∧
      (∀ b, (List.lookup b s.body.labels).isSome → (List.lookup b t.body.labels).isSome) ∧
      ∀ b ∈ blocks, (List.lookup b.1 t.body.labels).isSome := by
  induction blocks generalizing s with
  | nil => exact Proceeds.pure ⟨hs, rfl, hmerging, fun _ hb => hb, by simp⟩
  | cons b rest ih =>
    have hstep : Proceeds (Frame.allocLabels rest) (s.addLabel b.1) fun _ t => t.Ready ∧
        t.functions = s.functions ∧ t.Merging [] ∧
        (∀ c, (List.lookup c (s.addLabel b.1).body.labels).isSome →
          (List.lookup c t.body.labels).isSome) ∧
        ∀ c ∈ rest, (List.lookup c.1 t.body.labels).isSome :=
      ih (hs.alloc.ready.of_assembly rfl) (hmerging.addLabel b.1)
    refine Proceeds.okBind rfl (Proceeds.okBind rfl (hstep.mono ?_))
    rintro _ t ⟨hready, hfunctions, hmerging', hkept, hrest⟩
    refine ⟨hready, hfunctions, hmerging', fun c hc => hkept c ?_,
      List.forall_mem_cons.2 ⟨hkept b.1 ?_, hrest⟩⟩
    · exact Generator.isSome_lookup_cons (Or.inr hc)
    · exact Generator.isSome_lookup_cons (Or.inl rfl)

theorem emitUnreachable_runs {labels : List UInt32} : s.Runs (Frame.emitUnreachable labels) := by
  induction labels with
  | nil => exact .pure _
  | cons label rest ih =>
    refine Generator.Leads.bind (emit_runs Profile.label.home rfl) fun _ => ?_
    exact Generator.Leads.bind (emit_runs Profile.unreachable.home rfl) fun _ => ih

variable {f : Frame} {known : List Value} {claimed : List BlockId}

theorem Writing.emitParams_proceeds {params : List (ParamId × UInt32)}
    (h : Writing f known claimed s) :
    Proceeds (Frame.emitParams params) s fun _ t =>
      Writing f ((params.map fun q => Value.param q.1).reverse ++ known) claimed t := by
  induction params generalizing known s with
  | nil => exact Proceeds.pure h
  | cons q rest ih =>
    refine (h.run (emitNew_runs (fun _ => Profile.functionParameter.home) fun _ => rfl)).bind
      fun word s₁ h₁ => ?_
    refine Proceeds.okBind rfl ?_
    have hdefined : Writing f (.param q.1 :: known) claimed (s₁.define (.param q.1) word) :=
      h₁.define (Generator.isSome_lookup_cons (Or.inl rfl))
    refine (ih hdefined).mono fun _ t ht => ?_
    rwa [List.map_cons, List.reverse_cons, List.append_assoc, List.singleton_append]

/-- A name is given unless it is empty. -/
theorem Writing.nameTurn_proceeds (h : Writing f known claimed s) {text : Text}
    (htext : FitsName text) (word : Generator → UInt32) :
    Proceeds (if (!text.isEmpty) = true then do
        let g ← get
        build (.name (word g) text)
        pure (.yield PUnit.unit)
      else pure (.yield PUnit.unit) : Gen (ForInStep PUnit)) s fun r t =>
        r = .yield ⟨⟩ ∧ Writing f known claimed t := by
  refine Proceeds.ite (fun _ => ?_) fun _ => Proceeds.pure ⟨rfl, h⟩
  refine Proceeds.okBind rfl ((h.run (name_runs htext (word s))).bind fun _ t ht => ?_)
  exact Proceeds.pure ⟨rfl, ht⟩

theorem Writing.emitNames_proceeds {word : UInt32} (hfunc : FitsName f.func.name)
    (hparams : ∀ q ∈ params, FitsName q.2.name) (hblocks : ∀ b ∈ f.layout.blocks, FitsName b.2.name)
    (h : Writing f known claimed s) :
    Proceeds (f.emitNames word params) s fun _ t => Writing f known claimed t := by
  unfold Frame.emitNames
  refine (h.run (name_runs hfunc word)).bind fun _ s₁ h₁ => ?_
  refine (Proceeds.forIn ?_ h₁).bind fun _ s₂ h₂ => ?_
  · intro q hq t ht
    exact ht.nameTurn_proceeds (hparams q hq)
      (fun g => (List.lookup (Value.param q.1) g.body.values).getD 0)
  refine (Proceeds.forIn ?_ h₂).bind fun _ s₃ h₃ => ?_
  · intro b hb t ht
    exact ht.nameTurn_proceeds (hblocks b hb) fun g => (List.lookup b.1 g.body.labels).getD 0
  exact Proceeds.pure h₃

end Headers

/-- Nothing was refused, and every listed function has an id. -/
structure Numbered (program : Program) (s : Generator) : Prop where
  ready : s.Ready
  functions : ∀ g ∈ program.functions, (List.lookup (some g.1) s.functions).isSome

section Functions

variable {program : Program} {options : Options} (hvalid : program.Valid)
  (hsupported : Supported program options) {s : Generator} {e : FuncId × Func}
include hvalid hsupported

theorem emitFunction_proceeds (he : e ∈ program.functions)
    (h : Numbered program s) (word : UInt32) :
    Proceeds (emitFunction program options.debug e.1 e.2 word) s fun _ t => Numbered program t := by
  have hf := hvalid.functions e he
  have hg := hsupported.functions e he
  have hlength : (e.2.signature e.1).length = e.2.params.length := by
    have hparams := congrArg List.length hf.params
    rwa [List.length_map, Func.paramIds, List.length_mapIdx, eq_comm] at hparams
  have hready : ({ s with body := {} } : Generator).Ready := h.ready.of_assembly rfl
  refine Proceeds.okBind rfl ?_
  refine Proceeds.okBind (orPanic_ok.2 ⟨allPresent_eq_ok.2 hf.params, rfl⟩) ?_
  refine ((typeId_runs hg.result).located.proceeds hready).bind fun result s₁ h₁ => ?_
  refine (paramTypeIds_proceeds hg.params h₁.ready).located.bind ?_
  rintro types s₂ ⟨htypes, h₂⟩
  have harity : types.length + 3 < UInt16.size := by
    rw [htypes, hlength]
    exact hg.arity
  refine ((functionTypeId_runs harity).proceeds h₂.ready).bind fun type s₃ h₃ => ?_
  have hheader := (h₁.trans h₂).trans h₃
  refine Proceeds.okBind (orPanic_ok.2 ⟨allPresent_eq_ok.2 hf.blocks, rfl⟩) ?_
  have hempty : s₃.Merging [] := by
    have hbody : s₃.body = {} := hheader.body
    refine ⟨?_, ?_, ?_, ?_⟩ <;> simp [hbody]
  refine (allocLabels_proceeds h₃.ready hempty).bind ?_
  rintro _ s₄ ⟨hready₄, hfunctions, hmerging, -, hlabels⟩
  have h₄ : Writing (frameOf program options.debug e) [] [] s₄ :=
    ⟨hready₄, hfunctions ▸ hheader.functions ▸ h.functions, hlabels, by simp, hmerging⟩
  refine (h₄.run (emit_runs Profile.func.home rfl)).bind fun _ s₅ h₅ => ?_
  refine h₅.emitParams_proceeds.bind fun _ s₆ h₆ => ?_
  have hknown : (((e.2.signature e.1).map (·.1)).zip types).map (fun q => Value.param q.1) =
      (e.2.signature e.1).map fun q => Value.param q.1 := by
    have hfst : (((e.2.signature e.1).map (·.1)).zip types).map Prod.fst =
        (e.2.signature e.1).map (·.1) := List.map_fst_zip (by simp [htypes])
    simpa only [List.map_map, Function.comp_def] using congrArg (List.map Value.param) hfst
  rw [hknown, List.append_nil] at h₆
  have hend : ∀ {s₇ : Generator},
      Writing (frameOf program options.debug e) (e.2.paramValues e.1) [] s₇ → Proceeds (do
        (frameOf program options.debug e).emitBlocks true (e.2.body e.1)
        Frame.emitUnreachable (← get).body.unreachable
        build .functionEnd) s₇ fun _ t => Numbered program t := by
    intro s₇ h₇
    refine (emitBlocks_proceeds hvalid hsupported he rfl (fun _ hb => hb) hf.reads (by simp) hg.merges
      (by simp) h₇).bind ?_
    rintro _ s₈ ⟨known, claimed, h₈⟩
    refine Proceeds.okBind rfl ((h₈.run emitUnreachable_runs).bind fun _ s₉ h₉ => ?_)
    exact (h₉.run (emit_runs Profile.functionEnd.home rfl)).mono fun _ t ht =>
      ⟨ht.ready, ht.functions⟩
  refine Proceeds.ite (fun hdebug => ?_) fun _ => hend h₆
  have hnames := fitsName hsupported he hdebug
  refine (h₆.emitNames_proceeds (hnames _ List.mem_cons_self)
    (fun q hq => permitted_param hnames hf.params hq)
    (fun b hb => permitted_block hnames hf.blocks hb)).bind fun _ s₇ h₇ => hend h₇

theorem lowerFunction_proceeds (he : e ∈ program.functions) (h : Numbered program s) :
    Proceeds (lowerFunction program options.debug e.1) s fun _ t => Numbered program t := by
  obtain ⟨word, hword⟩ := Option.isSome_iff_exists.1 (h.functions e he)
  have hid : functionId e.1 s = .ok word s := by
    refine bind_ok.2 ⟨(), s, bind_ok.2 ⟨s, s, rfl, ?_⟩, bind_ok.2 ⟨s, s, rfl, ?_⟩⟩
    · rw [hword]
      rfl
    · rw [hword]
      rfl
  have hselect : s.select .functions = s := by
    rw [← h.ready.current]
    rfl
  unfold lowerFunction
  rw [Program.func?_of_mem_functions he]
  refine Proceeds.okBind hid ?_
  rw [if_neg (by simpa using (hvalid.functions e he).nonempty)]
  have hemit : Proceeds (inFunctions (emitFunction program options.debug e.1 e.2 word)) s
      fun _ t => Numbered program t := by
    refine Proceeds.inFunctions ?_
    rw [hselect]
    refine (emitFunction_proceeds hvalid hsupported he h word).mono fun _ t ht => ?_
    rw [h.ready.current, ← ht.ready.current]
    exact ht
  exact hemit.bind fun _ t ht => Proceeds.pure ht

theorem lowerListed_proceeds {entries : List (FuncId × Func)} {seen : List FuncId}
    (hentries : ∀ e ∈ entries, e ∈ program.functions) (honce : (entries.map Prod.fst).Nodup)
    (hseen : ∀ e ∈ entries, e.1 ∉ seen) (h : Numbered program s) :
    Proceeds (lowerListed program options.debug seen (entries.map some)) s fun _ t =>
      Numbered program t := by
  induction entries generalizing seen s with
  | nil => exact Proceeds.pure h
  | cons e rest ih =>
    rw [List.forall_mem_cons] at hentries hseen
    rw [List.map_cons, List.nodup_cons] at honce
    unfold lowerListed
    rw [List.map_cons]
    dsimp only
    rw [if_neg (by simpa using hseen.1)]
    refine (lowerFunction_proceeds hvalid hsupported hentries.1 h).bind fun _ s₁ h₁ => ?_
    refine ih hentries.2 honce.2 (fun e' he' hmem => ?_) h₁
    rcases List.mem_cons.1 hmem with heq | hmem
    · exact honce.1 (heq ▸ List.mem_map_of_mem he')
    · exact hseen.2 e' he' hmem

end Functions

end Elementwise.Spirv
