import Elementwise.Proofs.Constructs

/-!
# Outlines of translated functions

A function is written as a front, a segment for each of its blocks in listing order, a block that
is never reached for each label that was made on the way, and its end. A segment begins with the
label of its block and ends in its only terminator, before which the merge block is named if the
block begins a construct.

This is so for every function whose translation succeeds, in every state that is not finished,
also if instructions are refused. Where the translation fails, the function is malformed, lacks an
instruction, or looks up something that is not there.
-/
namespace Elementwise.Spirv
open IR Gen

variable {s t u : Generator} {hole gap : Prop} {o : Outline} {out : List Instruction}

/-! ## Blocks -/

/-- What is written for a block, with the labels that are made on the way. -/
inductive Segment (l : Layout) (labels : List (BlockId × UInt32)) :
    BlockId × Block → List UInt32 → List Instruction → Prop
  | intro {id : BlockId} {block : Block} {k : Nat} {label : UInt32} {i : Instr}
      {made : List UInt32} {inner header : List Instruction} {last : Instruction}
      (hk : l.blocks[k]? = some (id, block)) (hlabel : (id, label) ∈ labels)
      (hi : block.terminator? = some i) (hinner : ∀ j ∈ inner, j.opcode ∉ structuralOps)
      (hheader : MergeHeader l labels k block i made header) (hlast : last.opcode ∈ closingOps i) :
      Segment l labels (id, block) made (⟨.label, [label]⟩ :: (inner ++ header ++ [last]))

theorem Segment.mono {l : Layout} {labels labels' : List (BlockId × UInt32)} {e : BlockId × Block}
    {made : List UInt32} (hsub : labels ⊆ labels') (h : Segment l labels e made out) :
    Segment l labels' e made out := by
  obtain ⟨hk, hlabel, hi, hinner, hheader, hlast⟩ := h
  exact .intro hk (hsub hlabel) hi hinner (hheader.mono hsub) hlast

namespace Place

variable {p : Place} {k : Nat}

theorem yields_emitInstrs {instrs : List (InstrId × Option Instr)} {id : InstrId} {i : Instr}
    (hd : p.frame.layout.Distinct) (hk : p.frame.layout.Stands p.id k) (hs : s.Open)
    (h : ∀ x ∈ instrs, Excused hole gap p.frame.program x.1 x.2)
    (hlast : instrs.getLast? = some (id, some i)) (hi : i.isTerminator) :
    Yields hole gap (p.emitInstrs instrs) s fun _ t => p.Ends k i s t := by
  induction instrs generalizing s with
  | nil => cases hlast
  | cons x rest ih =>
    obtain ⟨id', slot⟩ := x
    obtain ⟨hx, hrest⟩ := List.forall_mem_cons.1 h
    refine yields_guard rfl fun hearly => ?_
    cases rest with
    | nil =>
      obtain ⟨rfl, rfl⟩ : id' = id ∧ slot = some i := by simpa using hlast
      refine (yields_emitInstr hd hk hs hx hi).bind fun _ t ht => ?_
      exact .of_ok (a := ()) rfl ht
    | cons next others =>
      cases slot with
      | none => exact .of_error rfl (Or.inr ⟨rfl, hx.absent rfl⟩)
      | some j =>
        have hj : j.isTerminator = false := by simpa using hearly
        refine (fill_emitInstr hx hj s).bind fun _ t ht => ?_
        exact (ih (ht.open hs) hrest (by simpa using hlast)).mono fun _ u hu => .of_fills ht hu

theorem yields_emitBlock (hd : p.frame.layout.Distinct) (hk : p.frame.layout.Stands p.id k)
    (hs : s.Open)
    (h : ∀ x ∈ p.block.instrIds p.id, Excused hole gap p.frame.program x.1 x.2) :
    Yields hole gap p.emitBlock s fun _ t =>
      ∃ i, p.block.terminator? = some i ∧ p.Ends k i s t := by
  refine yields_guard rfl fun hsome => ?_
  have hterminator : p.block.terminator?.isSome := by
    simpa [Option.isSome_iff_ne_none] using hsome
  obtain ⟨⟨id, slot⟩, hlast, hany⟩ := terminator_of_isSome p.id hterminator
  obtain ⟨i, rfl, hi⟩ := (Option.any_eq_true _ _).1 hany
  have heq : p.block.terminator? = some i := by
    rw [Block.terminator?, ← map_snd_instrIds p.block p.id, List.getLast?_map, hlast]
    simp [hi]
  exact (yields_emitInstrs hd hk hs h hlast hi).mono fun _ t ht => ⟨i, heq, ht⟩

end Place

namespace Frame

variable {f : Frame}

theorem yields_emitBlocks {isFirst : Bool} {blocks : List (BlockId × Block)}
    (hd : f.layout.Distinct) (hs : s.Open) (hblocks : blocks ⊆ f.layout.blocks)
    (h : ∀ e ∈ blocks, ∀ x ∈ e.2.instrIds e.1, Excused hole gap f.program x.1 x.2) :
    Yields hole gap (f.emitBlocks isFirst blocks) s fun _ t =>
      ∃ parts : List (List UInt32 × List Instruction),
        s.Appends (parts.flatMap Prod.fst) (parts.flatMap Prod.snd) t ∧
        List.Forall₂ (fun e part => Segment f.layout s.body.labels e part.1 part.2)
          blocks parts := by
  induction blocks generalizing s isFirst with
  | nil => exact .of_ok (a := ()) rfl ⟨[], .refl s, .nil⟩
  | cons e rest ih =>
    obtain ⟨id, block⟩ := e
    obtain ⟨he, hrest⟩ := List.forall_mem_cons.1 h
    obtain ⟨hmem, hsub⟩ := List.cons_subset.1 hblocks
    obtain ⟨k, hk⟩ := List.mem_iff_getElem?.1 hmem
    refine (Place.yields_label (some id)).bind fun label t ht => ?_
    obtain ⟨rfl, _, hid, hlabel⟩ := ht
    cases hid
    refine (yields_emit hs rfl rfl rfl).bind fun _ t ht => ?_
    -- the local variables stand in the first block
    have hblock : ∀ u, t.Fills u → Yields hole gap (do
        Place.emitBlock ⟨f, id, block⟩
        f.emitBlocks false rest) u fun _ v => ∃ parts : List (List UInt32 × List Instruction),
          s.Appends (parts.flatMap Prod.fst) (parts.flatMap Prod.snd) v ∧
          List.Forall₂ (fun e part => Segment f.layout s.body.labels e part.1 part.2)
            ((id, block) :: rest) parts := by
      intro u hu
      have hopen := hu.open (ht.open hs)
      refine (Place.yields_emitBlock (p := ⟨f, id, block⟩) hd ⟨block, hk⟩ hopen he).bind
        fun _ v hv => ?_
      obtain ⟨i, hi, hends⟩ := hv
      obtain ⟨inner, made, header, last, happends, hinner, hheader, hlast⟩ :=
        Place.Ends.of_fills hu hends
      have hthere := ht.trans happends
      refine (ih (hthere.open hs) hsub hrest).mono fun _ w hw => ?_
      obtain ⟨parts, hparts, hsegments⟩ := hw
      rw [ht.labels] at hheader
      rw [hthere.labels] at hsegments
      refine ⟨(made, ⟨.label, [label]⟩ :: (inner ++ header ++ [last])) :: parts, ?_,
        .cons (.intro hk hlabel hi hinner hheader hlast) hsegments⟩
      simpa using hthere.trans hparts
    cases isFirst with
    | true =>
      refine (Place.fill_hoistAll f.instrs t).bind fun _ u hu => ?_
      exact hblock u hu
    | false => exact hblock t (.refl t)

theorem yields_emitUnreachable {labels : List UInt32} (hs : s.Open) :
    Yields hole gap (emitUnreachable labels) s fun _ t =>
      s.Appends [] (labels.flatMap unreachableBlock) t := by
  induction labels generalizing s with
  | nil => exact .of_ok (a := ()) rfl (.refl s)
  | cons label rest ih =>
    refine (yields_emit hs rfl rfl rfl).bind fun _ t ht => ?_
    refine (yields_emit (ht.open hs) rfl rfl rfl).bind fun _ u hu => ?_
    have hthere := ht.trans hu
    exact (ih (hthere.open hs)).mono fun _ v hv => hthere.trans hv

theorem yields_emitParams {params : List (ParamId × UInt32)} (hs : s.Open) :
    Yields hole gap (emitParams params) s fun _ t => ∃ out, s.Appends [] out t ∧
      ∀ i ∈ out, i.opcode = .functionParameter := by
  induction params generalizing s with
  | nil => exact .of_ok (a := ()) rfl ⟨[], .refl s, by simp⟩
  | cons q rest ih =>
    have halloc : s.Appends [] [] s.alloc :=
      .of_body rfl ⟨rfl, rfl, rfl⟩ rfl rfl (Nat.le_succ _)
    -- the id of the parameter, its instruction, and the value that it stands for
    have hput := halloc.trans ((halloc.open hs).put
      (i := ⟨.functionParameter, [q.2, s.next]⟩) rfl rfl rfl)
    have hgiven := hput.trans
      (u := { s.alloc.put s.assembly.current ⟨.functionParameter, [q.2, s.next]⟩ with
        body := { s.body with values := (.param q.1, s.next) :: s.body.values } })
      (.of_body rfl ⟨rfl, rfl, rfl⟩ rfl rfl (Nat.le_refl _))
    refine .of_eq rfl ((ih (hgiven.open hs)).mono fun _ v hv => ?_)
    obtain ⟨out, hout, hops⟩ := hv
    exact ⟨_, hgiven.trans hout, by simpa using hops⟩

theorem fill_emitNames (word : UInt32) (params : List (ParamId × Param)) :
    Fill hole gap (f.emitNames word params) := by
  have hturn : ∀ (text : Text) (id : Generator → UInt32), Fill hole gap (do
      if !text.isEmpty then
        let g ← get
        build (.name (id g) text)
      pure (ForInStep.yield PUnit.unit)) := by
    intro text id
    refine .ite (.getBind fun g => .bind (.emitTo (by decide)) fun _ => ?_) ?_
    · exact .pure _
    · exact .pure _
  refine .bind (.emitTo (by decide)) fun _ => .bind (.forIn fun q => ?_) fun _ => ?_
  · exact hturn q.2.name _
  · refine .bind (.forIn fun b => ?_) fun _ => .pure _
    exact hturn b.2.name _

theorem exists_allocLabels (blocks : List (BlockId × Block)) (s : Generator) :
    ∃ t, allocLabels blocks s = .ok () t := by
  induction blocks generalizing s with
  | nil => exact ⟨s, rfl⟩
  | cons e rest ih => exact ih _

theorem yields_allocLabels (blocks : List (BlockId × Block)) :
    Yields hole gap (allocLabels blocks) s fun _ t => ∃ labels, labels.length = blocks.length ∧
      firstIds t.assembly.allocated = firstIds s.assembly.allocated ++ labels ∧
      t = { s with
        assembly := { s.assembly with allocated := t.assembly.allocated }
        body := { s.body with
          labels := ((blocks.map Prod.fst).zip labels).reverse ++ s.body.labels } } := by
  obtain ⟨t, ht⟩ := exists_allocLabels blocks s
  exact .of_ok ht (allocLabels_ok ht)

end Frame

/-! ## Functions -/

theorem fill_paramTypeIds (params : List (ParamId × Param)) :
    Fill hole gap (paramTypeIds params) := by
  induction params with
  | nil => exact .pure []
  | cons q rest ih =>
    exact .bind (.asks fun _ => asks_typeId _) fun id => .bind ih fun ids => .pure _

theorem fill_functionTypeId (result : UInt32) (params : List UInt32) :
    Fill hole gap (functionTypeId result params) :=
  .asks fun _ => asks_internAs (d := .function (result :: params)) (by simp)

theorem fill_functionId (id : FuncId) : Fill hole gap (functionId id) := by
  refine .bind (.getBind fun s => ?_) fun _ => .getBind fun s => .pure _
  cases List.lookup (some id) s.functions with
  | some word => exact .bind (.pure ()) fun _ => .pure ()
  | none =>
    refine .bind (fun s => .of_ok (allocId_ok.2 ⟨rfl, rfl⟩) (.alloc s)) fun word => ?_
    refine .bind (fun s => .of_ok (a := ()) (modify_ok.2 rfl) (.of_appends ?_)) fun _ => .pure ()
    exact .of_body rfl ⟨rfl, rfl, rfl⟩ rfl rfl (Nat.le_refl _)

/-- Instructions that may stand before the blocks of a function. -/
def IsFront (is : List Instruction) : Prop :=
  ∀ i ∈ is, i.opcode ∈ [.func, .functionParameter] ∨ i.opcode ∉ structuralOps

theorem IsFront.append {is js : List Instruction} (his : IsFront is) (hjs : IsFront js) :
    IsFront (is ++ js) := by
  intro i hi
  rcases List.mem_append.1 hi with hi | hi
  · exact his i hi
  · exact hjs i hi

/-- What a function is written as. -/
structure Outline where
  blocks : List (BlockId × Block)
  /-- The labels of the blocks. -/
  labels : List UInt32
  /-- What stands before the blocks. -/
  front : List Instruction
  /-- For each block the labels that are made for it, and its instructions. -/
  parts : List (List UInt32 × List Instruction)

namespace Outline

def table (o : Outline) : List (BlockId × UInt32) := (o.blocks.map Prod.fst).zip o.labels

/-- The labels of blocks that are never reached. -/
def made (o : Outline) : List UInt32 := o.parts.flatMap Prod.fst

def code (o : Outline) : List Instruction :=
  o.front ++ o.parts.flatMap Prod.snd ++ o.made.flatMap unreachableBlock ++ [⟨.functionEnd, []⟩]

/-- An outline is one of a function. -/
structure Describes (o : Outline) (id : FuncId) (func : Func) : Prop where
  listed : func.listed id = o.blocks.map some
  labels : o.labels.length = o.blocks.length
  front : IsFront o.front
  segments : List.Forall₂ (fun e part => Segment ⟨o.blocks⟩ o.table e part.1 part.2)
    o.blocks o.parts
  merges : (mergeIds o.code).Nodup

end Outline

/-- A function is written as an outline says. The labels of its blocks are new ids. -/
structure Generator.Writes (s : Generator) (o : Outline) (t : Generator) : Prop where
  written : t.written = s.written ++ o.code
  fresh : ∃ ids, firstIds t.assembly.allocated = firstIds s.assembly.allocated ++ ids ∧
    (o.labels ++ o.made).Sublist ids

theorem Outline.Describes.prepend {id : FuncId} {func : Func} (h : o.Describes id func)
    (hout : ∀ i ∈ out, i.opcode ∉ structuralOps) :
    ({ o with front := out ++ o.front } : Outline).Describes id func where
  listed := h.listed
  labels := h.labels
  front := .append (fun i hi => Or.inr (hout i hi)) h.front
  segments := h.segments
  merges := by simpa [code, made, mergeIds_plain hout] using h.merges

theorem Generator.Writes.prepend (h : t.Writes o u) (hout : s.Appends [] out t) :
    s.Writes { o with front := out ++ o.front } u where
  written := by simp [h.written, hout.written, Outline.code, Outline.made]
  fresh := by
    obtain ⟨ids, hids, -⟩ := hout.fresh
    obtain ⟨ids', hids', hsub⟩ := h.fresh
    exact ⟨ids ++ ids', by rw [hids', hids, List.append_assoc],
      hsub.trans (List.sublist_append_right _ _)⟩

/-- Something that the translation of a function looks up is not there: a parameter or a listed
block, the type of a value that is read, or a parameter of a function that is called. -/
inductive Faulty (program : Program) (id : FuncId) (func : Func) : Prop
  | param (h : none ∈ func.params)
  | block (h : none ∈ func.listed id)
  | operand {x : InstrId × Option Instr} {i : Instr} {v : Value} {f : IR.Panic}
      (hx : x ∈ func.entries id) (hi : x.2 = some i) (hv : v ∈ i.operands) (hne : v ≠ .missing)
      (h : program.typeOf v = .error f)
  | callee {x : InstrId × Option Instr} {f : FuncId} {args : List Value} {g : Func}
      (hx : x ∈ func.entries id) (hi : x.2 = some (.call (some f) args))
      (hg : program.func? f = some g) (h : none ∈ g.params)

/-- After its labels were allocated, a function was written as an outline says. -/
structure Frame.Follows (f : Frame) (o : Outline) (s t : Generator) : Prop where
  blocks : o.blocks = f.layout.blocks
  front : IsFront o.front
  appends : s.Appends o.made o.code t
  segments : List.Forall₂ (fun e part => Segment f.layout s.body.labels e part.1 part.2)
    f.layout.blocks o.parts

theorem Frame.Follows.prepend {f : Frame} (h : f.Follows o t u) (hout : s.Appends [] out t)
    (hfront : IsFront out) : f.Follows { o with front := out ++ o.front } s u where
  blocks := h.blocks
  front := hfront.append h.front
  appends := by simpa [Outline.code, Outline.made] using hout.trans h.appends
  segments := hout.labels ▸ h.segments

section Body

variable {f : Frame} (hd : f.layout.Distinct) (hs : s.Open) (hmade : s.body.unreachable = [])
  (h : ∀ e ∈ f.layout.blocks, ∀ x ∈ e.2.instrIds e.1, Excused hole gap f.program x.1 x.2)
include hd hs hmade h

/-- The blocks, those that are never reached, and the end of a function. -/
theorem yields_emitTail (labels : List UInt32) :
    Yields hole gap (do
      f.emitBlocks true f.layout.blocks
      Frame.emitUnreachable (← get).body.unreachable
      build .functionEnd) s fun _ t => ∃ o : Outline, o.labels = labels ∧ f.Follows o s t := by
  refine (Frame.yields_emitBlocks hd hs (List.Subset.refl _) h).bind fun _ t ht => .getBind ?_
  obtain ⟨parts, hparts, hsegments⟩ := ht
  refine (Frame.yields_emitUnreachable (hparts.open hs)).bind fun _ u hu => ?_
  rw [hparts.unreachable, hmade, List.nil_append] at hu
  have hthere := hparts.trans hu
  refine (yields_emit (hthere.open hs) rfl rfl rfl).mono fun _ v hv => ?_
  refine ⟨⟨f.layout.blocks, labels, [], parts⟩, rfl, rfl, by simp [IsFront], ?_, hsegments⟩
  simpa [Outline.code, Outline.made] using hthere.trans hv

/-- What is written after the labels of the blocks were allocated. -/
theorem yields_emitBody {word type result : UInt32} (params : List (ParamId × UInt32))
    (named : List (ParamId × Param)) (labels : List UInt32) :
    Yields hole gap (do
      build (.functionWithId word type result noControl)
      Frame.emitParams params
      if f.debug then f.emitNames word named
      f.emitBlocks true f.layout.blocks
      Frame.emitUnreachable (← get).body.unreachable
      build .functionEnd) s fun _ t => ∃ o : Outline, o.labels = labels ∧ f.Follows o s t := by
  refine (yields_emit hs rfl rfl rfl).bind fun _ t ht => ?_
  refine (Frame.yields_emitParams (ht.open hs)).bind fun _ u hu => ?_
  obtain ⟨out, hout, hops⟩ := hu
  have hrest : ∀ v, u.Fills v → Yields hole gap (do
      f.emitBlocks true f.layout.blocks
      Frame.emitUnreachable (← get).body.unreachable
      build .functionEnd) v fun _ t => ∃ o : Outline, o.labels = labels ∧ f.Follows o s t := by
    intro v hv
    obtain ⟨plain, hplain, hnames⟩ := hv
    have hfront := (ht.trans hout).trans hplain
    have hmade' : v.body.unreachable = [] := by simp [hfront.unreachable, hmade]
    refine (yields_emitTail hd (hfront.open hs) hmade' h labels).mono fun _ w hw => ?_
    obtain ⟨o, hlabels, hfollows⟩ := hw
    refine ⟨{ o with front := _ ++ o.front }, hlabels, hfollows.prepend hfront ?_⟩
    refine .append (.append ?_ ?_) ?_
    · intro i hi
      simp [List.mem_singleton.1 hi]
    · intro i hi
      simp [hops i hi]
    · exact fun i hi => Or.inr (hnames i hi)
  cases hdebug : f.debug with
  | true =>
    refine (Frame.fill_emitNames word named u).bind fun _ v hv => ?_
    exact hrest v hv
  | false => exact hrest u (.refl u)

end Body

theorem yields_inFunctions {α : Type} {x : Gen α} {post : α → Generator → Prop}
    (h : Yields hole gap x (s.select .functions) post) :
    Yields hole gap (inFunctions x) s fun a t =>
      ∃ u, post a u ∧ u.select s.assembly.current = t := by
  cases hrun : x (s.select .functions) with
  | ok a u => exact .of_ok (inFunctions_ok.2 ⟨u, hrun, rfl⟩) ⟨u, h.ok hrun, rfl⟩
  | error e u =>
    have herror : inFunctions x s = .error e (u.select s.assembly.current) := by
      unfold inFunctions
      change x { s with assembly := { s.assembly with current := .functions } } = _ at hrun
      simp only [hrun]
      rfl
    exact .of_error herror (h.error hrun)

/-! ### Failures -/

theorem none_mem_of_allPresent {α : Type} {slots : List (Option α)} {f : IR.Panic}
    (h : allPresent slots = .error f) : none ∈ slots := by
  induction slots with
  | nil => cases h
  | cons slot rest ih =>
    cases slot with
    | none => exact List.mem_cons_self
    | some x =>
      rw [allPresent] at h
      cases hrest : allPresent rest with
      | ok xs => simp [hrest, Except.map] at h
      | error e =>
        have heq : e = f := by simpa [hrest, Except.map] using h
        exact List.mem_cons_of_mem _ (ih (heq ▸ hrest))

section Failures

variable {program : Program} {id : FuncId} {func : Func} (hfunc : program.func? id = some func)
include hfunc

theorem excused_of_mem {x : InstrId × Option Instr} (hx : x ∈ func.entries id) :
    Excused (∃ x ∈ func.entries id, x.2 = none) (Faulty program id func) program x.1 x.2 where
  found := Program.instr?_of_func? hfunc hx
  absent h := ⟨x, hx, h⟩
  operand _ hi _ hv hne _ hf := .operand hx hi hv hne hf
  callee _ _ _ hi hg h := .callee hx hi hg h

theorem yields_emitFunction {debug : Bool} {word : UInt32} (honce : BlocksOnce func)
    (hs : s.Open) :
    Yields (∃ x ∈ func.entries id, x.2 = none) (Faulty program id func)
      (emitFunction program debug id func word) s fun _ t =>
        ∃ o : Outline, o.Describes id func ∧ s.Writes o t := by
  -- what was known in the function before is forgotten
  have hreset : Yields (∃ x ∈ func.entries id, x.2 = none) (Faulty program id func)
      (modify fun s => { s with body := {} }) s fun _ t => t = { s with body := {} } :=
    .of_ok (a := ()) (modify_ok.2 rfl) rfl
  refine hreset.bind fun _ s₀ hs₀ => ?_
  subst hs₀
  refine (Fill.orPanic (fun f hf => ?_) _).bind fun params t₁ h₁ => ?_
  · obtain ⟨k, hk, hnone⟩ := List.mem_mapIdx.1 (none_mem_of_allPresent hf)
    rw [Option.map_eq_none_iff] at hnone
    exact .param (hnone ▸ List.getElem_mem hk)
  refine (Fill.located (.asks fun _ => asks_typeId _) t₁).bind fun result t₂ h₂ => ?_
  refine (Fill.located (fill_paramTypeIds params) t₂).bind fun types t₃ h₃ => ?_
  refine (fill_functionTypeId result types t₃).bind fun type t h₄ => ?_
  obtain ⟨plain, hplain, hops⟩ := ((h₁.trans h₂).trans h₃).trans h₄
  refine (Yields.orPanic fun f hf => .block (none_mem_of_allPresent hf)).bind fun blocks _ hok => ?_
  obtain ⟨hlisted, rfl⟩ := hok
  rw [allPresent_eq_ok] at hlisted
  refine (Frame.yields_allocLabels blocks).bind fun _ u hu => ?_
  obtain ⟨labels, hlength, hfirst, hu⟩ := hu
  have hlabels : u.body.labels = ((blocks.map Prod.fst).zip labels).reverse := by
    rw [hu, hplain.labels]
    exact List.append_nil _
  have hmerges : u.body.merges = [] := by
    rw [hu, hplain.merges, mergeIds_plain hops]
    rfl
  have hmade : u.body.unreachable = [] := by
    rw [hu, hplain.unreachable]
    rfl
  have hopen : u.Open := by
    rw [hu]
    exact ⟨hplain.current.trans hs.current, hplain.finished.trans hs.finished⟩
  have hexcused : ∀ e ∈ blocks, ∀ x ∈ e.2.instrIds e.1,
      Excused (∃ x ∈ func.entries id, x.2 = none) (Faulty program id func) program x.1 x.2 := by
    intro e he x hx
    apply excused_of_mem hfunc
    rw [Func.entries, Func.body, hlisted, reduceOption_map_some]
    exact List.mem_flatMap.2 ⟨e, he, hx⟩
  refine (yields_emitBody (f := ⟨program, func, ⟨blocks⟩, debug⟩) (honce.nodup hlisted) hopen hmade
    hexcused _ params labels).mono fun _ v hv => ?_
  obtain ⟨o, rfl, hblocks, hfront, happends, hsegments⟩ := hv
  obtain rfl : o.blocks = blocks := hblocks
  have hdescribes : o.Describes id func := by
    have htable : u.body.labels ⊆ o.table := by
      intro x hx
      rw [hlabels] at hx
      exact List.mem_reverse.1 hx
    refine ⟨hlisted, hlength, hfront, hsegments.imp fun e part h => h.mono htable, ?_⟩
    have hnodup := happends.distinct (by simp [hmerges])
    rw [happends.merges, hmerges, List.append_nil] at hnodup
    exact List.nodup_reverse.1 hnodup
  have hwrites : t.Writes o v := by
    refine ⟨?_, ?_⟩
    · rw [happends.written, hu]
      rfl
    · obtain ⟨ids, hids, hsub⟩ := happends.fresh
      exact ⟨o.labels ++ ids, by rw [hids, hfirst, List.append_assoc], hsub.append_left o.labels⟩
  have hall := hwrites.prepend hplain
  exact ⟨_, hdescribes.prepend hops, hall.written, hall.fresh⟩

/-- What a function is written as, in every state that is not finished. -/
theorem yields_lowerFunction (debug : Bool) (honce : BlocksOnce func)
    (hs : s.assembly.finished = false) :
    Yields (∃ x ∈ func.entries id, x.2 = none) (Faulty program id func)
      (lowerFunction program debug id) s fun _ t =>
        ∃ o : Outline, o.Describes id func ∧ s.Writes o t := by
  unfold lowerFunction
  simp only [hfunc]
  refine (fill_functionId id s).bind fun word t ht => ?_
  obtain ⟨plain, hplain, hops⟩ := ht
  by_cases hempty : func.order.isEmpty = true
  · simp only [hempty, if_true]
    exact .of_error rfl (Or.inl rfl)
  · simp only [hempty]
    have hopen : (t.select .functions).Open := ⟨rfl, hplain.finished.trans hs⟩
    refine (yields_inFunctions (yields_emitFunction hfunc honce hopen)).bind fun _ v hv => ?_
    obtain ⟨u, ⟨o, hdescribes, hwrites⟩, rfl⟩ := hv
    have hthere : t.Writes o (u.select t.assembly.current) := ⟨hwrites.written, hwrites.fresh⟩
    exact .of_ok rfl ⟨_, hdescribes.prepend hops, hthere.prepend hplain⟩

end Failures

end Elementwise.Spirv
