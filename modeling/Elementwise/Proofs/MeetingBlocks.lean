import Elementwise.Proofs.Acceptance
import Elementwise.Proofs.Outline

/-!
# Selections without a hint

A conditional branch for which no merge block was named merges in the earliest block that both of
its ways reach. The blocks that are reached are found by a search with a stack. It ends, as does
every search that takes up pending blocks in some order, and the choice does not depend on the
order. If the ways meet nowhere, a new label is made, and the block of that label is written once,
after all others, and never reached.
-/
namespace Elementwise.Spirv
open IR Gen Relation

/-! ## Labels -/

theorem filter_label_plain {is : List Instruction} (h : ∀ i ∈ is, i.opcode ∉ structuralOps) :
    is.filter (fun i => i.opcode = .label) = [] := by
  rw [List.filter_eq_nil_iff]
  intro i hi hop
  exact h i hi (by simp_all [structuralOps])

section Labels

variable {l : Layout} {labels : List (BlockId × UInt32)} {e : BlockId × Block}
  {made : List UInt32} {out : List Instruction}

/-- The only label in a segment is that of its block. -/
theorem Segment.filter_label (h : Segment l labels e made out) : ∃ m, (e.1, m) ∈ labels ∧
    out.filter (fun i => i.opcode = .label) = [⟨.label, [m]⟩] := by
  obtain @⟨id, block, k, label, i, made, inner, header, last, -, hlabel, -, hinner, hheader,
    hlast⟩ := h
  have hnone : header.filter (fun i => i.opcode = .label) = [] := by
    cases hheader <;> rfl
  have hops : ∀ op ∈ [Opcode.branch, .branchConditional, .ret, .returnValue], op ≠ .label := by
    decide
  refine ⟨label, hlabel, ?_⟩
  rw [List.filter_cons_of_pos (by simp), List.filter_append, List.filter_append,
    filter_label_plain hinner, hnone]
  simp [hops _ (mem_closingOps hlast)]

end Labels

namespace Outline

variable {o : Outline} {id : FuncId} {func : Func}

theorem filter_label_parts {l : Layout} {labels : List (BlockId × UInt32)}
    {blocks : List (BlockId × Block)} {parts : List (List UInt32 × List Instruction)}
    (h : List.Forall₂ (fun e part => Segment l labels e part.1 part.2) blocks parts) :
    ∃ found, List.Forall₂ (fun e m => (e.1, m) ∈ labels) blocks found ∧
      (parts.flatMap Prod.snd).filter (fun i => i.opcode = .label) =
        found.map fun m => ⟨.label, [m]⟩ := by
  induction h with
  | nil => exact ⟨[], .nil, rfl⟩
  | cons hsegment _ ih =>
    obtain ⟨m, hm, hfilter⟩ := hsegment.filter_label
    obtain ⟨found, hfound, hrest⟩ := ih
    exact ⟨m :: found, .cons hm hfound, by
      rw [List.flatMap_cons, List.filter_append, hfilter, hrest]
      rfl⟩

theorem filter_label_unreachable (made : List UInt32) :
    (made.flatMap unreachableBlock).filter (fun i => i.opcode = .label) =
      made.map fun m => ⟨.label, [m]⟩ := by
  induction made with
  | nil => rfl
  | cons m rest ih =>
    rw [List.flatMap_cons, List.filter_append, ih]
    rfl

/-- The labels of the blocks are written in order, and then those that were made. -/
theorem Describes.filter_label (h : o.Describes id func) (honce : BlocksOnce func) :
    o.code.filter (fun i => i.opcode = .label) =
      (o.labels ++ o.made).map fun m => ⟨.label, [m]⟩ := by
  obtain ⟨found, hfound, hparts⟩ := filter_label_parts h.segments
  have heq : found = o.labels := by
    refine Frame.eq_of_forall₂_zip (honce.nodup h.listed) (by simp [h.labels]) ?_
    rw [List.forall₂_map_left_iff]
    exact hfound.imp fun e m hm => List.mem_reverse.2 hm
  have hfront : o.front.filter (fun i => i.opcode = .label) = [] := by
    rw [List.filter_eq_nil_iff]
    intro i hi hop
    simp only [decide_eq_true_eq] at hop
    have hfront := h.front i hi
    rw [hop] at hfront
    exact absurd hfront (by decide)
  have hend : [(⟨.functionEnd, []⟩ : Instruction)].filter (fun i => i.opcode = .label) = [] := rfl
  rw [code, List.filter_append, List.filter_append, List.filter_append, hfront, hparts,
    filter_label_unreachable, heq, hend, List.map_append, List.nil_append, List.append_nil]

section Fresh

variable {s t : Generator} (hwrites : s.Writes o t) (hbound : t.assembly.allocated < 2 ^ 32 - 1)
include hwrites hbound

/-- The labels of a function are new and differ from each other. -/
theorem nodup_labels : (o.labels ++ o.made).Nodup ∧
    ∀ m ∈ o.labels ++ o.made, m ∉ firstIds s.assembly.allocated := by
  obtain ⟨ids, hids, hsub⟩ := hwrites.fresh
  have hnodup := nodup_firstIds hbound
  rw [hids, List.nodup_append'] at hnodup
  exact ⟨hsub.nodup hnodup.2.1, fun m hm hold => hnodup.2.2 hold (hsub.subset hm)⟩

/-- A label that was made is the label of one block. -/
theorem Describes.count_label (h : o.Describes id func) (honce : BlocksOnce func) {m : UInt32}
    (hm : m ∈ o.made) : o.code.count ⟨.label, [m]⟩ = 1 := by
  have hinjective : Function.Injective fun m : UInt32 => (⟨.label, [m]⟩ : Instruction) := by
    intro a b hab
    simpa using hab
  rw [← List.count_filter (p := fun i => i.opcode = .label) (by simp), h.filter_label honce]
  apply List.count_eq_one_of_mem ((nodup_labels hwrites hbound).1.map hinjective)
  exact List.mem_map_of_mem (List.mem_append_right _ hm)

end Fresh

theorem unreachableBlock_infix {m : UInt32} (hm : m ∈ o.made) : unreachableBlock m <:+: o.code := by
  obtain ⟨before, after, hsplit⟩ := List.append_of_mem hm
  refine ⟨o.front ++ o.parts.flatMap Prod.snd ++ before.flatMap unreachableBlock,
    after.flatMap unreachableBlock ++ [⟨.functionEnd, []⟩], ?_⟩
  simp [code, hsplit]

end Outline

/-! ## Choices -/

namespace Place

variable {p : Place} {k : Nat} {s : Generator} {onTrue onFalse : BlockId}

variable (hd : p.frame.layout.Distinct) (hk : p.frame.layout.Stands p.id k)
include hd hk

theorem selectionMerge_of_meets {b : BlockId}
    (hlabels : ∀ e ∈ p.frame.layout.blocks, ∃ m, (e.1, m) ∈ s.body.labels)
    (hb : p.frame.layout.Meets k onTrue onFalse b) :
    ∃ first m, p.frame.layout.Earliest (p.frame.layout.Meets k onTrue onFalse) first ∧
      List.lookup first s.body.labels = some m ∧
      p.selectionMerge onTrue onFalse none s = .ok m s := by
  have hsome : p.frame.layout.meeting? k onTrue onFalse ≠ none := fun hnone =>
    hd.meeting?_eq_none.1 hnone b hb
  obtain ⟨first, hfirst⟩ := Option.ne_none_iff_exists'.1 hsome
  have hearliest := hd.meeting?_eq_some.1 hfirst
  have hlisted := hearliest
  obtain ⟨-, i, ⟨block, hi⟩, -⟩ := hlisted
  obtain ⟨m', hm'⟩ := hlabels _ (List.mem_of_getElem? hi)
  obtain ⟨m, hm⟩ := Option.ne_none_iff_exists'.1 fun hnone =>
    lookup_eq_none_iff_keys.1 hnone (List.mem_map_of_mem hm')
  refine ⟨first, m, hearliest, hm, ?_⟩
  simp only [selectionMerge, position_eq hd hk, hfirst]
  refine bind_ok.2 ⟨s, s, rfl, ?_⟩
  rw [hm]
  rfl

theorem selectionMerge_of_not_meets (hnone : ∀ b, ¬ p.frame.layout.Meets k onTrue onFalse b) :
    p.selectionMerge onTrue onFalse none s = .ok s.next
      { s.alloc with body := { s.body with unreachable := s.body.unreachable ++ [s.next] } } := by
  simp only [selectionMerge, position_eq hd hk, hd.meeting?_eq_none.2 hnone]
  rfl

end Place

section Written

variable {l : Layout} {labels : List (BlockId × UInt32)} {k : Nat} {cond : Value}
  {onTrue onFalse : BlockId} {made : List UInt32}

theorem MergeHeader.selects {block : Block} {merge : Option BlockId}
    {header : List Instruction}
    (h : MergeHeader l labels k block (.condBranch cond (some onTrue) (some onFalse) merge) made
      header) (hloop : block.loop = none) (hstays : ¬ l.LeavesLoop k onTrue onFalse) :
    ∃ m, header = [⟨.selectionMerge, [m, noControl]⟩] ∧
      Selects l labels k onTrue onFalse merge made m := by
  cases h with
  | loop _ hloop' => simp [hloop] at hloop'
  | selection _ _ hm => exact ⟨_, rfl, hm⟩
  | leaves _ hleaves => exact absurd hleaves hstays

/-- The merge of a selection without a hint stands in its segment. -/
theorem Segment.selects {e : BlockId × Block} {out : List Instruction} (hd : l.Distinct)
    (h : Segment l labels e made out) (hk : l.blocks[k]? = some e) (hloop : e.2.loop = none)
    (hstays : ¬ l.LeavesLoop k onTrue onFalse)
    (hlast : e.2.terminator? = some (.condBranch cond (some onTrue) (some onFalse) none)) :
    ∃ m, ⟨.selectionMerge, [m, noControl]⟩ ∈ out ∧
      ((∃ b, l.Earliest (l.Meets k onTrue onFalse) b ∧ (b, m) ∈ labels) ∨
        (∀ b, ¬ l.Meets k onTrue onFalse b) ∧ m ∈ made) := by
  obtain @⟨id, block, k', label, i, made, inner, header, last, hk', -, hi, -, hheader, -⟩ := h
  obtain rfl : k' = k := hd.stands_unique ⟨block, hk'⟩ ⟨block, hk⟩
  obtain rfl := Option.some.inj (hi.symm.trans hlast)
  obtain ⟨m, rfl, hm⟩ := hheader.selects hloop hstays
  refine ⟨m, by simp, ?_⟩
  cases hm with
  | meeting hearliest hlabel => exact Or.inl ⟨_, hearliest, hlabel⟩
  | made hnone => exact Or.inr ⟨hnone, List.mem_singleton_self m⟩

end Written

/-- How the merge block of a selection without a hint is found and written. -/
structure Layout.FindsMerges (l : Layout) : Prop where
  /-- The search with a stack finds what is reached by going forward. -/
  reach : ∀ after start b, b ∈ l.forwardReach after start ↔ l.Reaches after start b
  /-- Its rounds take up the block on top of the stack. -/
  rounds : ∀ b rest seen, l.search ⟨b :: rest, seen⟩ = l.search (l.follow ⟨rest, seen⟩ b) ∧
    Search.Step l ⟨b :: rest, seen⟩ (l.follow ⟨rest, seen⟩ b)
  /-- Every search ends, whichever pending block it takes up. -/
  searchEnds : WellFounded fun s' s => Search.Step l s s'
  searchFinds : ∀ start s, ReflTransGen (Search.Step l) ⟨[start], [start]⟩ s →
    (∀ s', ¬ Search.Step l s s') → ∀ b, b ∈ s.seen ↔ ReflTransGen l.Forward start b
  /-- The choice does not depend on the order of what was found. -/
  choice : ∀ k onTrue onFalse (fromTrue fromFalse : List BlockId),
    (∀ b, b ∈ fromTrue ↔ l.Reaches k onTrue b) → (∀ b, b ∈ fromFalse ↔ l.Reaches k onFalse b) →
    l.earliest? (fromTrue.filter fromFalse.contains) = l.meeting? k onTrue onFalse
  /-- Where the ways meet, the earliest such block is taken and nothing changes. -/
  meets : ∀ (p : Place) k onTrue onFalse b s, p.frame.layout = l → l.Stands p.id k →
    (∀ e ∈ l.blocks, ∃ m, (e.1, m) ∈ s.body.labels) → l.Meets k onTrue onFalse b →
    ∃ first m, l.Earliest (l.Meets k onTrue onFalse) first ∧
      List.lookup first s.body.labels = some m ∧ p.selectionMerge onTrue onFalse none s = .ok m s
  /-- Otherwise a label is made. -/
  makes : ∀ (p : Place) k onTrue onFalse s, p.frame.layout = l → l.Stands p.id k →
    (∀ b, ¬ l.Meets k onTrue onFalse b) → p.selectionMerge onTrue onFalse none s = .ok s.next
      { s.alloc with body := { s.body with unreachable := s.body.unreachable ++ [s.next] } }
  /-- A label that was made is new, and its block is written once. -/
  writes : ∀ program debug id func s word t, program.func? id = some func → BlocksOnce func →
    func.listed id = l.blocks.map some → s.assembly.finished = false →
    lowerFunction program debug id s = .ok word t → t.assembly.allocated < 2 ^ 32 - 1 →
    ∃ o : Outline, o.Describes id func ∧ t.written = s.written ++ o.code ∧
      ∀ (k : Nat) e cond onTrue onFalse, l.blocks[k]? = some e → e.2.loop = none →
        e.2.terminator? = some (.condBranch cond (some onTrue) (some onFalse) none) →
        ¬ l.LeavesLoop k onTrue onFalse → ∃ m, ⟨.selectionMerge, [m, noControl]⟩ ∈ o.code ∧
          ((∃ b, l.Earliest (l.Meets k onTrue onFalse) b ∧ (b, m) ∈ o.table) ∨
            (∀ b, ¬ l.Meets k onTrue onFalse b) ∧ m ∉ firstIds s.assembly.allocated ∧
              unreachableBlock m <:+: o.code ∧ o.code.count ⟨.label, [m]⟩ = 1)

theorem finds_merges {l : Layout} (hd : l.Distinct) : l.FindsMerges where
  reach after start b := hd.mem_forwardReach
  rounds b rest seen := ⟨by rw [Layout.search], hd.follow_step b rest seen⟩
  searchEnds := Layout.Search.wellFounded_step l
  searchFinds start s hrun hend b :=
    Layout.Search.mem_seen_iff hrun (Layout.Search.stack_eq_nil hd hend)
  choice k onTrue onFalse fromTrue fromFalse := hd.earliest?_eq_meeting?
  meets p k onTrue onFalse b s hl hk hlabels hb := by
    subst hl
    exact Place.selectionMerge_of_meets hd hk hlabels hb
  makes p k onTrue onFalse s hl hk hnone := by
    subst hl
    exact Place.selectionMerge_of_not_meets hd hk hnone
  writes program debug id func s word t hfunc honce hlisted hs hrun hbound := by
    obtain ⟨o, ho, hwrites⟩ := (yields_lowerFunction hfunc debug honce hs).ok hrun
    have hblocks : o.blocks = l.blocks :=
      List.map_injective_iff.2 (fun _ _ => Option.some.inj) (ho.listed.symm.trans hlisted)
    obtain ⟨blocks⟩ := l
    subst hblocks
    refine ⟨o, ho, hwrites.written, ?_⟩
    intro k e cond onTrue onFalse hk hloop hlast hstays
    obtain ⟨hlength, hsegment⟩ := List.forall₂_iff_get.1 ho.segments
    obtain ⟨hlt, rfl⟩ := List.getElem?_eq_some_iff.1 hk
    obtain ⟨m, hmem, hm⟩ := (hsegment k hlt (hlength ▸ hlt)).selects hd hk hloop hstays hlast
    have hpart : o.parts.get ⟨k, hlength ▸ hlt⟩ ∈ o.parts := List.get_mem _ _
    have hcode : ⟨.selectionMerge, [m, noControl]⟩ ∈ o.code := by
      have hparts := List.mem_flatMap.2 ⟨_, hpart, hmem⟩
      simp [Outline.code, hparts]
    refine ⟨m, hcode, hm.imp_right ?_⟩
    rintro ⟨hnone, hm⟩
    have hmade : m ∈ o.made := List.mem_flatMap.2 ⟨_, hpart, hm⟩
    have hnew := (Outline.nodup_labels hwrites hbound).2 m (List.mem_append_right _ hmade)
    exact ⟨hnone, hnew, Outline.unreachableBlock_infix hmade,
      ho.count_label hwrites hbound honce hmade⟩

/-- The ways of the first branch meet before the second one. The ways of that one meet nowhere:
one of them goes back. -/
def forking : Func where
  name := "forking"
  params := [some ⟨"flag", .bool⟩]
  result := .void
  blocks := [
    ⟨"entry", none, [
      some (.condBranch (.param ⟨⟨0⟩, 0⟩) (some ⟨⟨0⟩, 1⟩) (some ⟨⟨0⟩, 2⟩) none)]⟩,
    ⟨"left", none, [some (.branch (some ⟨⟨0⟩, 3⟩))]⟩,
    ⟨"right", none, [some (.branch (some ⟨⟨0⟩, 3⟩))]⟩,
    ⟨"join", none, [
      some (.condBranch (.param ⟨⟨0⟩, 0⟩) (some ⟨⟨0⟩, 4⟩) (some ⟨⟨0⟩, 5⟩) none)]⟩,
    ⟨"again", none, [some (.branch (some ⟨⟨0⟩, 1⟩))]⟩,
    ⟨"done", none, [some (.ret .missing)]⟩]
  order := [some 0, some 1, some 2, some 3, some 4, some 5]

theorem exists_lower_forking : ∃ word t,
    lowerFunction ⟨"forked", [forking], [some 0]⟩ false ⟨0⟩ (.start ⟨1, 3⟩) = .ok word t ∧
      t.assembly.allocated < 2 ^ 32 - 1 := by
  have hok : (match lowerFunction ⟨"forked", [forking], [some 0]⟩ false ⟨0⟩ (.start ⟨1, 3⟩) with
      | .ok _ t => decide (t.assembly.allocated < 2 ^ 32 - 1)
      | .error _ _ => false) = true := by decide +kernel
  cases hrun : lowerFunction ⟨"forked", [forking], [some 0]⟩ false ⟨0⟩ (.start ⟨1, 3⟩) with
  | ok word t => exact ⟨word, t, rfl, by simpa [hrun] using hok⟩
  | error e t => simp [hrun] at hok

theorem finds_merges_forking : (⟨forking.body ⟨0⟩⟩ : Layout).Distinct ∧
    (⟨forking.body ⟨0⟩⟩ : Layout).meeting? 0 ⟨⟨0⟩, 1⟩ ⟨⟨0⟩, 2⟩ = some ⟨⟨0⟩, 3⟩ ∧
    ∃ word t, lowerFunction ⟨"forked", [forking], [some 0]⟩ false ⟨0⟩ (.start ⟨1, 3⟩) = .ok word t ∧
      t.assembly.allocated < 2 ^ 32 - 1 ∧
      ∃ (o : Outline) (m : UInt32), o.Describes ⟨0⟩ forking ∧ t.written = o.code ∧
        ⟨.selectionMerge, [m, noControl]⟩ ∈ o.code ∧ unreachableBlock m <:+: o.code ∧
        o.code.count ⟨.label, [m]⟩ = 1 := by
  have hd : (⟨forking.body ⟨0⟩⟩ : Layout).Distinct := by decide +kernel
  have hnone := hd.meeting?_eq_none.1
    (by decide +kernel : Layout.meeting? ⟨forking.body ⟨0⟩⟩ 3 ⟨⟨0⟩, 4⟩ ⟨⟨0⟩, 5⟩ = none)
  have hstays : ¬ Layout.LeavesLoop ⟨forking.body ⟨0⟩⟩ 3 ⟨⟨0⟩, 4⟩ ⟨⟨0⟩, 5⟩ := fun h =>
    absurd (hd.leavesLoop_iff.2 h) (by decide +kernel)
  obtain ⟨word, t, hrun, hbound⟩ := exists_lower_forking
  obtain ⟨o, ho, hwritten, hselections⟩ := (finds_merges hd).writes ⟨"forked", [forking], [some 0]⟩
    false ⟨0⟩ forking (.start ⟨1, 3⟩) word t rfl (by decide) (by decide +kernel) rfl hrun hbound
  obtain ⟨m, hmem, hm⟩ := hselections 3 _ _ _ _ rfl rfl rfl hstays
  refine ⟨hd, by decide +kernel, word, t, hrun, hbound, o, m, ho, hwritten, hmem, ?_⟩
  rcases hm with ⟨b, hb, -⟩ | ⟨-, -, hblock⟩
  · exact absurd hb.1 (hnone b)
  · exact hblock

end Elementwise.Spirv
