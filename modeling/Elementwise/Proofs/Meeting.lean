import Elementwise.Spirv.Control
import Mathlib.Data.List.MinMax
import Mathlib.Data.List.Nodup
import Mathlib.Data.List.Perm.Subperm
import Mathlib.Logic.Relation

/-!
# Where two ways meet

The blocks that are reached by going forward are the closure of the forward edges, from a block to
a later target. Any search finds them that keeps pending blocks and takes them up in any order; the
one with a stack is such a search. Of the blocks that both ways of a branch reach, the earliest is
where they meet.
-/
namespace Elementwise.Spirv
open IR Relation

variable {block : Block} {x : BlockId × Block} {blocks : List (BlockId × Block)}

namespace Layout

variable {l : Layout} {b c : BlockId} {i j k : Nat}

/-! ## Positions -/

/-- No block is listed twice. -/
def Distinct (l : Layout) : Prop := (l.blocks.map Prod.fst).Nodup

instance (l : Layout) : Decidable l.Distinct := inferInstanceAs (Decidable (List.Nodup _))

/-- A block is the one at an index. -/
def Stands (l : Layout) (b : BlockId) (k : Nat) : Prop := ∃ block, l.blocks[k]? = some (b, block)

theorem positionFrom_of_getElem? {start : Nat} (hd : (blocks.map Prod.fst).Nodup)
    (h : blocks[j]? = some (b, block)) : positionFrom b start blocks = some (start + j) := by
  induction blocks generalizing start j with
  | nil => simp at h
  | cons x rest ih =>
    obtain ⟨other, first⟩ := x
    rw [List.map_cons, List.nodup_cons] at hd
    rw [positionFrom]
    cases j with
    | zero =>
      obtain ⟨rfl, rfl⟩ : other = b ∧ first = block := by simpa using h
      have hnone : positionFrom other (start + 1) rest = none := by
        by_contra hne
        obtain ⟨k, hk⟩ := Option.ne_none_iff_exists'.1 hne
        obtain ⟨q, block, hq, -⟩ := getElem?_of_positionFrom hk
        exact hd.1 (List.mem_map.2 ⟨_, List.mem_of_getElem? hq, rfl⟩)
      simp [hnone]
    | succ j =>
      rw [ih hd.2 (by simpa using h)]
      exact congrArg some (by omega)

theorem stands_of_position? (h : l.position? b = some k) : l.Stands b k := by
  obtain ⟨j, block, hj, rfl⟩ := getElem?_of_positionFrom h
  exact ⟨block, by simpa using hj⟩

theorem Distinct.position?_eq_some (hd : l.Distinct) : l.position? b = some k ↔ l.Stands b k := by
  constructor
  · exact stands_of_position?
  · rintro ⟨block, hblock⟩
    have hpos : l.position? b = some (0 + k) := positionFrom_of_getElem? hd hblock
    rwa [Nat.zero_add] at hpos

theorem Distinct.stands_unique (hd : l.Distinct) (hi : l.Stands b i) (hj : l.Stands b j) :
    i = j := by
  rw [← hd.position?_eq_some] at hi hj
  exact Option.some.inj (hi.symm.trans hj)

/-! ## Going forward -/

/-- A block has a target that is listed after it. -/
def Forward (l : Layout) (b c : BlockId) : Prop :=
  ∃ i j block, l.blocks[i]? = some (b, block) ∧ some c ∈ block.successors ∧ l.Stands c j ∧ i < j

/-- A block is reached from another one, which stands after an index, by going forward. -/
def Reaches (l : Layout) (after : Nat) (start b : BlockId) : Prop :=
  (∃ k, l.Stands start k ∧ after < k) ∧ ReflTransGen l.Forward start b

theorem Reaches.stands {after : Nat} {start : BlockId} (h : l.Reaches after start b) :
    ∃ k, l.Stands b k := by
  obtain ⟨⟨k, hk, -⟩, hreach⟩ := h
  cases hreach with
  | refl => exact ⟨k, hk⟩
  | tail _ hstep =>
    obtain ⟨-, j, -, -, -, hj, -⟩ := hstep
    exact ⟨j, hj⟩

/-! ## Searches -/

/-- A block stands after a position. -/
def Later (l : Layout) (k : Nat) (b : BlockId) : Prop := ∃ j, l.position? b = some j ∧ k < j

/-- A step of a search takes up any pending block. Its later targets that were not seen become
pending, each once; in which order, and where among the others, is open. -/
inductive Search.Step (l : Layout) : Search → Search → Prop
  | take {stack rest seen new stack' seen' : List BlockId} {b : BlockId}
      (hstack : stack.Perm (b :: rest)) (hnodup : new.Nodup)
      (hnew : ∀ c, c ∈ new ↔ l.Forward b c ∧ c ∉ seen) (hstack' : stack'.Perm (new ++ rest))
      (hseen' : seen'.Perm (new ++ seen)) : Step l ⟨stack, seen⟩ ⟨stack', seen'⟩

theorem visit_cases (l : Layout) (k : Nat) (s : Search) (target : Option BlockId) :
    (∃ b, target = some b ∧ b ∉ s.seen ∧ l.Later k b ∧
      l.visit k s target = ⟨b :: s.stack, b :: s.seen⟩) ∨
    (∀ b, target = some b → b ∈ s.seen ∨ ¬ l.Later k b) ∧ l.visit k s target = s := by
  cases target with
  | none => exact .inr ⟨nofun, rfl⟩
  | some b =>
    cases hpos : l.position? b with
    | none =>
      refine .inr ⟨?_, by simp [visit, hpos]⟩
      rintro _ ⟨⟩
      exact .inr (by simp [Later, hpos])
    | some j =>
      by_cases hskip : b ∈ s.seen ∨ j ≤ k
      · refine .inr ⟨?_, by simp [visit, hpos, hskip]⟩
        rintro _ ⟨⟩
        exact hskip.imp_right (by simp [Later, hpos])
      · obtain ⟨hseen, hlt⟩ := not_or.1 hskip
        exact .inl ⟨b, rfl, hseen, ⟨j, hpos, Nat.lt_of_not_le hlt⟩, by simp [visit, hpos, hskip]⟩

/-- Looking at targets adds those that stand later and were not seen, each once. -/
theorem visits (l : Layout) (k : Nat) (targets : List (Option BlockId)) (s : Search) :
    ∃ new : List BlockId, targets.foldl (l.visit k) s = ⟨new ++ s.stack, new ++ s.seen⟩ ∧
      new.Nodup ∧ ∀ c, c ∈ new ↔ (some c ∈ targets ∧ l.Later k c) ∧ c ∉ s.seen := by
  induction targets generalizing s with
  | nil => exact ⟨[], rfl, List.nodup_nil, by simp⟩
  | cons target rest ih =>
    rw [List.foldl_cons]
    rcases l.visit_cases k s target with ⟨b, rfl, hb, hlater, hvisit⟩ | ⟨hskip, hvisit⟩
    · obtain ⟨new, hnew, hnodup, hmem⟩ := ih ⟨b :: s.stack, b :: s.seen⟩
      refine ⟨new ++ [b], by simp [hvisit, hnew], ?_, fun c => ?_⟩
      · refine List.nodup_append'.2 ⟨hnodup, List.nodup_singleton b, ?_⟩
        intro c hc hcb
        exact ((hmem c).1 hc).2 (List.mem_cons.2 (.inl (List.mem_singleton.1 hcb)))
      · by_cases hc : c = b
        · simp [hc, hlater, hb]
        · simp [hmem, hc]
    · obtain ⟨new, hnew, hnodup, hmem⟩ := ih s
      refine ⟨new, by rw [hvisit, hnew], hnodup, fun c => ?_⟩
      rw [hmem, List.mem_cons]
      constructor
      · rintro ⟨⟨hc, hlater⟩, hseen⟩
        exact ⟨⟨.inr hc, hlater⟩, hseen⟩
      · rintro ⟨⟨heq | hc, hlater⟩, hseen⟩
        · rcases hskip c heq.symm with h | h <;> contradiction
        · exact ⟨⟨hc, hlater⟩, hseen⟩

theorem Distinct.forward_iff (hd : l.Distinct) (hb : l.blocks[i]? = some (b, block)) :
    l.Forward b c ↔ some c ∈ block.successors ∧ l.Later i c := by
  constructor
  · rintro ⟨i', j, block', hb', hmem, hj, hlt⟩
    obtain rfl := hd.stands_unique ⟨_, hb⟩ ⟨_, hb'⟩
    obtain rfl : block = block' := by simpa using hb.symm.trans hb'
    exact ⟨hmem, j, hd.position?_eq_some.2 hj, hlt⟩
  · rintro ⟨hmem, k, hk, hlt⟩
    exact ⟨i, k, block, hb, hmem, stands_of_position? hk, hlt⟩

/-- Each round of the search with a stack is a step. -/
theorem Distinct.follow_step (hd : l.Distinct) (b : BlockId) (rest seen : List BlockId) :
    Search.Step l ⟨b :: rest, seen⟩ (l.follow ⟨rest, seen⟩ b) := by
  unfold follow
  cases hpos : l.position? b with
  | none =>
    refine .take (.refl _) List.nodup_nil (fun c => ?_) (.refl _) (.refl _)
    simp only [List.not_mem_nil, false_iff]
    rintro ⟨⟨i, j, block, hb, -⟩, -⟩
    rw [hd.position?_eq_some.2 ⟨block, hb⟩] at hpos
    cases hpos
  | some k =>
    obtain ⟨block, hb⟩ := stands_of_position? hpos
    obtain ⟨new, hnew, hnodup, hmem⟩ := l.visits k block.successors ⟨rest, seen⟩
    simp only [hb, Option.elim_some, hnew]
    refine .take (.refl _) hnodup (fun c => ?_) (.refl _) (.refl _)
    rw [hd.forward_iff hb, hmem]

namespace Search

variable {s s' : Search} {start : BlockId}

/-- The listed blocks that were not seen. -/
def unseen (l : Layout) (seen : List BlockId) : List BlockId :=
  (l.blocks.map Prod.fst).filter fun b => !seen.contains b

theorem length_unseen {new seen seen' : List BlockId} (hnodup : new.Nodup)
    (hlisted : ∀ c ∈ new, c ∈ unseen l seen) (hseen' : seen'.Perm (new ++ seen)) :
    (unseen l seen').length + new.length ≤ (unseen l seen).length := by
  have hrest : unseen l seen' = (unseen l seen).filter fun b => !new.contains b := by
    unfold unseen
    rw [List.filter_filter]
    apply List.filter_congr
    intro b _
    simp [List.contains_eq_mem, hseen'.mem_iff]
  have hnew : new.length ≤ ((unseen l seen).filter new.contains).length := by
    have hsubperm : new.Subperm ((unseen l seen).filter new.contains) := by
      apply List.subperm_of_subset hnodup
      intro c hc
      simp [hc, hlisted c hc]
    exact hsubperm.length_le
  have hsplit := List.length_eq_length_filter_add (l := unseen l seen) new.contains
  rw [hrest]
  omega

/-- Every search ends. -/
theorem wellFounded_step (l : Layout) : WellFounded fun s' s => Step l s s' := by
  have hmeasure : ∀ s' s, Step l s s' →
      2 * (unseen l s'.seen).length + s'.stack.length <
        2 * (unseen l s.seen).length + s.stack.length := by
    rintro _ _ ⟨hstack, hnodup, hnew, hstack', hseen'⟩
    have hunseen := length_unseen (l := l) hnodup (fun c hc => ?_) hseen'
    · have hbefore := hstack.length_eq
      have hafter := hstack'.length_eq
      simp only [List.length_cons, List.length_append] at hbefore hafter
      dsimp only
      omega
    · obtain ⟨⟨-, j, -, -, -, ⟨block, hblock⟩, -⟩, hseen⟩ := (hnew c).1 hc
      simp only [unseen, List.mem_filter, List.mem_map]
      exact ⟨⟨_, List.mem_of_getElem? hblock, rfl⟩, by simpa using hseen⟩
  exact Subrelation.wf (fun h => hmeasure _ _ h) (measure _).wf

/-- What was seen is reached, and the targets of what was taken up were seen. -/
structure Explored (l : Layout) (start : BlockId) (s : Search) : Prop where
  begun : start ∈ s.seen
  reached : ∀ b ∈ s.seen, ReflTransGen l.Forward start b
  pending : s.stack ⊆ s.seen
  closed : ∀ b ∈ s.seen, b ∉ s.stack → ∀ c, l.Forward b c → c ∈ s.seen

theorem Explored.step (h : Explored l start s) (hstep : Step l s s') : Explored l start s' := by
  obtain @⟨pending, rest, seen, new, pending', seen', b, hstack, -, hnew, hstack', hseen'⟩ :=
    hstep
  have hb : b ∈ seen := h.pending (hstack.mem_iff.2 List.mem_cons_self)
  have hseen : ∀ c, c ∈ seen' ↔ c ∈ new ∨ c ∈ seen := by
    intro c
    rw [hseen'.mem_iff, List.mem_append]
  constructor
  · exact (hseen _).2 (Or.inr h.begun)
  · intro c hc
    rcases (hseen c).1 hc with hc | hc
    · exact (h.reached b hb).tail ((hnew c).1 hc).1
    · exact h.reached c hc
  · intro c hc
    rw [hseen]
    rcases List.mem_append.1 (hstack'.mem_iff.1 hc) with hc | hc
    · exact Or.inl hc
    · exact Or.inr (h.pending (hstack.mem_iff.2 (List.mem_cons_of_mem _ hc)))
  · intro a ha hdone c hforward
    rw [hstack'.mem_iff, List.mem_append, not_or] at hdone
    have ha : a ∈ seen := ((hseen a).1 ha).resolve_left hdone.1
    rw [hseen]
    by_cases hab : a = b
    · subst hab
      by_cases hc : c ∈ seen
      · exact Or.inr hc
      · exact Or.inl ((hnew c).2 ⟨hforward, hc⟩)
    · refine Or.inr (h.closed a ha ?_ c hforward)
      rw [hstack.mem_iff, List.mem_cons, not_or]
      exact ⟨hab, hdone.2⟩

theorem Explored.run (h : Explored l start s) (hrun : ReflTransGen (Step l) s s') :
    Explored l start s' := by
  induction hrun with
  | refl => exact h
  | tail _ hstep ih => exact ih.step hstep

/-- A search that has come to its end has seen what is reached by going forward. -/
theorem mem_seen_iff (hrun : ReflTransGen (Step l) ⟨[start], [start]⟩ s) (hend : s.stack = []) :
    b ∈ s.seen ↔ ReflTransGen l.Forward start b := by
  have hexplored : Explored l start ⟨[start], [start]⟩ := by
    constructor
    · exact List.mem_cons_self
    · intro c hc
      rw [List.mem_singleton.1 hc]
    · exact List.Subset.refl _
    · intro c hc hdone
      exact absurd hc hdone
  have hs := hexplored.run hrun
  constructor
  · exact hs.reached b
  · intro hreach
    induction hreach with
    | refl => exact hs.begun
    | tail _ hforward ih => exact hs.closed _ ih (by simp [hend]) _ hforward

/-- Where nothing can be taken up, nothing is pending. -/
theorem stack_eq_nil (hd : l.Distinct) (hend : ∀ s', ¬ Step l s s') : s.stack = [] := by
  obtain ⟨stack, seen⟩ := s
  cases stack with
  | nil => rfl
  | cons b rest => exact absurd (hd.follow_step b rest seen) (hend _)

end Search

/-- The search with a stack goes on until nothing is pending. -/
theorem Distinct.search_run (hd : l.Distinct) (s : Search) :
    ∃ s', ReflTransGen (Search.Step l) s s' ∧ s'.stack = [] ∧ l.search s = s'.seen := by
  fun_induction l.search s with
  | case1 seen => exact ⟨⟨[], seen⟩, .refl, rfl, rfl⟩
  | case2 b rest seen ih =>
    obtain ⟨s', hrun, hend, hseen⟩ := ih
    exact ⟨s', .head (hd.follow_step b rest seen) hrun, hend, hseen⟩

/-- A search finds only blocks that are listed. -/
theorem stands_of_mem_search (s : Search) (hs : ∀ b ∈ s.seen, ∃ k, l.Stands b k) :
    ∀ b ∈ l.search s, ∃ k, l.Stands b k := by
  fun_induction l.search s with
  | case1 seen => exact hs
  | case2 b rest seen ih =>
    refine ih fun c hc => ?_
    unfold follow at hc
    split at hc
    · exact hs c hc
    next k _ =>
      obtain ⟨new, hnew, -, hmem⟩ := l.visits k _ ⟨rest, seen⟩
      rw [hnew] at hc
      rcases List.mem_append.1 hc with hc | hc
      · obtain ⟨⟨-, j, hj, -⟩, -⟩ := (hmem c).1 hc
        exact ⟨j, stands_of_position? hj⟩
      · exact hs c hc

theorem stands_of_mem_forwardReach {after : Nat} {start : BlockId}
    (h : b ∈ l.forwardReach after start) : ∃ k, l.Stands b k := by
  unfold forwardReach at h
  split at h
  next k hk =>
    split at h
    · refine stands_of_mem_search _ (fun c hc => ?_) b h
      exact ⟨k, List.mem_singleton.1 hc ▸ stands_of_position? hk⟩
    · cases h
  · cases h

/-- The search finds the blocks that are reached by going forward. -/
theorem Distinct.mem_forwardReach (hd : l.Distinct) {after : Nat} {start : BlockId} :
    b ∈ l.forwardReach after start ↔ l.Reaches after start b := by
  unfold forwardReach
  cases hpos : l.position? start with
  | none =>
    simp only [List.not_mem_nil, false_iff]
    rintro ⟨⟨k, hk, -⟩, -⟩
    rw [hd.position?_eq_some.2 hk] at hpos
    cases hpos
  | some k =>
    have hk := stands_of_position? hpos
    by_cases hlt : after < k
    · obtain ⟨s, hrun, hend, hseen⟩ := hd.search_run ⟨[start], [start]⟩
      simp only [hlt, if_true, hseen, Search.mem_seen_iff hrun hend]
      exact ⟨fun hreach => ⟨⟨k, hk, hlt⟩, hreach⟩, And.right⟩
    · simp only [hlt, if_false, List.not_mem_nil, false_iff]
      rintro ⟨⟨k', hk', hlt'⟩, -⟩
      exact hlt (hd.stands_unique hk' hk ▸ hlt')

/-! ## The earliest block -/

/-- Both ways of a branch reach a block. -/
def Meets (l : Layout) (at_ : Nat) (onTrue onFalse b : BlockId) : Prop :=
  l.Reaches at_ onTrue b ∧ l.Reaches at_ onFalse b

/-- A block is the first of some that are listed. -/
def Earliest (l : Layout) (among : BlockId → Prop) (b : BlockId) : Prop :=
  among b ∧ ∃ i, l.Stands b i ∧ ∀ c j, among c → l.Stands c j → i ≤ j

theorem Earliest.unique {among : BlockId → Prop} (h : l.Earliest among b)
    (h' : l.Earliest among c) : b = c := by
  obtain ⟨hb, i, hi, hfirst⟩ := h
  obtain ⟨hc, j, hj, hfirst'⟩ := h'
  have hij : i = j := Nat.le_antisymm (hfirst c j hc hj) (hfirst' b i hb hi)
  subst hij
  obtain ⟨block, hblock⟩ := hi
  obtain ⟨block', hblock'⟩ := hj
  simpa using congrArg (Option.map Prod.fst) (hblock.symm.trans hblock')

theorem earliest?_eq_argmin (among : List BlockId) :
    l.earliest? among = among.argmin fun b => (l.position? b).getD 0 := by
  unfold earliest? List.argmin List.argAux
  congr 1
  funext best b
  cases best <;> rfl

theorem mem_of_earliest? {among : List BlockId} (h : l.earliest? among = some b) : b ∈ among :=
  List.argmin_mem (earliest?_eq_argmin among ▸ h)

theorem earliest?_eq_none {among : List BlockId} : l.earliest? among = none ↔ among = [] := by
  rw [earliest?_eq_argmin, List.argmin_eq_none]

/-- In whatever order blocks are gone through, the first in the listing is chosen. -/
theorem Distinct.earliest?_eq_some (hd : l.Distinct) {among : List BlockId}
    (hlisted : ∀ b ∈ among, ∃ k, l.Stands b k) :
    l.earliest? among = some b ↔ l.Earliest (· ∈ among) b := by
  have hfirst : ∀ {m}, l.earliest? among = some m → l.Earliest (· ∈ among) m := by
    intro m hm
    have hmem := mem_of_earliest? hm
    obtain ⟨k, hk⟩ := hlisted m hmem
    refine ⟨hmem, k, hk, fun c j hc hj => ?_⟩
    rw [earliest?_eq_argmin] at hm
    have hle := List.le_of_mem_argmin hc hm
    rwa [hd.position?_eq_some.2 hk, hd.position?_eq_some.2 hj] at hle
  refine ⟨hfirst, fun h => ?_⟩
  cases hm : l.earliest? among with
  | none => exact absurd h.1 (by simp [earliest?_eq_none.1 hm])
  | some m => rw [(hfirst hm).unique h]

section Meeting

variable {at_ : Nat} {onTrue onFalse : BlockId} {fromTrue fromFalse : List BlockId}

/-- In whatever order the blocks of the two ways are listed, the earliest that is on both is
chosen. -/
theorem Distinct.earliest?_filter (hd : l.Distinct)
    (htrue : ∀ b, b ∈ fromTrue ↔ l.Reaches at_ onTrue b)
    (hfalse : ∀ b, b ∈ fromFalse ↔ l.Reaches at_ onFalse b) :
    l.earliest? (fromTrue.filter fromFalse.contains) = some b ↔
      l.Earliest (l.Meets at_ onTrue onFalse) b := by
  have hmem : ∀ b, b ∈ fromTrue.filter fromFalse.contains ↔ l.Meets at_ onTrue onFalse b := by
    intro b
    simp [htrue, hfalse, Meets]
  rw [hd.earliest?_eq_some fun b hb => ((hmem b).1 hb).1.stands]
  simp only [hmem]

theorem Distinct.meeting?_eq_some (hd : l.Distinct) :
    l.meeting? at_ onTrue onFalse = some b ↔ l.Earliest (l.Meets at_ onTrue onFalse) b :=
  hd.earliest?_filter (fun _ => hd.mem_forwardReach) fun _ => hd.mem_forwardReach

theorem Distinct.meeting?_eq_none (hd : l.Distinct) :
    l.meeting? at_ onTrue onFalse = none ↔ ∀ b, ¬ l.Meets at_ onTrue onFalse b := by
  rw [meeting?, earliest?_eq_none, List.eq_nil_iff_forall_not_mem]
  simp [hd.mem_forwardReach, Meets]

theorem Distinct.earliest?_eq_meeting? (hd : l.Distinct)
    (htrue : ∀ b, b ∈ fromTrue ↔ l.Reaches at_ onTrue b)
    (hfalse : ∀ b, b ∈ fromFalse ↔ l.Reaches at_ onFalse b) :
    l.earliest? (fromTrue.filter fromFalse.contains) = l.meeting? at_ onTrue onFalse := by
  apply Option.ext
  intro b
  rw [hd.earliest?_filter htrue hfalse, hd.meeting?_eq_some]

end Meeting

end Layout

end Elementwise.Spirv
