import Elementwise.IR.Program

/-!
# Structured control flow

A conditional branch names the block where its two ways meet again, unless it leaves or continues a
loop around it. Blocks are compared by their position in the listing of their function. What a way
reaches is searched with a stack; every block is put on it once at most, so the search ends.
-/
namespace Elementwise.Spirv
open IR

/-- The listed blocks of a function. -/
structure Layout where
  blocks : List (BlockId × Block)
  deriving Repr

/-- A search: the blocks whose targets are still to be looked at, the next one first, and all that
were found. -/
structure Search where
  stack : List BlockId
  seen : List BlockId
  deriving DecidableEq, Repr

namespace Layout

/-- The last position of a block, counting from `index`. -/
def positionFrom (id : BlockId) : Nat → List (BlockId × Block) → Option Nat
  | _, [] => none
  | index, (other, _) :: rest =>
    match positionFrom id (index + 1) rest with
    | some k => some k
    | none => if other = id then some index else none

def position? (l : Layout) (id : BlockId) : Option Nat := positionFrom id 0 l.blocks

theorem getElem?_of_positionFrom {b : BlockId} {k start : Nat} {blocks : List (BlockId × Block)}
    (h : positionFrom b start blocks = some k) :
    ∃ j block, blocks[j]? = some (b, block) ∧ k = start + j := by
  induction blocks generalizing start with
  | nil => simp [positionFrom] at h
  | cons x rest ih =>
    obtain ⟨other, first⟩ := x
    rw [positionFrom] at h
    cases hpos : positionFrom b (start + 1) rest with
    | some p =>
      rw [hpos] at h
      cases h
      obtain ⟨j, block, hj, rfl⟩ := ih hpos
      exact ⟨j + 1, block, by simpa using hj, by omega⟩
    | none =>
      rw [hpos] at h
      by_cases heq : other = b
      · refine ⟨0, first, by simp [heq], ?_⟩
        simpa [heq] using h.symm
      · simp [heq] at h

/-! ## Going forward -/

/-- Looks at a target of the block at position `index`: one that stands later and was not seen is
put on the stack. -/
def visit (l : Layout) (index : Nat) (s : Search) (target : Option BlockId) : Search :=
  match target with
  | none => s
  | some id =>
    match l.position? id with
    | none => s
    | some k => if s.seen.contains id || k ≤ index then s else ⟨id :: s.stack, id :: s.seen⟩

/-- Looks at the targets of a block, one after the other. -/
def follow (l : Layout) (s : Search) (id : BlockId) : Search :=
  match l.position? id with
  | none => s
  | some k => (l.blocks[k]?.elim [] fun e => e.2.successors).foldl (l.visit k) s

/-- How many rounds a search takes at most: one for each block on the stack, and one for each that
was not seen yet. -/
def remaining (l : Layout) (s : Search) : Nat :=
  (l.blocks.filter fun e => !s.seen.contains e.1).length + s.stack.length

theorem remaining_visit (l : Layout) (index : Nat) (s : Search) (target : Option BlockId) :
    l.remaining (l.visit index s target) ≤ l.remaining s := by
  unfold visit
  split
  · exact Nat.le_refl _
  next id =>
    split
    · exact Nat.le_refl _
    next k hk =>
      split
      · exact Nat.le_refl _
      next hnew =>
        obtain ⟨j, block, hj, -⟩ := getElem?_of_positionFrom hk
        have hid : id ∉ s.seen := by simp_all
        have hfewer : (l.blocks.filter fun e => !(id :: s.seen).contains e.1) =
            (l.blocks.filter fun e => !s.seen.contains e.1).filter fun e => e.1 ≠ id := by
          rw [List.filter_filter]
          refine List.filter_congr fun e _ => ?_
          simp
        have hlt := (List.length_filter_lt_length_iff_exists (p := fun e => e.1 ≠ id)
          (l := l.blocks.filter fun e => !s.seen.contains e.1)).2
          ⟨(id, block), by simp [List.mem_of_getElem? hj, hid], by simp⟩
        simp only [remaining, hfewer, List.length_cons]
        omega

theorem remaining_follow (l : Layout) (s : Search) (id : BlockId) :
    l.remaining (l.follow s id) ≤ l.remaining s := by
  have hvisits : ∀ k (targets : List (Option BlockId)) s,
      l.remaining (targets.foldl (l.visit k) s) ≤ l.remaining s := by
    intro k targets
    induction targets with
    | nil => exact fun _ => Nat.le_refl _
    | cons target rest ih =>
      intro s
      exact Nat.le_trans (ih _) (remaining_visit l k s target)
  unfold follow
  split
  · exact Nat.le_refl _
  · exact hvisits _ _ s

/-- Takes blocks from the stack until it is empty, and gives all that were found. -/
def search (l : Layout) : Search → List BlockId
  | ⟨[], seen⟩ => seen
  | ⟨id :: rest, seen⟩ => l.search (l.follow ⟨rest, seen⟩ id)
termination_by s => l.remaining s
decreasing_by
  have hle := remaining_follow l ⟨rest, seen⟩ id
  simp only [remaining, List.length_cons] at hle ⊢
  omega

/-- The blocks after position `after` that can be reached from a block by going forward only;
none, if the block itself does not stand after it. -/
def forwardReach (l : Layout) (after : Nat) (start : BlockId) : List BlockId :=
  match l.position? start with
  | some k => if after < k then l.search ⟨[start], [start]⟩ else []
  | none => []

/-- The first in the listing of some blocks, which are gone through one by one. -/
def earliest? (l : Layout) (among : List BlockId) : Option BlockId :=
  among.foldl (fun best id =>
    match best with
    | none => some id
    | some other =>
      if (l.position? id).getD 0 < (l.position? other).getD 0 then some id else some other) none

/-- The earliest block that both targets of a conditional branch at `at_` reach. -/
def meeting? (l : Layout) (at_ : Nat) (onTrue onFalse : BlockId) : Option BlockId :=
  l.earliest? ((l.forwardReach at_ onTrue).filter (l.forwardReach at_ onFalse).contains)

/-- The loops around position `at_`: their header stands before it and their merge after. -/
def enclosingLoops (l : Layout) (at_ : Nat) : List Loop :=
  (l.blocks.take at_).filterMap fun (_, b) =>
    b.loop.bind fun loop =>
      match loop.merge.bind l.position? with
      | some k => if at_ < k then some loop else none
      | none => none

/-- Whether one of two targets leaves or continues a loop around position `at_`. -/
def leavesLoop (l : Layout) (at_ : Nat) (onTrue onFalse : BlockId) : Bool :=
  (l.enclosingLoops at_).any fun loop =>
    [onTrue, onFalse].any fun target =>
      loop.merge == some target || loop.continue_ == some target

end Layout

end Elementwise.Spirv
