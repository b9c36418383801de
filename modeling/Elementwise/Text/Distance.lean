/-!
# Edit distance

A row holds the distances of what was read so far to every start of the other text.
-/
namespace Elementwise.Text.Distance

variable {α : Type} [DecidableEq α]

/-- The rest of the row for one more letter `a`, given the row before it. `left` is the distance
just computed. -/
def extendRow (a : α) : Nat → List Nat → List α → List Nat
  | left, diagonal :: up :: row, b :: rest =>
    let d := if a = b then diagonal else min (min up left) diagonal + 1
    d :: extendRow a d (up :: row) rest
  | _, _, _ => []

def nextRow (target : List α) (row : List Nat) (a : α) : List Nat :=
  let first := row.headD 0 + 1
  first :: extendRow a first row target

def distance (source target : List α) : Nat :=
  (source.foldl (nextRow target) (List.range (target.length + 1))).getLastD 0

end Elementwise.Text.Distance
