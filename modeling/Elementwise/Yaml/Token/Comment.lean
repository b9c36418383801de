import Elementwise.Yaml.Token

/-!
# Comments

Comments with nothing but blanks and empty lines between them are passed over together, so the
indentation of all but the first may hold tabs. Only the next 512 characters are searched for a
comment.
-/
namespace Elementwise.Yaml.Reading

/-- How many characters are searched for a comment. -/
def commentReach : Nat := 512

/-- The distance of a comment that only characters of a gap part from the place `k` characters ahead;
`fuel` characters are looked at. -/
def commentAhead? (lines : Bool) : Nat → Nat → Reading (Option Nat)
  | 0, _ => return none
  | fuel + 1, k => do
    need (k + 1)
    let x ← peekAt k
    if isBlank x || (lines && (x == '\r' || x == '\n')) then commentAhead? lines fuel (k + 1)
    else
      -- A break of another kind is looked beyond, though it is not passed.
      if lines && isBreak x && 0 < fuel then need (k + 2)
      return if x == '#' then some k else none

/-- Moves to the place with this index, which is a comment, over blanks and breaks. -/
def moveTo (index : Nat) : Nat → Reading Unit
  | 0 => fail
  | fuel + 1 => do
    if index ≤ (← get).mark.index then return
    if isBreak (← peek) then
      need 2
      skipLine
    else skip
    need 1
    moveTo index fuel

/-- Passes over the comment at a distance. -/
def skipCommentAt (k : Nat) : Reading Unit := do
  let c ← get
  moveTo (c.mark.index + k) (c.size + 1)
  skipComment

/-- Passes over further comments, from the end of the line of one. -/
def moreComments : Nat → Reading Unit
  | 0 => fail
  | fuel + 1 => do
    match ← commentAhead? true (commentReach - 1) 1 with
    | none => return
    | some k =>
      skipCommentAt k
      moreComments fuel

/-- Passes over the comments that start here. -/
def skipComments : Reading Unit := do
  skipComment
  moreComments ((← get).size + 1)

/-- Passes over a comment that follows in the line of what was just read. -/
def skipLineComment : Reading Unit := do
  if (← get).breaks == 0 then
    match ← commentAhead? false commentReach 0 with
    | none => return
    | some k => skipCommentAt k

end Elementwise.Yaml.Reading
