import Elementwise.Text
import Elementwise.Yaml.Quoting
import Elementwise.Yaml.Source

/-!
# Tokens

The start of a block collection may be inserted before tokens that were read already: only the
colon tells that a line began with a key.
-/
namespace Elementwise.Yaml

inductive Token where
  | version (major minor : Nat)
  | tagDirective (handle : String) (uri : Text)
  | documentStart
  | documentEnd
  | blockSequence
  | blockMapping
  | blockEnd
  | flowSequence
  | flowSequenceEnd
  | flowMapping
  | flowMappingEnd
  | entry
  | flowEntry
  | key
  | value
  | alias (name : String)
  | anchor (name : String)
  | tag (handle : String) (suffix : Text)
  | scalar (text : String) (plain : Bool)
  | streamEnd
  deriving DecidableEq, Repr

structure Mark where
  index : Nat := 0
  line : Nat := 0
  column : Nat := 0
  deriving DecidableEq, Repr

namespace Mark

/-- The mark `n` characters further in the same line. -/
def advance (m : Mark) (n : Nat) : Mark := { m with index := m.index + n, column := m.column + n }

/-- The start of the next line, after a break of `n` characters. -/
def newline (m : Mark) (n : Nat) : Mark := ⟨m.index + n, m.line + 1, 0⟩

end Mark

/-- Whether a character is blank, a break or the end. -/
def isGapOrEnd (c : Char) : Bool := isBlank c || isBreak c || c == endMark

/-- Whether a character ends a line. -/
def isBreakOrEnd (c : Char) : Bool := isBreak c || c == endMark

/-- A break as it is kept in a scalar: separators stay, all others become newlines. -/
def keptBreak (c : Char) : Char :=
  if c.toNat == 0x2028 || c.toNat == 0x2029 then c else '\n'

/-! ## Moving through a text -/

/-- A place in a text. -/
structure Cursor where
  window : Window
  mark : Mark := {}
  /-- The line breaks since the last character that is not blank. -/
  breaks : Nat := 0
  /-- The number of bytes of the whole text, which bounds the steps of every loop. -/
  size : Nat
  deriving Repr

/-- A step that moves through a text; there is no description of a failure. -/
abbrev Reading := StateT Cursor Option

namespace Reading

def fail {α : Type} : Reading α := fun _ => none

/-- Sees to it that `n` characters can be looked at. -/
def need (n : Nat) : Reading Unit := fun c =>
  (c.window.need n).map fun window => ((), { c with window })

def peekAt (k : Nat) : Reading Char := do return (← get).window.peekAt k

def peek : Reading Char := peekAt 0

def column : Reading Nat := do return (← get).mark.column

/-- Passes over a character of the line. -/
def skip : Reading Unit := modify fun c =>
  { c with
    window := { c.window with unread := c.window.unread.drop 1 }
    mark := c.mark.advance 1
    breaks := if isBlank (c.window.peekAt 0) then c.breaks else 0 }

def skipTimes : Nat → Reading Unit
  | 0 => pure ()
  | n + 1 => do
    skip
    skipTimes n

/-- Passes over a line break, if there is one, and returns it as it is kept in a scalar. -/
def takeLine : Reading (List Char) := do
  let x ← peek
  if !isBreak x then return []
  let width := if x == '\r' && (← peekAt 1) == '\n' then 2 else 1
  modify fun c =>
    { c with
      window := { c.window with unread := c.window.unread.drop width }
      mark := c.mark.newline width
      breaks := c.breaks + 1 }
  return [keptBreak x]

def skipLine : Reading Unit := do
  let _ ← takeLine

/-- Reads characters while `p` holds, at most `fuel`, onto those that were read, the last first. -/
def takeOnto (p : Char → Bool) : Nat → List Char → Reading (List Char)
  | 0, taken => return taken
  | fuel + 1, taken => do
    let x ← peek
    if x == endMark || !p x then return taken
    skip
    need 1
    takeOnto p fuel (x :: taken)

/-- Reads characters of the line while `p` holds. -/
def takeWhile (p : Char → Bool) : Reading (List Char) := do
  return (← takeOnto p ((← get).size + 1) []).reverse

def skipWhile (p : Char → Bool) : Reading Unit := do
  let _ ← takeWhile p

/-- Whether `---` or `...` stands here alone at the start of a line. -/
def atMarker : Reading Bool := do
  let c ← get
  return c.mark.column == 0 && Quoting.startsMarker c.window.unread &&
    isGapOrEnd (c.window.peekAt 3)

/-- Passes over a comment, if one starts here. -/
def skipComment : Reading Unit := do
  if (← peek) == '#' then skipWhile fun x => !isBreak x

end Reading
end Elementwise.Yaml
