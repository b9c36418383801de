import Elementwise.Yaml.Token

/-!
# Scalars and their line breaks

In plain and quoted scalars a single break becomes a blank and further breaks are kept. In a literal
block all are kept, and in a folded block those between lines that start with a blank as well.
-/
namespace Elementwise.Yaml
open Reading

/-- Blanks and breaks between two words. -/
structure Gap where
  /-- The blanks before the first break, the last first. -/
  blanks : List Char := []
  /-- Whether there was a break. -/
  broken : Bool := false
  /-- The first break, where it is not an escaped one. -/
  first : Option Char := none
  /-- The further breaks, the last first. -/
  others : List Char := []
  deriving Repr

namespace Gap

def blank (g : Gap) (c : Char) : Gap := if g.broken then g else { g with blanks := c :: g.blanks }

/-- Adds a break as it is kept. -/
def lineBreak (g : Gap) (c : Char) : Gap :=
  if g.broken then { g with others := c :: g.others }
  else { g with broken := true, first := some c, blanks := [] }

/-- What the gap contributes to the text. -/
def text (g : Gap) : List Char :=
  if !g.broken then g.blanks.reverse
  else
    match g.first with
    | some '\n' => if g.others.isEmpty then [' '] else g.others.reverse
    | some c => c :: g.others.reverse
    | none => g.others.reverse

/-- Reads on in a gap. A tab in the indentation of a line, before column `limit`, is refused. -/
def readFrom (limit : Nat) : Nat → Gap → Reading Gap
  | 0, _ => fail
  | fuel + 1, g => do
    let x ← peek
    if isBlank x then
      if g.broken && (← column) < limit && x == '\t' then fail
      skip
      need 1
      readFrom limit fuel (g.blank x)
    else if isBreak x then
      need 2
      let kept ← takeLine
      need 1
      readFrom limit fuel (kept.foldl lineBreak g)
    else return g

def read (limit : Nat) (g : Gap) : Reading Gap := do readFrom limit ((← get).size + 1) g

end Gap

/-! ## Plain scalars -/

/-- Where a plain word ends: at a blank or break, a colon before one, or a flow indicator. -/
def endsPlainWord (flow : Bool) (c after : Char) : Bool :=
  isGapOrEnd c || (c == ':' && isGapOrEnd after) || (flow && ",?[]\x7b\x7d".toList.contains c)

/-- Reads a plain word onto the characters of it that were read, the last first. -/
def plainWord (flow : Bool) : Nat → List Char → Reading (List Char)
  | 0, _ => fail
  | fuel + 1, word => do
    let x ← peek
    if endsPlainWord flow x (← peekAt 1) then return word.reverse
    skip
    need 2
    plainWord flow fuel (x :: word)

/-- A scalar that was read, and whether a line break precedes the place where reading stopped. -/
structure ScannedScalar where
  text : List Char
  broken : Bool := false
  deriving Repr

/-- Reads words until one is missing, a comment or a marker starts, or a line is indented less
than `indent`. The words and gaps before are given, the last first. -/
def plainWords (flow : Bool) (indent : Nat) :
    Nat → List (List Char) → Gap → Reading ScannedScalar
  | 0, _, _ => fail
  | fuel + 1, parts, gap => do
    let ended (parts : List (List Char)) (broken : Bool) : Reading ScannedScalar :=
      return ⟨parts.reverse.flatten, broken⟩
    need 4
    if (← atMarker) || (← peek) == '#' then ended parts gap.broken
    else
      let word ← plainWord flow ((← get).size + 1) []
      let parts := if word.isEmpty then parts else word :: gap.text :: parts
      let next ← peek
      if !(isBlank next || isBreak next) then ended parts (word.isEmpty && gap.broken)
      else
        need 1
        let gap ← Gap.read indent {}
        if !flow && (← column) < indent then ended parts gap.broken
        else plainWords flow indent fuel parts gap

def scanPlain (flow : Bool) (indent : Nat) : Reading ScannedScalar := do
  plainWords flow indent ((← get).size + 1) [] {}

/-! ## Quoted scalars -/

/-- The characters with a short escape. -/
def shortEscape? (c : Char) : Option Char :=
  match c with
  | '0' => some (Char.ofNat 0)
  | 'a' => some (Char.ofNat 7)
  | 'b' => some (Char.ofNat 8)
  | 't' => some '\t'
  | '\t' => some '\t'
  | 'n' => some '\n'
  | 'v' => some (Char.ofNat 11)
  | 'f' => some (Char.ofNat 12)
  | 'r' => some '\r'
  | 'e' => some (Char.ofNat 27)
  | ' ' => some ' '
  | '"' => some '"'
  | '\\' => some '\\'
  | 'N' => some (Char.ofNat 0x85)
  | '_' => some (Char.ofNat 0xa0)
  | 'L' => some (Char.ofNat 0x2028)
  | 'P' => some (Char.ofNat 0x2029)
  | c => if c.toNat == 39 then some c else none

/-- How many hexadecimal digits follow a letter of an escape. -/
def escapeDigits (c : Char) : Nat :=
  match c with
  | 'x' => 2
  | 'u' => 4
  | 'U' => 8
  | _ => 0

/-- The character with the code that `digits` spell. -/
def codeEscape? (digits : List Char) : Option Char :=
  match Text.Numeral.readNatural 16 0x10ffff digits with
  | .ok n => if 0xd800 ≤ n && n ≤ 0xdfff then none else some (Char.ofNat n)
  | .error _ => none

/-- Reads an escape at its backslash. -/
def readEscape : Reading Char := do
  let letter ← peekAt 1
  let width := escapeDigits letter
  if width == 0 then
    match shortEscape? letter with
    | none => fail
    | some x =>
      skipTimes 2
      return x
  else
    skipTimes 2
    need width
    let digits := (← get).window.unread.take width
    if digits.length < width then fail
    match codeEscape? digits with
    | none => fail
    | some x =>
      skipTimes width
      return x

/-- A quote of one kind and of the other. -/
def quoteMark (single : Bool) : Char := if single then Char.ofNat 39 else '"'

/-- Reads a word in quotes onto the characters of it that were read, the last first, and tells
whether it ended at an escaped break, which is passed over. In single quotes a doubled quote stands
for one, and in double quotes a backslash starts an escape. -/
def quotedWord (single : Bool) : Nat → List Char → Reading (List Char × Bool)
  | 0, _ => fail
  | fuel + 1, word => do
    let x ← peek
    let after ← peekAt 1
    let goOn (x : Char) : Reading (List Char × Bool) := do
      need 2
      quotedWord single fuel (x :: word)
    if isGapOrEnd x then return (word.reverse, false)
    else if single && x == quoteMark true && after == quoteMark true then
      skipTimes 2
      goOn x
    else if x == quoteMark single then return (word.reverse, false)
    else if !single && x == '\\' && isBreak after then
      need 3
      skip
      skipLine
      return (word.reverse, true)
    else if !single && x == '\\' then goOn (← readEscape)
    else
      skip
      goOn x

/-- Reads the inside of quotes up to the closing one, which is passed over. -/
def quotedWords (single : Bool) : Nat → List (List Char) → Reading ScannedScalar
  | 0, _ => fail
  | fuel + 1, parts => do
    need 4
    if (← atMarker) || (← peek) == endMark then fail
    let (word, escaped) ← quotedWord single ((← get).size + 1) []
    need 1
    if (← peek) == quoteMark single then
      skip
      return { text := (word :: parts).reverse.flatten }
    else
      let gap ← Gap.read 0 { broken := escaped }
      quotedWords single fuel (gap.text :: word :: parts)

/-- Reads a quoted scalar at its opening quote. -/
def scanQuoted (single : Bool) : Reading ScannedScalar := do
  skip
  quotedWords single ((← get).size + 1) []

/-! ## Block scalars -/

/-- Which of the final breaks belong to the text. -/
inductive Chomp where
  | strip
  | clip
  | keep
  deriving DecidableEq, Repr

/-- The chomping, if it is stated here. -/
def readChomp? : Reading (Option Chomp) := do
  let x ← peek
  if x == '+' || x == '-' then
    skip
    need 1
    return some (if x == '+' then .keep else .strip)
  else return none

/-- The indentation step, from one to nine, if it is stated here. -/
def readStep? : Reading (Option Nat) := do
  let x ← peek
  if x == '0' then fail
  else if x.isDigit then
    skip
    need 1
    return some (x.toNat - 48)
  else return none

/-- The header after its indicator: the chomping and the step, in either order. -/
def blockHeader : Reading (Chomp × Option Nat) := do
  need 1
  match ← readChomp? with
  | some chomp => return (chomp, ← readStep?)
  | none =>
    match ← readStep? with
    | some step => return ((← readChomp?).getD .clip, some step)
    | none => return (.clip, none)

/-- The empty lines before content. -/
structure EmptyLines where
  /-- Their breaks, the last first. -/
  breaks : List Char := []
  /-- The rightmost column that was reached. -/
  widest : Nat := 0
  deriving Repr

/-- Eats indentation up to `indent`, all of it where that is zero, and empty lines. -/
def emptyLines (indent : Nat) : Nat → EmptyLines → Reading EmptyLines
  | 0, _ => fail
  | fuel + 1, e => do
    need 1
    let start ← get
    let room := if indent == 0 then start.size + 1 else indent - start.mark.column
    let _ ← takeOnto (· == ' ') room []
    let here ← column
    let e := { e with widest := max e.widest here }
    let x ← peek
    if x == '\t' && (indent == 0 || here < indent) then fail
    else if isBreak x then
      need 2
      emptyLines indent fuel { e with breaks := (← takeLine) ++ e.breaks }
    else return e

/-- The content of a block read so far. -/
structure BlockText where
  /-- Its parts, the last first. -/
  parts : List (List Char) := []
  /-- The break of the last line. -/
  lineBreak : List Char := []
  /-- The breaks of the empty lines after it. -/
  empties : List Char := []
  /-- Whether the last line started with a blank. -/
  blank : Bool := false
  deriving Repr

/-- Reads the lines that are indented by `indent`. -/
def blockLines (literal : Bool) (indent : Nat) : Nat → BlockText → Reading BlockText
  | 0, _ => fail
  | fuel + 1, b => do
    let x ← peek
    if (← column) != indent || x == endMark then return b
    let folds := !literal && !b.blank && !isBlank x && b.lineBreak == ['\n']
    let joint := if folds then (if b.empties.isEmpty then [' '] else []) else b.lineBreak
    let content ← takeWhile fun y => !isBreak y
    need 2
    let lineBreak ← takeLine
    let e ← emptyLines indent ((← get).size + 1) {}
    blockLines literal indent fuel
      ⟨content :: b.empties :: joint :: b.parts, lineBreak, e.breaks.reverse, isBlank x⟩

/-- Reads a block scalar at its indicator, inside a collection that is indented by `parent`. -/
def scanBlock (literal : Bool) (parent : Int) : Reading ScannedScalar := do
  skip
  let (chomp, step) ← blockHeader
  need 1
  skipWhile isBlank
  skipComment
  if !isBreakOrEnd (← peek) then fail
  if isBreak (← peek) then
    need 2
    skipLine
  let given := match step with
    | some n => (max parent 0).toNat + n
    | none => 0
  let fuel := (← get).size + 1
  let e ← emptyLines given fuel {}
  let indent := if given == 0 then max (max e.widest (parent + 1).toNat) 1 else given
  need 1
  let b ← blockLines literal indent fuel { empties := e.breaks.reverse }
  let tail := match chomp with
    | .strip => []
    | .clip => b.lineBreak
    | .keep => b.lineBreak ++ b.empties
  return { text := b.parts.reverse.flatten ++ tail }

end Elementwise.Yaml
