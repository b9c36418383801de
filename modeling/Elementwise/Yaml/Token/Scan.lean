import Elementwise.Yaml.Token.Comment
import Elementwise.Yaml.Token.Folding
import Elementwise.Yaml.Token.Uri

/-!
# Reading tokens

A column further right than the last opens a block collection, and one further left closes those
that it is left of. Something that may turn out to be a key is remembered until a colon follows in
the same line, within 1024 characters.

A token is known once two more were read after it and no colon can make it the start of a key.
Whoever stops early never learns of a fault in the rest of the text.
-/
namespace Elementwise.Yaml
open Reading

/-- Something that a colon would make a key. -/
structure PendingKey where
  /-- Whether a colon may still follow. -/
  possible : Bool := false
  /-- Whether nothing else could stand here. -/
  required : Bool := false
  /-- The number of its first token. -/
  number : Nat := 0
  mark : Mark := {}
  deriving Repr, Inhabited

structure Scanner where
  cursor : Cursor
  tokens : Array Token := #[]
  /-- How many tokens were taken. -/
  taken : Nat := 0
  /-- The column of the innermost block collection, or -1, and those around it. -/
  indent : Int := -1
  indents : List Int := []
  /-- How many flow collections are open. -/
  flow : Nat := 0
  /-- Whether a key may start here. -/
  keyAllowed : Bool := true
  /-- The pending key of the block and of every open flow collection, the innermost last. -/
  keys : Array PendingKey := #[{}]
  /-- The tokens that start a pending key, with the place of the key among all of them. -/
  heads : List (Nat × Nat) := []

/-- A step of reading tokens; there is no description of a failure. -/
abbrev Scanning := StateT Scanner Option

namespace Scanning

def onText {α : Type} (r : Reading α) : Scanning α := fun s =>
  match r s.cursor with
  | some (a, cursor) => some (a, { s with cursor })
  | none => none

instance : MonadLift Reading Scanning := ⟨onText⟩

def inFlow : Scanning Bool := do return 0 < (← get).flow

def allowKey (allowed : Bool) : Scanning Unit := modify fun s => { s with keyAllowed := allowed }

/-- Collections may be nested this deep, those in block style and those in flow style. -/
def depthLimit : Nat := 10000

def emit (t : Token) : Scanning Unit := modify fun s => { s with tokens := s.tokens.push t }

/-- Inserts a token before the one with this number, or at the end if that one was taken. -/
def insertAt (number : Nat) (t : Token) : Scanning Unit := modify fun s =>
  { s with
    tokens :=
      if number < s.taken then s.tokens.push t else s.tokens.insertIdxIfInBounds number t }

/-! ## Indentation -/

def closeTo (column : Int) : List Int → Int → Array Token → Int × List Int × Array Token
  | outer :: rest, indent, tokens =>
    if indent > column then closeTo column rest outer (tokens.push .blockEnd)
    else (indent, outer :: rest, tokens)
  | [], indent, tokens => (indent, [], tokens)

/-- Closes the block collections that are indented further than `column`. -/
def unroll (column : Int) : Scanning Unit := modify fun s =>
  if 0 < s.flow then s
  else
    let (indent, indents, tokens) := closeTo column s.indents s.indent s.tokens
    { s with indent, indents, tokens }

/-- Opens a block collection at `column`, unless one is open there. -/
def roll (column : Int) (number : Option Nat) (t : Token) : Scanning Unit := do
  let s ← get
  if 0 < s.flow || s.indent ≥ column then return
  let indents := s.indent :: s.indents
  if indents.length > depthLimit then fail
  set { s with indents, indent := column }
  match number with
  | some n => insertAt n t
  | none => emit t

/-! ## Pending keys -/

/-- Forgets which key a token starts. -/
def dropHead (number : Nat) : Scanning Unit := modify fun s =>
  { s with heads := s.heads.filter (·.1 != number) }

/-- Replaces the innermost pending key. -/
def setKey (k : PendingKey) : Scanning Unit := modify fun s =>
  { s with keys := s.keys.setIfInBounds (s.keys.size - 1) k }

/-- Forgets the innermost pending key, which must not be a required one. -/
def dropKey : Scanning Unit := do
  let k := (← get).keys.back?.getD {}
  if k.possible then
    if k.required then fail
    setKey { k with possible := false }
    dropHead k.number

/-- Remembers that a key may start here. -/
def saveKey : Scanning Unit := do
  let s ← get
  if !s.keyAllowed then return
  let column : Int := s.cursor.mark.column
  dropKey
  let number := s.tokens.size
  setKey ⟨true, s.flow == 0 && s.indent == column, number, s.cursor.mark⟩
  dropHead number
  modify fun s => { s with heads := (number, s.keys.size - 1) :: s.heads }

/-- Whether a colon here would belong to the pending key in a place. A key that it can no longer
belong to must not be a required one. -/
def isLive (level : Nat) : Scanning Bool := do
  let s ← get
  let k := s.keys[level]?.getD {}
  let here := s.cursor.mark
  if !k.possible then return false
  else if k.mark.line < here.line || k.mark.index + 1024 < here.index then
    if k.required then fail
    modify fun s => { s with keys := s.keys.setIfInBounds level { k with possible := false } }
    return false
  else return true

/-! ## Tokens -/

/-- Passes over blanks, comments and line breaks to the next token. The first character of a line
is passed over as well where the window is marked. -/
def toNextToken : Nat → Scanning Unit
  | 0 => fail
  | fuel + 1 => do
    need 1
    let c := (← get).cursor
    if c.mark.column == 0 && c.window.marked then skip
    need 1
    let s ← get
    let tabs := 0 < s.flow || !s.keyAllowed
    skipWhile fun x => x == ' ' || (tabs && x == '\t')
    if (← peek) == '#' then skipComments
    if isBreak (← peek) then
      need 2
      skipLine
      if s.flow == 0 then allowKey true
      toNextToken fuel

/-- Closes all that is open before a directive, a marker or the end. -/
def closeAll : Scanning Unit := do
  unroll (-1)
  dropKey
  allowKey false

def streamEnd : Scanning Unit := do
  modify fun s =>
    let m := s.cursor.mark
    if m.column == 0 then s
    else { s with cursor := { s.cursor with mark := { m with line := m.line + 1, column := 0 } } }
  closeAll
  emit .streamEnd

def marker (t : Token) : Scanning Unit := do
  closeAll
  skipTimes 3
  emit t

/-- A number of a version has one or two digits. -/
def versionNumber : Reading Nat := do
  need 1
  let digits ← takeWhile Char.isDigit
  if digits.isEmpty || 2 < digits.length then fail
  return digits.foldl (fun n d => n * 10 + (d.toNat - 48)) 0

def versionDirective : Reading Token := do
  let major ← versionNumber
  if (← peek) != '.' then fail
  skip
  return .version major (← versionNumber)

def tagDirective : Reading Token := do
  let (name, closed) ← takeHandle
  if !closed && !name.isEmpty then fail
  need 1
  if !isBlank (← peek) then fail
  skipWhile isBlank
  let uri ← takeFullUri
  if !isGapOrEnd (← peek) then fail
  return .tagDirective ("!" ++ name ++ (if closed then "!" else "")) uri

/-- A directive names a version or a tag handle. -/
def readDirective : Reading Token := do
  skip
  need 1
  let name ← takeWhile isNameChar
  if name.isEmpty || !isGapOrEnd (← peek) then fail
  skipWhile isBlank
  let token ←
    if name == "YAML".toList then versionDirective
    else if name == "TAG".toList then tagDirective
    else fail
  need 1
  skipWhile isBlank
  skipComment
  if !isBreakOrEnd (← peek) then fail
  if isBreak (← peek) then
    need 2
    skipLine
  return token

def directive : Scanning Unit := do
  closeAll
  emit (← readDirective)

def openFlow (t : Token) : Scanning Unit := do
  saveKey
  modify fun s =>
    { s with
      keys := s.keys.push { number := s.tokens.size, mark := s.cursor.mark }
      flow := s.flow + 1 }
  if (← get).flow > depthLimit then fail
  allowKey true
  skip
  emit t

def closeFlow (t : Token) : Scanning Unit := do
  dropKey
  if ← inFlow then
    dropHead ((← get).keys.back?.getD {}).number
    modify fun s => { s with keys := s.keys.pop, flow := s.flow - 1 }
  allowKey false
  skip
  emit t

def flowEntry : Scanning Unit := do
  dropKey
  allowKey true
  skip
  emit .flowEntry

/-- Opens a block collection for an indicator, which has to stand where a key may start. -/
def rollHere (t : Token) : Scanning Unit := do
  let s ← get
  if s.flow == 0 then
    if !s.keyAllowed then fail
    roll s.cursor.mark.column none t

def blockEntry : Scanning Unit := do
  rollHere .blockSequence
  dropKey
  allowKey true
  skip
  emit .entry

def explicitKey : Scanning Unit := do
  rollHere .blockMapping
  dropKey
  allowKey !(← inFlow)
  skip
  emit .key

/-- A colon makes the pending key a key; without one it belongs to an explicit key. -/
def keyValue : Scanning Unit := do
  let level := (← get).keys.size - 1
  if ← isLive level then
    let k := (← get).keys.back?.getD {}
    insertAt k.number .key
    roll k.mark.column (some k.number) .blockMapping
    setKey { k with possible := false }
    dropHead k.number
    allowKey false
  else
    rollHere .blockMapping
    allowKey !(← inFlow)
  skip
  emit .value

/-- The name of an anchor or alias. -/
def readName : Reading String := do
  skip
  need 1
  let name ← takeWhile isNameChar
  let x ← peek
  if name.isEmpty || !(isGapOrEnd x || "?:,]\x7d%@`".toList.contains x) then fail
  return String.ofList name

def named (t : String → Token) : Scanning Unit := do
  saveKey
  allowKey false
  emit (t (← readName))

/-- A tag: verbatim in angle brackets, with a named handle, or with the primary one. -/
def readTag : Reading Token := do
  need 2
  let token ←
    if (← peekAt 1) == '<' then do
      skipTimes 2
      let uri ← takeFullUri
      if (← peek) != '>' then fail
      skip
      pure (Token.tag "" uri)
    else do
      let (name, closed) ← takeHandle
      if closed then pure (Token.tag ("!" ++ name ++ "!") (← takeFullUri))
      else
        let suffix := (name : Text) ++ (← takeUri)
        pure (if suffix.isEmpty then .tag "" "!" else .tag "!" suffix)
  need 1
  if !isGapOrEnd (← peek) then fail
  return token

def tag : Scanning Unit := do
  saveKey
  allowKey false
  emit (← readTag)

def plainScalar : Scanning Unit := do
  saveKey
  let s ← get
  let r ← scanPlain (0 < s.flow) (s.indent + 1).toNat
  allowKey r.broken
  emit (.scalar (String.ofList r.text) true)

def quotedScalar (single : Bool) : Scanning Unit := do
  saveKey
  allowKey false
  emit (.scalar (String.ofList (← scanQuoted single).text) false)

def blockScalar (literal : Bool) : Scanning Unit := do
  dropKey
  allowKey true
  emit (.scalar (String.ofList (← scanBlock literal (← get).indent).text) false)

/-- Reads a token that starts with the character `x`, which is not the end. -/
def content (x : Char) : Scanning Unit := do
  let flow ← inFlow
  let stops := isGapOrEnd (← peekAt 1)
  if x == '[' then openFlow .flowSequence
  else if x == '\x7b' then openFlow .flowMapping
  else if x == ']' then closeFlow .flowSequenceEnd
  else if x == '\x7d' then closeFlow .flowMappingEnd
  else if x == ',' then flowEntry
  else if x == '-' && stops then blockEntry
  else if x == '?' && (flow || stops) then explicitKey
  else if x == ':' && (flow || stops) then keyValue
  else if x == '*' then named .alias
  else if x == '&' then named .anchor
  else if x == '!' then tag
  else if x == '|' && !flow then blockScalar true
  else if x == '>' && !flow then blockScalar false
  else if x.toNat == 39 then quotedScalar true
  else if x == '"' then quotedScalar false
  else if isBlank x || "|>#%@`".toList.contains x then fail
  else plainScalar

/-- Reads tokens as far as the next one that the text shows. -/
def next : Scanning Unit := do
  need 1
  toNextToken ((← get).cursor.size + 1)
  unroll (← column)
  need 4
  let x ← peek
  if x == endMark then streamEnd
  else if x == '%' && (← column) == 0 then directive
  else if ← atMarker then marker (if x == '-' then .documentStart else .documentEnd)
  else
    content x
    if (← get).tokens.back? != some .entry then skipLineComment

/-- Reads tokens until the one to be taken next is known. -/
def lookAhead : Nat → Scanning Unit
  | 0 => fail
  | fuel + 1 => do
    let s ← get
    let enough ←
      if s.taken + 2 < s.tokens.size then
        match s.heads.lookup s.taken with
        | none => pure true
        | some level => do pure !(← isLive level)
      else pure false
    if !enough then
      next
      lookAhead fuel

/-- The token to be taken next. -/
def peekToken : Scanning Token := do
  lookAhead ((← get).cursor.size + 8)
  let s ← get
  return s.tokens[s.taken]?.getD .streamEnd

def takeToken : Scanning Unit := modify fun s =>
  { s with taken := s.taken + 1, heads := s.heads.filter (s.taken < ·.1) }

end Scanning

/-- The scanner at the start of a text. An empty text is read as an empty line. -/
def Scanner.ofBytes (bytes : List UInt8) : Scanner :=
  let bytes := if bytes.isEmpty then [10] else bytes
  { cursor := { window := .ofBytes bytes, size := bytes.length } }

end Elementwise.Yaml
