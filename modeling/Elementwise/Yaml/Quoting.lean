import Elementwise.Text.Base64
import Elementwise.Yaml.Scalar

/-!
# Writing text as a scalar

Text is written plain where that reads back as the same text. Text that would be taken for
another kind of scalar is put in double quotes, and text with a newline becomes a literal block.
Otherwise single quotes are preferred.
-/
namespace Elementwise.Yaml
open Text.Numeral

def isSpace (c : Char) : Bool := c == ' '

def isBlank (c : Char) : Bool := c == ' ' || c == '\t'

/-- Line breaks: carriage return, line feed, next line, line and paragraph separator. -/
def isBreak (c : Char) : Bool :=
  c == '\r' || c == '\n' || c.toNat == 0x85 || c.toNat == 0x2028 || c.toNat == 0x2029

/-- What is written without an escape. -/
def isPrintable (c : Char) : Bool :=
  let n := c.toNat
  n == 0x0a || (0x20 ≤ n && n ≤ 0x7e) || (0xa0 ≤ n && n ≤ 0xd7ff) ||
    (0xe000 ≤ n && n ≤ 0xfffd && n != 0xfeff)

inductive Style where
  | plain
  | single
  | double
  | literal
  deriving DecidableEq, Repr

namespace Quoting

variable (cs : List Char)

/-- Whether some adjacent pair of characters satisfies `p`. -/
def anyPair (p : Char → Char → Bool) : List Char → Bool
  | a :: b :: rest => p a b || anyPair p (b :: rest)
  | _ => false

/-- Characters that start something other than a plain scalar. -/
def isOpening (c : Char) : Bool := "#,[]\x7b\x7d&*!|>\"%@`".toList.contains c || c.toNat == 39

def startsMarker : List Char → Bool
  | '-' :: '-' :: '-' :: _ => true
  | '.' :: '.' :: '.' :: _ => true
  | _ => false

/-- A colon before a blank or the end, or a number sign after a blank or break. -/
def hasInnerIndicator : List Char → Bool
  | [] => false
  | [c] => c == ':'
  | a :: b :: rest =>
    (a == ':' && isBlank b) || ((isBlank a || isBreak a) && b == '#') ||
      hasInnerIndicator (b :: rest)

/-- Whether the text would be read as part of the document's structure. -/
def hasIndicators : Bool :=
  match cs with
  | [] => false
  | c :: rest =>
    startsMarker cs || isOpening c ||
      ((c == '?' || c == '-') && (rest.head?.map isBlank).getD true) || hasInnerIndicator cs

def hasSpecial : Bool := cs.any fun c => c != '\t' && !isPrintable c

def breakThenSpace : Bool := anyPair (fun a b => isBreak a && isSpace b) cs

def spaceThenBreak : Bool := anyPair (fun a b => isSpace a && isBreak b) cs

def endsWith (p : Char → Bool) (cs : List Char) : Bool := (cs.getLast?.map p).getD false

def startsWith (p : Char → Bool) (cs : List Char) : Bool := (cs.head?.map p).getD false

def singleAllowed : Bool :=
  !(breakThenSpace cs || spaceThenBreak cs || cs.contains '\t' || hasSpecial cs)

def plainAllowed : Bool :=
  singleAllowed cs && !hasIndicators cs && !cs.any isBreak &&
    !startsWith isSpace cs && !endsWith isSpace cs

def literalAllowed : Bool :=
  !(cs.isEmpty || endsWith isSpace cs || spaceThenBreak cs || hasSpecial cs)

def style (s : String) : Style :=
  let cs := s.toList
  if cs.contains '\n' then (if literalAllowed cs then .literal else .double)
  else if Scalar.needsQuotes s then .double
  else if plainAllowed cs then .plain
  else if singleAllowed cs then .single
  else .double

def escaped (c : Char) : List Char :=
  let n := c.toNat
  let short (x : Char) : List Char := ['\\', x]
  match n with
  | 0x00 => short '0'
  | 0x07 => short 'a'
  | 0x08 => short 'b'
  | 0x09 => short 't'
  | 0x0a => short 'n'
  | 0x0b => short 'v'
  | 0x0c => short 'f'
  | 0x0d => short 'r'
  | 0x1b => short 'e'
  | 0x22 => short '"'
  | 0x5c => short '\\'
  | 0x85 => short 'N'
  | 0xa0 => short '_'
  | 0x2028 => short 'L'
  | 0x2029 => short 'P'
  | _ =>
    if n ≤ 0xff then '\\' :: 'x' :: (upperHexPadded 2 n).toList
    else if n ≤ 0xffff then '\\' :: 'u' :: (upperHexPadded 4 n).toList
    else '\\' :: 'U' :: (upperHexPadded 8 n).toList

/-- Text in double quotes. If it starts with a byte order mark, every character is escaped. -/
def double : List Char :=
  let marked := startsWith (fun c => c.toNat == 0xfeff) cs
  let inner := cs.flatMap fun c =>
    if marked || !isPrintable c || isBreak c || c == '"' || c == '\\' then escaped c else [c]
  '"' :: inner ++ ['"']

def spaces (n : Nat) : List Char := List.replicate n ' '

/-- The inside of single quotes: a quote is doubled, and a line that follows a break is indented. -/
def singleInner (indent : Nat) : Bool → List Char → List Char
  | _, [] => []
  | afterBreak, c :: rest =>
    if isBreak c then c :: singleInner indent true rest
    else
      (if afterBreak then spaces indent else []) ++
        (if c.toNat == 39 then [c, c] else [c]) ++ singleInner indent false rest

def single (indent : Nat) (cs : List Char) : List Char :=
  let quote := Char.ofNat 39
  quote :: singleInner indent false cs ++ [quote]

/-- The header of a literal block: the indentation step where the text does not show it, and
how many of the final breaks belong to the text. -/
def literalHeader (step : Nat) (cs : List Char) : List Char :=
  let hint := if startsWith (fun c => isSpace c || isBreak c) cs then (decimal step).toList else []
  let chomp :=
    match cs.reverse with
    | [] => ['-']
    | last :: before =>
      if !isBreak last then ['-']
      else if (before.head?.map isBreak).getD true then ['+']
      else []
  '|' :: hint ++ chomp

/-- The lines of a literal block. The first starts a line of its own, so a break that the text
starts with is not written in addition. -/
def literalBody (indent : Nat) : Option Bool → List Char → List Char
  | _, [] => []
  | before, c :: rest =>
    if isBreak c then c :: literalBody indent (some true) rest
    else
      let lead := match before with
        | none => '\n' :: spaces indent
        | some true => spaces indent
        | some false => []
      lead ++ c :: literalBody indent (some false) rest

/-- A literal block. -/
def literal (step indent : Nat) (cs : List Char) : List Char :=
  literalHeader step cs ++ literalBody indent none cs

/-- Writes text where lines that follow are indented by `indent`, in steps of `step`. -/
def write (step indent : Nat) (s : String) : List Char :=
  let cs := s.toList
  match style s with
  | .plain => cs
  | .single => single indent cs
  | .double => double cs
  | .literal => literal step indent cs

/-- Characters in lines of 70, the last of which may be shorter. -/
def base64Lines : List (List Char) :=
  (List.range ((cs.length + 69) / 70)).map fun i => (cs.drop (i * 70)).take 70

/-- Writes bytes, as a block of lines if they do not fit one. -/
def writeBinary (step indent : Nat) (bytes : List UInt8) : List Char :=
  let cs := Text.Base64.encode bytes
  "!!binary ".toList ++
    if cs.length < 70 then cs
    else literal step indent ((base64Lines cs).flatMap (· ++ ['\n']))

end Quoting
end Elementwise.Yaml
