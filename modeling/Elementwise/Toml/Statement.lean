import Elementwise.Ieee.Literal
import Elementwise.Text.Utf8

/-!
# TOML as written

Which tables and keys may follow which is decided where the document is built. A file that is not
of this form is refused without a description.
-/
namespace Elementwise.Toml
open Text.Numeral

abbrev Key := List String

/-- A value as written. -/
inductive Written where
  | text (s : String)
  | integer (n : Int)
  | float
  | truth (b : Bool)
  | datetime
  | array (items : List Written)
  | inline (entries : List (Key × Written))
  deriving Repr

inductive Statement where
  | table (key : Key)
  | tableArray (key : Key)
  | assign (key : Key) (value : Written)
  deriving Repr

namespace Written

variable (cs : List Char)

def isArray : Written → Bool
  | .array _ => true
  | _ => false

def isBlank (c : Char) : Bool := c == ' ' || c == '\t'

def isNewline (c : Char) : Bool := c == '\n' || c == '\r'

def skipBlanks : List Char := cs.dropWhile isBlank

def skipComment : List Char := cs.dropWhile fun c => !isNewline c

def apostrophe : Char := Char.ofNat 39

/-! ## Text -/

/-- The character that a short escape stands for. -/
def shortEscape? : Char → Option Char
  | 'b' => some (Char.ofNat 8)
  | 't' => some '\t'
  | 'n' => some '\n'
  | 'f' => some (Char.ofNat 12)
  | 'r' => some '\r'
  | '"' => some '"'
  | '\\' => some '\\'
  | _ => none

def codePoint? (width : Nat) (digits : List Char) : Option Char :=
  if digits.length < width then none
  else
    match readNatural 16 0x10ffff digits with
    | .ok n => if 0xd800 ≤ n && n ≤ 0xdfff then none else some (Char.ofNat n)
    | .error _ => none

/-- The character of an escape after its backslash, and what follows. -/
def escape? : List Char → Option (Char × List Char)
  | 'u' :: rest => (codePoint? 4 (rest.take 4)).map (·, rest.drop 4)
  | 'U' :: rest => (codePoint? 8 (rest.take 8)).map (·, rest.drop 8)
  | c :: rest => (shortEscape? c).map (·, rest)
  | [] => none

/-- A basic string after its opening quote. -/
def basic? : Nat → List Char → List Char → Option (List Char × List Char)
  | 0, _, _ => none
  | _, _, [] => none
  | fuel + 1, acc, c :: rest =>
    if c == '"' then some (acc.reverse, rest)
    else if isNewline c then none
    else if c == '\\' then
      match escape? rest with
      | some (x, rest) => basic? fuel (x :: acc) rest
      | none => none
    else basic? fuel (c :: acc) rest

/-- A literal string after its opening apostrophe. -/
def literal? : Option (List Char × List Char) :=
  let body := cs.takeWhile fun c => c != apostrophe && !isNewline c
  match cs.drop body.length with
  | c :: rest => if c == apostrophe then some (body, rest) else none
  | [] => none

/-- After a run of quotes in a string of several lines: up to two belong to it, three close it,
and six are too many, or seven where the run follows an escaped backslash. -/
def closing (slash : Bool) (run : Nat) : Option (Option Nat) :=
  if run < 3 then some none
  else if run < (if slash then 7 else 6) then some (some (run - 3))
  else none

/-- What follows a backslash at the end of a line: blanks and newlines are passed over. -/
def lineContinuation? : Option (List Char) :=
  let gap := cs.takeWhile fun c => isBlank c || isNewline c
  if gap.contains '\n' then some (cs.drop gap.length) else none

/-- A string of several lines after its opening quotes. What was read of it is given with the last
character first, and whether that was an escaped backslash. -/
def multiline? (quote : Char) :
    Nat → Bool → List Char → List Char → Option (List Char × List Char)
  | 0, _, _, _ => none
  | _, _, _, [] => none
  | fuel + 1, slash, acc, c :: rest =>
    if c == quote then
      let run := ((c :: rest).takeWhile (· == quote)).length
      let after := (c :: rest).drop run
      match closing slash run with
      | none => none
      | some none => multiline? quote fuel false (List.replicate run quote ++ acc) after
      | some (some kept) => some ((List.replicate kept quote ++ acc).reverse, after)
    else if c == '\\' && quote == '"' then
      match lineContinuation? rest with
      | some rest => multiline? quote fuel false acc rest
      | none =>
        let slash := rest.head? == some '\\'
        match escape? rest with
        | some (x, rest) => multiline? quote fuel slash (x :: acc) rest
        | none => none
    else multiline? quote fuel false (c :: acc) rest

/-- A newline right after the opening quotes does not count. -/
def skipFirstNewline : List Char → List Char
  | '\r' :: '\n' :: rest => rest
  | '\n' :: rest => rest
  | cs => cs

/-- A string at its opening quote. -/
def string? (quote : Char) (cs : List Char) : Option (String × List Char) :=
  let fuel := cs.length + 1
  let read :=
    if cs.take 3 == [quote, quote, quote] then
      multiline? quote fuel false [] (skipFirstNewline (cs.drop 3))
    else if quote == '"' then basic? fuel [] (cs.drop 1)
    else literal? (cs.drop 1)
  read.map fun (body, rest) => (String.ofList body, rest)

/-! ## Keys -/

def isBareChar (c : Char) : Bool := c.isAlphanum || c == '_' || c == '-'

def keyPart? : Option (String × List Char) :=
  match cs with
  | [] => none
  | c :: rest =>
    if c == '"' then (basic? (rest.length + 1) [] rest).map fun (t, r) => (String.ofList t, r)
    else if c == apostrophe then (literal? rest).map fun (t, r) => (String.ofList t, r)
    else
      let name := cs.takeWhile isBareChar
      if name.isEmpty then none else some (String.ofList name, cs.drop name.length)

/-- A dotted key and what follows it, without blanks. -/
def key? : Nat → List Char → Option (Key × List Char)
  | 0, _ => none
  | fuel + 1, cs =>
    match keyPart? (skipBlanks cs) with
    | none => none
    | some (part, rest) =>
      match skipBlanks rest with
      | '.' :: rest => (key? fuel rest).map fun (parts, rest) => (part :: parts, rest)
      | rest => some ([part], rest)

/-! ## Numbers and dates -/

def isHexDigit (c : Char) : Bool := ((digitValue? c).map fun d => decide (d < 16)).getD false

/-- Every underscore stands between digits. -/
def underscoresFit : Bool → List Char → Bool
  | accept, [] => accept
  | accept, c :: rest => (c != '_' || accept) && underscoresFit (isHexDigit c) rest

def hasLeadingZero : List Char → Bool
  | '0' :: c :: _ => !(c == 'b' || c == 'o' || c == 'x')
  | '-' :: '0' :: _ :: _ => true
  | '+' :: '0' :: _ :: _ => true
  | _ => false

def magnitude? (limit : Nat) (digits : List Char) : Option Nat :=
  let read (base : Nat) (ds : List Char) := (readNatural base limit ds).toOption
  match digits with
  | '0' :: 'x' :: ds => read 16 ds
  | '0' :: 'o' :: ds => read 8 ds
  | '0' :: 'b' :: ds => read 2 ds
  | ds => read 10 ds

/-- An integer of 64 bits. -/
def integer? (spelled : List Char) : Option Int :=
  let plain := spelled.filter (· != '_')
  if !underscoresFit false spelled || hasLeadingZero spelled then none
  else
    match plain with
    | '-' :: ds => (magnitude? (maxSigned + 1) ds).map fun n => -(n : Int)
    | '+' :: ds => (magnitude? maxSigned ds).map Int.ofNat
    | ds => (magnitude? maxSigned ds).map Int.ofNat

/-- The parts of a float between its point and exponent mark. -/
def floatParts : List Char → List (List Char)
  | [] => [[]]
  | c :: rest =>
    if c == '.' || c == 'e' || c == 'E' then [] :: floatParts rest
    else
      match floatParts rest with
      | p :: ps => (c :: p) :: ps
      | [] => [[c]]

/-- Every point is followed by a digit. -/
def pointsFit : List Char → Bool
  | [] => true
  | ['.'] => false
  | '.' :: c :: rest => c.isDigit && pointsFit (c :: rest)
  | _ :: rest => pointsFit rest

def isFloat (spelled : List Char) : Bool :=
  let parts := (floatParts spelled).filter (!·.isEmpty)
  parts.all (underscoresFit false) && !((parts.head?.map hasLeadingZero).getD false) &&
    pointsFit spelled && (Ieee.Literal.read (spelled.filter (· != '_'))).isOk

def twoDigits? (limit : Nat) : List Char → Option (Nat × List Char)
  | a :: b :: rest =>
    let n := (a.toNat - 48) * 10 + (b.toNat - 48)
    if a.isDigit && b.isDigit && n < limit then some (n, rest) else none
  | _ => none

def mark? (c : Char) : List Char → Option (List Char)
  | d :: rest => if c == d then some rest else none
  | [] => none

def daysIn (year month : Nat) : Nat :=
  if month == 2 then
    (if year % 4 == 0 && (year % 100 != 0 || year % 400 == 0) then 29 else 28)
  else if [4, 6, 9, 11].contains month then 30
  else 31

def date? : Option (List Char) := do
  let (century, cs) ← twoDigits? 100 cs
  let (year, cs) ← twoDigits? 100 cs
  let (month, cs) ← twoDigits? 13 (← mark? '-' cs)
  let (day, cs) ← twoDigits? 32 (← mark? '-' cs)
  if 1 ≤ month && 1 ≤ day && day ≤ daysIn (century * 100 + year) month then some cs else none

/-- An hour of one or two digits. -/
def hour? : List Char → Option (List Char)
  | a :: b :: rest =>
    if b.isDigit then (twoDigits? 24 (a :: b :: rest)).map (·.2)
    else if a.isDigit then some (b :: rest)
    else none
  | _ => none

def time? : Option (List Char) := do
  let cs ← hour? cs
  let (_, cs) ← twoDigits? 60 (← mark? ':' cs)
  let (_, cs) ← twoDigits? 60 (← mark? ':' cs)
  match cs with
  | '.' :: d :: rest => if d.isDigit then some (rest.dropWhile Char.isDigit) else some cs
  | _ => some cs

def isZone : Bool :=
  match cs with
  | ['Z'] => true
  | sign :: rest =>
    (sign == '+' || sign == '-') &&
      (do
        let (_, cs) ← twoDigits? 25 rest
        let (_, cs) ← twoDigits? 61 (← mark? ':' cs)
        pure cs.isEmpty).getD false
  | [] => false

/-- A date, a time, or both, then with an optional zone. Small letters and a blank between date
and time are allowed. -/
def isDatetime (spelled : List Char) : Bool :=
  let cs := spelled.map fun c =>
    if c == 't' || c == ' ' then 'T' else if c == 'z' then 'Z' else c
  if time? cs == some [] then true
  else
    match date? cs with
    | none => false
    | some [] => true
    | some ('T' :: rest) =>
      match time? rest with
      | some zone => zone.isEmpty || isZone zone
      | none => false
    | some _ => false

/-- The characters that satisfy `p`, and the rest. -/
def spanOf (p : Char → Bool) (cs : List Char) : List Char × List Char :=
  let taken := cs.takeWhile p
  (taken, cs.drop taken.length)

def floatRest? (start cs : List Char) : Option (Written × List Char) :=
  let (more, rest) := spanOf (fun c => c.isDigit || "_.-+eE".toList.contains c) cs
  if isFloat (start ++ more) then some (.float, rest) else none

/-- A decimal number whose first characters are `start`. -/
def decimal? (start cs : List Char) : Option (Written × List Char) :=
  let (more, rest) := spanOf (fun c => c.isDigit || c == '_') cs
  match rest with
  | c :: _ =>
    if c == '.' || c == 'e' || c == 'E' then floatRest? (start ++ more) rest
    else (integer? (start ++ more)).map fun n => (.integer n, rest)
  | [] => (integer? (start ++ more)).map fun n => (.integer n, rest)

def datetimeRest? : Option (Written × List Char) :=
  let (spelled, rest) := spanOf (fun c => c.isDigit || "-:Tt .Zz+".toList.contains c) cs
  let trimmed := (spelled.reverse.dropWhile (· == ' ')).reverse
  if isDatetime trimmed then some (.datetime, rest) else none

/-- A number or date at its first digit. -/
def number? : Option (Written × List Char) :=
  match cs with
  | '0' :: b :: d :: rest =>
    let base := if b == 'x' then 16 else if b == 'o' then 8 else if b == 'b' then 2 else 0
    let isDigitOf (c : Char) : Bool := ((digitValue? c).map fun v => decide (v < base)).getD false
    if base == 0 then plain cs
    else if !isDigitOf d then none
    else
      let (digits, rest) := spanOf (fun c => isDigitOf c || c == '_') (d :: rest)
      (integer? ('0' :: b :: digits)).map fun n => (.integer n, rest)
  | cs => plain cs
where
  plain (cs : List Char) : Option (Written × List Char) :=
    let (digits, rest) := spanOf Char.isDigit cs
    match rest with
    | c :: _ =>
      if (c == '-' || c == ':') && digits != ['0'] then datetimeRest? cs
      else decimal? digits rest
    | [] => decimal? digits rest

/-- A number after its sign. -/
def signed? (sign : Char) (cs : List Char) : Option (Written × List Char) :=
  match cs with
  | 'i' :: 'n' :: 'f' :: rest => some (.float, rest)
  | 'n' :: 'a' :: 'n' :: rest => some (.float, rest)
  | '0' :: c :: rest =>
    if c == 'b' || c == 'o' || c == 'x' then none else decimal? [sign] ('0' :: c :: rest)
  | c :: rest => if c.isDigit then decimal? [sign] (c :: rest) else none
  | [] => none

/-- `true` and `false`, which no letter may follow. -/
def truth? : Option (Written × List Char) :=
  let (word, rest) := spanOf (fun c => c.isAlpha || 0x80 ≤ c.toNat) cs
  if word == "true".toList then some (.truth true, rest)
  else if word == "false".toList then some (.truth false, rest)
  else none

/-! ## Values -/

/-- Passes over blanks, newlines and comments inside an array. -/
def skipLines : Nat → List Char → List Char
  | 0, cs => cs
  | fuel + 1, cs =>
    match cs.dropWhile fun c => isBlank c || isNewline c with
    | '#' :: rest => skipLines fuel (skipComment rest)
    | rest => rest

mutual

def value? : Nat → List Char → Option (Written × List Char)
  | 0, _ => none
  | fuel + 1, cs =>
    let cs := skipBlanks cs
    match cs with
    | [] => none
    | c :: rest =>
      if c.isDigit then number? cs
      else if c == '[' then
        (items? fuel rest).map fun (items, rest) => (.array items, rest)
      else if c == '\x7b' then
        match skipBlanks rest with
        | '\x7d' :: rest => some (.inline [], rest)
        | rest => (entries? fuel rest).map fun (entries, rest) => (.inline entries, rest)
      else if c == '"' || c == apostrophe then
        (string? c cs).map fun (s, rest) => (.text s, rest)
      else if c == '+' || c == '-' then signed? c rest
      else if cs.take 3 == "inf".toList || cs.take 3 == "nan".toList then
        some (.float, cs.drop 3)
      else truth? cs

/-- The items of an array up to its bracket; a comma may follow the last. -/
def items? : Nat → List Char → Option (List Written × List Char)
  | 0, _ => none
  | fuel + 1, cs =>
    match skipLines cs.length cs with
    | ']' :: rest => some ([], rest)
    | cs =>
      match value? fuel cs with
      | none => none
      | some (v, rest) =>
        match skipLines rest.length rest with
        | ']' :: rest => some ([v], rest)
        | ',' :: rest => (items? fuel rest).map fun (vs, rest) => (v :: vs, rest)
        | _ => none

/-- The entries of an inline table up to its brace; no comma follows the last. -/
def entries? : Nat → List Char → Option (List (Key × Written) × List Char)
  | 0, _ => none
  | fuel + 1, cs =>
    match key? (cs.length + 1) cs with
    | some (key, '=' :: rest) =>
      match value? fuel rest with
      | none => none
      | some (v, rest) =>
        match skipBlanks rest with
        | '\x7d' :: rest => some ([(key, v)], rest)
        | ',' :: rest => (entries? fuel rest).map fun (es, rest) => ((key, v) :: es, rest)
        | _ => none
    | _ => none

end

end Written

open Written

/-- The end of a line: blanks and a comment. -/
def lineEnd? (cs : List Char) : Option (List Char) :=
  let cs := skipBlanks cs
  let cs := if cs.head? == some '#' then skipComment cs else cs
  match cs with
  | [] => some []
  | c :: rest => if isNewline c then some rest else none

def statement? (cs : List Char) : Option (Statement × List Char) :=
  let fuel := cs.length + 1
  match cs with
  | '[' :: '[' :: rest =>
    match key? fuel rest with
    | some (key, ']' :: ']' :: rest) => some (.tableArray key, rest)
    | _ => none
  | '[' :: rest =>
    match key? fuel rest with
    | some (key, ']' :: rest) => some (.table key, rest)
    | _ => none
  | cs =>
    match key? fuel cs with
    | some (key, '=' :: rest) => (value? fuel rest).map fun (v, rest) => (.assign key v, rest)
    | _ => none

def statements? : Nat → List Char → Option (List Statement)
  | 0, _ => none
  | fuel + 1, cs =>
    match skipLines cs.length cs with
    | [] => some []
    | cs =>
      match statement? cs with
      | none => none
      | some (s, rest) =>
        match lineEnd? rest with
        | none => none
        | some rest => (statements? fuel rest).map (s :: ·)

/-- Control characters are not allowed, apart from tabs and newlines, nor is the replacement
character; a carriage return belongs to a newline. -/
def isClean : List Char → Bool
  | [] => true
  | '\r' :: '\n' :: rest => isClean rest
  | c :: rest =>
    (c == '\t' || c == '\n' || (0x20 ≤ c.toNat && c.toNat != 0x7f && c.toNat != 0xfffd)) &&
      isClean rest

/-- Leaves out a byte order mark, of UTF-8 or of either order of UTF-16. -/
def dropMark : List UInt8 → List UInt8
  | 0xef :: 0xbb :: 0xbf :: rest => rest
  | 0xff :: 0xfe :: rest => rest
  | 0xfe :: 0xff :: rest => rest
  | bytes => bytes

/-- The statements of a file, which may start with a byte order mark. -/
def read? (bytes : List UInt8) : Option (List Statement) :=
  let pieces := Text.Utf8.decode (dropMark bytes)
  let chars := pieces.map (·.shown)
  if pieces.any (·.isStray) || !isClean chars then none else statements? (chars.length + 1) chars

end Elementwise.Toml
