import Elementwise.Text.Utf8

/-!
# The characters of a text

Bytes are read in portions, and a portion is read only once a character beyond the earlier ones is
asked for. Whoever stops early never learns that a later portion is malformed. After the last
character a window holds the character zero, which no text may contain.
-/
namespace Elementwise.Yaml
open Text.Utf8

inductive Encoding where
  | utf8
  | utf16 (bigEndian : Bool)
  deriving DecidableEq, Repr

/-- What a text may hold. -/
def isReadable (c : Char) : Bool :=
  let n := c.toNat
  n == 0x09 || n == 0x0a || n == 0x0d || (0x20 ≤ n && n ≤ 0x7e) || n == 0x85 ||
    (0xa0 ≤ n && n ≤ 0xd7ff) || (0xe000 ≤ n && n ≤ 0xfffd) || 0x10000 ≤ n

def byteOrderMark : Char := Char.ofNat 0xfeff

/-- What stands after the last character. -/
def endMark : Char := Char.ofNat 0

/-! ## Decoding -/

/-- What a portion starts with. -/
inductive Leading where
  | char (c : Char) (width : Nat)
  /-- A character of which not all bytes are there. -/
  | short
  | malformed
  deriving DecidableEq, Repr

/-- How many bytes a character has, by its first one; zero where none starts so. -/
def utf8Width (first : UInt8) : Nat :=
  if first < 0x80 then 1
  else if first < 0xc0 then 0
  else if first < 0xe0 then 2
  else if first < 0xf0 then 3
  else if first < 0xf8 then 4
  else 0

def leadingUtf8 (first : UInt8) (rest : List UInt8) : Leading :=
  let width := utf8Width first
  if width == 0 then .malformed
  else if rest.length + 1 < width then .short
  else
    match leading? first rest with
    | some (c, _) => .char c width
    | none => .malformed

def isHighSurrogate (unit : Nat) : Bool := 0xd800 ≤ unit && unit < 0xdc00

def isLowSurrogate (unit : Nat) : Bool := 0xdc00 ≤ unit && unit < 0xe000

def leadingUtf16 (bigEndian : Bool) (first : UInt8) (rest : List UInt8) : Leading :=
  let unit (a b : UInt8) : Nat :=
    if bigEndian then a.toNat * 256 + b.toNat else b.toNat * 256 + a.toNat
  match rest with
  | [] => .short
  | second :: rest =>
    let high := unit first second
    if isLowSurrogate high then .malformed
    else if isHighSurrogate high then
      match rest with
      | a :: b :: _ =>
        let low := unit a b
        if isLowSurrogate low then
          .char (Char.ofNat (0x10000 + (high - 0xd800) * 0x400 + (low - 0xdc00))) 4
        else .malformed
      | _ => .short
    else .char (Char.ofNat high) 2

def Encoding.leading (e : Encoding) (first : UInt8) (rest : List UInt8) : Leading :=
  match e with
  | .utf8 => leadingUtf8 first rest
  | .utf16 bigEndian => leadingUtf16 bigEndian first rest

/-- The characters of a portion, after passing over `skip` bytes, and the bytes of one that is not
complete. In the last portion every character has to be complete. -/
def Encoding.decode (e : Encoding) (last : Bool) :
    Nat → List UInt8 → Option (List Char × List UInt8)
  | _, [] => some ([], [])
  | skip + 1, _ :: rest => e.decode last skip rest
  | 0, b :: rest =>
    match e.leading b rest with
    | .char c width =>
      if isReadable c then
        (e.decode last (width - 1) rest).map fun (cs, left) => (c :: cs, left)
      else none
    | .short => if last then none else some ([], b :: rest)
    | .malformed => none

/-! ## Portions -/

def portionSize : Nat := 512

/-- Bytes that have not been decoded. -/
structure Source where
  encoding : Encoding
  /-- The bytes at hand. -/
  portion : List UInt8
  rest : List UInt8
  /-- Whether the end of the bytes was met. -/
  ended : Bool
  deriving Repr

namespace Source

/-- A byte order mark tells the encoding and is no part of the text. -/
def ofBytes (bytes : List UInt8) : Source :=
  let start (encoding : Encoding) (portion : List UInt8) : Source :=
    ⟨encoding, portion, bytes.drop portionSize, bytes.length < 3⟩
  match bytes.take portionSize with
  | 0xff :: 0xfe :: portion => start (.utf16 false) portion
  | 0xfe :: 0xff :: portion => start (.utf16 true) portion
  | 0xef :: 0xbb :: 0xbf :: portion => start .utf8 portion
  | portion => start .utf8 portion

/-- Takes as many bytes as a portion has room for. -/
def extend (s : Source) : Source :=
  let room := portionSize - s.portion.length
  { s with
    portion := s.portion ++ s.rest.take room
    rest := s.rest.drop room
    ended := s.ended || s.rest.isEmpty }

end Source

structure Window where
  source : Source
  unread : List Char := []
  /-- Whether a byte order mark was the first character when the window was last filled. -/
  marked : Bool := false
  deriving Repr

namespace Window

def ofBytes (bytes : List UInt8) : Window := { source := .ofBytes bytes }

/-- Whether there are at least `n` characters. -/
def holds (w : Window) (n : Nat) : Bool := n == 0 || !(w.unread.drop (n - 1)).isEmpty

/-- Decodes the portion at hand, the first time if it is not empty, else after extending it. -/
def decodePortion (w : Window) (first : Bool) : Option Window :=
  let s := if first && !w.source.portion.isEmpty then w.source else w.source.extend
  (s.encoding.decode s.ended 0 s.portion).map fun (cs, left) =>
    { w with
      source := { s with portion := left }
      unread := w.unread ++ cs ++ (if s.ended then [endMark] else []) }

/-- Decodes portions until there are `n` characters or the text has ended. -/
def fill (n : Nat) : Nat → Bool → Window → Option Window
  | 0, _, _ => none
  | fuel + 1, first, w =>
    match w.decodePortion first with
    | none => none
    | some w => if w.source.ended || w.holds n then some w else fill n fuel false w

/-- Sees to it that `n` characters can be looked at, as far as there are so many. -/
def need (w : Window) (n : Nat) : Option Window :=
  if w.holds n then some w
  else
    (fill n (w.source.rest.length + 3) true w).map fun w =>
      { w with marked := w.unread.head? == some byteOrderMark }

/-- The character `k` places further. -/
def peekAt (w : Window) (k : Nat) : Char := w.unread.getD k endMark

end Window
end Elementwise.Yaml
