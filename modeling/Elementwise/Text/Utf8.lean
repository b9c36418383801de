/-!
# Reading UTF-8 bytes

A malformed sequence gives up its first byte only, so reading resumes at the next one.
-/
namespace Elementwise.Text.Utf8

inductive Piece where
  | char (c : Char)
  | stray (byte : UInt8)
  deriving DecidableEq, Repr

def isContinuation (b : UInt8) : Bool := 0x80 ≤ b && b ≤ 0xbf

/-- The second byte of a sequence: the range depends on the first, which rules out overlong
forms, surrogates and code points past the last plane. -/
def allowsSecond (first second : UInt8) : Bool :=
  if first == 0xe0 then 0xa0 ≤ second && second ≤ 0xbf
  else if first == 0xed then 0x80 ≤ second && second ≤ 0x9f
  else if first == 0xf0 then 0x90 ≤ second && second ≤ 0xbf
  else if first == 0xf4 then 0x80 ≤ second && second ≤ 0x8f
  else isContinuation second

def payload (b : UInt8) : Nat := b.toNat % 64

/-- The character that starts with `first`, and how many of the following bytes belong to it. -/
def leading? (first : UInt8) (rest : List UInt8) : Option (Char × Nat) :=
  if first < 0x80 then some (Char.ofNat first.toNat, 0)
  else if 0xc2 ≤ first && first ≤ 0xdf then
    match rest with
    | b :: _ =>
      if isContinuation b then some (Char.ofNat ((first.toNat % 32) * 64 + payload b), 1) else none
    | _ => none
  else if 0xe0 ≤ first && first ≤ 0xef then
    match rest with
    | b :: c :: _ =>
      if allowsSecond first b && isContinuation c then
        some (Char.ofNat (((first.toNat % 16) * 64 + payload b) * 64 + payload c), 2)
      else none
    | _ => none
  else if 0xf0 ≤ first && first ≤ 0xf4 then
    match rest with
    | b :: c :: d :: _ =>
      if allowsSecond first b && isContinuation c && isContinuation d then
        some (Char.ofNat
          ((((first.toNat % 8) * 64 + payload b) * 64 + payload c) * 64 + payload d), 3)
      else none
    | _ => none
  else none

/-- Reads the bytes after passing over `skip` of them. -/
def decodeFrom : Nat → List UInt8 → List Piece
  | _, [] => []
  | skip + 1, _ :: rest => decodeFrom skip rest
  | 0, b :: rest =>
    match leading? b rest with
    | some (c, n) => .char c :: decodeFrom n rest
    | none => .stray b :: decodeFrom 0 rest

def decode (bytes : List UInt8) : List Piece := decodeFrom 0 bytes

def Piece.isStray : Piece → Bool
  | .stray _ => true
  | .char _ => false

/-- A stray byte is shown as the replacement character. -/
def Piece.shown : Piece → Char
  | .char c => c
  | .stray _ => Char.ofNat 0xfffd

def isWellFormed (bytes : List UInt8) : Bool := (decode bytes).all (!·.isStray)

/-- The text of bytes, with a replacement character for each stray byte. -/
def text (bytes : List UInt8) : String := String.ofList ((decode bytes).map Piece.shown)

def bytes (s : String) : List UInt8 := s.toList.flatMap String.utf8EncodeChar

def Piece.bytes : Piece → List UInt8
  | .char c => String.utf8EncodeChar c
  | .stray b => [b]

end Elementwise.Text.Utf8
