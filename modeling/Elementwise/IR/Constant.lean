import Elementwise.IR.Type
import Elementwise.Ieee.Literal
import Elementwise.Ieee.Shortest

/-!
# Constants

A constant is a type and a pattern of 64 bits: the integer's low bits, or the encoding of a
float, extended by zeros. Listing and wire form differ in the types that have no literals: the
wire form writes the bits in hexadecimal.
-/
namespace Elementwise.IR
open Text.Blank Text.Numeral Text.Quoted Text.Utf8

structure Constant where
  type : Ty
  bits : UInt64
  deriving DecidableEq, Repr

namespace Constant

def ofBool (b : Bool) : Constant := ⟨.bool, if b then 1 else 0⟩

/-- The low `width` bits of an integer; all 64 of them for wider types. -/
def ofInt (width : UInt32) (v : Int) : Constant :=
  ⟨.int width, (v % (Nat.pow 2 (min width.toNat 64) : Nat)).toNat.toUInt64⟩

def ofWord (v : UInt32) : Constant := ⟨.int 32, v.toUInt64⟩

def ofSingle (bits : UInt32) : Constant := ⟨.float 32, bits.toUInt64⟩

def ofDouble (bits : UInt64) : Constant := ⟨.float 64, bits⟩

/-- The constant of a float type for a value given as a 64-bit pattern. -/
def ofFloat (width : UInt32) (bits : UInt64) : Constant :=
  if width == 16 then ⟨.float 16, (Ieee.halfBits (Ieee.toSingle bits)).toUInt64⟩
  else if width == 32 then ofSingle (Ieee.toSingle bits)
  else ⟨.float width, bits⟩

/-- The bits as a two's complement number of the given width, where the width is below 64. -/
def signedValue (width : UInt32) (bits : UInt64) : Int :=
  if 0 < width && width < 64 then Int.bmod bits.toNat (Nat.pow 2 width.toNat)
  else Int.bmod bits.toNat UInt64.size

/-- The constant as the listing shows it. -/
def text (c : Constant) : String :=
  match c.type with
  | .bool => if c.bits == 0 then "false" else "true"
  | .float w =>
    if w == 32 then c.type.text ++ " " ++ Ieee.text .single (c.bits.toNat % UInt32.size)
    else if w == 64 then c.type.text ++ " " ++ Ieee.text .double c.bits.toNat
    else c.type.text ++ " 0x" ++ hex c.bits.toNat
  | .int w => c.type.text ++ " " ++ signedDecimal (signedValue w c.bits)
  | _ => c.type.text ++ " " ++ signedDecimal (signedValue 64 c.bits)

/-- The constant as the wire form writes it. -/
def wireText (c : Constant) : String :=
  match c.type with
  | .bool | .int _ => c.text
  | .float w => if w == 32 || w == 64 then c.text else c.type.text ++ " 0x" ++ hex c.bits.toNat
  | _ => c.type.text ++ " 0x" ++ hex c.bits.toNat

end Constant

inductive ConstantError where
  | malformed (text : Text)
  | badType (cause : TypeError)
  | badLiteral (text : Text) (reading : Reading) (literal : Text) (fault : Fault)
  | noLiterals (text : Text) (type : Ty)
  deriving DecidableEq, Repr

def ConstantError.message : ConstantError → String
  | .malformed s => "malformed constant " ++ s.quoted
  | .badType e => e.message
  | .badLiteral s reading literal fault =>
    "constant " ++ s.quoted ++ ": " ++ readingMessage reading literal.quoted fault
  | .noLiterals s t => "constant " ++ s.quoted ++ ": type " ++ t.text ++ " has no literals"

namespace Constant

/-- A bit pattern, for any type. -/
def parseBits (source : Text) (type : Ty) (digits : List Piece) : Except ConstantError Constant :=
  match readNatural 16 maxUnsigned (digits.map Piece.shown) with
  | .ok n => .ok ⟨type, n.toUInt64⟩
  | .error fault => .error (.badLiteral source .unsigned (.ofPieces digits) fault)

/-- An integer is read as a signed and then as an unsigned number. -/
def parseInt (source : Text) (width : UInt32) (lit : List Piece) :
    Except ConstantError Constant :=
  match readInteger (lit.map Piece.shown) with
  | .ok v => .ok (ofInt width v)
  | .error _ =>
    match readNatural 10 maxUnsigned (lit.map Piece.shown) with
    | .ok n => .ok (ofInt width n)
    | .error fault => .error (.badLiteral source .unsigned (.ofPieces lit) fault)

/-- Reads a literal. A stray byte is no part of any, so the characters shown for it do no harm. -/
def parseLiteral (source : Text) (type : Ty) (lit : List Piece) :
    Except ConstantError Constant :=
  match lit with
  | .char '0' :: .char 'x' :: digits => parseBits source type digits
  | _ =>
    match type with
    | .bool =>
      match readTruth? (String.ofList (lit.map Piece.shown)) with
      | some b => .ok (ofBool b)
      | none => .error (.badLiteral source .truth (.ofPieces lit) .syntaxFault)
    | .int w => parseInt source w lit
    | .float w =>
      match Ieee.Literal.read (lit.map Piece.shown) with
      | .ok bits => .ok (ofFloat w bits)
      | .error fault => .error (.badLiteral source .floating (.ofPieces lit) fault)
    | _ => .error (.noLiterals source type)

/-- Reads `<type> <literal>`, or one of the bare words `true` and `false`. -/
def parse (s : Text) : Except ConstantError Constant :=
  match cut ' ' (trim s.pieces) with
  | none =>
    if s = "true" then .ok (ofBool true)
    else if s = "false" then .ok (ofBool false)
    else .error (.malformed s)
  | some (typeText, lit) =>
    match Ty.parsePieces typeText with
    | .error e => .error (.badType e)
    | .ok t => parseLiteral s t (trim lit)

end Constant

end Elementwise.IR
