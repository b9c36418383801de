import Elementwise.Ieee.Format
import Elementwise.Text.Radix

/-!
# Floating-point literals

The value is rounded to nearest, ties to even; a literal that rounds past the largest finite value
is out of range, one that rounds to zero is not.
-/
namespace Elementwise.Ieee.Literal
open Text.Numeral Text.Radix

/-- The digits before an exponent. -/
structure Significand where
  value : Nat := 0
  fractionDigits : Nat := 0
  sawPoint : Bool := false
  sawDigit : Bool := false
  deriving Repr

def Significand.push (s : Significand) (base digit : Nat) : Significand :=
  { s with
    value := s.value * base + digit
    fractionDigits := if s.sawPoint then s.fractionDigits + 1 else s.fractionDigits
    sawDigit := true }

/-- Reads digits, one point and underscores, and returns what follows. -/
def significand (base : Nat) (s : Significand) : List Char → Significand × List Char
  | [] => (s, [])
  | c :: rest =>
    if c == '_' then significand base s rest
    else if c == '.' then
      if s.sawPoint then (s, c :: rest) else significand base { s with sawPoint := true } rest
    else
      match digitValue? c with
      | some d => if d < base then significand base (s.push base d) rest else (s, c :: rest)
      | none => (s, c :: rest)

/-- Exponents stop growing once they are far out of range. -/
def exponentDigits (e : Nat) : List Char → Nat × List Char
  | [] => (e, [])
  | c :: rest =>
    if c == '_' then exponentDigits e rest
    else if c.isDigit then
      exponentDigits (if e < 10000 then e * 10 + (c.toNat - 48) else e) rest
    else (e, c :: rest)

def unsignedExponent? (negative : Bool) (cs : List Char) : Option (Int × List Char) :=
  match cs with
  | c :: _ =>
    if c.isDigit then
      let (e, rest) := exponentDigits 0 cs
      some (if negative then -(e : Int) else (e : Int), rest)
    else none
  | [] => none

/-- What follows the exponent mark. -/
def exponent? (cs : List Char) : Option (Int × List Char) :=
  match cs with
  | '+' :: rest => unsignedExponent? false rest
  | '-' :: rest => unsignedExponent? true rest
  | _ => unsignedExponent? false cs

def hexPrefix? : List Char → Option (List Char)
  | '0' :: x :: rest => if (x == 'x' || x == 'X') && !rest.isEmpty then some rest else none
  | _ => none

/-- The magnitude of a literal: `value * 10 ^ exponent`, or `value * 2 ^ exponent`. -/
structure Scaled where
  binary : Bool
  value : Nat
  exponent : Int
  deriving Repr

/-- An unsigned literal that takes up all of the text. -/
def scaled? (cs : List Char) : Option Scaled :=
  match hexPrefix? cs with
  | some body =>
    match significand 16 {} body with
    | (s, mark :: rest) =>
      if s.sawDigit && (mark == 'p' || mark == 'P') then
        match exponent? rest with
        | some (e, []) => some ⟨true, s.value, e - 4 * (s.fractionDigits : Int)⟩
        | _ => none
      else none
    | (_, []) => none
  | none =>
    match significand 10 {} cs with
    | (s, []) => if s.sawDigit then some ⟨false, s.value, -(s.fractionDigits : Int)⟩ else none
    | (s, mark :: rest) =>
      if s.sawDigit && (mark == 'e' || mark == 'E') then
        match exponent? rest with
        | some (e, []) => some ⟨false, s.value, e - (s.fractionDigits : Int)⟩
        | _ => none
      else none

/-- Rounds a magnitude. The bounds spare the exact computation where the outcome is clear. -/
def Scaled.pattern (s : Scaled) : Nat :=
  let f := Format.double
  if s.value == 0 then 0
  else if s.binary then
    let top := (Nat.log2 s.value : Int) + s.exponent
    if 1100 < top then f.infinity
    else if top < -1200 then 0
    else nearestScaled f s.value s.exponent
  else
    let point := ((Nat.toDigits 10 s.value).length : Int) + s.exponent
    if 310 < point then f.infinity
    else if point < -330 then 0
    else if 0 ≤ s.exponent then nearest f (s.value * Nat.pow 10 s.exponent.toNat) 1
    else nearest f s.value (Nat.pow 10 (-s.exponent).toNat)

def nanBits : UInt64 := 0x7ff8000000000001

/-- The names of the values that are no numbers. -/
def named? (cs : List Char) : Option UInt64 :=
  let (negative, body) := dropSign cs
  let word := body.map Char.toLower
  if word == "inf".toList || word == "infinity".toList then
    some (signed .double negative Format.double.infinity).toUInt64
  else if cs.map Char.toLower == "nan".toList then some nanBits
  else none

/-- The bits of the 64-bit value that a text stands for. -/
def read (cs : List Char) : Except Fault UInt64 :=
  match named? cs with
  | some bits => .ok bits
  | none =>
    let (negative, body) := dropSign cs
    match scaled? body with
    | none => .error .syntaxFault
    | some s =>
      if cs.contains '_' && !underscoresAllowed cs then .error .syntaxFault
      else if s.pattern == Format.double.infinity then .error .rangeFault
      else .ok (signed .double negative s.pattern).toUInt64

end Elementwise.Ieee.Literal
