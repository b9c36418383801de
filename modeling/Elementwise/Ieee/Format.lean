/-!
# Binary floating-point formats

Rounding goes from an exact positive rational to the pattern of the nearest value, ties to the even
one. Patterns of positive values are ordered as the values are, so a carry out of the significand
turns into the next exponent by itself, and a pattern at or past that of infinity has overflowed.
-/
namespace Elementwise.Ieee

structure Format where
  /-- Significant bits, the implicit leading one included. -/
  precision : Nat
  exponentBits : Nat
  deriving DecidableEq, Repr

namespace Format

def half : Format := ⟨11, 5⟩
def single : Format := ⟨24, 8⟩
def double : Format := ⟨53, 11⟩

def fractionBits (f : Format) : Nat := f.precision - 1

/-- The largest exponent field, reserved for infinities and NaN. -/
def topField (f : Format) : Nat := Nat.pow 2 f.exponentBits - 1

def bias (f : Format) : Nat := Nat.pow 2 (f.exponentBits - 1) - 1

/-- The power of two that the last bit of the smallest values stands for. -/
def leastExponent (f : Format) : Int := 1 - (f.bias : Int) - (f.fractionBits : Int)

def infinity (f : Format) : Nat := f.topField * Nat.pow 2 f.fractionBits

def signBit (f : Format) : Nat := Nat.pow 2 (f.fractionBits + f.exponentBits)

end Format

/-- A decoded magnitude. -/
inductive Magnitude where
  | finite (significand : Nat) (exponent : Int)
  | infinite
  | nan (payload : Nat)
  deriving DecidableEq, Repr

structure Decoded where
  negative : Bool
  magnitude : Magnitude
  deriving DecidableEq, Repr

def decode (f : Format) (bits : Nat) : Decoded :=
  let fraction := bits % Nat.pow 2 f.fractionBits
  let field := bits / Nat.pow 2 f.fractionBits % Nat.pow 2 f.exponentBits
  let negative := bits / f.signBit % 2 == 1
  if field == f.topField then
    ⟨negative, if fraction == 0 then .infinite else .nan fraction⟩
  else if field == 0 then
    ⟨negative, .finite fraction f.leastExponent⟩
  else
    ⟨negative, .finite (Nat.pow 2 f.fractionBits + fraction) (f.leastExponent + field - 1)⟩

/-- The floor of the binary logarithm of a positive rational. -/
def binaryLog (num den : Nat) : Int :=
  let guess : Int := (Nat.log2 num : Int) - (Nat.log2 den : Int)
  let below :=
    if 0 ≤ guess then num < den * Nat.pow 2 guess.toNat else num * Nat.pow 2 (-guess).toNat < den
  if below then guess - 1 else guess

/-- Rounds the quotient to the nearest natural number, a tie to the even one. -/
def roundDiv (num den : Nat) : Nat :=
  let q := num / den
  let r := num % den
  if 2 * r < den then q
  else if den < 2 * r then q + 1
  else if q % 2 == 0 then q else q + 1

/-- The pattern nearest to the positive rational `num / den`; the pattern of infinity stands for
everything that rounds past the largest finite value. -/
def nearest (f : Format) (num den : Nat) : Nat :=
  let top := binaryLog num den - (f.fractionBits : Int)
  let exponent := if top < f.leastExponent then f.leastExponent else top
  let significand :=
    if 0 ≤ exponent then roundDiv num (den * Nat.pow 2 exponent.toNat)
    else roundDiv (num * Nat.pow 2 (-exponent).toNat) den
  let pattern := (exponent - f.leastExponent).toNat * Nat.pow 2 f.fractionBits + significand
  if f.infinity ≤ pattern then f.infinity else pattern

def signed (f : Format) (negative : Bool) (pattern : Nat) : Nat :=
  if negative then f.signBit + pattern else pattern

/-- The pattern nearest to `significand * 2 ^ exponent`. -/
def nearestScaled (f : Format) (significand : Nat) (exponent : Int) : Nat :=
  if significand == 0 then 0
  else if 0 ≤ exponent then nearest f (significand * Nat.pow 2 exponent.toNat) 1
  else nearest f significand (Nat.pow 2 (-exponent).toNat)

/-- From the 64-bit to the 32-bit format. A NaN keeps its sign and the leading bits of its
payload and becomes quiet. -/
def toSingle (bits : UInt64) : UInt32 :=
  let d := decode .double bits.toNat
  let pattern :=
    match d.magnitude with
    | .finite m e => nearestScaled .single m e
    | .infinite => Format.single.infinity
    | .nan payload => Format.single.infinity + (payload / 0x20000000 ||| 0x400000)
  (signed .single d.negative pattern).toUInt32

/-- The magnitude that `halfBits` gives to the one with an exponent field and a fraction. -/
def halfPattern (field fraction : Nat) : Nat :=
  if field == 255 then if fraction == 0 then 0x7c00 else 0x7e00
  else if 143 ≤ field then 0x7c00
  else if field < 102 then 0
  else if field ≤ 112 then
    let shift := 126 - field
    let m := 0x800000 + fraction
    m / Nat.pow 2 shift + m / Nat.pow 2 (shift - 1) % 2
  else (field - 112) * 0x400 + fraction / 0x2000 + fraction / 0x1000 % 2

/-- The 16-bit pattern nearest to a 32-bit one, ties going away from zero. Every NaN becomes the
plain quiet one of its sign. -/
def halfBits (bits : UInt32) : UInt16 :=
  let b := bits.toNat
  let sign := b / 0x80000000 * 0x8000
  (sign + halfPattern (b / 0x800000 % 0x100) (b % 0x800000)).toUInt16

end Elementwise.Ieee
