import Elementwise.Ieee.Format
import Elementwise.Text.Numeral

/-!
# Shortest decimal text

The decimal written for a value has the fewest digits that read back as the same value, and is the
nearest of those. All tests are exact: the reals that read back as a value reach half way to its
neighbours, the ends included when the significand is even.
-/
namespace Elementwise.Ieee
open Text.Numeral

/-- The value `coefficient * 10 ^ exponent`. -/
structure Decimal where
  coefficient : Nat
  exponent : Int
  deriving DecidableEq, Repr

/-- The floor of the decimal logarithm of `significand * 2 ^ exponent`. -/
def decimalLog (significand : Nat) (exponent : Int) : Int :=
  if 0 ≤ exponent then
    ((Nat.toDigits 10 (significand * Nat.pow 2 exponent.toNat)).length : Int) - 1
  else
    let k := (-exponent).toNat
    ((Nat.toDigits 10 (significand * Nat.pow 5 k)).length : Int) - 1 - (k : Int)

/-- Twice the distance to the next smaller value, in quarters of the last bit: the gap below a
power of two is half as wide, except at the bottom of the range. -/
def gapBelow (f : Format) (significand : Nat) (exponent : Int) : Nat :=
  if significand == Nat.pow 2 f.fractionBits && f.leastExponent < exponent then 1 else 2

/-- The hit on the grid of multiples of `10 ^ unit`, if there is one. -/
def gridHit? (f : Format) (significand : Nat) (exponent unit : Int) : Option Nat :=
  let quarter := exponent - 2
  let scale := Nat.pow 2 quarter.toNat * Nat.pow 10 (-unit).toNat
  let den := Nat.pow 10 unit.toNat * Nat.pow 2 (-quarter).toNat
  let value := 4 * significand * scale
  let low := (4 * significand - gapBelow f significand exponent) * scale
  let high := (4 * significand + 2) * scale
  let closed := significand % 2 == 0
  let c := value / den
  let down := decide (low < c * den) || (closed && low == c * den)
  let up := decide ((c + 1) * den < high) || (closed && (c + 1) * den == high)
  match down, up with
  | true, true =>
    let below := value - c * den
    let above := (c + 1) * den - value
    some (if below < above then c else if above < below then c + 1
      else if c % 2 == 0 then c else c + 1)
  | true, false => some c
  | false, true => some (c + 1)
  | false, false => none

/-- Tries one more digit at a time, at most `digits` more of them. -/
def firstHit (f : Format) (significand : Nat) (exponent : Int) (unit : Int) : Nat → Decimal
  | 0 => ⟨0, 0⟩
  | digits + 1 =>
    match gridHit? f significand exponent unit with
    | some c => ⟨c, unit⟩
    | none => firstHit f significand exponent (unit - 1) digits

/-- Seventeen digits tell any two values of the formats here apart. -/
def shortest (f : Format) (significand : Nat) (exponent : Int) : Decimal :=
  if significand == 0 then ⟨0, 0⟩
  else firstHit f significand exponent (decimalLog significand exponent) 17

/-- How a decimal is laid out: exponents from `least` up to but not including `limit` are written
positionally, others in scientific notation with at least `exponentDigits` digits of exponent. -/
structure Layout where
  least : Int
  limit : Int
  exponentDigits : Nat
  deriving Repr

/-- Numbers below a ten-thousandth or from a million on are written in scientific notation. -/
def general : Layout := ⟨-4, 6, 2⟩

def stripZeros (cs : List Char) : List Char := (cs.reverse.dropWhile (· == '0')).reverse

def Layout.render (l : Layout) (d : Decimal) : String :=
  let all := Nat.toDigits 10 d.coefficient
  let point := d.exponent + (all.length : Int) - 1
  let digits := stripZeros all
  match digits with
  | [] => "0"
  | lead :: rest =>
    if point < l.least || l.limit ≤ point then
      let fraction := if rest.isEmpty then [] else '.' :: rest
      let sign := if point < 0 then '-' else '+'
      let size := padLeft l.exponentDigits '0' (Nat.toDigits 10 point.natAbs)
      String.ofList (lead :: (fraction ++ 'e' :: sign :: size))
    else if point < 0 then
      String.ofList ('0' :: '.' :: (List.replicate (-point - 1).toNat '0' ++ digits))
    else
      let whole := point.toNat + 1
      let padded := digits ++ List.replicate (whole - digits.length) '0'
      let fraction := padded.drop whole
      String.ofList (padded.take whole ++ if fraction.isEmpty then [] else '.' :: fraction)

/-- The text of a bit pattern. -/
def text (f : Format) (bits : Nat) : String :=
  let d := decode f bits
  match d.magnitude with
  | .nan _ => "NaN"
  | .infinite => if d.negative then "-Inf" else "+Inf"
  | .finite m e => (if d.negative then "-" else "") ++ general.render (shortest f m e)

end Elementwise.Ieee
