import Elementwise.Text.Numeral

/-!
# Numerals with a base mark

Underscores may separate digits, or the mark from the first digit.
-/
namespace Elementwise.Text.Radix
open Numeral

/-- What an underscore may stand beside. -/
inductive Neighbour where
  | start
  | digit
  | underscore
  | other
  deriving DecidableEq

def underscoresSeparate (hex : Bool) (last : Neighbour) : List Char → Bool
  | [] => last != .underscore
  | c :: rest =>
    if c.isDigit || (hex && (digitValue? c).any (· < 16)) then underscoresSeparate hex .digit rest
    else if c == '_' then last == .digit && underscoresSeparate hex .underscore rest
    else last != .underscore && underscoresSeparate hex .other rest

/-- Whether there is a minus sign, and what follows the sign. -/
def dropSign : List Char → Bool × List Char
  | '+' :: rest => (false, rest)
  | '-' :: rest => (true, rest)
  | cs => (false, cs)

/-- Underscores separate digits, or a base mark from the first digit. -/
def underscoresAllowed (cs : List Char) : Bool :=
  match (dropSign cs).2 with
  | '0' :: x :: rest =>
    if ['x', 'X', 'b', 'B', 'o', 'O'].contains x then
      underscoresSeparate (x == 'x' || x == 'X') .digit rest
    else underscoresSeparate false .start ('0' :: x :: rest)
  | unsigned => underscoresSeparate false .start unsigned

/-- The base that a mark letter stands for. -/
def markedBase? (c : Char) : Option Nat :=
  if c == 'x' || c == 'X' then some 16
  else if c == 'o' || c == 'O' then some 8
  else if c == 'b' || c == 'B' then some 2
  else none

/-- The base of an unsigned numeral and its digits. A mark without digits after it is none. -/
def splitBase : List Char → Nat × List Char
  | '0' :: x :: d :: rest =>
    match markedBase? x with
    | some base => (base, d :: rest)
    | none => (8, x :: d :: rest)
  | '0' :: rest => (8, rest)
  | cs => (10, cs)

/-- An unsigned 64-bit numeral. -/
def readUnsigned (cs : List Char) : Except Fault Nat :=
  if cs.isEmpty then .error .syntaxFault
  else
    let (base, digits) := splitBase cs
    match readDigits base maxUnsigned 0 (digits.filter (· != '_')) with
    | .error f => .error f
    | .ok n =>
      if cs.contains '_' && !underscoresAllowed cs then .error .syntaxFault else .ok n

/-- A numeral with an optional sign, within the range of 64-bit two's complement. -/
def readSigned (cs : List Char) : Except Fault Int :=
  let (negative, body) := dropSign cs
  match readUnsigned body with
  | .error f => .error f
  | .ok n =>
    if negative then if n ≤ maxSigned + 1 then .ok (-(n : Int)) else .error .rangeFault
    else if n ≤ maxSigned then .ok n else .error .rangeFault

end Elementwise.Text.Radix
