/-!
# Numerals

Reading stops at the first character that decides: a character that is no digit is a syntax
fault, a prefix whose value passes the limit is a range fault.
-/
namespace Elementwise.Text.Numeral

def decimal (n : Nat) : String := String.ofList (Nat.toDigits 10 n)

def signedDecimal (n : Int) : String :=
  match n with
  | .ofNat k => decimal k
  | .negSucc k => "-" ++ decimal (k + 1)

/-- Lower-case hexadecimal digits without leading zeros. -/
def hex (n : Nat) : String := String.ofList (Nat.toDigits 16 n)

def padLeft (width : Nat) (fill : Char) (cs : List Char) : List Char :=
  List.replicate (width - cs.length) fill ++ cs

def hexPadded (width n : Nat) : String :=
  String.ofList (padLeft width '0' (Nat.toDigits 16 n))

def upperHexPadded (width n : Nat) : String :=
  String.ofList (padLeft width '0' ((Nat.toDigits 16 n).map Char.toUpper))

/-- The largest 64-bit number without sign. -/
def maxUnsigned : Nat := UInt64.size - 1

/-- The largest number of 64-bit two's complement; the least is the negative of its successor. -/
def maxSigned : Nat := UInt64.size / 2 - 1

inductive Fault where
  | syntaxFault
  | rangeFault
  deriving DecidableEq, Repr

def Fault.message : Fault → String
  | .syntaxFault => "invalid syntax"
  | .rangeFault => "value out of range"

/-- The value of a digit or letter, letters of either case counting on from ten. -/
def digitValue? (c : Char) : Option Nat :=
  let n := c.toNat
  if 48 ≤ n && n ≤ 57 then some (n - 48)
  else if 97 ≤ n && n ≤ 122 then some (n - 87)
  else if 65 ≤ n && n ≤ 90 then some (n - 55)
  else none

def readDigits (base limit : Nat) (value : Nat) : List Char → Except Fault Nat
  | [] => .ok value
  | c :: rest =>
    match digitValue? c with
    | none => .error .syntaxFault
    | some d =>
      if base ≤ d then .error .syntaxFault
      else if limit < value * base + d then .error .rangeFault
      else readDigits base limit (value * base + d) rest

/-- An unsigned numeral: digits only, at least one. -/
def readNatural (base limit : Nat) (cs : List Char) : Except Fault Nat :=
  if cs.isEmpty then .error .syntaxFault else readDigits base limit 0 cs

/-- A decimal numeral with an optional sign, within the range of 64-bit two's complement. -/
def readInteger (cs : List Char) : Except Fault Int :=
  match cs with
  | '-' :: rest => (readNatural 10 (maxSigned + 1) rest).map fun n => -(n : Int)
  | '+' :: rest => (readNatural 10 maxSigned rest).map Int.ofNat
  | _ => (readNatural 10 maxSigned cs).map Int.ofNat

/-- Which kind of literal was being read when a fault arose. -/
inductive Reading where
  | unsigned
  | signed
  | floating
  | truth
  deriving DecidableEq, Repr

def Reading.name : Reading → String
  | .unsigned => "strconv.ParseUint"
  | .signed => "strconv.ParseInt"
  | .floating => "strconv.ParseFloat"
  | .truth => "strconv.ParseBool"

/-- The spellings of the two truth values. -/
def readTruth? (s : String) : Option Bool :=
  if ["1", "t", "T", "true", "TRUE", "True"].contains s then some true
  else if ["0", "f", "F", "false", "FALSE", "False"].contains s then some false
  else none

end Elementwise.Text.Numeral
