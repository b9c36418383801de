import Elementwise.Ieee.Literal
import Elementwise.Yaml.Timestamp

/-!
# Plain scalars

Integers have to fit 64 bits; a number that does not fit is a float if it is spelled in decimal.
Older readers also took `yes` and `on` for truth values and `1:30` for a number, so a writer
should quote these, though they are plain text here.
-/
namespace Elementwise.Yaml
open Text.Numeral

inductive Kind where
  | text
  | null
  | truth
  | integer
  | float
  | timestamp
  | merge
  deriving DecidableEq, Repr

namespace Scalar

def fits (base limit : Nat) (cs : List Char) : Bool := (readNatural base limit cs).isOk

/-- The base that a prefix gives, and the digits. A lone leading zero means octal. -/
def based : List Char → Nat × List Char
  | '0' :: x :: d :: rest =>
    if x == 'b' || x == 'B' then (2, d :: rest)
    else if x == 'o' || x == 'O' then (8, d :: rest)
    else if x == 'x' || x == 'X' then (16, d :: rest)
    else (8, x :: d :: rest)
  | ['0', x] => (8, [x])
  | cs => (10, cs)

/-- Whether these are the digits of a number up to `limit`, in the base that they show. -/
def fitsBased (limit : Nat) (cs : List Char) : Bool :=
  let (base, digits) := based cs
  fits base limit digits

/-- A number of 64 bits, up to `limit` where it has no sign. -/
def isBasedInteger (limit : Nat) : List Char → Bool
  | '-' :: rest => fitsBased (maxSigned + 1) rest
  | '+' :: rest => fitsBased maxSigned rest
  | cs => fitsBased limit cs

/-- Digits in a fixed base with an optional sign. -/
def isSigned (base : Nat) : List Char → Bool
  | '-' :: rest => fits base (maxSigned + 1) rest
  | '+' :: rest => fits base maxSigned rest
  | cs => fits base maxSigned cs

/-- A base prefix may also stand before a sign. -/
def isPrefixedInteger (limit : Nat) (cs : List Char) : Bool :=
  match cs with
  | '0' :: 'b' :: rest => isSigned 2 rest || fits 2 limit rest
  | '0' :: 'o' :: rest => isSigned 8 rest || fits 8 limit rest
  | '-' :: '0' :: 'b' :: rest => isSigned 2 ('-' :: rest)
  | '-' :: '0' :: 'o' :: rest => isSigned 8 ('-' :: rest)
  | _ => false

def skipSign : List Char → List Char
  | '-' :: rest => rest
  | '+' :: rest => rest
  | cs => cs

/-- Nothing, or the mark of an exponent with its digits. -/
def isExponent : List Char → Bool
  | [] => true
  | e :: rest =>
    (e == 'e' || e == 'E') && !(skipSign rest).isEmpty && (skipSign rest).all Char.isDigit

/-- The spelling of a decimal number with optional fraction and exponent. -/
def isDecimal (cs : List Char) : Bool :=
  match skipSign cs with
  | '.' :: rest =>
    !(rest.takeWhile Char.isDigit).isEmpty && isExponent (rest.dropWhile Char.isDigit)
  | rest =>
    !(rest.takeWhile Char.isDigit).isEmpty &&
      match rest.dropWhile Char.isDigit with
      | '.' :: more => isExponent (more.dropWhile Char.isDigit)
      | more => isExponent more

def readsAsFloat (cs : List Char) : Bool := (Ieee.Literal.read cs).isOk

/-- The words with a meaning. -/
def word? (s : String) : Option Kind :=
  if ["true", "True", "TRUE", "false", "False", "FALSE"].contains s then some .truth
  else if ["", "~", "null", "Null", "NULL"].contains s then some .null
  else if [".nan", ".NaN", ".NAN", ".inf", ".Inf", ".INF", "+.inf", "+.Inf", "+.INF",
      "-.inf", "-.Inf", "-.INF"].contains s then some .float
  else if s == "<<" then some .merge
  else none

/-- What begins with a digit or sign. -/
def numberKind (cs : List Char) : Kind :=
  let plain := cs.filter (· != '_')
  if Timestamp.isTimestamp cs then .timestamp
  else if isBasedInteger maxUnsigned plain then .integer
  else if isDecimal plain && readsAsFloat plain then .float
  else if isPrefixedInteger maxUnsigned plain then .integer
  else .text

/-- Whether an integer is a signed number of 64 bits. -/
def isSigned64 (s : String) : Bool :=
  let plain := s.toList.filter (· != '_')
  isBasedInteger maxSigned plain || isPrefixedInteger maxSigned plain

def kind (s : String) : Kind :=
  match word? s with
  | some k => k
  | none =>
    match s.toList with
    | [] => .null
    | c :: rest =>
      if c.isDigit || c == '+' || c == '-' then numberKind (c :: rest)
      else if c == '.' then (if readsAsFloat (c :: rest) then .float else .text)
      else .text

/-- The digits, underscores and colons of a number in base sixty. -/
def sexagesimalGroups : List (List Char) → Bool
  | [] => true
  | [last] =>
    isGroup (last.takeWhile (· != '.')) &&
      ((last.dropWhile (· != '.')).drop 1).all fun c => c.isDigit || c == '_'
  | g :: rest => isGroup g && sexagesimalGroups rest
where
  isGroup : List Char → Bool
    | [d] => d.isDigit
    | [t, d] => '0' ≤ t && t ≤ '5' && d.isDigit
    | _ => false

def splitColons : List Char → List (List Char)
  | [] => [[]]
  | ':' :: rest => [] :: splitColons rest
  | c :: rest =>
    match splitColons rest with
    | g :: gs => (c :: g) :: gs
    | [] => [[c]]

/-- Whether this is a number in base sixty, such as `1:30`. -/
def isSexagesimal (s : String) : Bool :=
  match splitColons (skipSign s.toList) with
  | first :: g :: gs =>
    match first with
    | d :: more =>
      d.isDigit && (more.all fun c => c.isDigit || c == '_') && sexagesimalGroups (g :: gs)
    | [] => false
  | _ => false

/-- The words that were truth values once. -/
def isOldTruth (s : String) : Bool :=
  ["y", "Y", "yes", "Yes", "YES", "on", "On", "ON", "n", "N", "no", "No", "NO", "off", "Off",
    "OFF"].contains s

/-- Whether text has to be quoted to be read as text. -/
def needsQuotes (s : String) : Bool :=
  (kind s != .text && kind s != .merge) || isSexagesimal s || isOldTruth s

end Scalar
end Elementwise.Yaml
