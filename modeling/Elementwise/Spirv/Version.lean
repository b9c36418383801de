import Elementwise.Text.Blank
import Elementwise.Text.Quoted

/-!
# Versions of the binary format

Reading looks for two decimal numbers around a point and any text after the second; then the exact
spelling of one of the versions 1.0 to 1.6 is required.
-/
namespace Elementwise.Spirv
open Text.Blank Text.Numeral Text.Quoted

structure Version where
  major : UInt8
  minor : UInt8
  deriving DecidableEq, Repr

inductive VersionError where
  | invalid (text : String)
  | unsupported (text : String)
  deriving DecidableEq, Repr

def VersionError.message : VersionError → String
  | .invalid s => "invalid SPIR-V version " ++ quote s
  | .unsupported s => "unsupported SPIR-V version " ++ quote s

namespace Version

/-- Whether a version is the same as or newer than another. -/
def atLeast (v other : Version) : Bool :=
  if v.major = other.major then other.minor ≤ v.minor else other.major < v.major

def text (v : Version) : String := decimal v.major.toNat ++ "." ++ decimal v.minor.toNat

/-- The version as it stands in the header of a binary. -/
def word (v : Version) : UInt32 := (v.major.toUInt32 <<< 16) ||| (v.minor.toUInt32 <<< 8)

def ofWord (w : UInt32) : Version := ⟨(w >>> 16).toUInt8, (w >>> 8).toUInt8⟩

/-- Passes over blanks; a line break is an error. -/
def skipBlanks : List Char → Option (List Char)
  | [] => some []
  | c :: rest =>
    if c == '\n' then none else if isBlank c then skipBlanks rest else some (c :: rest)

/-- A number of at most 255, and the text after it. -/
def scanNumber (cs : List Char) : Option (UInt8 × List Char) :=
  (skipBlanks cs).bind fun rest =>
    match readNatural 10 255 (rest.takeWhile Char.isDigit) with
    | .ok n => some (n.toUInt8, rest.dropWhile Char.isDigit)
    | .error _ => none

def scan (cs : List Char) : Option Version :=
  match scanNumber cs with
  | some (major, '.' :: rest) => (scanNumber rest).map fun (minor, _) => ⟨major, minor⟩
  | _ => none

def parse (s : String) : Except VersionError Version :=
  match scan s.toList with
  | none => .error (.invalid s)
  | some v =>
    if v.text = s ∧ v.major = 1 ∧ v.minor ≤ 6 then .ok v else .error (.unsupported s)

end Version

end Elementwise.Spirv
