import Elementwise.Text.Blank
import Elementwise.Text.Names

/-!
# Types

A type can be left unspecified, at the top or behind a pointer; such a type is malformed, but
modules that hold it can still be printed and judged. Types are written `void`, `bool`, `i32`,
`f64`, `ptr<buffer, f32>`.
-/
namespace Elementwise.IR
open Text.Blank Text.Names Text.Numeral Text.Utf8

/-- Where the referent of a pointer lives. Codes past the named ones are kept as they are. -/
structure Space where
  code : UInt8
  deriving DecidableEq, Repr

namespace Space

/-- Function-local storage. -/
def function : Space := ⟨0⟩
/-- The data buffer bound at dispatch. -/
def buffer : Space := ⟨1⟩
/-- The small configuration block. -/
def config : Space := ⟨2⟩
/-- Built-in inputs such as the invocation id. -/
def input : Space := ⟨3⟩

def names : List String := ["function", "buffer", "config", "input"]

def text (s : Space) : String := nameOf names "space" s.code

def parse? (s : Text) : Option Space := (codeOf? names s).map Space.mk

end Space

inductive Ty where
  | missing
  | void
  | bool
  | int (width : UInt32)
  | float (width : UInt32)
  | pointer (elem : Ty) (space : Space)
  deriving DecidableEq, Repr, Inhabited

inductive TypeError where
  | malformedPointer (text : Text)
  | unknownSpace (name : Text)
  | unknownType (text : Text)
  deriving DecidableEq, Repr

def unknownSpaceMessage (name : Text) : String := "unknown address space " ++ name.quoted

def TypeError.message : TypeError → String
  | .malformedPointer s => "malformed pointer type " ++ s.quoted
  | .unknownSpace s => unknownSpaceMessage s
  | .unknownType s => "unknown type " ++ s.quoted

/-- Splits at the first occurrence of a character, which belongs to neither part. -/
def cut (c : Char) : List Piece → Option (List Piece × List Piece)
  | [] => none
  | p :: rest =>
    if p == .char c then some ([], rest)
    else (cut c rest).map fun parts => (p :: parts.1, parts.2)

theorem length_cut_lt {c : Char} {ps before after : List Piece}
    (h : cut c ps = some (before, after)) : after.length < ps.length := by
  induction ps generalizing before with
  | nil => simp [cut] at h
  | cons p rest ih =>
    by_cases hd : p == .char c
    · simp only [cut, hd, if_true, Option.some.injEq, Prod.mk.injEq] at h
      simp [← h.2]
    · simp only [cut, hd, Bool.false_eq_true, if_false, Option.map_eq_some_iff] at h
      obtain ⟨⟨a, b⟩, hcut, heq⟩ := h
      obtain ⟨-, rfl⟩ := Prod.mk.inj heq
      have hlt : b.length < rest.length := ih hcut
      exact Nat.lt_succ_of_lt hlt

namespace Ty

def text : Ty → String
  | .missing => "%!s(<nil>)"
  | .void => "void"
  | .bool => "bool"
  | .int w => "i" ++ decimal w.toNat
  | .float w => "f" ++ decimal w.toNat
  | .pointer elem space => "ptr<" ++ space.text ++ ", " ++ elem.text ++ ">"

def isInt : Ty → Bool
  | .int _ => true
  | _ => false

def isFloat : Ty → Bool
  | .float _ => true
  | _ => false

def isPointer : Ty → Bool
  | .pointer _ _ => true
  | _ => false

/-- An unspecified result stands for void. -/
def orVoid : Ty → Ty
  | .missing => .void
  | t => t

/-- The part between `ptr<` and the final `>`. -/
def pointerBody? : List Piece → Option (List Piece)
  | .char 'p' :: .char 't' :: .char 'r' :: .char '<' :: rest =>
    if rest.getLast? == some (.char '>') then some rest.dropLast else none
  | _ => none

theorem length_pointerBody_lt {ps body : List Piece} (h : pointerBody? ps = some body) :
    body.length < ps.length := by
  unfold pointerBody? at h
  split at h
  · split at h
    · cases h
      simp
      omega
    · cases h
  · cases h

/-- A width is written in decimal digits and fits 32 bits. -/
def width? (cs : List Char) : Option UInt32 :=
  match readNatural 10 (UInt32.size - 1) cs with
  | .ok n => some n.toUInt32
  | .error _ => none

def scalar? (cs : List Char) : Option Ty :=
  match cs with
  | 'i' :: digits => (width? digits).map .int
  | 'f' :: digits => (width? digits).map .float
  | _ => none

set_option linter.unusedVariables false in
/-- Reads a type whose surrounding blanks may or may not have been removed. -/
def parsePieces (text : List Piece) : Except TypeError Ty :=
  let ps := trim text
  let shown := ps.map Piece.shown
  if shown.isEmpty || shown == "void".toList then .ok .void
  else if shown == "bool".toList then .ok .bool
  else
    match hbody : pointerBody? ps with
    | some body =>
      match hcut : cut ',' body with
      | none => .error (.malformedPointer (.ofPieces ps))
      | some (space, elem) =>
        let name := Text.ofPieces (trim space)
        match Space.parse? name with
        | none => .error (.unknownSpace name)
        | some sp => (parsePieces elem).map fun t => .pointer t sp
    | none =>
      match scalar? shown with
      | some t => .ok t
      | none => .error (.unknownType (.ofPieces ps))
termination_by text.length
decreasing_by
  have h₁ := length_cut_lt hcut
  have h₂ := length_pointerBody_lt hbody
  have h₃ : ps.length ≤ text.length := length_trim_le text
  omega

def parse (t : Text) : Except TypeError Ty := parsePieces t.pieces

end Ty

end Elementwise.IR
