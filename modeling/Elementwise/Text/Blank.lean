import Elementwise.Text.Utf8

/-!
# Blanks

The characters with the Unicode property White_Space, and trimming of text at both ends.
-/
namespace Elementwise.Text.Blank
open Utf8

def isBlank (c : Char) : Bool :=
  let n := c.toNat
  (0x09 ≤ n && n ≤ 0x0d) || n == 0x20 || n == 0x85 || n == 0xa0 || n == 0x1680 ||
    (0x2000 ≤ n && n ≤ 0x200a) || n == 0x2028 || n == 0x2029 || n == 0x202f ||
    n == 0x205f || n == 0x3000

def isBlankText (s : String) : Bool := s.toList.all isBlank

def isBlankPiece : Piece → Bool
  | .char c => isBlank c
  | .stray _ => false

def trimLeft (ps : List Piece) : List Piece := ps.dropWhile isBlankPiece

def trimRight (ps : List Piece) : List Piece := (ps.reverse.dropWhile isBlankPiece).reverse

/-- Trimming a text leaves neither end blank. -/
def trim (ps : List Piece) : List Piece := trimRight (trimLeft ps)

theorem length_trimLeft_le (ps : List Piece) : (trimLeft ps).length ≤ ps.length :=
  (List.dropWhile_suffix isBlankPiece).length_le

theorem length_trimRight_le (ps : List Piece) : (trimRight ps).length ≤ ps.length := by
  have h := (List.dropWhile_suffix isBlankPiece (l := ps.reverse)).length_le
  simpa [trimRight] using h

theorem length_trim_le (ps : List Piece) : (trim ps).length ≤ ps.length :=
  Nat.le_trans (length_trimRight_le _) (length_trimLeft_le ps)

end Elementwise.Text.Blank
