import Elementwise.Log

/-!
# Log lines

A value that could be taken for more than one word is quoted.
-/
namespace Elementwise.LogRecord
open Text.Utf8

/-- Whether a value with this character or stray byte is quoted. -/
def breaksWord : Piece → Bool
  | .char c =>
    if c.toNat < 0x80 then c == ' ' || c == '=' || c == '"' || c.toNat < 0x20
    else c.toNat == 0xfffd || !Text.Printable.isPrintable c
  | .stray _ => true

def valueText (t : Text) : String :=
  if t.isEmpty || t.pieces.any breaksWord then t.quoted else t.shown

def pairText (pair : String × Text) : String := valueText pair.1 ++ "=" ++ valueText pair.2

def line (r : LogRecord) : String :=
  let pairs : List (String × Text) := ("level", r.level.text) :: ("msg", r.message) :: r.attrs
  " ".intercalate (pairs.map pairText)

end Elementwise.LogRecord
