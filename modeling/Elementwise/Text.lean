import Elementwise.Text.Quoted

/-!
# Text from outside

A binary format can carry any bytes as text. Such text is kept as its bytes, so that two texts are
the same exactly if their bytes are.
-/
namespace Elementwise
open Text.Utf8

structure Text where
  bytes : List UInt8
  deriving DecidableEq, Repr, Inhabited

namespace Text

def ofString (s : String) : Text := ⟨Utf8.bytes s⟩

instance : Coe String Text := ⟨ofString⟩

instance : Append Text := ⟨fun a b => ⟨a.bytes ++ b.bytes⟩⟩

/-- The text as a string, if it is well-formed. -/
def string? (t : Text) : Option String := String.fromUTF8? t.bytes.toByteArray

theorem string?_ofString (s : String) : (ofString s).string? = some s := by
  have h : (s.toList.flatMap String.utf8EncodeChar).toByteArray = s.toByteArray :=
    congrArg String.toByteArray (String.ofList_toList (s := s))
  unfold string? ofString Utf8.bytes
  rw [h, String.fromUTF8?, dif_pos s.isValidUTF8]
  rfl

theorem ofString_inj {s t : String} (h : ofString s = ofString t) : s = t :=
  Option.some.inj ((string?_ofString s).symm.trans ((congrArg string? h).trans (string?_ofString t)))

def isEmpty (t : Text) : Bool := t.bytes.isEmpty

/-- The characters and stray bytes of a text. -/
def pieces (t : Text) : List Piece := decode t.bytes

def ofPieces (ps : List Piece) : Text := ⟨ps.flatMap Piece.bytes⟩

/-- The text as it is printed. -/
def shown (t : Text) : String := Utf8.text t.bytes

/-- The text between double quotes. -/
def quoted (t : Text) : String := Quoted.quoteBytes t.bytes

def concat (ts : List Text) : Text := ⟨ts.flatMap Text.bytes⟩

/-- Joins texts with a separator between them. -/
def joined (sep : Text) (ts : List Text) : Text := concat (ts.intersperse sep)

end Text
end Elementwise
