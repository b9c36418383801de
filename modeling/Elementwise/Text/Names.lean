import Elementwise.Text

/-!
# Name tables

A code past the end of its table is shown as the kind of code and its number.
-/
namespace Elementwise.Text.Names
open Numeral

def nameOf (table : List String) (kind : String) (code : UInt8) : String :=
  (table[code.toNat]?).getD (kind ++ "(" ++ decimal code.toNat ++ ")")

def codeOf? (table : List String) (name : Text) : Option UInt8 :=
  (table.findIdx? (Text.ofString · == name)).map Nat.toUInt8

end Elementwise.Text.Names
