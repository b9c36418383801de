import Elementwise.IR.Type

/-!
# Operators and domains

Types carry no signedness, so the domain says how operands are read. Codes past the named ones can
occur in malformed modules and print as their number.
-/
namespace Elementwise.IR
open Text.Names

structure Domain where
  code : UInt8
  deriving DecidableEq, Repr

namespace Domain

def signed : Domain := ⟨0⟩
def unsigned : Domain := ⟨1⟩
def float : Domain := ⟨2⟩

def names : List String := ["signed", "unsigned", "float"]

def text (d : Domain) : String := nameOf names "domain" d.code

def parse? (s : Text) : Option Domain := (codeOf? names s).map Domain.mk

def unknownMessage (s : Text) : String := "unknown domain " ++ s.quoted

/-- Floats belong to the float domain, integers to all others. -/
def accepts (d : Domain) (t : Ty) : Bool := if d = float then t.isFloat else t.isInt

end Domain

structure BinaryOp where
  code : UInt8
  deriving DecidableEq, Repr

namespace BinaryOp

def add : BinaryOp := ⟨0⟩
def sub : BinaryOp := ⟨1⟩
def mul : BinaryOp := ⟨2⟩
def div : BinaryOp := ⟨3⟩
def rem : BinaryOp := ⟨4⟩

def names : List String := ["add", "sub", "mul", "div", "rem"]

def text (op : BinaryOp) : String := nameOf names "binop" op.code

def parse? (s : Text) : Option BinaryOp := (codeOf? names s).map BinaryOp.mk

end BinaryOp

structure Predicate where
  code : UInt8
  deriving DecidableEq, Repr

namespace Predicate

def eq : Predicate := ⟨0⟩
def ne : Predicate := ⟨1⟩
def lt : Predicate := ⟨2⟩
def le : Predicate := ⟨3⟩
def gt : Predicate := ⟨4⟩
def ge : Predicate := ⟨5⟩

def names : List String := ["eq", "ne", "lt", "le", "gt", "ge"]

def text (p : Predicate) : String := nameOf names "pred" p.code

def parse? (s : Text) : Option Predicate := (codeOf? names s).map Predicate.mk

end Predicate

end Elementwise.IR
