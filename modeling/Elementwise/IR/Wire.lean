import Elementwise.Text

/-!
# The wire form of a program

Operands are written `%name` for parameters and results and as type and literal for constants.
Empty texts and lists stand for what is not there.
-/
namespace Elementwise.IR.Wire

structure Instr where
  result : Text := ""
  op : Text := ""
  domain : Text := ""
  pred : Text := ""
  type : Text := ""
  toDomain : Text := ""
  callee : Text := ""
  args : List Text := []
  targets : List Text := []
  deriving DecidableEq, Repr

structure Loop where
  merge : Text := ""
  continue_ : Text := ""
  deriving DecidableEq, Repr

structure Block where
  name : Text := ""
  loop : Option Loop := none
  instrs : List Instr := []
  deriving DecidableEq, Repr

structure Param where
  name : Text := ""
  type : Text := ""
  deriving DecidableEq, Repr

structure Func where
  name : Text := ""
  params : List Param := []
  result : Text := ""
  blocks : List Block := []
  deriving DecidableEq, Repr

structure Module where
  name : Text := ""
  functions : List Func := []
  deriving DecidableEq, Repr

end Elementwise.IR.Wire
