import Elementwise.IR.Program

/-!
# Names of values and blocks

Parameters, blocks and local variables keep the name they were given, where it is not empty; other
parameters and blocks are named for their position, and other results are numbered in listing
order. A name that is given last wins.
-/
namespace Elementwise.IR
open Text.Numeral

/-- The names in force in a function, the latest first. -/
structure Naming where
  values : List (Value × Text) := []
  blocks : List (BlockId × Text) := []
  /-- The next number for a result without a name of its own. -/
  next : Nat := 0
  deriving Repr

namespace Naming

def addParam (n : Naming) (index : Nat) (slot : Option (ParamId × Param)) :
    Except Panic Naming :=
  match slot with
  | none => .error .absent
  | some (id, p) =>
    let name : Text := if p.name.isEmpty then "arg" ++ decimal index else p.name
    .ok { n with values := (.param id, "%" ++ name) :: n.values }

def addInstr (n : Naming) (entry : InstrId × Option Instr) : Naming :=
  let numbered : Naming :=
    { n with
      values := (.result entry.1, "%" ++ decimal n.next) :: n.values
      next := n.next + 1 }
  match entry.2 with
  | some (.localVar name _) =>
    if name.isEmpty then numbered
    else { n with values := (.result entry.1, "%" ++ name) :: n.values }
  | some i => if i.isValue then numbered else n
  | none => n

def addBlock (n : Naming) (index : Nat) (slot : Option (BlockId × Block)) :
    Except Panic Naming :=
  match slot with
  | none => .error .absent
  | some (id, b) =>
    let name : Text := if b.name.isEmpty then "bb" ++ decimal index else b.name
    .ok ((b.instrIds id).foldl addInstr { n with blocks := (id, name) :: n.blocks })

/-- Adds the entries of a list in order, each with its position. -/
def addAll {α : Type} (step : Naming → Nat → α → Except Panic Naming) :
    Naming → Nat → List α → Except Panic Naming
  | n, _, [] => .ok n
  | n, index, x :: rest =>
    match step n index x with
    | .ok n' => addAll step n' (index + 1) rest
    | .error e => .error e

/-- The names in force in a function. An absent parameter or block has none. -/
def ofFunc (f : Func) (id : FuncId) : Except Panic Naming :=
  match addAll addParam {} 0 (f.paramIds id) with
  | .ok n => addAll addBlock n 0 (f.listed id)
  | .error e => .error e

/-- Constants are shown as `render` says, other values by name. -/
def valueWith (n : Naming) (render : Constant → String) : Value → Text
  | .constant c => render c
  | v => (List.lookup v n.values).getD "<undefined>"

def value (n : Naming) (v : Value) : Text := n.valueWith Constant.text v

def operand (n : Naming) (v : Value) : Text := n.valueWith Constant.wireText v

def block (n : Naming) (b : Option BlockId) : Text :=
  (b.bind fun id => List.lookup id n.blocks).getD "<foreign>"

end Naming

end Elementwise.IR
