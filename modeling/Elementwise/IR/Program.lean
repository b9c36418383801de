import Elementwise.IR.Constant
import Elementwise.IR.Operator

/-!
# Programs

Functions, blocks, parameters and instructions are referred to by identity, which is where they
are stored. What a program or a function lists is a separate order over these, so that an entry can
be absent or occur twice, and a function can be called without being listed. Instructions have no
such order: an instruction is where it stands, and cannot stand in two places.

The type of a value is found by following operands. A missing operand, or operands that refer
to one another in a circle, leave a value without a type: whatever asks for it panics.
-/
namespace Elementwise.IR

structure FuncId where
  index : Nat
  deriving DecidableEq, Repr

structure BlockId where
  func : FuncId
  index : Nat
  deriving DecidableEq, Repr

structure ParamId where
  func : FuncId
  index : Nat
  deriving DecidableEq, Repr

structure InstrId where
  block : BlockId
  index : Nat
  deriving DecidableEq, Repr

inductive Value where
  | missing
  | constant (c : Constant)
  | param (id : ParamId)
  | result (id : InstrId)
  deriving DecidableEq, Repr

inductive Instr where
  /-- `left op right` in a domain; the result has the type of `left`. -/
  | binary (op : BinaryOp) (domain : Domain) (left right : Value)
  | compare (pred : Predicate) (domain : Domain) (left right : Value)
  | negate (domain : Domain) (operand : Value)
  /-- Changes the representation of a number to `type`. -/
  | convert (value : Value) (source : Domain) (type : Ty) (target : Domain)
  | load (pointer : Value)
  | store (value pointer : Value)
  /-- The address `index` elements past `base`. -/
  | elementPtr (base index : Value)
  /-- A function-local variable; its value is its address. -/
  | localVar (name : Text) (elem : Ty)
  | call (callee : Option FuncId) (args : List Value)
  | branch (target : Option BlockId)
  /-- A two-way branch; `merge` may name the block where both ways meet again. -/
  | condBranch (cond : Value) (onTrue onFalse merge : Option BlockId)
  | ret (value : Value)
  deriving DecidableEq, Repr

/-- The merge and continue blocks of a loop header. -/
structure Loop where
  merge : Option BlockId
  continue_ : Option BlockId
  deriving DecidableEq, Repr

structure Block where
  name : Text
  loop : Option Loop
  instrs : List (Option Instr)
  deriving DecidableEq, Repr

structure Param where
  name : Text
  type : Ty
  deriving DecidableEq, Repr

structure Func where
  name : Text
  params : List (Option Param)
  result : Ty
  /-- The blocks, by index of their identity. -/
  blocks : List Block
  /-- The blocks in the order of emission; the first is the entry block. -/
  order : List (Option Nat)
  deriving DecidableEq, Repr

structure Program where
  name : Text
  /-- The functions, by index of their identity. -/
  funcs : List Func
  /-- The functions as listed; the first is the kernel. -/
  order : List (Option Nat)
  deriving DecidableEq, Repr

/-- How a computation ends without a result: it follows a reference to nothing, or references that
lead around in a circle. -/
inductive Panic where
  | absent
  | cyclic
  deriving DecidableEq, Repr

def Panic.message : Panic → String
  | .absent => "runtime error: invalid memory address or nil pointer dereference"
  | .cyclic => "runtime error: stack overflow"

namespace Instr

def isTerminator : Instr → Bool
  | .branch _ | .condBranch .. | .ret _ => true
  | _ => false

def isValue : Instr → Bool
  | .store .. | .branch _ | .condBranch .. | .ret _ => false
  | _ => true

/-- The values an instruction reads, in order. -/
def operands : Instr → List Value
  | .binary _ _ l r => [l, r]
  | .compare _ _ l r => [l, r]
  | .negate _ v => [v]
  | .convert v _ _ _ => [v]
  | .load p => [p]
  | .store v p => [v, p]
  | .elementPtr b i => [b, i]
  | .localVar _ _ => []
  | .call _ args => args
  | .branch _ => []
  | .condBranch c _ _ _ => [c]
  | .ret .missing => []
  | .ret v => [v]

/-- The kind of an instruction. -/
def kind : Instr → String
  | .binary .. => "Binary"
  | .compare .. => "Compare"
  | .negate .. => "Negate"
  | .convert .. => "Convert"
  | .load _ => "Load"
  | .store .. => "Store"
  | .elementPtr .. => "ElementPtr"
  | .localVar .. => "Local"
  | .call .. => "Call"
  | .branch _ => "Branch"
  | .condBranch .. => "CondBranch"
  | .ret _ => "Return"

def hasMissingOperand (i : Instr) : Bool := i.operands.contains .missing

end Instr

namespace Block

/-- The last instruction, if it is a terminator. -/
def terminator? (b : Block) : Option Instr :=
  match b.instrs.getLast? with
  | some (some i) => if i.isTerminator then some i else none
  | _ => none

/-- The blocks that a block can branch to. -/
def successors (b : Block) : List (Option BlockId) :=
  match b.terminator? with
  | some (.branch t) => [t]
  | some (.condBranch _ t f _) => [t, f]
  | _ => []

end Block

namespace Func

def resultType (f : Func) : Ty := f.result.orVoid

/-- The listed blocks with their identities, given the function's own. -/
def listed (f : Func) (id : FuncId) : List (Option (BlockId × Block)) :=
  f.order.map fun slot => slot.bind fun k => (f.blocks[k]?).map fun b => (⟨id, k⟩, b)

/-- The listed parameters with their identities. -/
def paramIds (f : Func) (id : FuncId) : List (Option (ParamId × Param)) :=
  f.params.mapIdx fun k p => p.map fun q => (⟨id, k⟩, q)

end Func

/-- The instructions of a block with their identities. -/
def Block.instrIds (b : Block) (id : BlockId) : List (InstrId × Option Instr) :=
  b.instrs.mapIdx fun k i => (⟨id, k⟩, i)

namespace Program

variable (p : Program)

def func? (id : FuncId) : Option Func := p.funcs[id.index]?

def block? (id : BlockId) : Option Block :=
  (p.func? id.func).bind fun f => f.blocks[id.index]?

def param? (id : ParamId) : Option Param :=
  (p.func? id.func).bind fun f => (f.params[id.index]?).join

def instr? (id : InstrId) : Option Instr :=
  (p.block? id.block).bind fun b => (b.instrs[id.index]?).join

/-- The listed functions with their identities. -/
def listed : List (Option (FuncId × Func)) :=
  p.order.map fun slot => slot.bind fun k => (p.funcs[k]?).map fun f => (⟨k⟩, f)

/-- The kernel, where the first listed entry is a function. -/
def kernel? : Option (FuncId × Func) :=
  match p.listed with
  | some entry :: _ => some entry
  | _ => none

def instrCount : Nat :=
  (p.funcs.flatMap fun f => f.blocks.flatMap (·.instrs)).length

/-- The type of a value, following at most `steps` operands. -/
def typeWithin (p : Program) (steps : Nat) (v : Value) : Except Panic Ty :=
  match v with
  | .missing => .error .absent
  | .constant c => .ok c.type
  | .param id =>
    match p.param? id with
    | some q => .ok q.type
    | none => .error .absent
  | .result id =>
    match steps with
    | 0 => .error .cyclic
    | steps + 1 =>
      match p.instr? id with
      | some (.binary _ _ l _) => p.typeWithin steps l
      | some (.compare ..) => .ok .bool
      | some (.negate _ x) => p.typeWithin steps x
      | some (.convert _ _ type _) => .ok type
      | some (.load ptr) => do
        match ← p.typeWithin steps ptr with
        | .pointer elem _ => return elem
        | _ => return .void
      | some (.elementPtr base _) => p.typeWithin steps base
      | some (.localVar _ elem) => .ok (.pointer elem .function)
      | some (.call (some f) _) =>
        match p.func? f with
        | some g => .ok g.resultType
        | none => .error .absent
      | _ => .error .absent

/-- The type of a value. A chain of operands longer than the program has no end. -/
def typeOf (v : Value) : Except Panic Ty := p.typeWithin (p.instrCount + 1) v

end Program

end Elementwise.IR
