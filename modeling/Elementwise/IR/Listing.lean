import Elementwise.IR.Naming

/-!
# The listing of a program

A program with an absent function, parameter or block, a call of nothing, or a value without a
type has no listing.
-/
namespace Elementwise.IR
open Text.Numeral

def calleeName (p : Program) (callee : Option FuncId) : Except Panic Text :=
  match callee.bind p.func? with
  | some f => .ok f.name
  | none => .error .absent

/-- The operation and operands of an instruction. -/
def Instr.listing (p : Program) (n : Naming) : Instr → Except Panic Text
  | .binary op d l r =>
    .ok (op.text ++ "." ++ d.text ++ " " ++ n.value l ++ ", " ++ n.value r)
  | .compare pred d l r =>
    .ok ("cmp." ++ pred.text ++ "." ++ d.text ++ " " ++ n.value l ++ ", " ++ n.value r)
  | .negate d x => .ok ("neg." ++ d.text ++ " " ++ n.value x)
  | .convert x source type target =>
    .ok ("convert." ++ source.text ++ " " ++ n.value x ++ " to " ++ type.text ++ "." ++ target.text)
  | .load ptr => .ok ("load " ++ n.value ptr)
  | .store x ptr => .ok ("store " ++ n.value x ++ ", " ++ n.value ptr)
  | .elementPtr base index => .ok ("elementptr " ++ n.value base ++ ", " ++ n.value index)
  | .localVar _ elem => .ok ("local " ++ elem.text)
  | .call callee args => do
    let name ← calleeName p callee
    return "call " ++ name ++ "(" ++ Text.joined ", " (args.map n.value) ++ ")"
  | .branch target => .ok ("br " ++ n.block target)
  | .condBranch cond t f merge =>
    .ok ("condbr " ++ n.value cond ++ ", " ++ n.block t ++ ", " ++ n.block f ++
      if merge.isSome then " merge " ++ n.block merge else "")
  | .ret .missing => .ok "ret"
  | .ret x => .ok ("ret " ++ n.value x)

/-- Whether an instruction is a value of a type other than void. -/
def Program.hasResult (p : Program) (id : InstrId) (i : Instr) : Except Panic Bool :=
  if i.isValue then (p.typeOf (.result id)).map (· != .void) else .ok false

def instrLine (p : Program) (n : Naming) (entry : InstrId × Option Instr) :
    Except Panic Text :=
  match entry.2 with
  | none => .ok "  <<nil>>\n"
  | some i => do
    let named ← p.hasResult entry.1 i
    let body ← i.listing p n
    return "  " ++ (if named then n.value (.result entry.1) ++ " = " else "") ++ body ++ "\n"

def blockListing (p : Program) (n : Naming) (slot : Option (BlockId × Block)) :
    Except Panic Text :=
  match slot with
  | none => .error .absent
  | some (id, b) => do
    let header := n.block (some id) ++ ":" ++
      match b.loop with
      | some l => " ; loop merge=" ++ n.block l.merge ++ " continue=" ++ n.block l.continue_
      | none => ""
    let lines ← (b.instrIds id).mapM (instrLine p n)
    return header ++ "\n" ++ Text.concat lines

/-- A parameter with its type. -/
def paramListing (n : Naming) (entry : ParamId × Param) : Text :=
  n.value (.param entry.1) ++ ": " ++ entry.2.type.text

def funcListing (p : Program) (slot : Option (FuncId × Func)) : Except Panic Text :=
  match slot with
  | none => .error .absent
  | some (id, f) => do
    let n ← Naming.ofFunc f id
    let params := (f.paramIds id).filterMap fun entry => entry.map (paramListing n)
    let blocks ← (f.listed id).mapM (blockListing p n)
    return "fn " ++ f.name ++ "(" ++ Text.joined ", " params ++ ") -> " ++ f.resultType.text ++
      " \x7b\n" ++ Text.concat blocks ++ "\x7d\n"

def Program.listing (p : Program) : Except Panic Text := do
  let funcs ← p.listed.mapM (funcListing p)
  return "module " ++ p.name ++ "\n" ++ Text.concat (funcs.map fun text => "\n" ++ text)

end Elementwise.IR
