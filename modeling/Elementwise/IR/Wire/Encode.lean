import Elementwise.IR.Listing
import Elementwise.IR.Wire

/-!
# From programs to the wire form

A program without a listing, or with an unspecified type where the wire form needs one, cannot be
written.
-/
namespace Elementwise.IR

def withoutPercent (t : Text) : Text :=
  match t.bytes with
  | 0x25 :: rest => ⟨rest⟩
  | _ => t

/-- The text of a type that has to be there. -/
def Ty.wireText : Ty → Except Panic Text
  | .missing => .error .absent
  | t => .ok t.text

/-- The operation of an instruction, without its result. -/
def Instr.encode (p : Program) (n : Naming) : Instr → Except Panic Wire.Instr
  | .binary op d l r =>
    .ok { op := op.text, domain := d.text, args := [n.operand l, n.operand r] }
  | .compare pred d l r =>
    .ok { op := "cmp", pred := pred.text, domain := d.text, args := [n.operand l, n.operand r] }
  | .negate d x => .ok { op := "neg", domain := d.text, args := [n.operand x] }
  | .convert x source target targetDomain => do
    let type ← target.wireText
    return { op := "convert", domain := source.text, type := type, toDomain := targetDomain.text,
             args := [n.operand x] }
  | .load ptr => .ok { op := "load", args := [n.operand ptr] }
  | .store x ptr => .ok { op := "store", args := [n.operand x, n.operand ptr] }
  | .elementPtr base index =>
    .ok { op := "elementptr", args := [n.operand base, n.operand index] }
  | .localVar _ elem => do
    let type ← elem.wireText
    return { op := "local", type := type }
  | .call callee args => do
    let name ← calleeName p callee
    return { op := "call", callee := name, args := args.map n.operand }
  | .branch target => .ok { op := "br", targets := [n.block target] }
  | .condBranch cond t f merge =>
    .ok { op := "condbr", args := [n.operand cond],
          targets := [n.block t, n.block f] ++ if merge.isSome then [n.block merge] else [] }
  | .ret .missing => .ok { op := "ret" }
  | .ret x => .ok { op := "ret", args := [n.operand x] }

def encodeInstr (p : Program) (n : Naming) (entry : InstrId × Option Instr) :
    Except Panic Wire.Instr :=
  match entry.2 with
  | none => .ok {}
  | some i => do
    let named ← p.hasResult entry.1 i
    let w ← i.encode p n
    return { w with result := if named then withoutPercent (n.value (.result entry.1)) else "" }

def encodeBlock (p : Program) (n : Naming) (slot : Option (BlockId × Block)) :
    Except Panic Wire.Block :=
  match slot with
  | none => .error .absent
  | some (id, b) => do
    let instrs ← (b.instrIds id).mapM (encodeInstr p n)
    return { name := n.block (some id)
             loop := b.loop.map fun l => ⟨n.block l.merge, n.block l.continue_⟩
             instrs := instrs }

def encodeParam (n : Naming) (slot : Option (ParamId × Param)) : Except Panic Wire.Param :=
  match slot with
  | none => .error .absent
  | some (id, q) => do
    let type ← q.type.wireText
    return ⟨withoutPercent (n.value (.param id)), type⟩

def encodeFunc (p : Program) (slot : Option (FuncId × Func)) : Except Panic Wire.Func :=
  match slot with
  | none => .error .absent
  | some (id, f) => do
    let n ← Naming.ofFunc f id
    let params ← (f.paramIds id).mapM (encodeParam n)
    let blocks ← (f.listed id).mapM (encodeBlock p n)
    return { name := f.name, params := params
             result := if f.resultType = .void then "" else f.result.text
             blocks := blocks }

def Program.encode (p : Program) : Except Panic Wire.Module := do
  let functions ← p.listed.mapM (encodeFunc p)
  return { name := p.name, functions := functions }

end Elementwise.IR
