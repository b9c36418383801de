import Elementwise.IR.Program

/-!
# Building programs

Nothing is checked here; a finished program is judged by validation.
-/
namespace Elementwise.IR

namespace Func

/-- A function of the given signature with one empty block named `entry`. -/
def start (name : Text) (result : Ty) (params : List Ty) : Func where
  name := name
  params := params.map fun t => some ⟨"", t⟩
  result := result
  blocks := [⟨"entry", none, []⟩]
  order := [some 0]

def addBlock (f : Func) (name : Text) : Func :=
  { f with
    blocks := f.blocks ++ [⟨name, none, []⟩]
    order := f.order ++ [some f.blocks.length] }

end Func

namespace Program

def empty (name : Text) : Program := ⟨name, [], []⟩

/-- Appends a function and lists it. -/
def addFunc (p : Program) (f : Func) : Program × FuncId :=
  ({ p with funcs := p.funcs ++ [f], order := p.order ++ [some p.funcs.length] },
    ⟨p.funcs.length⟩)

def modifyFunc (p : Program) (id : FuncId) (f : Func → Func) : Program :=
  { p with funcs := p.funcs.modify id.index f }

def modifyBlock (p : Program) (id : BlockId) (f : Block → Block) : Program :=
  p.modifyFunc id.func fun g => { g with blocks := g.blocks.modify id.index f }

def addBlock (p : Program) (id : FuncId) (name : Text) : Program :=
  p.modifyFunc id (·.addBlock name)

def markLoop (p : Program) (id : BlockId) (merge continue_ : Option BlockId) : Program :=
  p.modifyBlock id fun b => { b with loop := some ⟨merge, continue_⟩ }

def append (p : Program) (id : BlockId) (i : Instr) : Program :=
  p.modifyBlock id fun b => { b with instrs := b.instrs ++ [some i] }

/-- The identity that the next instruction of a block will have. -/
def nextInstr (p : Program) (id : BlockId) : InstrId :=
  ⟨id, ((p.block? id).map (·.instrs.length)).getD 0⟩

end Program

end Elementwise.IR
