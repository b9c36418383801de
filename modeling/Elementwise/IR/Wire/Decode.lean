import Elementwise.IR.Program
import Elementwise.IR.Wire

/-!
# From the wire form to programs

Signatures are read first, so that calls can name any function; then each body is read in
order, so that an operand can name only what stands before it.
-/
namespace Elementwise.IR
open Text.Numeral

namespace Wire

inductive InstrError where
  | operandCount (op : Text) (want got : Nat)
  | undefinedValue (text : Text)
  | badConstant (cause : ConstantError)
  | unknownDomain (name : Text)
  | unknownPredicate (name : Text)
  | badType (cause : TypeError)
  | unknownCallee (name : Text)
  | branchTargets (got : Nat)
  | condBranchTargets (got : Nat)
  | unknownBlock (name : Text)
  | unknownOp (name : Text)
  deriving DecidableEq, Repr

def unknownBlockMessage (name : Text) : String := "unknown block " ++ name.quoted

def InstrError.message : InstrError → String
  | .operandCount op want got =>
    op.shown ++ " takes " ++ decimal want ++ " operands, got " ++ decimal got
  | .undefinedValue s => "undefined value " ++ s.shown
  | .badConstant e => e.message
  | .unknownDomain s => Domain.unknownMessage s
  | .unknownPredicate s => "unknown predicate " ++ s.quoted
  | .badType e => e.message
  | .unknownCallee s => "unknown callee " ++ s.quoted
  | .branchTargets got => "br takes one target, got " ++ decimal got
  | .condBranchTargets got => "condbr takes two or three targets, got " ++ decimal got
  | .unknownBlock s => unknownBlockMessage s
  | .unknownOp s => "unknown op " ++ s.quoted

inductive BodyError where
  | duplicateBlock (name : Text)
  | unknownBlock (name : Text)
  | badInstr (block : Text) (index : Nat) (cause : InstrError)
  | noValue (block : Text) (index : Nat) (op : Text)
  | duplicateValue (block name : Text)
  deriving DecidableEq, Repr

def BodyError.message : BodyError → String
  | .duplicateBlock s => "duplicate block " ++ s.quoted
  | .unknownBlock s => unknownBlockMessage s
  | .badInstr block index e =>
    "block " ++ block.shown ++ ", instruction " ++ decimal index ++ ": " ++ e.message
  | .noValue block index op =>
    "block " ++ block.shown ++ ", instruction " ++ decimal index ++ ": " ++ op.shown ++ " produces no value"
  | .duplicateValue block name => "block " ++ block.shown ++ ": duplicate value %" ++ name.shown

inductive DecodeError where
  | duplicateFunction (name : Text)
  | badResult (func : Text) (cause : TypeError)
  | badParam (func param : Text) (cause : TypeError)
  | badBody (func : Text) (cause : BodyError)
  deriving DecidableEq, Repr

def DecodeError.message : DecodeError → String
  | .duplicateFunction s => "duplicate function " ++ s.quoted
  | .badResult f e => "function " ++ f.shown ++ ": result: " ++ e.message
  | .badParam f p e => "function " ++ f.shown ++ ": parameter " ++ p.shown ++ ": " ++ e.message
  | .badBody f e => "function " ++ f.shown ++ ": " ++ e.message

/-- What names stand for while a body is read. -/
structure Scope where
  func : FuncId
  /-- The names of all functions of the program, in order. -/
  funcs : List Text
  /-- The names of the blocks of this function, in order. -/
  blocks : List Text
  /-- The values named so far, the latest first. -/
  values : List (Text × Value)
  deriving Repr

namespace Scope

def block (s : Scope) (name : Text) : Option BlockId :=
  (s.blocks.findIdx? (· == name)).map fun k => ⟨s.func, k⟩

/-- A value by its name after a percent sign, or a constant. -/
def value (s : Scope) (text : Text) : Except InstrError Value :=
  match text.bytes with
  | 0x25 :: name =>
    match List.lookup ⟨name⟩ s.values with
    | some v => .ok v
    | none => .error (.undefinedValue text)
  | _ =>
    match Constant.parse text with
    | .ok c => .ok (.constant c)
    | .error e => .error (.badConstant e)

def target (s : Scope) (name : Text) : Except InstrError BlockId :=
  match s.block name with
  | some b => .ok b
  | none => .error (.unknownBlock name)

/-- One operand. -/
def one (s : Scope) (w : Wire.Instr) : Except InstrError Value :=
  match w.args with
  | [a] => s.value a
  | args => .error (.operandCount w.op 1 args.length)

/-- Two operands. -/
def two (s : Scope) (w : Wire.Instr) : Except InstrError (Value × Value) :=
  match w.args with
  | [a, b] => do
    let x ← s.value a
    let y ← s.value b
    return (x, y)
  | args => .error (.operandCount w.op 2 args.length)

end Scope

def domain (name : Text) : Except InstrError Domain :=
  match Domain.parse? name with
  | some d => .ok d
  | none => .error (.unknownDomain name)

def predicate (name : Text) : Except InstrError Predicate :=
  match Predicate.parse? name with
  | some p => .ok p
  | none => .error (.unknownPredicate name)

def type (text : Text) : Except InstrError Ty :=
  match Ty.parse text with
  | .ok t => .ok t
  | .error e => .error (.badType e)

def decodeCall (s : Scope) (w : Wire.Instr) : Except InstrError IR.Instr :=
  match s.funcs.findIdx? (· == w.callee) with
  | none => .error (.unknownCallee w.callee)
  | some k => do
    let args ← w.args.mapM s.value
    return .call (some ⟨k⟩) args

def decodeBranch (s : Scope) (w : Wire.Instr) : Except InstrError IR.Instr :=
  match w.targets with
  | [name] => do
    let t ← s.target name
    return .branch (some t)
  | targets => .error (.branchTargets targets.length)

def decodeCondBranch (s : Scope) (w : Wire.Instr) : Except InstrError IR.Instr := do
  let cond ← s.one w
  match w.targets with
  | [a, b] =>
    let t ← s.target a
    let f ← s.target b
    return .condBranch cond (some t) (some f) none
  | [a, b, c] =>
    let t ← s.target a
    let f ← s.target b
    let m ← s.target c
    return .condBranch cond (some t) (some f) (some m)
  | targets => .error (.condBranchTargets targets.length)

/-- Reads one instruction in the scope of what stands before it. -/
def decodeInstr (s : Scope) (w : Wire.Instr) : Except InstrError IR.Instr :=
  match BinaryOp.parse? w.op with
  | some op => do
    let (x, y) ← s.two w
    let d ← domain w.domain
    return .binary op d x y
  | none =>
    match w.op.string? with
    | some "cmp" => do
      let (x, y) ← s.two w
      let d ← domain w.domain
      let p ← predicate w.pred
      return .compare p d x y
    | some "neg" => do
      let x ← s.one w
      let d ← domain w.domain
      return .negate d x
    | some "convert" => do
      let x ← s.one w
      let source ← domain w.domain
      let target ← domain w.toDomain
      let t ← type w.type
      return .convert x source t target
    | some "load" => do
      let x ← s.one w
      return .load x
    | some "store" => do
      let (x, y) ← s.two w
      return .store x y
    | some "elementptr" => do
      let (x, y) ← s.two w
      return .elementPtr x y
    | some "local" => do
      let elem ← type w.type
      return .localVar w.result elem
    | some "call" => decodeCall s w
    | some "br" => decodeBranch s w
    | some "condbr" => decodeCondBranch s w
    | some "ret" =>
      if w.args.isEmpty then .ok (.ret .missing)
      else do
        let x ← s.one w
        return .ret x
    | _ => .error (.unknownOp w.op)

/-- Reads the instructions of a block from position `index` on; what they name is in scope for
those that follow. -/
def decodeInstrs (id : BlockId) (block : Text) (s : Scope) (index : Nat) :
    List Wire.Instr → Except BodyError (List (Option IR.Instr) × Scope)
  | [] => .ok ([], s)
  | w :: rest =>
    match decodeInstr s w with
    | .error e => .error (.badInstr block index e)
    | .ok i =>
      if w.result.isEmpty then do
        let (is, s') ← decodeInstrs id block s (index + 1) rest
        return (some i :: is, s')
      else if !i.isValue then .error (.noValue block index w.op)
      else if (List.lookup w.result s.values).isSome then
        .error (.duplicateValue block w.result)
      else do
        let bound := { s with values := (w.result, .result ⟨id, index⟩) :: s.values }
        let (is, s') ← decodeInstrs id block bound (index + 1) rest
        return (some i :: is, s')

def decodeLoop (s : Scope) (l : Wire.Loop) : Except BodyError IR.Loop :=
  match s.block l.merge with
  | none => .error (.unknownBlock l.merge)
  | some m =>
    match s.block l.continue_ with
    | none => .error (.unknownBlock l.continue_)
    | some c => .ok ⟨some m, some c⟩

def decodeBlocks (s : Scope) (index : Nat) :
    List Wire.Block → Except BodyError (List IR.Block)
  | [] => .ok []
  | w :: rest => do
    let loop ←
      match w.loop with
      | none => pure none
      | some l => (decodeLoop s l).map some
    let (instrs, s') ← decodeInstrs ⟨s.func, index⟩ w.name s 0 w.instrs
    let blocks ← decodeBlocks s' (index + 1) rest
    return ⟨w.name, loop, instrs⟩ :: blocks

/-- The first name that occurs again later than in `seen` or earlier in the list. -/
def firstDuplicate? (seen : List Text) : List Text → Option Text
  | [] => none
  | name :: rest => if seen.contains name then some name else firstDuplicate? (name :: seen) rest

def decodeBody (funcs : List Text) (id : FuncId) (params : List IR.Param) (w : Wire.Func) :
    Except BodyError (List IR.Block) :=
  let names := w.blocks.map Wire.Block.name
  match firstDuplicate? [] names with
  | some name => .error (.duplicateBlock name)
  | none =>
    let values := (params.mapIdx fun k p => (p.name, Value.param ⟨id, k⟩)).reverse
    decodeBlocks ⟨id, funcs, names, values⟩ 0 w.blocks

def decodeParams (func : Text) : List Wire.Param → Except DecodeError (List IR.Param)
  | [] => .ok []
  | w :: rest =>
    match Ty.parse w.type with
    | .error e => .error (.badParam func w.name e)
    | .ok t => (decodeParams func rest).map (⟨w.name, t⟩ :: ·)

/-- The signatures of the functions, in order. -/
def decodeSignatures (seen : List Text) :
    List Wire.Func → Except DecodeError (List (List IR.Param × Ty))
  | [] => .ok []
  | w :: rest =>
    if seen.contains w.name then .error (.duplicateFunction w.name)
    else
      match Ty.parse w.result with
      | .error e => .error (.badResult w.name e)
      | .ok result => do
        let params ← decodeParams w.name w.params
        let signatures ← decodeSignatures (w.name :: seen) rest
        return (params, result) :: signatures

def decodeFuncs (funcs : List Text) (index : Nat) :
    List (Wire.Func × List IR.Param × Ty) → Except DecodeError (List IR.Func)
  | [] => .ok []
  | (w, params, result) :: rest =>
    match decodeBody funcs ⟨index⟩ params w with
    | .error e => .error (.badBody w.name e)
    | .ok blocks => do
      let f : IR.Func :=
        ⟨w.name, params.map some, result, blocks, (List.range blocks.length).map some⟩
      let fs ← decodeFuncs funcs (index + 1) rest
      return f :: fs

def Module.decode (w : Wire.Module) : Except DecodeError Program := do
  let signatures ← decodeSignatures [] w.functions
  let funcs ← decodeFuncs (w.functions.map Wire.Func.name) 0 (w.functions.zip signatures)
  return ⟨w.name, funcs, (List.range funcs.length).map some⟩

end Wire

end Elementwise.IR
