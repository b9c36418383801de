import Elementwise.Spirv.Control
import Elementwise.Spirv.Interning

/-!
# Function bodies

Labels of all blocks are allocated first, so that branches can name later blocks; local variables
are declared at the start of the first block, wherever they stand. Blocks where two ways of a
branch would meet, if no listed block is one, are written last and are never reached.
-/
namespace Elementwise.Spirv
open IR Gen

/-- The function whose body is written. -/
structure Frame where
  program : Program
  func : Func
  layout : Layout
  /-- Whether names are written. -/
  debug : Bool

/-- A block of the function, with its identity. -/
structure Place where
  frame : Frame
  id : BlockId
  block : Block

def binaryOpcode? (op : BinaryOp) (domain : Domain) : Option Opcode :=
  let pick (signed unsigned float : Opcode) : Option Opcode :=
    if domain = .signed then some signed
    else if domain = .unsigned then some unsigned
    else if domain = .float then some float
    else none
  if op = .add then pick .iAdd .iAdd .fAdd
  else if op = .sub then pick .iSub .iSub .fSub
  else if op = .mul then pick .iMul .iMul .fMul
  else if op = .div then pick .sDiv .uDiv .fDiv
  else if op = .rem then pick .sRem .uMod .fRem
  else none

/-- Comparisons of floats are ordered: they fail on a value that is not a number. -/
def compareOpcode? (pred : Predicate) (domain : Domain) : Option Opcode :=
  let pick (signed unsigned float : Opcode) : Option Opcode :=
    if domain = .signed then some signed
    else if domain = .unsigned then some unsigned
    else if domain = .float then some float
    else none
  if pred = .eq then pick .iEqual .iEqual .fOrdEqual
  else if pred = .ne then pick .iNotEqual .iNotEqual .fOrdNotEqual
  else if pred = .lt then pick .sLessThan .uLessThan .fOrdLessThan
  else if pred = .le then pick .sLessThanEqual .uLessThanEqual .fOrdLessThanEqual
  else if pred = .gt then pick .sGreaterThan .uGreaterThan .fOrdGreaterThan
  else if pred = .ge then pick .sGreaterThanEqual .uGreaterThanEqual .fOrdGreaterThanEqual
  else none

def negateOpcode (domain : Domain) : Opcode := if domain = .float then .fNegate else .sNegate

/-- The conversion between two declared types, by their kinds. Between integers, and from
integers to floats, the source domain decides about the sign; from floats to integers the
target domain does. -/
def convertOpcode? (source target : Ty) (sourceDomain targetDomain : Domain) : Option Opcode :=
  if source.isFloat && target.isFloat then some .fConvert
  else if source.isInt && target.isInt then
    some (if sourceDomain = .signed then .sConvert else .uConvert)
  else if source.isInt && target.isFloat then
    some (if sourceDomain = .signed then .convertSToF else .convertUToF)
  else if source.isFloat && target.isInt then
    some (if targetDomain = .signed then .convertFToS else .convertFToU)
  else none

namespace Place

variable (p : Place)

def fail {α : Type} (cause : Cause) : Gen α :=
  throw (.diagnostic ⟨cause, p.frame.func.name, p.block.name⟩)

/-- Runs a step that knows no location. -/
def run {α : Type} (x : Gen α) : Gen α := located p.frame.func.name p.block.name x

def typeOf (p : Place) (v : Value) : Gen Ty := orPanic (p.frame.program.typeOf v)

/-- The id that a parameter or a result was given. -/
def given (v : Value) : Gen UInt32 := do
  match List.lookup v (← get).body.values with
  | some id => return id
  | none => p.fail .danglingValue

def operand (v : Value) : Gen UInt32 :=
  match v with
  | .missing => p.fail .missingOperand
  | .constant c => p.run (constantId c)
  | v => p.given v

def label (target : Option BlockId) : Gen UInt32 := do
  match target with
  | none => p.fail .missingTarget
  | some t =>
    match List.lookup t (← get).body.labels with
    | some id => return id
    | none => p.fail (.foreignTarget (((p.frame.program.block? t).map (·.name)).getD ""))

/-- The position of the block in the listing. -/
def position (p : Place) : Nat := (p.frame.layout.position? p.id).getD 0

/-- The id of the result of an instruction. -/
def define (id : InstrId) (word : UInt32) : Gen Unit :=
  modifyBody fun b => { b with values := (.result id, word) :: b.values }

/-- All operands have one type, which belongs to the domain. -/
def checkDomain (p : Place) (domain : Domain) : Option Ty → List Value → Gen Unit
  | _, [] => pure ()
  | first, v :: rest => do
    let t ← p.typeOf v
    if !domain.accepts t then p.fail (.operandDomain domain t)
    match first with
    | none => p.checkDomain domain (some t) rest
    | some t₁ =>
      if t ≠ t₁ then p.fail (.operandTypesDiffer t₁ t)
      p.checkDomain domain first rest

def emitBinary (id : InstrId) (op : Opcode) (left right : Value) : Gen Unit := do
  let type ← p.run (typeId (← p.typeOf (.result id)))
  let l ← p.operand left
  let r ← p.operand right
  define id (← build (.binary op type l r))

def emitUnary (id : InstrId) (op : Opcode) (x : Value) : Gen Unit := do
  let type ← p.run (typeId (← p.typeOf (.result id)))
  let x ← p.operand x
  define id (← build (.unary op type x))

def emitConvert (id : InstrId) (x : Value) (sourceDomain : Domain)
    (target : Ty) (targetDomain : Domain) : Gen Unit := do
  if target = .missing then p.fail .incompleteConversion
  let source ← p.typeOf x
  let declaredSource ← normalize source
  let declaredTarget ← normalize target
  match convertOpcode? declaredSource declaredTarget sourceDomain targetDomain with
  | none => p.fail (.conversion source target)
  | some op =>
    if declaredSource = declaredTarget then define id (← p.operand x)
    else p.emitUnary id op x

def emitLoad (id : InstrId) (pointer : Value) : Gen Unit := do
  match ← p.typeOf pointer with
  | .pointer elem _ =>
    let type ← p.run (typeId elem)
    let ptr ← p.operand pointer
    define id (← build (.load type ptr))
  | t => p.fail (.loadNotPointer t)

def emitStore (value pointer : Value) : Gen Unit := do
  match ← p.typeOf pointer with
  | .pointer elem space =>
    let t ← p.typeOf value
    if elem ≠ t then p.fail (.storeMismatch t (.pointer elem space))
    let ptr ← p.operand pointer
    let v ← p.operand value
    build (.store ptr v)
  | t => p.fail (.storeNotPointer t)

def emitElementPtr (id : InstrId) (base index : Value) : Gen Unit := do
  match ← p.typeOf base with
  | .pointer elem space =>
    if space ≠ .buffer then p.fail (.elementSpace (.pointer elem space))
    let t ← p.typeOf index
    if !t.isInt then p.fail (.elementIndex t)
    let type ← p.run (stridedPointerId elem space)
    let b ← p.operand base
    let i ← p.operand index
    define id (← build (.ptrAccessChain type b i []))
  | t => p.fail (.elementNotPointer t)

/-- The arguments of a call, each of the type of its parameter. -/
def arguments (p : Place) (callee : Text) :
    Nat → List Value → List (Option Param) → Gen (List UInt32)
  | index, arg :: args, param :: params => do
    match param with
    | none => throw (.panic .absent)
    | some q =>
      if (← p.typeOf arg) ≠ q.type then p.fail (.callArgument index callee)
      let id ← p.operand arg
      return id :: (← p.arguments callee (index + 1) args params)
  | _, _, _ => return []

def emitCall (id : InstrId) (callee : Option FuncId) (args : List Value) :
    Gen Unit := do
  match callee.bind fun f => (p.frame.program.func? f).map fun g => (f, g) with
  | none => p.fail .noCallee
  | some (f, g) =>
    match List.lookup (some f) (← get).functions with
    | none => p.fail (.foreignCallee g.name)
    | some function =>
      if args.length ≠ g.params.length then
        p.fail (.callArity g.name args.length g.params.length)
      let ids ← p.arguments g.name 0 args g.params
      let type ← p.run (typeId g.resultType)
      define id (← build (.functionCall type function ids))

def emitReturn (value : Value) : Gen Unit := do
  let want := p.frame.func.resultType
  match value with
  | .missing =>
    if want ≠ .void then p.fail (.returnMissing want)
    build .ret
  | v =>
    let t ← p.typeOf v
    if t ≠ want then p.fail (.returnMismatch t want)
    let id ← p.operand v
    build (.returnValue id)

/-- The name under which a label is shown. -/
def labelName (labels : List (BlockId × UInt32)) (label : UInt32) : Text :=
  let names := p.frame.layout.blocks.filterMap fun (id, b) =>
    if List.lookup id labels = some label && !b.name.isEmpty then some b.name else none
  names.head?.getD (idText label)

/-- A block can be the merge of one construct only. -/
def claimMerge (label : UInt32) : Gen Unit := do
  let body := (← get).body
  if body.merges.contains label then p.fail (.sharedMerge (p.labelName body.labels label))
  modifyBody fun b => { b with merges := label :: b.merges }

/-- Writes the merge of a loop, if the block is a loop header. -/
def emitLoopHeader : Gen Unit := do
  match p.block.loop with
  | none => pure ()
  | some loop =>
    let merge ← p.label loop.merge
    let continue_ ← p.label loop.continue_
    p.claimMerge merge
    build (.loopMerge merge continue_ noControl)

/-- The label where the ways of a conditional branch meet: the block that was named for it, else
the earliest later block that both ways reach, else a new block that is never reached. -/
def selectionMerge (onTrue onFalse : BlockId) (merge : Option BlockId) :
    Gen UInt32 := do
  match merge with
  | some _ => p.label merge
  | none =>
    match p.frame.layout.meeting? p.position onTrue onFalse with
    | some b => p.label (some b)
    | none =>
      let label ← build .allocId
      modifyBody fun b => { b with unreachable := b.unreachable ++ [label] }
      return label

def emitBranch (target : Option BlockId) : Gen Unit := do
  let t ← p.label target
  p.emitLoopHeader
  build (.branch t)

def emitCondBranch (cond : Value) (onTrue onFalse merge : Option BlockId) :
    Gen Unit := do
  if (← p.typeOf cond) ≠ .bool then p.fail .conditionNotBool
  let c ← p.operand cond
  let t ← p.label onTrue
  let f ← p.label onFalse
  match p.block.loop, onTrue, onFalse with
  | none, some bt, some bf =>
    if !p.frame.layout.leavesLoop p.position bt bf then
      let m ← p.selectionMerge bt bf merge
      p.claimMerge m
      build (.selectionMerge m noControl)
  | _, _, _ => p.emitLoopHeader
  build (.branchConditional c t f)

def emitInstr (id : InstrId) (slot : Option Instr) : Gen Unit := do
  match slot with
  | none => p.fail .absentInstr
  | some i =>
    if i.hasMissingOperand then p.fail .missingOperand
    match i with
    | .localVar _ _ => pure ()
    | .binary op domain l r =>
      p.checkDomain domain none [l, r]
      match binaryOpcode? op domain with
      | none => p.fail (.unknownOperator op)
      | some opcode => p.emitBinary id opcode l r
    | .compare pred domain l r =>
      p.checkDomain domain none [l, r]
      match compareOpcode? pred domain with
      | none => p.fail (.unknownComparison pred)
      | some opcode => p.emitBinary id opcode l r
    | .negate domain x =>
      p.checkDomain domain none [x]
      p.emitUnary id (negateOpcode domain) x
    | .convert x source type target => p.emitConvert id x source type target
    | .load pointer => p.emitLoad id pointer
    | .store value pointer => p.emitStore value pointer
    | .elementPtr base index => p.emitElementPtr id base index
    | .call callee args => p.emitCall id callee args
    | .branch target => p.emitBranch target
    | .condBranch cond t f merge => p.emitCondBranch cond t f merge
    | .ret value => p.emitReturn value

/-- The instructions of a block. Only the last one may be a terminator. -/
def emitInstrs (p : Place) : List (InstrId × Option Instr) → Gen Unit
  | [] => pure ()
  | (id, slot) :: rest => do
    if (slot.any Instr.isTerminator) && !rest.isEmpty then p.fail .earlyTerminator
    p.emitInstr id slot
    p.emitInstrs rest

def emitBlock : Gen Unit := do
  if p.block.terminator?.isNone then p.fail .noTerminator
  p.emitInstrs (p.block.instrIds p.id)

/-- Declares a local variable. -/
def hoist (id : InstrId) (slot : Option Instr) : Gen Unit := do
  match slot with
  | some (.localVar name elem) =>
    let type ← p.run (typeId (.pointer elem .function))
    let word ← build (.localVariable type)
    define id word
    if p.frame.debug && !name.isEmpty then build (.name word name)
  | _ => pure ()

def hoistAll (p : Place) : List (InstrId × Option Instr) → Gen Unit
  | [] => pure ()
  | (id, slot) :: rest => do
    p.hoist id slot
    p.hoistAll rest

end Place

namespace Frame

/-- All instructions of the function, in listing order. -/
def instrs (f : Frame) : List (InstrId × Option Instr) :=
  f.layout.blocks.flatMap fun (id, b) => b.instrIds id

/-- The blocks, the first of them with the local variables. -/
def emitBlocks (f : Frame) : Bool → List (BlockId × Block) → Gen Unit
  | _, [] => pure ()
  | isFirst, (id, b) :: rest => do
    let place : Place := ⟨f, id, b⟩
    let label ← place.label (some id)
    build (.labelWithId label)
    if isFirst then place.hoistAll f.instrs
    place.emitBlock
    f.emitBlocks false rest

/-- Blocks that are never reached. -/
def emitUnreachable : List UInt32 → Gen Unit
  | [] => pure ()
  | label :: rest => do
    build (.labelWithId label)
    build .unreachable
    emitUnreachable rest

def allocLabels : List (BlockId × Block) → Gen Unit
  | [] => pure ()
  | (id, _) :: rest => do
    let label ← build .allocId
    modifyBody fun b => { b with labels := (id, label) :: b.labels }
    allocLabels rest

def emitParams : List (ParamId × UInt32) → Gen Unit
  | [] => pure ()
  | (id, type) :: rest => do
    let word ← build (.functionParameter type)
    modifyBody fun b => { b with values := (.param id, word) :: b.values }
    emitParams rest

/-- Names of the function, its parameters and its blocks. -/
def emitNames (f : Frame) (id : UInt32) (params : List (ParamId × Param)) : Gen Unit := do
  build (.name id f.func.name)
  for (pid, q) in params do
    if !q.name.isEmpty then
      build (.name ((List.lookup (.param pid) (← get).body.values).getD 0) q.name)
  for (bid, b) in f.layout.blocks do
    if !b.name.isEmpty then
      build (.name ((List.lookup bid (← get).body.labels).getD 0) b.name)

end Frame

/-- The entries of a list that all have to be there. -/
def allPresent {α : Type} : List (Option α) → Except IR.Panic (List α)
  | [] => .ok []
  | none :: _ => .error .absent
  | some x :: rest => (allPresent rest).map (x :: ·)

namespace Gen

/-- The ids of the types of parameters. -/
def paramTypeIds : List (ParamId × Param) → Gen (List UInt32)
  | [] => return []
  | (_, q) :: rest => do
    let id ← typeId q.type
    return id :: (← paramTypeIds rest)

/-- Allocates an id for every listed function that has none. -/
def declareFunctions : List (Option FuncId) → Gen Unit
  | [] => pure ()
  | f :: rest => do
    match List.lookup f (← get).functions with
    | some _ => pure ()
    | none =>
      let id ← build .allocId
      modify fun s => { s with functions := (f, id) :: s.functions }
    declareFunctions rest

def functionId (f : FuncId) : Gen UInt32 := do
  declareFunctions [some f]
  return (List.lookup (some f) (← get).functions).getD 0

def emitFunction (program : Program) (debug : Bool) (id : FuncId) (func : Func)
    (word : UInt32) : Gen Unit := do
  modify fun s => { s with body := {} }
  let params ← orPanic (allPresent (func.paramIds id))
  let result ← located func.name "" (typeId func.resultType)
  let types ← located func.name "" (paramTypeIds params)
  let type ← functionTypeId result types
  let blocks ← orPanic (allPresent (func.listed id))
  let frame : Frame := ⟨program, func, ⟨blocks⟩, debug⟩
  Frame.allocLabels blocks
  build (.functionWithId word type result noControl)
  Frame.emitParams ((params.map (·.1)).zip types)
  if debug then frame.emitNames word params
  frame.emitBlocks true blocks
  Frame.emitUnreachable (← get).body.unreachable
  build .functionEnd

/-- Writes a function and returns its id. -/
def lowerFunction (program : Program) (debug : Bool) (id : FuncId) : Gen UInt32 := do
  match program.func? id with
  | none => throw (.panic .absent)
  | some func =>
    let word ← functionId id
    if func.order.isEmpty then throw (.diagnostic ⟨.noBlocks, func.name, ""⟩)
    inFunctions (emitFunction program debug id func word)
    return word

end Gen

end Elementwise.Spirv
