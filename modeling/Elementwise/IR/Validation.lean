import Elementwise.IR.Program

/-!
# Validation

Lists every violation with its location: the kernel's signature first, then the functions in
listing order. An operand must be a constant, a parameter of the function, or a result of the
function that stands earlier in listing order.
-/
namespace Elementwise.IR
open Text.Numeral

inductive Violation where
  | noFunctions
  | kernelAbsent
  | kernelArity (count : Nat)
  | kernelNotPointer (type : Ty)
  | kernelSpace (space : Space)
  | kernelResult (type : Ty)
  | functionAbsent
  | noBlocks
  | paramAbsent (index : Nat)
  | paramUntyped (index : Nat)
  | paramVoid (index : Nat)
  | blockAbsent
  | blockEmpty
  | noTerminator
  | targetAbsent (what : String)
  | targetForeign (what : String) (name : Text)
  | instrAbsent
  | earlyTerminator
  | operandAbsent
  | operandForeign (kind : String)
  | operandEarly (kind : String)
  | operandTypesDiffer (left right : Ty)
  | operandDomain (domain : Domain) (type : Ty)
  | negateDomain (domain : Domain) (type : Ty)
  | convertSource (type : Ty) (domain : Domain)
  | convertTarget (type : Ty) (domain : Domain)
  | loadNotPointer (type : Ty)
  | storeNotPointer (type : Ty)
  | storeMismatch (value pointer : Ty)
  | elementNotPointer (type : Ty)
  | elementIndex (type : Ty)
  | localUntyped
  | calleeAbsent
  | calleeForeign (name : Text)
  | callArity (name : Text) (got want : Nat)
  | callArgument (index : Nat) (name : Text) (got want : Ty)
  | conditionNotBool (type : Ty)
  | returnMissing (want : Ty)
  | returnMismatch (got want : Ty)
  deriving DecidableEq, Repr

/-- A type by itself, where it may be unspecified. -/
def Ty.shown : Ty → String
  | .missing => "<nil>"
  | t => t.text

namespace Violation

def message : Violation → String
  | .noFunctions => "module has no functions"
  | .kernelAbsent => "kernel function is nil"
  | .kernelArity n => "kernel function must take exactly one parameter, has " ++ decimal n
  | .kernelNotPointer t => "kernel parameter must be a pointer, got " ++ t.text
  | .kernelSpace s =>
    "kernel parameter must point into the " ++ Space.buffer.text ++ " space, got " ++ s.text
  | .kernelResult t => "kernel function must return void, returns " ++ t.text
  | .functionAbsent => "nil function in module"
  | .noBlocks => "function has no blocks"
  | .paramAbsent i => "parameter " ++ decimal i ++ " is nil"
  | .paramUntyped i => "parameter " ++ decimal i ++ " has no type"
  | .paramVoid i => "parameter " ++ decimal i ++ " has void type"
  | .blockAbsent => "nil block in function"
  | .blockEmpty => "block is empty"
  | .noTerminator => "block does not end in a terminator"
  | .targetAbsent what => what ++ " target is nil"
  | .targetForeign what name => what ++ " target " ++ name.quoted ++ " belongs to another function"
  | .instrAbsent => "nil instruction"
  | .earlyTerminator => "terminator in the middle of a block"
  | .operandAbsent => "nil operand"
  | .operandForeign kind => "operand *ir." ++ kind ++ " is not defined in this function"
  | .operandEarly kind => "operand *ir." ++ kind ++ " is used before its definition"
  | .operandTypesDiffer l r => "operand types differ: " ++ l.text ++ " and " ++ r.text
  | .operandDomain d t => d.text ++ " operation on " ++ t.text ++ " operands"
  | .negateDomain d t => d.text ++ " negate on " ++ t.text ++ " operand"
  | .convertSource t d =>
    "conversion source " ++ t.text ++ " is not in the " ++ d.text ++ " domain"
  | .convertTarget t d =>
    "conversion target " ++ t.shown ++ " is not in the " ++ d.text ++ " domain"
  | .loadNotPointer t => "load through non-pointer " ++ t.text
  | .storeNotPointer t => "store through non-pointer " ++ t.text
  | .storeMismatch v p => "store of " ++ v.text ++ " through " ++ p.text
  | .elementNotPointer t => "element pointer on non-pointer " ++ t.text
  | .elementIndex t => "element index must be an integer, got " ++ t.text
  | .localUntyped => "local has no type"
  | .calleeAbsent => "call has no callee"
  | .calleeForeign name => "callee " ++ name.quoted ++ " is not part of the module"
  | .callArity name got want =>
    "call to " ++ name.shown ++ " passes " ++ decimal got ++ " arguments, want " ++ decimal want
  | .callArgument i name got want =>
    "argument " ++ decimal i ++ " of call to " ++ name.shown ++ " has type " ++ got.text ++
      ", want " ++ want.text
  | .conditionNotBool t => "branch condition must be bool, got " ++ t.text
  | .returnMissing want => "missing return value of type " ++ want.text
  | .returnMismatch got want =>
    "return of " ++ got.text ++ " from function returning " ++ want.text

end Violation

/-- A message with the place it speaks of; a place without a function is not shown. -/
def located (function block : Text) (instruction : Int) (message : String) : String :=
  let place := "in function " ++ function.shown
  if function.isEmpty then message
  else if block.isEmpty then place ++ ": " ++ message
  else if instruction < 0 then place ++ ", block " ++ block.shown ++ ": " ++ message
  else
    place ++ ", block " ++ block.shown ++ ", instruction " ++ signedDecimal instruction ++ ": " ++
      message

/-- A violation and where it was found; the instruction is -1 outside of instructions. -/
structure Finding where
  violation : Violation
  function : Text
  block : Text
  instruction : Int
  deriving DecidableEq, Repr

def Finding.text (f : Finding) : String :=
  located f.function f.block f.instruction f.violation.message

/-- What the checks of a function's instructions refer to. -/
structure Surroundings where
  program : Program
  func : Func
  /-- The blocks that the function lists. -/
  blocks : List BlockId
  /-- The parameters and results of the function. -/
  owned : List Value

namespace Surroundings

variable (s : Surroundings)

def checkTarget (what : String) (target : Option BlockId) : List Violation :=
  match target with
  | none => [.targetAbsent what]
  | some id =>
    if s.blocks.contains id then []
    else [.targetForeign what (((s.program.block? id).map Block.name).getD "")]

/-- The kind of thing that a value is the result of. -/
def kindOf : Value → String
  | .result id => ((s.program.instr? id).map Instr.kind).getD ""
  | _ => "Argument"

def checkOperand (defined : List Value) (v : Value) : List Violation :=
  match v with
  | .missing => [.operandAbsent]
  | .constant _ => []
  | _ =>
    if !s.owned.contains v then [.operandForeign (s.kindOf v)]
    else if !defined.contains v then [.operandEarly (s.kindOf v)]
    else []

def checkNumeric (domain : Domain) (left right : Ty) : List Violation :=
  if left ≠ right then [.operandTypesDiffer left right]
  else if !domain.accepts left then [.operandDomain domain left]
  else []

/-- The arguments of a call against the callee's parameters, from position `index` on. -/
def checkArguments (s : Surroundings) (name : Text) (index : Nat) :
    List Value → List (Option Param) → Except Panic (List Violation)
  | arg :: args, some param :: params => do
    let got ← s.program.typeOf arg
    let rest ← s.checkArguments name (index + 1) args params
    return (if got ≠ param.type then [.callArgument index name got param.type] else []) ++ rest
  | _ :: _, none :: _ => .error .absent
  | _, _ => .ok []

def checkCall (callee : Option FuncId) (args : List Value) :
    Except Panic (List Violation) :=
  match callee with
  | none => .ok [.calleeAbsent]
  | some id =>
    match s.program.func? id with
    | none => .error .absent
    | some f =>
      if !s.program.order.contains (some id.index) then .ok [.calleeForeign f.name]
      else if args.length ≠ f.params.length then
        .ok [.callArity f.name args.length f.params.length]
      else s.checkArguments f.name 0 args f.params

def checkReturn (value : Value) : Except Panic (List Violation) :=
  let want := s.func.resultType
  match value with
  | .missing => .ok (if want ≠ .void then [.returnMissing want] else [])
  | v => do
    let got ← s.program.typeOf v
    return if got ≠ want then [.returnMismatch got want] else []

/-- The typing rule of an instruction all of whose operands are there. -/
def checkTypes : Instr → Except Panic (List Violation)
  | .binary _ d l r | .compare _ d l r => do
    let left ← s.program.typeOf l
    let right ← s.program.typeOf r
    return checkNumeric d left right
  | .negate d x => do
    let t ← s.program.typeOf x
    return if d.accepts t then [] else [.negateDomain d t]
  | .convert x source type target => do
    let t ← s.program.typeOf x
    return (if source.accepts t then [] else [.convertSource t source]) ++
      (if target.accepts type then [] else [.convertTarget type target])
  | .load ptr => do
    let t ← s.program.typeOf ptr
    return if t.isPointer then [] else [.loadNotPointer t]
  | .store x ptr => do
    match ← s.program.typeOf ptr with
    | .pointer elem space =>
      let t ← s.program.typeOf x
      return if elem ≠ t then [.storeMismatch t (.pointer elem space)] else []
    | t => return [.storeNotPointer t]
  | .elementPtr base index => do
    let b ← s.program.typeOf base
    let i ← s.program.typeOf index
    return (if b.isPointer then [] else [.elementNotPointer b]) ++
      (if i.isInt then [] else [.elementIndex i])
  | .localVar _ elem => .ok (if elem = .missing then [.localUntyped] else [])
  | .call callee args => s.checkCall callee args
  | .branch target => .ok (s.checkTarget "branch" target)
  | .condBranch cond t f merge => do
    let c ← s.program.typeOf cond
    return (if c = .bool then [] else [.conditionNotBool c]) ++ s.checkTarget "true" t ++
      s.checkTarget "false" f ++ (if merge.isSome then s.checkTarget "merge" merge else [])
  | .ret value => s.checkReturn value

/-- All rules of one instruction; `last` says whether it ends its block. -/
def checkInstr (defined : List Value) (last : Bool) (i : Instr) :
    Except Panic (List Violation) := do
  let types ← if i.hasMissingOperand then .ok [] else s.checkTypes i
  return (if i.isTerminator && !last then [.earlyTerminator] else []) ++
    i.operands.flatMap (s.checkOperand defined) ++ types

/-- The instructions of a block in order, with the values defined before them. -/
def checkInstrs (s : Surroundings) (block : Text) (defined : List Value) :
    List (InstrId × Option Instr) → Except Panic (List Finding × List Value)
  | [] => .ok ([], defined)
  | (id, none) :: rest => do
    let (findings, defined') ← s.checkInstrs block defined rest
    return (⟨.instrAbsent, s.func.name, block, id.index⟩ :: findings, defined')
  | (id, some i) :: rest => do
    let violations ← s.checkInstr defined rest.isEmpty i
    let after := if i.isValue then .result id :: defined else defined
    let (findings, defined') ← s.checkInstrs block after rest
    return (violations.map (⟨·, s.func.name, block, id.index⟩) ++ findings, defined')

def checkBlock (defined : List Value) (index : Nat) (id : BlockId)
    (b : Block) : Except Panic (List Finding × List Value) :=
  let name : Text := if b.name.isEmpty then "#" ++ decimal index else b.name
  let here (v : Violation) : Finding := ⟨v, s.func.name, name, -1⟩
  if b.instrs.isEmpty then .ok ([here .blockEmpty], defined)
  else do
    let ending := if b.terminator?.isNone then [.noTerminator] else []
    let loop :=
      match b.loop with
      | some l => s.checkTarget "loop merge" l.merge ++ s.checkTarget "loop continue" l.continue_
      | none => []
    let (findings, defined') ← s.checkInstrs name defined (b.instrIds id)
    return ((ending ++ loop).map here ++ findings, defined')

def checkBlocks (s : Surroundings) (defined : List Value) (index : Nat) :
    List (BlockId × Block) → Except Panic (List Finding)
  | [] => .ok []
  | (id, b) :: rest => do
    let (findings, defined') ← s.checkBlock defined index id b
    let more ← s.checkBlocks defined' (index + 1) rest
    return findings ++ more

end Surroundings

def checkParam (index : Nat) : Option Param → List Violation
  | none => [.paramAbsent index]
  | some p =>
    (if p.type = .missing then [.paramUntyped index] else []) ++
      (if p.type = .void then [.paramVoid index] else [])

/-- The results of a block's instructions. -/
def Block.results (b : Block) (id : BlockId) : List Value :=
  (b.instrIds id).filterMap fun entry =>
    if entry.2.any Instr.isValue then some (.result entry.1) else none

def checkFunc (p : Program) (slot : Option (FuncId × Func)) : Except Panic (List Finding) :=
  match slot with
  | none => .ok [⟨.functionAbsent, "", "", -1⟩]
  | some (id, f) =>
    let here (v : Violation) : Finding := ⟨v, f.name, "", -1⟩
    if f.order.isEmpty then .ok [here .noBlocks]
    else
      let params := (f.params.zipIdx.flatMap fun (q, i) => checkParam i q).map here
      let listed := f.listed id
      if listed.any Option.isNone then .ok (params ++ [here .blockAbsent])
      else
        let blocks := listed.filterMap (·)
        let paramValues := (f.paramIds id).filterMap fun entry => entry.map (.param ·.1)
        let owned := paramValues ++ blocks.flatMap fun (bid, b) => b.results bid
        let s : Surroundings := ⟨p, f, blocks.map (·.1), owned⟩
        (s.checkBlocks paramValues 0 blocks).map (params ++ ·)

/-- The kernel takes one pointer into the data buffer and returns nothing. -/
def checkKernel (slot : Option (FuncId × Func)) : Except Panic (List Finding) :=
  match slot with
  | none => .ok [⟨.kernelAbsent, "", "", -1⟩]
  | some (_, f) =>
    let here (v : Violation) : Finding := ⟨v, f.name, "", -1⟩
    match f.params with
    | [none] => .error .absent
    | [some q] =>
      let param :=
        match q.type with
        | .pointer _ space => if space = .buffer then [] else [.kernelSpace space]
        | t => [.kernelNotPointer t]
      let result := if f.resultType = .void then [] else [.kernelResult f.result]
      .ok ((param ++ result).map here)
    | params => .ok [here (.kernelArity params.length)]

/-- All findings of a program; none for a valid one. -/
def Program.validate (p : Program) : Except Panic (List Finding) :=
  match p.listed with
  | [] => .ok [⟨.noFunctions, "", "", -1⟩]
  | kernel :: rest => do
    let signature ← checkKernel kernel
    let findings ← (kernel :: rest).mapM (checkFunc p)
    return signature ++ findings.flatten

end Elementwise.IR
