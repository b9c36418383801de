import Elementwise.IR.Program
import Elementwise.Spirv.Verification

/-!
# Diagnostics of the generator

The program is malformed, something in it is not supported, or the generator broke one of its own
rules.
-/
namespace Elementwise.Spirv
open IR Text.Numeral Text.Quoted

structure Kind where
  code : UInt8
  deriving DecidableEq, Repr

namespace Kind

def structural : Kind := ⟨0⟩
def unsupported : Kind := ⟨1⟩
def internal : Kind := ⟨2⟩

def text (k : Kind) : String :=
  (["Structural", "Unsupported", "Internal"][k.code.toNat]?).getD "Unknown"

end Kind

/-- A message with its kind and location. A block is named only together with its function. -/
def diagnosticText (kind : Kind) (function block : Text) (message : String) : String :=
  let place :=
    if function.isEmpty then ""
    else if block.isEmpty then " in " ++ function.shown
    else " in " ++ function.shown ++ "/" ++ block.shown
  "spirv " ++ kind.text ++ place ++ ": " ++ message

inductive Cause where
  -- writing
  | afterFinalize (op : Opcode)
  | managedSection (op : Opcode) (target : Section)
  | wrongSection (op : Opcode) (target home : Section)
  | tooLong (op : Opcode) (count : Nat)
  | finalizedTwice
  -- types and constants
  | missingType
  | unknownSpace (space : Space)
  | noLayout (type : Ty)
  | constantType (type : Ty)
  | unsupportedInt (width : UInt32)
  | unsupportedFloat (width : UInt32)
  -- the kernel
  | noFunctions
  | noKernel
  | kernelArity (count : Nat)
  | kernelNotPointer (type : Ty)
  | kernelSpace (space : Space)
  | kernelResult (type : Ty)
  | elementLayout (type : Ty)
  | functionAbsent
  | listedTwice
  | alreadyUsed
  -- function bodies
  | noBlocks
  | noTerminator
  | earlyTerminator
  | missingOperand
  | danglingValue
  | missingTarget
  | foreignTarget (name : Text)
  | absentInstr
  | operandDomain (domain : Domain) (type : Ty)
  | operandTypesDiffer (first second : Ty)
  | unknownOperator (op : BinaryOp)
  | unknownComparison (pred : Predicate)
  | incompleteConversion
  | conversion (source target : Ty)
  | loadNotPointer (type : Ty)
  | storeNotPointer (type : Ty)
  | storeMismatch (value pointer : Ty)
  | elementNotPointer (type : Ty)
  | elementSpace (pointer : Ty)
  | elementIndex (type : Ty)
  | noCallee
  | foreignCallee (name : Text)
  | callArity (name : Text) (got want : Nat)
  | callArgument (index : Nat) (name : Text)
  | returnMissing (want : Ty)
  | returnMismatch (got want : Ty)
  | conditionNotBool
  | sharedMerge (name : Text)
  -- the finished binary
  | invalid (violation : Violation)
  deriving DecidableEq, Repr

namespace Cause

def kind : Cause → Kind
  | .afterFinalize _ | .managedSection .. | .wrongSection .. | .tooLong .. | .finalizedTwice
  | .alreadyUsed | .invalid _ => .internal
  | .unsupportedInt _ | .unsupportedFloat _ | .absentInstr => .unsupported
  | _ => .structural

def message : Cause → String
  | .afterFinalize op => op.text ++ " emitted after finalize"
  | .managedSection op target =>
    op.text ++ " written to the " ++ target.text ++ " section, which the builder manages"
  | .wrongSection op target home =>
    op.text ++ " written to the " ++ target.text ++ " section, belongs in " ++ home.text
  | .tooLong op count => op.text ++ " has " ++ decimal count ++ " operand words"
  | .finalizedTwice => "module finalized twice"
  | .missingType => "missing type"
  | .unknownSpace space => "unknown address space " ++ space.text
  | .noLayout t => "type " ++ t.text ++ " has no buffer layout"
  | .constantType t => "constant of type " ++ t.text
  | .unsupportedInt w =>
    "integer width " ++ decimal w.toNat ++ " is not supported; declared as i32"
  | .unsupportedFloat w =>
    "float width " ++ decimal w.toNat ++ " is not supported; declared as f32"
  | .noFunctions => "module has no functions"
  | .noKernel => "module has no kernel function"
  | .kernelArity count => "kernel function takes " ++ decimal count ++ " parameters, want 1"
  | .kernelNotPointer t => "kernel parameter has non-pointer type " ++ t.text
  | .kernelSpace space => "kernel parameter points into " ++ space.text ++ ", want buffer"
  | .kernelResult t => "kernel function returns " ++ t.text ++ ", want void"
  | .elementLayout t => "buffer element type " ++ t.text ++ " has no storage layout"
  | .functionAbsent => "nil function in module"
  | .listedTwice => "function listed twice"
  | .alreadyUsed => "backend already used"
  | .noBlocks => "function has no blocks"
  | .noTerminator => "block does not end in a terminator"
  | .earlyTerminator => "terminator before the end of the block"
  | .missingOperand => "missing operand"
  | .danglingValue => "dangling value reference"
  | .missingTarget => "missing branch target"
  | .foreignTarget name => "branch to block " ++ name.quoted ++ " outside the function"
  | .absentInstr => "instruction <nil>"
  | .operandDomain d t => d.text ++ " operand of type " ++ t.text
  | .operandTypesDiffer first second =>
    "operand types " ++ first.text ++ " and " ++ second.text ++ " differ"
  | .unknownOperator op => "unknown arithmetic operator " ++ op.text
  | .unknownComparison pred => "unknown comparison " ++ pred.text
  | .incompleteConversion => "incomplete conversion"
  | .conversion source target => "cannot convert " ++ source.text ++ " to " ++ target.text
  | .loadNotPointer t => "load through non-pointer " ++ t.text
  | .storeNotPointer t => "store through non-pointer " ++ t.text
  | .storeMismatch v p => "store of " ++ v.text ++ " through " ++ p.text
  | .elementNotPointer t => "element offset from non-pointer " ++ t.text
  | .elementSpace p => "element offset requires a buffer pointer, got " ++ p.text
  | .elementIndex t => "element index of type " ++ t.text
  | .noCallee => "call without callee"
  | .foreignCallee name => "call to " ++ name.quoted ++ ", which is not in the module"
  | .callArity name got want =>
    "call to " ++ name.quoted ++ " with " ++ decimal got ++ " arguments, want " ++ decimal want
  | .callArgument index name =>
    "argument " ++ decimal index ++ " of call to " ++ name.quoted ++ " has the wrong type"
  | .returnMissing want => "return without value from function returning " ++ want.text
  | .returnMismatch got want =>
    "return of " ++ got.text ++ " from function returning " ++ want.text
  | .conditionNotBool => "branch condition is not bool"
  | .sharedMerge name =>
    "block " ++ name.shown ++
      " already merges another construct; give the conditional an explicit merge block"
  | .invalid v => "verify: " ++ v.message

end Cause

structure Diagnostic where
  cause : Cause
  function : Text := ""
  block : Text := ""
  deriving DecidableEq, Repr

namespace Diagnostic

def kind (d : Diagnostic) : Kind := d.cause.kind

def text (d : Diagnostic) : String := diagnosticText d.kind d.function d.block d.cause.message

end Diagnostic

/-- Why there is no kernel: a diagnostic, or a panic over a value that has no type. -/
inductive Failure where
  | diagnostic (d : Diagnostic)
  | panic (p : IR.Panic)
  deriving DecidableEq, Repr

def Failure.text : Failure → String
  | .diagnostic d => d.text
  | .panic p => p.message

def Failure.panics : Failure → Bool
  | .diagnostic _ => false
  | .panic _ => true

end Elementwise.Spirv
