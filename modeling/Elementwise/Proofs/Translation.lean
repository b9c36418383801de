import Elementwise.Proofs.Encoding
import Elementwise.Spirv.Kernel
import Mathlib.Data.List.Forall2
import Mathlib.Tactic.SplitIfs

/-!
# Programs and their translations

Which instructions stand for which parts of a program is a relation, given by the ids that types,
constants, functions, blocks and values have. It has one rule for each kind of instruction; a
block is its label and its instructions, and a function its header, its parameters and its blocks.

The local variables of a function stand at the start of its first block. A conversion between
types that are declared alike stands for its operand and writes nothing. A conditional branch
whose ways meet in no listed block names a new one, and these are written after all others.
-/
namespace Elementwise.Spirv
open IR

/-! ## Declarations -/

/-- The instruction that declares a scalar. Integers are declared without sign. -/
def scalarInstr? (id : UInt32) : Ty → Option Instruction
  | .void => some ⟨.typeVoid, [id]⟩
  | .bool => some ⟨.typeBool, [id]⟩
  | .int w => some ⟨.typeInt, [id, w, 0]⟩
  | .float w => some ⟨.typeFloat, [id, w]⟩
  | .missing | .pointer _ _ => none

/-- An id is declared as a type. -/
inductive Declares (declared : List Instruction) : Ty → UInt32 → Prop
  | scalar {t : Ty} {id : UInt32} {i : Instruction} (hi : scalarInstr? id t = some i)
      (h : i ∈ declared) : Declares declared t id
  | pointer {id pointee storage : UInt32} {elem : Ty} {space : Space}
      (hpointee : Declares declared elem pointee) (hstorage : storageClass space = .ok storage)
      (h : ⟨.typePointer, [id, storage, pointee]⟩ ∈ declared) :
      Declares declared (.pointer elem space) id

/-- The instruction that declares a constant of a scalar type by its bits. -/
def constantInstr? (type id : UInt32) (bits : UInt64) : Ty → Option Instruction
  | .bool => some ⟨if bits != 0 then .constantTrue else .constantFalse, [type, id]⟩
  | .int w | .float w =>
    some ⟨.constant, type :: id :: if w = 64 then Build.doubleWords bits else [bits.toUInt32]⟩
  | _ => none

/-- The bits that are declared for a constant, given its declared type. -/
def constantBits (c : Constant) : Ty → UInt64
  | .int w | .float w => Gen.declaredBits c w
  | _ => if c.bits != 0 then 1 else 0

/-- An id is declared as a constant, of its declared type and with its bits. -/
def DeclaresConstant (declared : List Instruction) (c : Constant) (id : UInt32) : Prop :=
  ∃ type i, Declares declared (normalized c.type) type ∧
    constantInstr? type id (constantBits c (normalized c.type)) (normalized c.type) = some i ∧
    i ∈ declared

/-- What ids stand for within a function. -/
structure Naming where
  /-- The declarations of types and constants. -/
  declared : List Instruction
  functions : List (Option FuncId × UInt32)
  values : List (Value × UInt32)
  labels : List (BlockId × UInt32)

namespace Naming

variable (N : Naming)

def type (t : Ty) (id : UInt32) : Prop := Declares N.declared (normalized t) id

def operand : Value → UInt32 → Prop
  | .missing, _ => False
  | .constant c, id => DeclaresConstant N.declared c id
  | v, id => (v, id) ∈ N.values

def label (target : Option BlockId) (id : UInt32) : Prop :=
  ∃ b, target = some b ∧ (b, id) ∈ N.labels

end Naming

/-! ## Opcodes -/

/-- The opcodes of arithmetic. -/
def arithmeticTable : List (BinaryOp × Domain × Opcode) :=
  [(.add, .signed, .iAdd), (.add, .unsigned, .iAdd), (.add, .float, .fAdd),
   (.sub, .signed, .iSub), (.sub, .unsigned, .iSub), (.sub, .float, .fSub),
   (.mul, .signed, .iMul), (.mul, .unsigned, .iMul), (.mul, .float, .fMul),
   (.div, .signed, .sDiv), (.div, .unsigned, .uDiv), (.div, .float, .fDiv),
   (.rem, .signed, .sRem), (.rem, .unsigned, .uMod), (.rem, .float, .fRem)]

/-- The opcodes of comparisons. -/
def comparisonTable : List (Predicate × Domain × Opcode) :=
  [(.eq, .signed, .iEqual), (.eq, .unsigned, .iEqual), (.eq, .float, .fOrdEqual),
   (.ne, .signed, .iNotEqual), (.ne, .unsigned, .iNotEqual), (.ne, .float, .fOrdNotEqual),
   (.lt, .signed, .sLessThan), (.lt, .unsigned, .uLessThan), (.lt, .float, .fOrdLessThan),
   (.le, .signed, .sLessThanEqual), (.le, .unsigned, .uLessThanEqual),
   (.le, .float, .fOrdLessThanEqual),
   (.gt, .signed, .sGreaterThan), (.gt, .unsigned, .uGreaterThan),
   (.gt, .float, .fOrdGreaterThan),
   (.ge, .signed, .sGreaterThanEqual), (.ge, .unsigned, .uGreaterThanEqual),
   (.ge, .float, .fOrdGreaterThanEqual)]

variable {domain : Domain} {opcode : Opcode}

theorem mem_arithmeticTable {op : BinaryOp} :
    (op, domain, opcode) ∈ arithmeticTable ↔ binaryOpcode? op domain = some opcode := by
  have hrows : ∀ row ∈ arithmeticTable, binaryOpcode? row.1 row.2.1 = some row.2.2 := by decide
  constructor
  · exact hrows (op, domain, opcode)
  · intro h
    simp only [binaryOpcode?] at h
    split_ifs at h <;> subst_vars <;> cases h <;> decide

theorem mem_comparisonTable {pred : Predicate} :
    (pred, domain, opcode) ∈ comparisonTable ↔ compareOpcode? pred domain = some opcode := by
  have hrows : ∀ row ∈ comparisonTable, compareOpcode? row.1 row.2.1 = some row.2.2 := by decide
  constructor
  · exact hrows (pred, domain, opcode)
  · intro h
    simp only [compareOpcode?] at h
    split_ifs at h <;> subst_vars <;> cases h <;> decide

/-- The opcodes of conversions between declared types. Between integers, and from integers to
floats, the source domain decides about the sign; from floats to integers the target domain. -/
inductive Conversion : Ty → Ty → Domain → Domain → Opcode → Prop
  | float (v w : UInt32) (d e : Domain) : Conversion (.float v) (.float w) d e .fConvert
  | signed (v w : UInt32) (e : Domain) : Conversion (.int v) (.int w) .signed e .sConvert
  | unsigned (v w : UInt32) {d : Domain} (e : Domain) (h : d ≠ .signed) :
      Conversion (.int v) (.int w) d e .uConvert
  | signedToFloat (v w : UInt32) (e : Domain) :
      Conversion (.int v) (.float w) .signed e .convertSToF
  | unsignedToFloat (v w : UInt32) {d : Domain} (e : Domain) (h : d ≠ .signed) :
      Conversion (.int v) (.float w) d e .convertUToF
  | floatToSigned (v w : UInt32) (d : Domain) :
      Conversion (.float v) (.int w) d .signed .convertFToS
  | floatToUnsigned (v w : UInt32) (d : Domain) {e : Domain} (h : e ≠ .signed) :
      Conversion (.float v) (.int w) d e .convertFToU

theorem conversion_iff {source target : Ty} {d e : Domain} :
    Conversion source target d e opcode ↔ convertOpcode? source target d e = some opcode := by
  constructor
  · intro h
    cases h <;> simp [convertOpcode?, Ty.isInt, Ty.isFloat, *]
  · intro h
    cases source <;> cases target <;>
      simp only [convertOpcode?, Ty.isInt, Ty.isFloat, Bool.and_true, Bool.and_false,
        Bool.false_eq_true, if_true, if_false, reduceCtorEq, Option.some.injEq] at h
    all_goals
      try split_ifs at h
      all_goals subst_vars; constructor
      all_goals assumption

/-! ## Instructions -/

section Instructions

variable (N : Naming) (p : Place)

/-- The merge of a loop, at a loop header. -/
inductive LoopHeader : List Instruction → Prop
  | none (h : p.block.loop = none) : LoopHeader []
  | loop {loop : Loop} {merge continue_ : UInt32} (h : p.block.loop = some loop)
      (hmerge : N.label loop.merge merge) (hcontinue : N.label loop.continue_ continue_) :
      LoopHeader [⟨.loopMerge, [merge, continue_, noControl]⟩]

/-- The merge of a conditional branch, with the label that is made for it, if any. None is named
where a way leaves or continues a loop around. -/
inductive SelectionHeader (onTrue onFalse : BlockId) :
    Option BlockId → List UInt32 → List Instruction → Prop
  | leaves {merge : Option BlockId}
      (h : p.frame.layout.leavesLoop p.position onTrue onFalse = true) :
      SelectionHeader onTrue onFalse merge [] []
  | named {b : BlockId} {label : UInt32}
      (h : p.frame.layout.leavesLoop p.position onTrue onFalse = false)
      (hlabel : N.label (some b) label) :
      SelectionHeader onTrue onFalse (some b) [] [⟨.selectionMerge, [label, noControl]⟩]
  | meeting {b : BlockId} {label : UInt32}
      (h : p.frame.layout.leavesLoop p.position onTrue onFalse = false)
      (hmeet : p.frame.layout.meeting? p.position onTrue onFalse = some b)
      (hlabel : N.label (some b) label) :
      SelectionHeader onTrue onFalse none [] [⟨.selectionMerge, [label, noControl]⟩]
  | synthesized {label : UInt32}
      (h : p.frame.layout.leavesLoop p.position onTrue onFalse = false)
      (hmeet : p.frame.layout.meeting? p.position onTrue onFalse = none) :
      SelectionHeader onTrue onFalse none [label] [⟨.selectionMerge, [label, noControl]⟩]

/-- An instruction of a block, the labels that are made for it, and what is written for it. -/
inductive Lowers (id : InstrId) : Instr → List UInt32 → List Instruction → Prop
  | localVar {name : Text} {elem : Ty} : Lowers id (.localVar name elem) [] []
  | binary {op : BinaryOp} {domain : Domain} {l r : Value} {t : Ty} {opcode : Opcode}
      {type word a b : UInt32} (hl : p.frame.program.typeOf l = .ok t)
      (hr : p.frame.program.typeOf r = .ok t) (hdomain : domain.accepts t = true)
      (hop : (op, domain, opcode) ∈ arithmeticTable)
      (htype : ∃ u, p.frame.program.typeOf (.result id) = .ok u ∧ N.type u type)
      (ha : N.operand l a) (hb : N.operand r b) (hword : (.result id, word) ∈ N.values) :
      Lowers id (.binary op domain l r) [] [⟨opcode, [type, word, a, b]⟩]
  | compare {pred : Predicate} {domain : Domain} {l r : Value} {t : Ty} {opcode : Opcode}
      {type word a b : UInt32} (hl : p.frame.program.typeOf l = .ok t)
      (hr : p.frame.program.typeOf r = .ok t) (hdomain : domain.accepts t = true)
      (hop : (pred, domain, opcode) ∈ comparisonTable)
      (htype : ∃ u, p.frame.program.typeOf (.result id) = .ok u ∧ N.type u type)
      (ha : N.operand l a) (hb : N.operand r b) (hword : (.result id, word) ∈ N.values) :
      Lowers id (.compare pred domain l r) [] [⟨opcode, [type, word, a, b]⟩]
  | negate {domain : Domain} {x : Value} {t : Ty} {type word a : UInt32}
      (hx : p.frame.program.typeOf x = .ok t) (hdomain : domain.accepts t = true)
      (htype : ∃ u, p.frame.program.typeOf (.result id) = .ok u ∧ N.type u type)
      (ha : N.operand x a) (hword : (.result id, word) ∈ N.values) :
      Lowers id (.negate domain x) []
        [⟨if domain = .float then .fNegate else .sNegate, [type, word, a]⟩]
  | convert {x : Value} {source target : Domain} {s t : Ty} {opcode : Opcode}
      {type word a : UInt32} (hx : p.frame.program.typeOf x = .ok s)
      (hop : Conversion (normalized s) (normalized t) source target opcode)
      (hne : normalized s ≠ normalized t)
      (htype : ∃ u, p.frame.program.typeOf (.result id) = .ok u ∧ N.type u type)
      (ha : N.operand x a) (hword : (.result id, word) ∈ N.values) :
      Lowers id (.convert x source t target) [] [⟨opcode, [type, word, a]⟩]
  | standsFor {x : Value} {source target : Domain} {s t : Ty} {opcode : Opcode} {a : UInt32}
      (hx : p.frame.program.typeOf x = .ok s)
      (hop : Conversion (normalized s) (normalized t) source target opcode)
      (heq : normalized s = normalized t) (ha : N.operand x a)
      (hword : ∃ earlier, (.result id, a) :: earlier <:+ N.values ∧
        ((∃ c, x = .constant c) ∨ (x, a) ∈ earlier)) :
      Lowers id (.convert x source t target) [] []
  | load {pointer : Value} {elem : Ty} {space : Space} {type word a : UInt32}
      (hpointer : p.frame.program.typeOf pointer = .ok (.pointer elem space))
      (htype : N.type elem type) (ha : N.operand pointer a)
      (hword : (.result id, word) ∈ N.values) :
      Lowers id (.load pointer) [] [⟨.load, [type, word, a]⟩]
  | store {value pointer : Value} {elem : Ty} {space : Space} {a b : UInt32}
      (hpointer : p.frame.program.typeOf pointer = .ok (.pointer elem space))
      (hvalue : p.frame.program.typeOf value = .ok elem) (ha : N.operand pointer a)
      (hb : N.operand value b) : Lowers id (.store value pointer) [] [⟨.store, [a, b]⟩]
  | elementPtr {base index : Value} {elem t : Ty} {type word a b : UInt32}
      (hbase : p.frame.program.typeOf base = .ok (.pointer elem .buffer))
      (hindex : p.frame.program.typeOf index = .ok t) (hint : t.isInt = true)
      (htype : N.type (.pointer elem .buffer) type) (ha : N.operand base a)
      (hb : N.operand index b) (hword : (.result id, word) ∈ N.values) :
      Lowers id (.elementPtr base index) [] [⟨.ptrAccessChain, [type, word, a, b]⟩]
  | call {f : FuncId} {g : Func} {args : List Value} {params : List Param}
      {type word function : UInt32} {ids : List UInt32} (hcallee : p.frame.program.func? f = some g)
      (hfunction : (some f, function) ∈ N.functions) (hparams : g.params = params.map some)
      (hargs : List.Forall₂ (fun v (q : Param) => p.frame.program.typeOf v = .ok q.type)
        args params)
      (hids : List.Forall₂ N.operand args ids) (htype : N.type g.resultType type)
      (hword : (.result id, word) ∈ N.values) :
      Lowers id (.call (some f) args) [] [⟨.functionCall, type :: word :: function :: ids⟩]
  | branch {target : Option BlockId} {label : UInt32} {header : List Instruction}
      (hlabel : N.label target label) (hheader : LoopHeader N p header) :
      Lowers id (.branch target) [] (header ++ [⟨.branch, [label]⟩])
  | loopBranch {cond : Value} {onTrue onFalse merge : Option BlockId} {c t f : UInt32}
      {header : List Instruction} (hcond : p.frame.program.typeOf cond = .ok .bool)
      (hc : N.operand cond c) (ht : N.label onTrue t) (hf : N.label onFalse f)
      (hloop : p.block.loop.isSome) (hheader : LoopHeader N p header) :
      Lowers id (.condBranch cond onTrue onFalse merge) []
        (header ++ [⟨.branchConditional, [c, t, f]⟩])
  | condBranch {cond : Value} {onTrue onFalse : BlockId} {merge : Option BlockId}
      {c t f : UInt32} {made : List UInt32} {header : List Instruction}
      (hcond : p.frame.program.typeOf cond = .ok .bool) (hc : N.operand cond c)
      (ht : N.label (some onTrue) t) (hf : N.label (some onFalse) f)
      (hloop : p.block.loop = none)
      (hheader : SelectionHeader N p onTrue onFalse merge made header) :
      Lowers id (.condBranch cond (some onTrue) (some onFalse) merge) made
        (header ++ [⟨.branchConditional, [c, t, f]⟩])
  | ret (h : p.frame.func.resultType = .void) : Lowers id (.ret .missing) [] [⟨.ret, []⟩]
  | returnValue {v : Value} {a : UInt32} (hv : v ≠ .missing)
      (htype : p.frame.program.typeOf v = .ok p.frame.func.resultType) (ha : N.operand v a) :
      Lowers id (.ret v) [] [⟨.returnValue, [a]⟩]

/-- The instructions of a block, all of which are there. -/
inductive LowersAll : List (InstrId × Option Instr) → List UInt32 → List Instruction → Prop
  | nil : LowersAll [] [] []
  | cons {id : InstrId} {i : Instr} {rest : List (InstrId × Option Instr)}
      {made more : List UInt32} {out tail : List Instruction} (head : Lowers N p id i made out)
      (htail : LowersAll rest more tail) :
      LowersAll ((id, some i) :: rest) (made ++ more) (out ++ tail)

/-- The local variables among instructions. -/
inductive Hoists : List (InstrId × Option Instr) → List Instruction → Prop
  | nil : Hoists [] []
  | localVar {id : InstrId} {name : Text} {elem : Ty} {type word : UInt32}
      {rest : List (InstrId × Option Instr)} {tail : List Instruction}
      (htype : N.type (.pointer elem .function) type) (hword : (.result id, word) ∈ N.values)
      (htail : Hoists rest tail) :
      Hoists ((id, some (.localVar name elem)) :: rest)
        (⟨.variableOp, [type, word, StorageClass.function]⟩ :: tail)
  | other {id : InstrId} {slot : Option Instr} {rest : List (InstrId × Option Instr)}
      {tail : List Instruction} (h : ∀ name elem, slot ≠ some (.localVar name elem))
      (htail : Hoists rest tail) : Hoists ((id, slot) :: rest) tail

end Instructions

/-! ## Blocks and functions -/

/-- Blocks that begin with their labels; the first one then has the local variables. Each ends
in its only terminator. -/
inductive LowersBlocks (N : Naming) (f : Frame) :
    List Instruction → List (BlockId × Block) → List UInt32 → List Instruction → Prop
  | nil {locals : List Instruction} : LowersBlocks N f locals [] [] []
  | cons {locals body tail : List Instruction} {id : BlockId} {b : Block} {label : UInt32}
      {rest : List (BlockId × Block)} {made more : List UInt32} (hlabel : (id, label) ∈ N.labels)
      (hterminator : b.terminator?.isSome)
      (hinner : ∀ i ∈ b.instrs.dropLast, ¬ i.any Instr.isTerminator)
      (hbody : LowersAll N ⟨f, id, b⟩ (b.instrIds id) made body)
      (hrest : LowersBlocks N f [] rest more tail) :
      LowersBlocks N f locals ((id, b) :: rest) (made ++ more)
        (⟨.label, [label]⟩ :: locals ++ body ++ tail)

/-- A block that is never reached. -/
def unreachableBlock (label : UInt32) : List Instruction := [⟨.label, [label]⟩, ⟨.unreachable, []⟩]

/-! The values of a function that get ids are its parameters, then its local variables, then the
results of its other instructions, in the order in which they are written. -/

/-- The value that gets an id where an instruction stands. -/
def loweredKeys (id : InstrId) : Instr → List Value
  | .localVar .. | .store .. | .branch _ | .condBranch .. | .ret _ => []
  | _ => [.result id]

def loweredValues (instrs : List (InstrId × Option Instr)) : List Value :=
  instrs.flatMap fun entry => (entry.2.map (loweredKeys entry.1)).getD []

/-- The value that a local variable gets an id for. -/
def hoistedKeys (id : InstrId) : Option Instr → List Value
  | some (.localVar ..) => [.result id]
  | _ => []

def hoistedValues (instrs : List (InstrId × Option Instr)) : List Value :=
  instrs.flatMap fun entry => hoistedKeys entry.1 entry.2

def definedValues (params : List (ParamId × Param)) (instrs : List (InstrId × Option Instr)) :
    List Value :=
  params.map (fun q => .param q.1) ++ (hoistedValues instrs ++ loweredValues instrs)

/-- The declared type of a function, by the types of its result and its parameters. -/
structure Signature (N : Naming) (func : Func) (params : List (ParamId × Param))
    (type result : UInt32) (types : List UInt32) : Prop where
  resultType : N.type func.resultType result
  paramTypes : List.Forall₂ (fun (q : ParamId × Param) t => N.type q.2.type t) params types
  declared : ⟨.typeFunction, type :: result :: types⟩ ∈ N.declared

/-- A function: its header, its parameters, its blocks with the local variables in the first, the
blocks that are never reached, and its end. The values and blocks that have ids are its own. -/
inductive LowersFunction (N : Naming) (program : Program) (debug : Bool) (id : FuncId)
    (func : Func) : List Instruction → Prop
  | intro {params : List (ParamId × Param)} {blocks : List (BlockId × Block)}
      {word result type : UInt32} {types words made : List UInt32}
      {locals body : List Instruction} (hparams : func.paramIds id = params.map some)
      (hblocks : func.listed id = blocks.map some) (hnonempty : blocks ≠ [])
      (hvalues : N.values.map Prod.fst =
        (definedValues params (Frame.instrs ⟨program, func, ⟨blocks⟩, debug⟩)).reverse)
      (hlabels : N.labels.map Prod.fst = (blocks.map Prod.fst).reverse)
      (hword : (some id, word) ∈ N.functions)
      (hsignature : Signature N func params type result types)
      (hwords : List.Forall₂ (fun (q : ParamId × Param) w => (.param q.1, w) ∈ N.values)
        params words)
      (hlocals : Hoists N (Frame.instrs ⟨program, func, ⟨blocks⟩, debug⟩) locals)
      (hbody : LowersBlocks N ⟨program, func, ⟨blocks⟩, debug⟩ locals blocks made body) :
      LowersFunction N program debug id func
        (⟨.func, [result, word, noControl, type]⟩ ::
          List.zipWith (fun t w => ⟨.functionParameter, [t, w]⟩) types words ++ body ++
          made.flatMap unreachableBlock ++ [⟨.functionEnd, []⟩])

end Elementwise.Spirv
