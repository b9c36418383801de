import Elementwise.Spirv.Reading

/-!
# Verification of binaries

A binary is judged against the rules that every generated kernel obeys:

* result ids are nonzero and unique, and the bound is one past the largest;
* sections stand in order and there is one memory model;
* every id that is read is defined, among types and functions before, except that labels and
  functions may be named ahead;
* blocks end in a terminator, functions are closed, and no block is the merge of two constructs.

The first rule that fails is reported, definitions first, then references, then blocks.
-/
namespace Elementwise.Spirv
open Text.Numeral

inductive Violation where
  | unreadable (cause : ReadError)
  | schema (found : UInt32)
  | zeroResult (op : Opcode) (offset : Nat)
  | redefined (id : UInt32) (first second : Nat)
  | bound (found largest : UInt32)
  | misplaced (op : Opcode) (offset : Nat) (home current : Section)
  | undefinedId (op : Opcode) (offset : Nat) (id : UInt32)
  | early (op : Opcode) (offset : Nat) (id : UInt32)
  | memoryModels (count : Nat)
  | sharedMerge (id : UInt32) (first second : Nat)
  | outsideBlock (op : Opcode) (offset : Nat)
  | nestedFunction (offset : Nat)
  | functionEndOpen (offset : Nat)
  | nestedLabel (offset : Nat)
  | strayParameter (offset : Nat)
  | functionOpen
  deriving DecidableEq, Repr

def idText (id : UInt32) : String := "%" ++ decimal id.toNat

/-- An opcode and where it stands. -/
def placeText (op : Opcode) (offset : Nat) : String := op.text ++ " at offset " ++ decimal offset

def Violation.message : Violation → String
  | .unreadable e => e.message
  | .schema found => "schema " ++ decimal found.toNat ++ ", want 0"
  | .zeroResult op offset => placeText op offset ++ " defines id 0"
  | .redefined id first second =>
    "id " ++ idText id ++ " defined at offsets " ++ decimal first ++ " and " ++ decimal second
  | .bound found largest =>
    "bound " ++ decimal found.toNat ++ ", largest id " ++ decimal largest.toNat
  | .misplaced op offset home current =>
    placeText op offset ++ " belongs in " ++ home.text ++ ", after " ++ current.text
  | .undefinedId op offset id => placeText op offset ++ " references undefined id " ++ idText id
  | .early op offset id =>
    placeText op offset ++ " references " ++ idText id ++ " before its definition"
  | .memoryModels count => decimal count ++ " memory model instructions, want 1"
  | .sharedMerge id first second =>
    idText id ++ " is the merge block of the constructs at offsets " ++ decimal first ++
      " and " ++ decimal second
  | .outsideBlock op offset => placeText op offset ++ " outside a block"
  | .nestedFunction offset => placeText .func offset ++ " inside a function"
  | .functionEndOpen offset => placeText .functionEnd offset ++ " closes an unterminated block"
  | .nestedLabel offset => placeText .label offset ++ " starts a block inside a block"
  | .strayParameter offset =>
    placeText .functionParameter offset ++ " outside a function header"
  | .functionOpen => "function not closed"

/-- Where an id is defined: the position among the instructions and the offset in words. -/
structure Definition where
  position : Nat
  offset : Nat
  /-- Labels and functions may be named before they are defined. -/
  ahead : Bool
  deriving DecidableEq, Repr

/-- The definitions of the instructions from a position on, over earlier ones. -/
def collect (known : List (UInt32 × Definition)) (position : Nat) :
    List Decoded → Except Violation (List (UInt32 × Definition))
  | [] => .ok known
  | d :: rest =>
    match d.result with
    | none => collect known (position + 1) rest
    | some id =>
      if id = 0 then .error (.zeroResult d.opcode d.offset)
      else
        match List.lookup id known with
        | some prev => .error (.redefined id prev.offset d.offset)
        | none =>
          let ahead := d.opcode = .label || d.opcode = .func
          collect ((id, ⟨position, d.offset, ahead⟩) :: known) (position + 1) rest

def largest (known : List (UInt32 × Definition)) : UInt32 :=
  known.foldl (fun m entry => max m entry.1) 0

/-- Every id that an instruction reads is defined, and early enough for its section. -/
def checkReads (known : List (UInt32 × Definition)) (position : Nat) (d : Decoded) :
    List UInt32 → Except Violation Unit
  | [] => .ok ()
  | id :: rest =>
    match List.lookup id known with
    | none => .error (.undefinedId d.opcode d.offset id)
    | some at_ =>
      if (d.home = .types || d.home = .functions) && position ≤ at_.position && !at_.ahead then
        .error (.early d.opcode d.offset id)
      else checkReads known position d rest

def checkOrder (known : List (UInt32 × Definition)) (current : Section) (position : Nat) :
    List Decoded → Except Violation Unit
  | [] => .ok ()
  | d :: rest =>
    if d.home.code < current.code then
      .error (.misplaced d.opcode d.offset d.home current)
    else
      match checkReads known position d d.ids with
      | .error e => .error e
      | .ok () => checkOrder known d.home (position + 1) rest

/-- What is open at a point among the instructions, and the merge blocks named so far. -/
structure Nesting where
  inFunction : Bool := false
  inBlock : Bool := false
  merges : List (UInt32 × Nat) := []
  deriving DecidableEq, Repr

def isTerminatorOp (op : Opcode) : Bool :=
  op = .branch || op = .branchConditional || op = .ret || op = .returnValue || op = .unreachable

def Nesting.step (n : Nesting) (d : Decoded) : Except Violation Nesting :=
  if d.opcode = .selectionMerge || d.opcode = .loopMerge then
    let merge := d.words.headD 0
    match List.lookup merge n.merges with
    | some prev => .error (.sharedMerge merge prev d.offset)
    | none =>
      if n.inBlock then .ok { n with merges := (merge, d.offset) :: n.merges }
      else .error (.outsideBlock d.opcode d.offset)
  else if d.opcode = .func then
    if n.inFunction then .error (.nestedFunction d.offset) else .ok { n with inFunction := true }
  else if d.opcode = .functionEnd then
    if !n.inFunction || n.inBlock then .error (.functionEndOpen d.offset)
    else .ok { n with inFunction := false }
  else if d.opcode = .label then
    if !n.inFunction || n.inBlock then .error (.nestedLabel d.offset)
    else .ok { n with inBlock := true }
  else if isTerminatorOp d.opcode then
    if n.inBlock then .ok { n with inBlock := false }
    else .error (.outsideBlock d.opcode d.offset)
  else if d.opcode = .functionParameter then
    if !n.inFunction || n.inBlock then .error (.strayParameter d.offset) else .ok n
  else if n.inFunction && !n.inBlock then .error (.outsideBlock d.opcode d.offset)
  else .ok n

def checkNesting : Nesting → List Decoded → Except Violation Unit
  | n, [] => if n.inFunction then .error .functionOpen else .ok ()
  | n, d :: rest =>
    match n.step d with
    | .error e => .error e
    | .ok n' => checkNesting n' rest

def memoryModelCount (instrs : List Decoded) : Nat :=
  instrs.countP fun d => d.opcode = .memoryModel

def verify (words : List UInt32) : Except Violation Unit := do
  match readModule words with
  | .error e => throw (.unreadable e)
  | .ok contents =>
    if let some e := contents.failure then throw (.unreadable e)
    if contents.header.schema ≠ 0 then throw (.schema contents.header.schema)
    let known ← collect [] 0 contents.instrs
    let top := largest known
    if contents.header.bound ≠ top + 1 then throw (.bound contents.header.bound top)
    checkOrder known .preamble 0 contents.instrs
    let models := memoryModelCount contents.instrs
    if models ≠ 1 then throw (.memoryModels models)
    checkNesting {} contents.instrs

end Elementwise.Spirv
