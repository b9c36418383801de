import Elementwise.IR.Wire
import Elementwise.Msgpack.Value

/-!
# The wire form in MessagePack

Reading is lenient. A nil leaves a field empty, unknown fields are passed over, the last of
several fields of one name wins, text may be given as bytes, and a record may also be an empty
array or an array of all its fields in order.

A list of records that is given again is read over the earlier one: an item keeps what the earlier
item at its place has and the new one does not mention.
-/
namespace Elementwise.Msgpack
open IR

def Value.ofText (t : Text) : Value := .text t.bytes

/-- A record of the fields that are there. -/
def Value.record (fields : List (Option (String × Value))) : Value :=
  .map ((fields.filterMap (·)).map fun (k, v) => (.ofText k, v))

/-- A list that is always written. -/
def Value.list (items : List Value) : Value := if items.isEmpty then .nil else .array items

def field (name : String) (v : Value) : Option (String × Value) := some (name, v)

def optionalText (name : String) (t : Text) : Option (String × Value) :=
  if t.isEmpty then none else some (name, .ofText t)

def optionalList (name : String) (items : List Value) : Option (String × Value) :=
  if items.isEmpty then none else some (name, .array items)

def ofInstr (i : Wire.Instr) : Value := .record [
  optionalText "result" i.result, field "op" (.ofText i.op), optionalText "domain" i.domain,
  optionalText "pred" i.pred, optionalText "type" i.type, optionalText "to_domain" i.toDomain,
  optionalText "callee" i.callee, optionalList "args" (i.args.map .ofText),
  optionalList "targets" (i.targets.map .ofText)]

def ofLoop (l : Wire.Loop) : Value :=
  .record [field "merge" (.ofText l.merge), field "continue" (.ofText l.continue_)]

def ofBlock (b : Wire.Block) : Value := .record [
  field "name" (.ofText b.name), b.loop.map fun l => ("loop", ofLoop l),
  field "instrs" (.list (b.instrs.map ofInstr))]

def ofParam (p : Wire.Param) : Value :=
  .record [field "name" (.ofText p.name), field "type" (.ofText p.type)]

def ofFunc (f : Wire.Func) : Value := .record [
  field "name" (.ofText f.name), optionalList "params" (f.params.map ofParam),
  optionalText "result" f.result, field "blocks" (.list (f.blocks.map ofBlock))]

def ofModule (m : Wire.Module) : Value := .record [
  field "name" (.ofText m.name), field "functions" (.list (m.functions.map ofFunc))]

def writeModule (m : Wire.Module) : List UInt8 := (ofModule m).write

/-- Text may be given as text, bytes or nil. -/
def toText? : Value → Option Text
  | .nil => some ""
  | .text b => some ⟨b⟩
  | .binary b => some ⟨b⟩
  | _ => none

/-- A list of texts; nil keeps the texts that were there. -/
def toTexts? (old : List Text) : Value → Option (List Text)
  | .nil => some old
  | .array items => items.mapM toText?
  | _ => none

/-- A list as it is read: the items in use, and those that were set aside after them. -/
structure Slots (α : Type) where
  used : Nat := 0
  all : List α := []
  deriving Repr

def Slots.items {α : Type} (s : Slots α) : List α := s.all.take s.used

/-- How the fields of a record are read: each takes the record read so far. -/
structure Reader (α : Type) where
  empty : α
  fields : List (Text × (α → Value → Option α))

namespace Reader

def entries? {α : Type} (r : Reader α) : α → List (Value × Value) → Option α
  | x, [] => some x
  | x, (k, v) :: rest =>
    match toText? k with
    | none => none
    | some name =>
      match List.lookup name r.fields with
      | none => r.entries? x rest
      | some step =>
        match step x v with
        | none => none
        | some y => r.entries? y rest

def inOrder? {α : Type} : α → List (Text × (α → Value → Option α)) → List Value → Option α
  | x, [], [] => some x
  | x, (_, step) :: steps, v :: vs =>
    match step x v with
    | none => none
    | some y => inOrder? y steps vs
  | _, _, _ => none

/-- Reads a record over an earlier one. -/
def over? {α : Type} (r : Reader α) (old : α) : Value → Option α
  | .nil => some r.empty
  | .map es => r.entries? old es
  | .array [] => some r.empty
  | .array vs => inOrder? old r.fields vs
  | _ => none

/-- Reads the items of a list over the earlier ones at their places. -/
def items? {α : Type} (r : Reader α) : List α → List Value → Option (List α)
  | old, [] => some old
  | old, v :: vs =>
    match r.over? (old.head?.getD r.empty) v with
    | none => none
    | some x => (r.items? old.tail vs).map (x :: ·)

def list? {α : Type} (r : Reader α) (old : Slots α) : Value → Option (Slots α)
  | .nil => some {}
  | .array vs => (r.items? old.all vs).map (⟨vs.length, ·⟩)
  | _ => none

end Reader

def instrReader : Reader Wire.Instr where
  empty := {}
  fields := [
    ("result", fun i v => (toText? v).map ({ i with result := · })),
    ("op", fun i v => (toText? v).map ({ i with op := · })),
    ("domain", fun i v => (toText? v).map ({ i with domain := · })),
    ("pred", fun i v => (toText? v).map ({ i with pred := · })),
    ("type", fun i v => (toText? v).map ({ i with type := · })),
    ("to_domain", fun i v => (toText? v).map ({ i with toDomain := · })),
    ("callee", fun i v => (toText? v).map ({ i with callee := · })),
    ("args", fun i v => (toTexts? i.args v).map ({ i with args := · })),
    ("targets", fun i v => (toTexts? i.targets v).map ({ i with targets := · }))]

def loopReader : Reader Wire.Loop where
  empty := {}
  fields := [
    ("merge", fun l v => (toText? v).map ({ l with merge := · })),
    ("continue", fun l v => (toText? v).map ({ l with continue_ := · }))]

/-- A loop that may be absent. -/
def toLoop? (old : Option Wire.Loop) : Value → Option (Option Wire.Loop)
  | .nil => some none
  | v => (loopReader.over? (old.getD {}) v).map some

/-- A block as it is read. -/
structure BlockDraft where
  name : Text := ""
  loop : Option Wire.Loop := none
  instrs : Slots Wire.Instr := {}
  deriving Repr

def BlockDraft.finish (b : BlockDraft) : Wire.Block := ⟨b.name, b.loop, b.instrs.items⟩

def blockReader : Reader BlockDraft where
  empty := {}
  fields := [
    ("name", fun b v => (toText? v).map ({ b with name := · })),
    ("loop", fun b v => (toLoop? b.loop v).map ({ b with loop := · })),
    ("instrs", fun b v => (instrReader.list? b.instrs v).map ({ b with instrs := · }))]

def paramReader : Reader Wire.Param where
  empty := {}
  fields := [
    ("name", fun p v => (toText? v).map ({ p with name := · })),
    ("type", fun p v => (toText? v).map ({ p with type := · }))]

/-- A function as it is read. -/
structure FuncDraft where
  name : Text := ""
  params : Slots Wire.Param := {}
  result : Text := ""
  blocks : Slots BlockDraft := {}
  deriving Repr

def FuncDraft.finish (f : FuncDraft) : Wire.Func :=
  ⟨f.name, f.params.items, f.result, f.blocks.items.map BlockDraft.finish⟩

def funcReader : Reader FuncDraft where
  empty := {}
  fields := [
    ("name", fun f v => (toText? v).map ({ f with name := · })),
    ("params", fun f v => (paramReader.list? f.params v).map ({ f with params := · })),
    ("result", fun f v => (toText? v).map ({ f with result := · })),
    ("blocks", fun f v => (blockReader.list? f.blocks v).map ({ f with blocks := · }))]

/-- A module as it is read. -/
structure ModuleDraft where
  name : Text := ""
  functions : Slots FuncDraft := {}
  deriving Repr

def ModuleDraft.finish (m : ModuleDraft) : Wire.Module :=
  ⟨m.name, m.functions.items.map FuncDraft.finish⟩

def moduleReader : Reader ModuleDraft where
  empty := {}
  fields := [
    ("name", fun m v => (toText? v).map ({ m with name := · })),
    ("functions", fun m v => (funcReader.list? m.functions v).map ({ m with functions := · }))]

/-- Reads the wire module that the bytes start with. -/
def readModule? (bytes : List UInt8) : Option Wire.Module :=
  (read? bytes).bind fun (v, _) => (moduleReader.over? {} v).map ModuleDraft.finish

end Elementwise.Msgpack
