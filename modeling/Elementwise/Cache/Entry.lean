import Elementwise.Msgpack.Wire
import Elementwise.Spirv.Compile

/-!
# Kept kernels

A kernel as it is kept, and its form in a file. An entry of another schema is not used.
-/
namespace Elementwise.Cache
open Msgpack Text.Utf8

/-- A diagnostic as it is kept. -/
structure Report where
  kind : Spirv.Kind
  message : String
  function : Text
  block : Text
  deriving DecidableEq, Repr

def Report.text (r : Report) : String := Spirv.diagnosticText r.kind r.function r.block r.message

def Report.ofDiagnostic (d : Spirv.Diagnostic) : Report :=
  ⟨d.kind, d.cause.message, d.function, d.block⟩

theorem Report.text_ofDiagnostic (d : Spirv.Diagnostic) : (ofDiagnostic d).text = d.text := rfl

/-- The schema of entries that are written and read. -/
def schemaVersion : UInt16 := 2

structure Entry where
  schema : UInt16
  key : String
  fingerprint : String
  name : Text
  spirv : List UInt8
  abi : Spirv.Abi
  unsupported : List Report
  deriving DecidableEq, Repr

/-! ## In a file -/

def ofWord (w : UInt32) : Value := .unsigned w.toNat

def Report.value (r : Report) : Value := .record [
  field "kind" (.unsigned r.kind.code.toNat), field "message" (.ofText r.message),
  field "function" (.ofText r.function), field "block" (.ofText r.block)]

def bindingValue (b : Spirv.Binding) : Value := .record [
  field "binding" (ofWord b.index), field "visibility" (ofWord b.visibility),
  field "buffer" (.record [field "type" (ofWord b.bufferType),
    field "dynamic_offset" (.bool b.dynamicOffset), field "min_size" (.unsigned b.minSize.toNat)])]

def abiValue (a : Spirv.Abi) : Value := .record [
  field "entry_point" (.ofText a.entryPoint),
  field "workgroup_size"
    (.array [ofWord a.workgroup.1, ofWord a.workgroup.2.1, ofWord a.workgroup.2.2]),
  field "element_type" (.ofText a.elementType), field "element_stride" (ofWord a.elementStride),
  field "data_group" (ofWord a.dataGroup), field "data_layout" (bindingValue a.data),
  field "push_constant_size" (ofWord a.pushConstantSize),
  field "count_offset" (ofWord a.countOffset), field "buffer_usage" (ofWord a.bufferUsage)]

def Entry.value (e : Entry) : Value := .record [
  field "schema" (.unsigned e.schema.toNat), field "key" (.ofText e.key),
  field "fingerprint" (.ofText e.fingerprint), field "name" (.ofText e.name),
  field "spirv" (.binary e.spirv), field "abi" (abiValue e.abi),
  optionalList "unsupported" (e.unsupported.map Report.value)]

def Entry.bytes (e : Entry) : List UInt8 := e.value.write

/-- The field of a record. -/
def fieldOf? (name : String) : Value → Option Value
  | .map entries =>
    (entries.find? fun
      | (.text k, _) => k == Text.Utf8.bytes name
      | _ => false).map (·.2)
  | _ => none

def textOf? (name : String) (v : Value) : Option Text := (fieldOf? name v).bind toText?

def stringOf? (name : String) (v : Value) : Option String := (textOf? name v).map (·.shown)

/-- A number below a limit. -/
def numberOf? (name : String) (limit : Nat) (v : Value) : Option Nat :=
  match fieldOf? name v with
  | some (.unsigned n) => if n < limit then some n else none
  | _ => none

def wordOf? (name : String) (v : Value) : Option UInt32 :=
  (numberOf? name UInt32.size v).map (·.toUInt32)

def truthOf? (name : String) (v : Value) : Option Bool :=
  match fieldOf? name v with
  | some (.bool b) => some b
  | _ => none

def tripleOf? (name : String) (v : Value) : Option (UInt32 × UInt32 × UInt32) :=
  match fieldOf? name v with
  | some (.array [.unsigned x, .unsigned y, .unsigned z]) =>
    some (x.toUInt32, y.toUInt32, z.toUInt32)
  | _ => none

def Report.ofValue? (v : Value) : Option Report := do
  return ⟨⟨(← numberOf? "kind" 256 v).toUInt8⟩, ← stringOf? "message" v, ← textOf? "function" v,
    ← textOf? "block" v⟩

def bindingOf? (v : Value) : Option Spirv.Binding := do
  let buffer ← fieldOf? "buffer" v
  return ⟨← wordOf? "binding" v, ← wordOf? "visibility" v, ← wordOf? "type" buffer,
    ← truthOf? "dynamic_offset" buffer, (← numberOf? "min_size" UInt64.size buffer).toUInt64⟩

def abiOf? (v : Value) : Option Spirv.Abi := do
  return ⟨← textOf? "entry_point" v, ← tripleOf? "workgroup_size" v, ← stringOf? "element_type" v,
    ← wordOf? "element_stride" v, ← wordOf? "data_group" v,
    ← (fieldOf? "data_layout" v).bind bindingOf?, ← wordOf? "push_constant_size" v,
    ← wordOf? "count_offset" v, ← wordOf? "buffer_usage" v⟩

def reportsOf? (v : Value) : Option (List Report) :=
  match fieldOf? "unsupported" v with
  | none => some []
  | some (.array items) => items.mapM Report.ofValue?
  | some _ => none

def bytesOf? (name : String) (v : Value) : Option (List UInt8) :=
  match fieldOf? name v with
  | some (.binary b) => some b
  | _ => none

def Entry.ofValue? (v : Value) : Option Entry := do
  return ⟨(← numberOf? "schema" UInt16.size v).toUInt16, ← stringOf? "key" v,
    ← stringOf? "fingerprint" v, ← textOf? "name" v, ← bytesOf? "spirv" v,
    ← (fieldOf? "abi" v).bind abiOf?, ← reportsOf? v⟩

/-- The entry that the bytes start with. -/
def Entry.ofBytes? (bytes : List UInt8) : Option Entry :=
  (Msgpack.read? bytes).bind fun (v, _) => Entry.ofValue? v

end Elementwise.Cache
