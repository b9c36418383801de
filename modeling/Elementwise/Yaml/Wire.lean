import Elementwise.IR.Wire
import Elementwise.Yaml.Decoding
import Elementwise.Yaml.Document

/-!
# The wire form in YAML

Optional fields that are empty are left out.
-/
namespace Elementwise.Yaml
open IR

/-! ## Writing -/

def textField (name : String) (s : Text) : Option (String × Document) := some (name, .text s)

def listField (name : String) (items : List Document) : Option (String × Document) :=
  some (name, .list items)

def optionalText (name : String) (s : Text) : Option (String × Document) :=
  if s.isEmpty then none else textField name s

def optionalList (name : String) (items : List Document) : Option (String × Document) :=
  if items.isEmpty then none else listField name items

/-- A record of the fields that are there. -/
def Document.ofFields (fields : List (Option (String × Document))) : Document :=
  .record (fields.filterMap (·))

def ofInstr (i : Wire.Instr) : Document := .ofFields [
  optionalText "result" i.result, textField "op" i.op, optionalText "domain" i.domain,
  optionalText "pred" i.pred, optionalText "type" i.type, optionalText "to_domain" i.toDomain,
  optionalText "callee" i.callee, optionalList "args" (i.args.map .text),
  optionalList "targets" (i.targets.map .text)]

def ofLoop (l : Wire.Loop) : Document :=
  .ofFields [textField "merge" l.merge, textField "continue" l.continue_]

def ofBlock (b : Wire.Block) : Document := .ofFields [
  textField "name" b.name, b.loop.map fun l => ("loop", ofLoop l),
  listField "instrs" (b.instrs.map ofInstr)]

def ofParam (p : Wire.Param) : Document :=
  .ofFields [textField "name" p.name, textField "type" p.type]

def ofFunc (f : Wire.Func) : Document := .ofFields [
  textField "name" f.name, optionalList "params" (f.params.map ofParam),
  optionalText "result" f.result, listField "blocks" (f.blocks.map ofBlock)]

/-- Nested content of a module is indented in steps of four. -/
def writeModule (m : Wire.Module) : String :=
  Document.render 4 [("name", .text m.name), ("functions", .list (m.functions.map ofFunc))]

/-! ## Reading -/

open Decoding

def instrReader : Reader Wire.Instr where
  empty := {}
  fields := [
    ("result", onText fun i s => { i with result := s }),
    ("op", onText fun i s => { i with op := s }),
    ("domain", onText fun i s => { i with domain := s }),
    ("pred", onText fun i s => { i with pred := s }),
    ("type", onText fun i s => { i with type := s }),
    ("to_domain", onText fun i s => { i with toDomain := s }),
    ("callee", onText fun i s => { i with callee := s }),
    ("args", onList text fun i xs => { i with args := xs }),
    ("targets", onList text fun i xs => { i with targets := xs })]

def loopReader : Reader Wire.Loop where
  empty := {}
  fields := [
    ("merge", onText fun l s => { l with merge := s }),
    ("continue", onText fun l s => { l with continue_ := s })]

def blockReader : Reader Wire.Block where
  empty := {}
  fields := [
    ("name", onText fun b s => { b with name := s }),
    ("loop", fun b n => return { b with loop := ← loopReader.optional n }),
    ("instrs", onList instrReader.record fun b xs => { b with instrs := xs })]

def paramReader : Reader Wire.Param where
  empty := {}
  fields := [
    ("name", onText fun p s => { p with name := s }),
    ("type", onText fun p s => { p with type := s })]

def funcReader : Reader Wire.Func where
  empty := {}
  fields := [
    ("name", onText fun f s => { f with name := s }),
    ("params", onList paramReader.record fun f xs => { f with params := xs }),
    ("result", onText fun f s => { f with result := s }),
    ("blocks", onList blockReader.record fun f xs => { f with blocks := xs })]

def moduleReader : Reader Wire.Module where
  empty := {}
  fields := [
    ("name", onText fun m s => { m with name := s }),
    ("functions", onList funcReader.record fun m xs => { m with functions := xs })]

/-- Reads a module; an empty document is an empty module. -/
def readModule? (bytes : List UInt8) : Option Wire.Module :=
  match Graph.ofBytes? bytes with
  | none => none
  | some none => some {}
  | some (some g) => (moduleReader.ofGraph? g (bytes.length + 1)).map (·.getD {})

end Elementwise.Yaml
