import Elementwise.Toml.Statement

/-!
# TOML documents

A key is defined once. A table that was only implied by the keys of others may still be given a
header of its own, and an array may be given again.
-/
namespace Elementwise.Toml

inductive Value where
  | text (s : String)
  | integer (n : Int)
  | float
  | truth (b : Bool)
  | datetime
  | array
  | table (entries : List (String × Value))
  /-- The tables of a repeated header, the last first. -/
  | tables (items : List (List (String × Value)))
  deriving Repr

abbrev Table := List (String × Value)

def Table.set (t : Table) (key : String) (v : Value) : Table :=
  if t.any (·.1 == key) then t.map fun e => if e.1 == key then (key, v) else e else t ++ [(key, v)]

structure Document where
  root : Table := []
  /-- The keys as written, headers included. -/
  keys : List Key := []
  /-- Tables that have no header yet. -/
  implied : List Key := []
  /-- Keys that last held an array. -/
  arrays : List Key := []
  deriving Repr

namespace Document

variable (d : Document)

/-- Changes the table at a path, entering the last of repeated tables. A missing table is added. -/
def change (f : Table → Option Table) : Key → Table → Option Table
  | [], t => f t
  | k :: rest, t =>
    match t.lookup k with
    | some (.table inner) => (change f rest inner).map fun inner => t.set k (.table inner)
    | some (.tables (last :: others)) =>
      (change f rest last).map fun last => t.set k (.tables (last :: others))
    | some _ => none
    | none => (change f rest []).map fun inner => t.set k (.table inner)

/-- Whether there is a table at a path. -/
def hasTable : Key → Table → Bool
  | [], _ => true
  | k :: rest, t =>
    match t.lookup k with
    | some (.table inner) => hasTable rest inner
    | some (.tables (last :: _)) => hasTable rest last
    | _ => false

def find? : Key → Table → Option Value
  | [], t => some (.table t)
  | k :: rest, t =>
    match rest, t.lookup k with
    | [], v => v
    | _, some (.table inner) => find? rest inner
    | _, some (.tables (last :: _)) => find? rest last
    | _, _ => none

def note (key : Key) : Document := { d with keys := d.keys ++ [key] }

def imply (key : Key) : Document := { d with implied := key :: d.implied }

def settle (key : Key) : Document :=
  { d with implied := d.implied.filter (· != key) }

def markArray (key : Key) (isArray : Bool) : Document :=
  if isArray then { d with arrays := key :: d.arrays }
  else { d with arrays := d.arrays.filter (· != key) }

/-- The key that a type is kept for; the empty name stands for its table. -/
def typedKey (context : Key) (name : String) : Key :=
  let key := if name.isEmpty then context else context ++ [name]
  if key.isEmpty then [""] else key

/-- Defines a name in the table at a path. -/
def define (context : Key) (name : String) (v : Value) : Option Document :=
  let key := context ++ [name]
  let store (t : Table) : Option Table := some (t.set name v)
  match find? key d.root with
  | none => (change store context d.root).map fun root => { d with root }
  | some _ =>
    if d.arrays.contains key then
      (change store context d.root).map fun root => { d with root }.settle key
    else if d.implied.contains key then some (d.settle key)
    else none

/-- Opens the tables that lead to a key, implying those that are missing. -/
def openParents : Document → Key → Key → Option Document
  | d, _, [] => some d
  | d, done, k :: rest =>
    let here := done ++ [k]
    let d? :=
      match find? here d.root with
      | none => (change (fun t => some t) here d.root).map fun root => { d with root }.imply here
      | some (.table _) => some d
      | some (.tables _) => some d
      | some _ => none
    match d? with
    | none => none
    | some d => openParents d here rest

/-- Adds a table to the repeated ones at a key. -/
def append (context : Key) (name : String) : Option Document :=
  let add (t : Table) : Option Table :=
    match t.lookup name with
    | none => some (t.set name (.tables [[]]))
    | some (.tables items) => some (t.set name (.tables ([] :: items)))
    | some _ => none
  (change add context d.root).map fun root => { d with root }

/-- Opens the table of a header, or another of repeated ones. -/
def openTable (key : Key) (repeated : Bool) : Option Document := do
  let context := key.dropLast
  let name := (key.getLast?).getD ""
  let d ← d.openParents [] context
  if repeated then d.append context name else d.define context name (.table [])

/-- Opens the tables that the leading parts of a dotted key imply. -/
def openDotted : Document → Key → Key → Option Document
  | d, _, [] => some d
  | d, context, k :: rest =>
    let here := context ++ [k]
    match (d.imply here).openTable here false with
    | none => none
    | some d => openDotted d here rest

/-- Gives a value to a dotted key of the table at a path, and returns the value. It is read once the
tables that the key implies are open. -/
def assignWith (context key : Key) (isArray : Bool)
    (read : Document → Key → String → Option (Document × Value)) : Option (Document × Value) := do
  let name := (key.getLast?).getD ""
  let d ← d.openDotted context key.dropLast
  let context := context ++ key.dropLast
  let (d, v) ← read (d.note (context ++ [name])) context name
  let d ← d.define context name v
  return (d.markArray (typedKey context name) isArray, v)

mutual

/-- Reads a value for a name. An inline table is opened like one with a header. Taken by itself, as
where it is given for an array, it has its values under the last parts of their keys. -/
def value (inArray : Bool) (d : Document) (context : Key) (name : String) :
    Written → Option (Document × Value)
  | .text s => some (d, .text s)
  | .integer n => some (d, .integer n)
  | .float => some (d, .float)
  | .truth b => some (d, .truth b)
  | .datetime => some (d, .datetime)
  | .array items =>
    (arrayItems (d.markArray (typedKey context name) true) context name items).map (·, .array)
  | .inline entries =>
    let key := context ++ [name]
    match (d.imply key).openTable key inArray with
    | none => none
    | some d => (assignments d key [] entries).map fun (d, t) => (d, .table t)

def arrayItems (d : Document) (context : Key) (name : String) : List Written → Option Document
  | [] => some d
  | item :: rest =>
    match value true d context name item with
    | none => none
    | some (d, _) => arrayItems d context name rest

/-- Gives values to keys of the table at a path, and adds them to a table of their own. -/
def assignments (d : Document) (context : Key) (t : Table) :
    List (Key × Written) → Option (Document × Table)
  | [] => some (d, t)
  | (key, v) :: rest =>
    match assignWith d context key v.isArray (fun d c name => value false d c name v) with
    | none => none
    | some (d, x) => assignments d context (t.set ((key.getLast?).getD "") x) rest

end

/-- The document so far and the table that statements refer to. -/
def step (state : Document × Key) : Statement → Option (Document × Key)
  | .table key => (state.1.openTable key false).map fun d => ((d.markArray key false).note key, key)
  | .tableArray key =>
    (state.1.openTable key true).map fun d => ((d.markArray key false).note key, key)
  | .assign key v => (assignments state.1 state.2 [] [(key, v)]).map fun (d, _) => (d, state.2)

def ofBytes? (bytes : List UInt8) : Option Document := do
  let statements ← read? bytes
  let (d, _) ← statements.foldlM step ({}, [])
  return d

end Document

/-! ## Keys as text -/

/-- An escape in a quoted key. -/
def escapedInKey (c : Char) : List Char :=
  let n := c.toNat
  match c with
  | '"' => ['\\', '"']
  | '\\' => ['\\', '\\']
  | '\t' => ['\\', 't']
  | '\n' => ['\\', 'n']
  | '\r' => ['\\', 'r']
  | c =>
    if n == 8 then ['\\', 'b']
    else if n == 12 then ['\\', 'f']
    else if n < 0x20 || n == 0x7f then '\\' :: 'u' :: (Text.Numeral.hexPadded 4 n).toList
    else [c]

/-- A part of a key, in quotes where it is not bare. -/
def keyPartText (part : String) : String :=
  if !part.isEmpty && part.toList.all Written.isBareChar then part
  else "\"" ++ String.ofList (part.toList.flatMap escapedInKey) ++ "\""

def keyText (key : Key) : String := ".".intercalate (key.map keyPartText)

end Elementwise.Toml
