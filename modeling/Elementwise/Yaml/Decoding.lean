import Elementwise.Yaml.Node

/-!
# Reading records from nodes

A record takes the fields that it knows from a mapping and passes over the others. Null leaves a
field empty, and an item of a list out. Any other scalar serves as text, unless its tag states a
kind that it does not spell.

Every visit of a node is counted, and a document that is nearly all references is refused.
-/
namespace Elementwise.Yaml

/-- How many nodes were visited, and how many of them inside a reference. -/
structure Visits where
  all : Nat := 0
  referred : Nat := 0
  deriving Repr

namespace Visits

/-- Whether too large a part of the visits was inside references. The part may be 99 percent at
first; from 400000 visits on it falls evenly, to 10 percent at 4000000. -/
def isExcessive (v : Visits) : Bool :=
  let span := 3600000
  let beyond := min (v.all - 400000) span
  v.referred > 100 && v.all > 1000 && v.referred * (100 * span) > v.all * (99 * span - 89 * beyond)

end Visits

/-- What nodes are read with. -/
structure Scope where
  named : Array Node
  /-- Whether the node belongs to what a reference stands for. -/
  referred : Bool := false
  /-- How deep merged mappings may merge others; only a mapping that merges itself gets there. -/
  depth : Nat

/-- A step of reading records; there is no description of a failure. -/
abbrev Decoding := ReaderT Scope (StateT Visits Option)

namespace Decoding

def fail {α : Type} : Decoding α := fun _ _ => none

/-- Counts the visit of a node. -/
def countVisit : Decoding Unit := do
  let referred := (← read).referred
  modify fun v => ⟨v.all + 1, v.referred + (if referred then 1 else 0)⟩
  if (← get).isExcessive then fail

/-- The node itself or the one that it refers to. -/
def target (n : Node) : Decoding Node := do
  match n with
  | .alias _ number => return (← read).named[number]?.getD default
  | n => return n

/-- Visits a node, and where it is a reference, also the node that it refers to. -/
def visit {α : Type} (n : Node) (f : Node → Decoding α) : Decoding α := do
  countVisit
  match n with
  | .alias _ _ =>
    withReader (fun s => { s with referred := true }) do
      countVisit
      f (← target n)
  | n => f n

/-- Whether a scalar of this spelling can be tagged as being of a kind. A float may be spelled as
an integer, if that is a signed one. -/
def spells (k : Kind) (s : String) : Bool :=
  let shown := Scalar.kind s
  let shown := if shown == .timestamp && k != .timestamp then Kind.text else shown
  shown == k || (k == .float && shown == .integer && Scalar.isSigned64 s)

def isNull (tag : Tag) (s : String) : Bool := tag == .kind .null && spells .null s

/-- The text of a scalar, none for null. Tags that do not fit are refused; those of no standard
kind fit any text. -/
def scalarText (tag : Tag) (s : String) : Decoding (Option Text) :=
  match tag with
  | .kind .null => if spells .null s then pure none else fail
  | .kind .text => pure (some s)
  | .kind .merge => pure (some s)
  | .kind k => if spells k s then pure (some s) else fail
  | .binary =>
    match Text.Base64.decode? s with
    | some bytes => pure (some ⟨bytes⟩)
    | none => fail
  | .other _ => pure (some s)

/-- The text of a node that has to be a scalar, none for null. -/
def text (n : Node) : Decoding (Option Text) :=
  visit n fun n =>
    match n with
    | .scalar tag s => scalarText tag s
    | _ => fail

/-- Reads a list, leaving out items that are null. -/
def list {α : Type} (item : Node → Decoding (Option α)) (n : Node) : Decoding (List α) :=
  visit n fun n =>
    match n with
    | .sequence _ items => return (← items.mapM item).filterMap (·)
    | .scalar tag s => if isNull tag s then pure [] else fail
    | _ => fail

/-! ## Mappings -/

/-- Whether two keys count as the same: nodes of one sort with the same text or name. -/
def sameKey : Node → Node → Bool
  | .scalar _ a, .scalar _ b => a == b
  | .sequence _ _, .sequence _ _ => true
  | .mapping _ _, .mapping _ _ => true
  | .alias a _, .alias b _ => a == b
  | _, _ => false

abbrev Entries := List (Node × Node)

def hasRepeatedKey : Entries → Bool
  | [] => false
  | (k, _) :: rest => rest.any (fun e => sameKey k e.1) || hasRepeatedKey rest

def isMergeKey : Node → Bool
  | .scalar (.kind .merge) "<<" => true
  | _ => false

/-- What the merge key stands for. -/
def mergeValue? (entries : Entries) : Option Node := (entries.find? fun e => isMergeKey e.1).map (·.2)

/-- The mappings that a merge key brings in. -/
def merged : Node → List Node
  | .sequence _ items => items
  | n => [n]

/-- The keys of a mapping. -/
def keys (entries : Entries) : Decoding (List Text) := do
  return (← entries.mapM fun e => text e.1).filterMap (·)

end Decoding

open Decoding

/-- How the fields of a record are read: each takes the record read so far. -/
structure Reader (α : Type) where
  empty : α
  fields : List (Text × (α → Node → Decoding α))

namespace Reader

/-- A record being read. -/
structure Progress (α : Type) where
  record : α
  /-- The keys that are taken, where the mapping is merged into another. -/
  taken : Option (List Text)
  /-- The fields that this mapping has given. -/
  given : List Text := []

variable {α : Type}

/-- Reads an entry. A merged entry is passed over if its key is taken; a field may not be given
twice. -/
def entry (r : Reader α) (p : Progress α) (k v : Node) : Decoding (Progress α) := do
  if isMergeKey k then return p
  match ← text k with
  | none => return p
  | some key =>
    if p.taken.any (·.contains key) then return p
    let p := { p with taken := p.taken.map (key :: ·) }
    match r.fields.lookup key with
    | none => return p
    | some f =>
      if p.given.contains key then fail
      return { p with record := ← f p.record v, given := key :: p.given }

/-- Reads the entries of a mapping and then of those that it merges. -/
def mapping (r : Reader α) : Nat → Option (List Text) → α → Entries →
    Decoding (α × Option (List Text))
  | 0, _, _, _ => fail
  | fuel + 1, taken, x, entries => do
    if hasRepeatedKey entries then fail
    let p ← entries.foldlM (fun p e => r.entry p e.1 e.2) { record := x, taken }
    match mergeValue? entries with
    | none => return (p.record, p.taken)
    | some v =>
      let taken ← match p.taken with
        | some taken => pure taken
        | none => keys entries
      let (x, taken) ← (merged v).foldlM
        (fun (x, taken) n => do
          match ← target n with
          | .mapping _ entries => visit n fun _ => mapping r fuel taken x entries
          | _ => fail)
        (p.record, some taken)
      return (x, taken)

/-- Reads a record from the entries of a mapping. -/
def ofEntries (r : Reader α) (entries : Entries) : Decoding α := do
  return (← r.mapping (← read).depth none r.empty entries).1

/-- Reads a record; none for null. -/
def record (r : Reader α) (n : Node) : Decoding (Option α) :=
  visit n fun n =>
    match n with
    | .mapping _ entries => some <$> r.ofEntries entries
    | .scalar tag s => if isNull tag s then pure none else fail
    | _ => fail

/-- Reads a record that may be absent; none for null. A mapping that is tagged as null is refused. -/
def optional (r : Reader α) (n : Node) : Decoding (Option α) := do
  match ← target n with
  | .mapping true _ => fail
  | _ => r.record n

/-- Reads the record of a whole document, the document itself being a visit of its own. -/
def ofGraph? (r : Reader α) (g : Graph) (depth : Nat) : Option (Option α) :=
  let reading := do
    countVisit
    r.record g.root
  ((reading.run ⟨g.named, false, depth⟩).run {}).map (·.1)

end Reader

/-- A field that holds text. -/
def onText {α : Type} (set : α → Text → α) (x : α) (n : Node) : Decoding α := do
  return ((← text n).map (set x)).getD x

/-- A field that holds a list. -/
def onList {α β : Type} (item : Node → Decoding (Option β)) (set : α → List β → α) (x : α)
    (n : Node) : Decoding α := do
  return set x (← list item n)

end Elementwise.Yaml
