import Elementwise.Yaml.Token.Scan

/-!
# Nodes

A node may contain a reference to itself, so the nodes with a name are kept beside the tree. What
follows the first document is not looked at.
-/
namespace Elementwise.Yaml

/-- What a scalar is said to be. -/
inductive Tag where
  | kind (k : Kind)
  | binary
  | other (name : Text)
  deriving DecidableEq, Repr

inductive Node where
  | scalar (tag : Tag) (text : String)
  /-- A sequence, and whether its tag says that it is null. -/
  | sequence (null : Bool) (items : List Node)
  /-- A mapping, and whether its tag says that it is null. -/
  | mapping (null : Bool) (entries : List (Node × Node))
  /-- A reference, by the number of the node that the name stands for. -/
  | alias (name : String) (number : Nat)
  deriving Repr, Inhabited

/-- A tree with the nodes that have a name, in the order of their numbers. -/
structure Graph where
  root : Node
  named : Array Node
  deriving Repr

namespace Tag

/-- What the names of the standard kinds start with, and how that is abbreviated. -/
def standard : String := "tag:yaml.org,2002:"

/-- A name with its standard start abbreviated. -/
def shortName (name : String) : String :=
  match (standard.toList.isPrefixOf? name.toList) with
  | some rest => "!!" ++ String.ofList rest
  | none => name

/-- The tags of the standard kinds. -/
def ofName (name : Text) : Tag :=
  match name.string?.map shortName with
  | some "!!str" => .kind .text
  | some "!!null" => .kind .null
  | some "!!bool" => .kind .truth
  | some "!!int" => .kind .integer
  | some "!!float" => .kind .float
  | some "!!timestamp" => .kind .timestamp
  | some "!!merge" => .kind .merge
  | some "!!binary" => .binary
  | _ => .other name

end Tag

namespace Node

/-- The scalar of a text: its tag, or what the spelling shows. -/
def ofText (tag : Option Text) (text : String) (plain : Bool) : Node :=
  match tag with
  | some name => .scalar (.ofName name) text
  | none =>
    if !plain then .scalar (.kind .text) text
    else if text == "<<" then .scalar (.kind .merge) text
    else .scalar (.kind (Scalar.kind text)) text

structure Reading where
  scanner : Scanner
  /-- The numbers of the nodes that the names stand for, the last one first. -/
  anchors : List (String × Nat) := []
  named : Array Node := #[]
  /-- What the tag handles stand for. -/
  handles : List (String × Text) := [("!", "!"), ("!!", Tag.standard)]

/-- A step of reading nodes; there is no description of a failure. -/
abbrev Read := StateT Reading Option

def fail {α : Type} : Read α := fun _ => none

def peek : Read Token := fun s =>
  (Scanning.peekToken s.scanner).map fun (t, scanner) => (t, { s with scanner })

def advance : Read Unit := fun s =>
  (Scanning.takeToken s.scanner).map fun (_, scanner) => ((), { s with scanner })

/-- A reference to the node that a name stands for. -/
def reference (name : String) : Read Node := do
  match (← get).anchors.lookup name with
  | some number => return .alias name number
  | none => fail

/-- Reads a node that is given a name. The name stands for it from its start on. -/
def named (anchor : Option String) (node : Read Node) : Read Node :=
  match anchor with
  | none => node
  | some a => do
    let number := (← get).named.size
    modify fun s => { s with anchors := (a, number) :: s.anchors, named := s.named.push default }
    let n ← node
    modify fun s => { s with named := s.named.setIfInBounds number n }
    return n

/-- The full name of a tag. -/
def tagName (handle : String) (suffix : Text) : Read Text := do
  if handle.isEmpty then return suffix
  match (← get).handles.lookup handle with
  | some start => return start ++ suffix
  | none => fail

/-- What stands before a node. -/
structure Properties where
  anchor : Option String := none
  /-- The full name of the tag. -/
  fullTag : Option Text := none

/-- The tag that says something of the node: the bare mark does not. -/
def Properties.tag (p : Properties) : Option Text := p.fullTag.filter (· != ("!" : Text))

/-- Whether the tag says that the node is null. -/
def Properties.isNull (p : Properties) : Bool := p.tag.any fun name => Tag.ofName name == .kind .null

/-- The anchor and tag before a node, in either order. -/
def properties : Read Properties := do
  match ← peek with
  | .anchor a =>
    advance
    match ← peek with
    | .tag h s =>
      advance
      return ⟨some a, some (← tagName h s)⟩
    | _ => return ⟨some a, none⟩
  | .tag h s =>
    advance
    match ← peek with
    | .anchor a =>
      advance
      return ⟨some a, some (← tagName h s)⟩
    | _ => return ⟨none, some (← tagName h s)⟩
  | _ => return {}

def empty : Node := .scalar (.kind .null) ""

mutual

/-- A node. In the value of a block mapping a sequence need not be indented. -/
def read (block indentless : Bool) : Nat → Read Node
  | 0 => fail
  | fuel + 1 => do
    match ← peek with
    | .alias a =>
      advance
      reference a
    | _ =>
      let p ← properties
      match ← peek with
      | .entry =>
        if indentless then
          named p.anchor (.sequence p.isNull <$> readIndentless fuel)
        else bare p
      | .scalar text plain =>
        advance
        named p.anchor (pure (.ofText p.tag text plain))
      | .flowSequence =>
        advance
        named p.anchor (.sequence p.isNull <$> readFlowSequence true fuel)
      | .flowMapping =>
        advance
        named p.anchor (.mapping p.isNull <$> readFlowMapping true fuel)
      | .blockSequence =>
        if block then
          advance
          named p.anchor (.sequence p.isNull <$> readBlockSequence fuel)
        else bare p
      | .blockMapping =>
        if block then
          advance
          named p.anchor (.mapping p.isNull <$> readBlockMapping fuel)
        else bare p
      | _ => bare p

/-- Properties alone make an empty scalar. -/
def bare (p : Properties) : Read Node :=
  if p.anchor.isNone && p.fullTag.isNone then fail
  else named p.anchor (pure (.ofText p.tag "" true))

def readBlockSequence : Nat → Read (List Node)
  | 0 => fail
  | fuel + 1 => do
    match ← peek with
    | .entry =>
      advance
      let item ← match ← peek with
        | .entry => pure empty
        | .blockEnd => pure empty
        | _ => read true false fuel
      return item :: (← readBlockSequence fuel)
    | .blockEnd =>
      advance
      return []
    | _ => fail

def readIndentless : Nat → Read (List Node)
  | 0 => fail
  | fuel + 1 => do
    match ← peek with
    | .entry =>
      advance
      let item ← match ← peek with
        | .entry => pure empty
        | .key => pure empty
        | .value => pure empty
        | .blockEnd => pure empty
        | _ => read true false fuel
      return item :: (← readIndentless fuel)
    | _ => return []

/-- What stands after a key or value indicator of a block mapping. -/
def readBlockPart : Nat → Read Node
  | 0 => fail
  | fuel + 1 => do
    match ← peek with
    | .key => pure empty
    | .value => pure empty
    | .blockEnd => pure empty
    | _ => read true true fuel

def readBlockMapping : Nat → Read (List (Node × Node))
  | 0 => fail
  | fuel + 1 => do
    match ← peek with
    | .key =>
      advance
      let key ← readBlockPart fuel
      let value ← match ← peek with
        | .value => do
          advance
          readBlockPart fuel
        | _ => pure empty
      return (key, value) :: (← readBlockMapping fuel)
    | .blockEnd =>
      advance
      return []
    | _ => fail

/-- Passes over the comma between two items of a flow collection. -/
def separator (first : Bool) : Read Unit := do
  if first then return
  match ← peek with
  | .flowEntry => advance
  | _ => fail

def readFlowSequence (first : Bool) : Nat → Read (List Node)
  | 0 => fail
  | fuel + 1 => do
    match ← peek with
    | .flowSequenceEnd =>
      advance
      return []
    | _ =>
      separator first
      match ← peek with
      | .flowSequenceEnd =>
        advance
        return []
      | .key =>
        advance
        let item ← readPair fuel
        return item :: (← readFlowSequence false fuel)
      | _ =>
        let item ← read false false fuel
        return item :: (← readFlowSequence false fuel)

/-- A mapping of one entry inside a flow sequence, after its key indicator. The indicator that
stands in place of the key is passed over. -/
def readPair : Nat → Read Node
  | 0 => fail
  | fuel + 1 => do
    let next ← peek
    let key ←
      if next == .value || next == .flowEntry || next == .flowSequenceEnd then do
        advance
        pure empty
      else read false false fuel
    let value ← match ← peek with
      | .value => do
        advance
        match ← peek with
        | .flowEntry => pure empty
        | .flowSequenceEnd => pure empty
        | _ => read false false fuel
      | _ => pure empty
    return .mapping false [(key, value)]

/-- What stands after a key or value indicator of a flow mapping. -/
def readFlowPart (isKey : Bool) : Nat → Read Node
  | 0 => fail
  | fuel + 1 => do
    match ← peek with
    | .value => if isKey then pure empty else read false false fuel
    | .flowEntry => pure empty
    | .flowMappingEnd => pure empty
    | _ => read false false fuel

def readFlowMapping (first : Bool) : Nat → Read (List (Node × Node))
  | 0 => fail
  | fuel + 1 => do
    match ← peek with
    | .flowMappingEnd =>
      advance
      return []
    | _ =>
      separator first
      match ← peek with
      | .flowMappingEnd =>
        advance
        return []
      | .key =>
        advance
        let key ← readFlowPart true fuel
        let value ← match ← peek with
          | .value => do
            advance
            readFlowPart false fuel
          | _ => pure empty
        return (key, value) :: (← readFlowMapping false fuel)
      | _ =>
        let key ← read false false fuel
        return (key, empty) :: (← readFlowMapping false fuel)

end

/-- The directives of a document: one version, which has to be 1.1, and tag handles. -/
def readDirectives : Nat → Bool → List String → Read Unit
  | 0, _, _ => fail
  | fuel + 1, versioned, handles => do
    match ← peek with
    | .version major minor =>
      if versioned || major != 1 || minor != 1 then fail
      advance
      readDirectives fuel true handles
    | .tagDirective h uri =>
      if handles.contains h then fail
      advance
      modify fun s => { s with handles := (h, uri) :: s.handles }
      readDirectives fuel versioned (h :: handles)
    | _ => return

/-- The root of the first document; none where there is no document. -/
def readDocument : Read (Option Node) := do
  let fuel := 16 * ((← get).scanner.cursor.size + 4)
  match ← peek with
  | .streamEnd => return none
  | .version _ _ => explicit fuel
  | .tagDirective _ _ => explicit fuel
  | .documentStart => explicit fuel
  | _ => closed (read true false fuel)
where
  /-- The document counts as read once the token after it is known. -/
  closed (node : Read Node) : Read (Option Node) := do
    let n ← node
    let _ ← peek
    return some n
  explicit (fuel : Nat) : Read (Option Node) := do
    readDirectives fuel false []
    match ← peek with
    | .documentStart =>
      advance
      match ← peek with
      | .version _ _ => return some empty
      | .tagDirective _ _ => return some empty
      | .documentStart => return some empty
      | .documentEnd => return some empty
      | .streamEnd => return some empty
      | _ => closed (read true false fuel)
    | _ => fail

end Node

/-- Reads the first document of a text: none where the text is malformed, and no graph where it
is empty. -/
def Graph.ofBytes? (bytes : List UInt8) : Option (Option Graph) :=
  (Node.readDocument.run { scanner := .ofBytes bytes }).map fun (root, s) =>
    root.map fun root => ⟨root, s.named⟩

end Elementwise.Yaml
