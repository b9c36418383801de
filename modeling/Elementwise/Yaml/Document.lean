import Elementwise.Text
import Elementwise.Yaml.Quoting

/-!
# Documents

Nested content is indented to the next multiple of the step, and the fields of a record that is an
item of a list stand next to the dash.
-/
namespace Elementwise.Yaml
open Text.Numeral

inductive Document where
  | text (t : Text)
  | number (n : Nat)
  | numbers (ns : List Nat)
  | list (items : List Document)
  | record (fields : List (String × Document))
  deriving Repr

namespace Document

/-- The text written so far, the last characters first. -/
abbrev Written := List Char

def put (cs : List Char) (out : Written) : Written := cs.reverse ++ out

/-- Starts a line, unless the last one was just ended, and indents it. -/
def line (indent : Nat) (out : Written) : Written :=
  let ended := match out with
    | [] => []
    | c :: rest => if isBreak c then c :: rest else '\n' :: c :: rest
  put (Quoting.spaces indent) ended

/-- The next multiple of the step. -/
def deeper (step indent : Nat) : Nat := step * ((indent + step) / step)

def bracketed (ns : List Nat) : List Char :=
  '[' :: (", ".intercalate (ns.map decimal)).toList ++ [']']

/-- Writes text, or its bytes if they are not well-formed. -/
def scalar (step indent : Nat) (t : Text) : List Char :=
  match t.string? with
  | some s => Quoting.write step indent s
  | none => Quoting.writeBinary step indent t.bytes

mutual

/-- Writes a document after a key or dash; its own content is indented by `indent`. -/
def write (step indent : Nat) : Document → Written → Written
  | .text t, out => put (' ' :: scalar step indent t) out
  | .number n, out => put (' ' :: (decimal n).toList) out
  | .numbers ns, out => put (' ' :: bracketed ns) out
  | .list [], out => put " []".toList out
  | .list (item :: rest), out => writeItems step indent rest (writeItem step indent item (line indent out))
  | .record [], out => put " \x7b\x7d".toList out
  | .record (field :: rest), out =>
    writeFields step indent rest (writeField step indent field (line indent out))

/-- Writes a document after a dash. -/
def writeItem (step indent : Nat) : Document → Written → Written
  | .list (item :: rest), out =>
    writeItems step (indent + 2) rest (writeItem step (indent + 2) item (put "- ".toList out))
  | .record (field :: rest), out =>
    writeFields step (indent + 2) rest (writeField step (indent + 2) field (put "- ".toList out))
  | d, out => write step (indent + 2) d (put ['-'] out)

def writeItems (step indent : Nat) : List Document → Written → Written
  | [], out => out
  | item :: rest, out => writeItems step indent rest (writeItem step indent item (line indent out))

def writeField (step indent : Nat) : String × Document → Written → Written
  | (key, d), out => write step (deeper step indent) d (put (key.toList ++ [':']) out)

def writeFields (step indent : Nat) : List (String × Document) → Written → Written
  | [], out => out
  | field :: rest, out =>
    writeFields step indent rest (writeField step indent field (line indent out))

end

/-- The text of a record. -/
def render (step : Nat) (fields : List (String × Document)) : String :=
  String.ofList (line 0 (writeFields step 0 fields [])).reverse

end Document
end Elementwise.Yaml
