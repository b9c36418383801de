import Elementwise.Yaml.Token

/-!
# Tag names

Escaped bytes together have to look like characters of UTF-8.
-/
namespace Elementwise.Yaml.Reading

def isNameChar (c : Char) : Bool := c.isAlphanum || c == '_' || c == '-'

/-- What may stand in a name, escapes apart. -/
def isUriChar (c : Char) : Bool :=
  isNameChar c || ";/?:@&=+$,.!~*()[]".toList.contains c || c.toNat == 39

/-- The byte of an escape, which is passed over. -/
def escapedByte : Reading UInt8 := do
  need 3
  let digits := ((← get).window.unread.drop 1).take 2
  if (← peek) != '%' || digits.length < 2 then fail
  match Text.Numeral.readNatural 16 255 digits with
  | .ok n =>
    skipTimes 3
    return n.toUInt8
  | .error _ => fail

/-- The further bytes of an escaped character. -/
def escapedTail : Nat → Reading (List UInt8)
  | 0 => return []
  | count + 1 => do
    let b ← escapedByte
    if !Text.Utf8.isContinuation b then fail
    return b :: (← escapedTail count)

/-- The bytes of an escaped character. -/
def escapedChar : Reading (List UInt8) := do
  let b ← escapedByte
  let width := utf8Width b
  if width == 0 then fail
  return b :: (← escapedTail (width - 1))

/-- Reads a name onto the parts of it that were read, the last first. -/
def uriOnto : Nat → List (List UInt8) → Reading (List (List UInt8))
  | 0, _ => fail
  | fuel + 1, parts => do
    let x ← peek
    if x == '%' then
      let bytes ← escapedChar
      need 1
      uriOnto fuel (bytes :: parts)
    else if isUriChar x then
      skip
      need 1
      uriOnto fuel (String.utf8EncodeChar x :: parts)
    else return parts

/-- Reads as much of a name as there is. -/
def takeUri : Reading Text := do
  need 1
  return ⟨(← uriOnto ((← get).size + 1) []).reverse.flatten⟩

/-- Reads a name that must not be empty. -/
def takeFullUri : Reading Text := do
  let uri ← takeUri
  if uri.isEmpty then fail
  return uri

/-- The name inside a handle, and whether the handle is closed by a second exclamation mark. -/
def takeHandle : Reading (String × Bool) := do
  need 1
  if (← peek) != '!' then fail
  skip
  need 1
  let name ← takeWhile isNameChar
  if (← peek) == '!' then
    skip
    return (String.ofList name, true)
  else return (String.ofList name, false)

end Elementwise.Yaml.Reading
