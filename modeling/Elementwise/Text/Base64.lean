/-!
# Base 64

Line breaks between characters are passed over.
-/
namespace Elementwise.Text.Base64

def value? (c : Char) : Option Nat :=
  if 'A' ≤ c && c ≤ 'Z' then some (c.toNat - 65)
  else if 'a' ≤ c && c ≤ 'z' then some (c.toNat - 71)
  else if c.isDigit then some (c.toNat + 4)
  else if c == '+' then some 62
  else if c == '/' then some 63
  else none

/-- The character of a value below 64. -/
def digit (n : Nat) : Char :=
  if n < 26 then Char.ofNat (n + 65)
  else if n < 52 then Char.ofNat (n + 71)
  else if n < 62 then Char.ofNat (n - 4)
  else if n == 62 then '+'
  else '/'

/-- The characters of bytes, three of which make a group. -/
def encode : List UInt8 → List Char
  | [] => []
  | [a] =>
    let n := a.toNat * 16
    [digit (n / 64), digit (n % 64), '=', '=']
  | [a, b] =>
    let n := (a.toNat * 256 + b.toNat) * 4
    [digit (n / 4096), digit (n / 64 % 64), digit (n % 64), '=']
  | a :: b :: c :: rest =>
    let n := (a.toNat * 256 + b.toNat) * 256 + c.toNat
    digit (n / 262144) :: digit (n / 4096 % 64) :: digit (n / 64 % 64) :: digit (n % 64) ::
      encode rest

/-- The bytes of one group of characters. -/
def group? (cs : List Char) (count : Nat) : Option (List UInt8) := do
  let values ← cs.mapM value?
  let n := values.foldl (fun acc v => acc * 64 + v) 0
  let whole := n * Nat.pow 64 (4 - cs.length)
  return ([whole / 65536, whole / 256, whole].take count).map (·.toUInt8)

def groups? : List Char → Option (List UInt8)
  | [] => some []
  | [a, b, '=', '='] => group? [a, b] 1
  | [a, b, c, '='] => group? [a, b, c] 2
  | a :: b :: c :: d :: rest => do
    let head ← group? [a, b, c, d] 3
    return head ++ (← groups? rest)
  | _ => none

def decode? (s : String) : Option (List UInt8) :=
  groups? (s.toList.filter fun c => c != '\n' && c != '\r')

end Elementwise.Text.Base64
