/-!
# Timestamps

Date and time are parted by `T` or `t`, and then a zone follows, or by blanks, and then none does.
-/
namespace Elementwise.Yaml.Timestamp

/-- A number of one or two digits and what follows it. -/
def number? : List Char → Option (Nat × List Char)
  | a :: b :: rest =>
    if !a.isDigit then none
    else if b.isDigit then some ((a.toNat - 48) * 10 + (b.toNat - 48), rest)
    else some (a.toNat - 48, b :: rest)
  | [a] => if a.isDigit then some (a.toNat - 48, []) else none
  | [] => none

def mark? (c : Char) : List Char → Option (List Char)
  | d :: rest => if c == d then some rest else none
  | [] => none

/-- A number below a limit. -/
def field? (limit : Nat) (cs : List Char) : Option (Nat × List Char) :=
  match number? cs with
  | some (n, rest) => if n < limit then some (n, rest) else none
  | none => none

def isLeap (year : Nat) : Bool := year % 4 == 0 && (year % 100 != 0 || year % 400 == 0)

def daysIn (year month : Nat) : Nat :=
  if month == 2 then (if isLeap year then 29 else 28)
  else if [4, 6, 9, 11].contains month then 30
  else 31

def year? (cs : List Char) : Option (Nat × List Char) :=
  match cs with
  | a :: b :: c :: d :: rest =>
    if [a, b, c, d].all Char.isDigit then
      some ([a, b, c, d].foldl (fun n x => n * 10 + (x.toNat - 48)) 0, rest)
    else none
  | _ => none

/-- A date that exists, and what follows it. -/
def date? (cs : List Char) : Option (List Char) := do
  let (year, cs) ← year? cs
  let (month, cs) ← field? 13 (← mark? '-' cs)
  let (day, cs) ← number? (← mark? '-' cs)
  if 1 ≤ month && 1 ≤ day && day ≤ daysIn year month then some cs else none

/-- Skips a fraction, which is a point or comma with digits. -/
def skipFraction : List Char → List Char
  | c :: d :: rest =>
    if (c == '.' || c == ',') && d.isDigit then rest.dropWhile Char.isDigit else c :: d :: rest
  | cs => cs

def timeOfDay? (cs : List Char) : Option (List Char) := do
  let (_, cs) ← field? 24 cs
  let (_, cs) ← field? 60 (← mark? ':' cs)
  let (_, cs) ← field? 60 (← mark? ':' cs)
  some (skipFraction cs)

/-- Whether this is a zone: `Z`, or a sign with hours and minutes of two digits each. -/
def isZone (cs : List Char) : Bool :=
  match cs with
  | ['Z'] => true
  | [sign, h1, h2, ':', m1, m2] =>
    (sign == '+' || sign == '-') && [h1, h2, m1, m2].all Char.isDigit &&
      (h1.toNat - 48) * 10 + (h2.toNat - 48) ≤ 24 && (m1.toNat - 48) * 10 + (m2.toNat - 48) ≤ 60
  | _ => false

def isTimestamp (cs : List Char) : Bool :=
  match date? cs with
  | none => false
  | some [] => true
  | some (c :: rest) =>
    if c == 'T' || c == 't' then
      match timeOfDay? rest with
      | some zone => isZone zone
      | none => false
    else if c == ' ' then timeOfDay? (rest.dropWhile (· == ' ')) == some []
    else false

end Elementwise.Yaml.Timestamp
