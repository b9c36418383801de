import Elementwise.Cache.Entry

/-!
# The most recently used

A bounded table of entries. Its elements stand in a list, the one that was used last in front, and
a map leads from keys to them. When an entry is put into a full table, elements at the end of the
list are dropped, and the keys of their entries from the map.
-/
namespace Elementwise.Cache

/-- An element of the list. The list and the map share it: what has its identity is the same. -/
structure Element where
  id : Nat
  entry : Entry
  deriving DecidableEq, Repr

/-- What becomes of an element when an entry is assigned to the one of an identity. -/
def Element.assign (id : Nat) (e : Entry) (el : Element) : Element :=
  if el.id = id then { el with entry := e } else el

structure Recent where
  capacity : Nat
  /-- The elements, the one that was used last in front. -/
  order : List Element := []
  /-- The elements that keys lead to. -/
  items : List (String × Element) := []
  /-- The identity of the next element. -/
  next : Nat := 0
  deriving DecidableEq, Repr

namespace Recent

def size (r : Recent) : Nat := r.order.length

/-- The element that a key leads to. -/
def find? (r : Recent) (key : String) : Option Element :=
  (r.items.find? (·.1 == key)).map (·.2)

/-- Moves an element of the list to its front. One that is not in the list stays out of it. -/
def moveToFront (r : Recent) (el : Element) : Recent :=
  if r.order.any (·.id == el.id) then
    { r with order := el :: r.order.filter (·.id != el.id) }
  else r

/-- The entry of a key, which counts as a use. -/
def get (r : Recent) (key : String) : Option Entry × Recent :=
  match r.find? key with
  | some el => (some el.entry, r.moveToFront el)
  | none => (none, r)

def assign (r : Recent) (id : Nat) (e : Entry) : Recent :=
  { r with
    order := r.order.map (Element.assign id e)
    items := r.items.map fun (key, el) => (key, el.assign id e) }

/-- Drops the last element of the list, and from the map the key of its entry. -/
def dropOldest (r : Recent) (h : r.order ≠ []) : Recent :=
  { r with
    order := r.order.dropLast
    items := r.items.filter (·.1 != (r.order.getLast h).entry.key) }

/-- Drops elements until the list fits; tells how many. -/
def evict (r : Recent) : Nat × Recent :=
  if h : r.capacity < r.order.length then
    let rest := evict (r.dropOldest (List.ne_nil_of_length_pos (Nat.zero_lt_of_lt h)))
    (rest.1 + 1, rest.2)
  else (0, r)
termination_by r.order.length
decreasing_by simp only [dropOldest, List.length_dropLast]; omega

/-- Puts an entry under a key; tells how many entries were dropped for it. -/
def put (r : Recent) (key : String) (e : Entry) : Nat × Recent :=
  match r.find? key with
  | some el => (0, (r.assign el.id e).moveToFront (el.assign el.id e))
  | none =>
    let el : Element := ⟨r.next, e⟩
    evict { r with order := el :: r.order, items := (key, el) :: r.items, next := r.next + 1 }

def clear (r : Recent) : Recent := { r with order := [], items := [] }

end Recent

end Elementwise.Cache
