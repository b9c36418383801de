import Elementwise.Cache.Recent
import Mathlib.Data.List.Nodup

/-!
# What was used longest ago is dropped

The table of kernels in memory behaves as a plain list of entries under distinct keys: an entry
that is asked for or put moves to the front, and what stands beyond the capacity is cut off. The
table has two structures, a list of elements and a map from keys to them. Through every use they
stay in step: the map leads from the key of each element's entry to that element, and from no
other key. Eviction relies on it, as it takes the key to delete from the entry.
-/
namespace Elementwise.Cache

/-! ## Uses and the reference -/

/-- A use of the table. An entry is put under its own key. -/
inductive Use where
  | get (key : String)
  | put (e : Entry)
  | clear
  deriving DecidableEq, Repr

inductive Answer where
  | entry (found : Option Entry)
  /-- The number of entries that were dropped for the new one. -/
  | dropped (count : Nat)
  | cleared
  deriving DecidableEq, Repr

/-- Keys with the entries that were put last under them, the one that was used last in front. -/
abbrev Ranking := List (String × Entry)

namespace Ranking

def get (m : Ranking) (key : String) : Option Entry × Ranking :=
  match m.find? (·.1 == key) with
  | some x => (some x.2, x :: m.filter (·.1 != key))
  | none => (none, m)

def put (capacity : Nat) (m : Ranking) (e : Entry) : Nat × Ranking :=
  let all := (e.key, e) :: m.filter (·.1 != e.key)
  ((all.drop capacity).length, all.take capacity)

def serve (capacity : Nat) (m : Ranking) : Use → Answer × Ranking
  | .get key => (.entry (m.get key).1, (m.get key).2)
  | .put e => (.dropped (m.put capacity e).1, (m.put capacity e).2)
  | .clear => (.cleared, [])

/-- The answers to uses one after the other, and the ranking after them. -/
def run (capacity : Nat) (m : Ranking) : List Use → List Answer × Ranking
  | [] => ([], m)
  | u :: rest =>
    let answer := m.serve capacity u
    let more := run capacity answer.2 rest
    (answer.1 :: more.1, more.2)

end Ranking

namespace Recent

def serve (r : Recent) : Use → Answer × Recent
  | .get key => (.entry (r.get key).1, (r.get key).2)
  | .put e => (.dropped (r.put e.key e).1, (r.put e.key e).2)
  | .clear => (.cleared, r.clear)

def run (r : Recent) : List Use → List Answer × Recent
  | [] => ([], r)
  | u :: rest =>
    let answer := r.serve u
    let more := run answer.2 rest
    (answer.1 :: more.1, more.2)

end Recent

/-! ## The list and the map -/

namespace Element

/-- The place of an element in a ranking. -/
def pair (el : Element) : String × Entry := (el.entry.key, el.entry)

/-- How the map leads to an element. -/
def link (el : Element) : String × Element := (el.entry.key, el)

variable {el x : Element} {id : Nat} {e : Entry}

@[simp] theorem id_assign : (el.assign id e).id = el.id := by
  unfold assign
  split <;> rfl

@[simp] theorem entry_assign_self : (el.assign el.id e).entry = e := by simp [assign]

theorem assign_of_ne (h : el.id ≠ id) : el.assign id e = el := if_neg h

end Element

namespace Recent

/-- The entries under their keys, the one that was used last in front. -/
def ranking (r : Recent) : Ranking := r.order.map Element.pair

/-- The list and the map are in step: the map leads from the keys of the entries to the elements of
the list and nowhere else. No two elements have the same key or the same identity. -/
structure Linked (r : Recent) : Prop where
  items : r.items.Perm (r.order.map Element.link)
  keys : (r.order.map (·.entry.key)).Nodup
  ids : (r.order.map (·.id)).Nodup
  made : ∀ el ∈ r.order, el.id < r.next

variable {r : Recent} {l : List Element} {el x : Element} {key : String} {e : Entry}

/-- Where a property tells elements apart, one is found by it. -/
theorem find?_eq_some_iff_mem {α β : Type} [BEq β] [LawfulBEq β] {f : α → β} {l : List α}
    (h : (l.map f).Nodup) {b : β} {a : α} : l.find? (f · == b) = some a ↔ a ∈ l ∧ f a = b := by
  constructor
  · intro hfind
    exact ⟨List.mem_of_find?_eq_some hfind, by simpa using List.find?_some hfind⟩
  · rintro ⟨hmem, rfl⟩
    obtain ⟨c, hc⟩ : ∃ c, l.find? (f · == f a) = some c :=
      Option.isSome_iff_exists.mp (List.find?_isSome.mpr ⟨a, hmem, by simp⟩)
    have heq : f c = f a := by simpa using List.find?_some hc
    rw [hc, List.inj_on_of_nodup_map h (List.mem_of_find?_eq_some hc) hmem heq]

theorem filter_ne_eq_erase {β : Type} [BEq β] [LawfulBEq β] {f : Element → β}
    (h : (l.map f).Nodup) (hel : el ∈ l) : l.filter (f · != f el) = l.erase el := by
  rw [h.of_map.erase_eq_filter]
  refine List.filter_congr fun x hx => ?_
  by_cases heq : x = el
  · rw [heq, bne_self_eq_false, bne_self_eq_false]
  · have hne : f x ≠ f el := fun hf => heq (List.inj_on_of_nodup_map h hx hel hf)
    rw [bne_iff_ne.mpr heq, bne_iff_ne.mpr hne]

/-- Assigning to one element changes no other. -/
theorem filter_assign (l : List Element) (id : Nat) (e : Entry) :
    (l.map (Element.assign id e)).filter (·.id != id) = l.filter (·.id != id) := by
  induction l with
  | nil => rfl
  | cons x rest ih =>
    rw [List.map_cons, List.filter_cons, List.filter_cons, ih, Element.id_assign]
    by_cases hid : x.id = id
    · simp [hid]
    · rw [Element.assign_of_ne hid]

/-- The map finds an element exactly by the key of its entry. -/
theorem Linked.find?_eq_some (h : r.Linked) :
    r.find? key = some el ↔ el ∈ r.order ∧ el.entry.key = key := by
  have hkeys : (r.items.map Prod.fst).Nodup := by
    rw [(h.items.map Prod.fst).nodup_iff, List.map_map]
    exact h.keys
  unfold find?
  rw [Option.map_eq_some_iff]
  constructor
  · rintro ⟨x, hx, rfl⟩
    obtain ⟨hmem, rfl⟩ := (find?_eq_some_iff_mem hkeys).mp hx
    obtain ⟨el, hel, rfl⟩ := List.mem_map.mp (h.items.mem_iff.mp hmem)
    exact ⟨hel, rfl⟩
  · rintro ⟨hel, rfl⟩
    refine ⟨el.link, (find?_eq_some_iff_mem hkeys).mpr ⟨?_, rfl⟩, rfl⟩
    exact h.items.mem_iff.mpr (List.mem_map_of_mem hel)

theorem Linked.find?_eq (h : r.Linked) (key : String) :
    r.find? key = r.order.find? (·.entry.key == key) := by
  apply Option.ext
  intro el
  rw [h.find?_eq_some, find?_eq_some_iff_mem h.keys]

theorem Linked.key_ne (h : r.Linked) (hfind : r.find? key = none) (hel : el ∈ r.order) :
    el.entry.key ≠ key := by
  intro hkey
  rw [h.find?_eq_some.mpr ⟨hel, hkey⟩] at hfind
  cases hfind

/-- Elements change their places in the list. -/
theorem Linked.reorder (h : r.Linked) (hl : l.Perm r.order) : Linked { r with order := l } where
  items := h.items.trans (hl.map _).symm
  keys := (hl.map _).nodup_iff.mpr h.keys
  ids := (hl.map _).nodup_iff.mpr h.ids
  made := fun _ hx => h.made _ (hl.mem_iff.mp hx)

theorem Linked.moveToFront_eq (h : r.Linked) (hel : el ∈ r.order) :
    r.moveToFront el = { r with order := el :: r.order.erase el } := by
  have hany : r.order.any (·.id == el.id) = true := List.any_eq_true.mpr ⟨el, hel, by simp⟩
  rw [moveToFront, if_pos hany, filter_ne_eq_erase h.ids hel]

theorem Linked.moveToFront (h : r.Linked) (hel : el ∈ r.order) : (r.moveToFront el).Linked := by
  rw [h.moveToFront_eq hel]
  exact h.reorder (List.perm_cons_erase hel).symm

/-- The new entry of an element has the key of the old one: the map still leads to it. -/
theorem Linked.assign (h : r.Linked) (hel : el ∈ r.order) (hkey : el.entry.key = e.key) :
    (r.assign el.id e).Linked := by
  have hkeys : ∀ x ∈ r.order, (x.assign el.id e).entry.key = x.entry.key := by
    intro x hx
    by_cases hid : x.id = el.id
    · rw [List.inj_on_of_nodup_map h.ids hx hel hid, Element.entry_assign_self, hkey]
    · rw [Element.assign_of_ne hid]
  refine ⟨?_, ?_, ?_, ?_⟩
  · refine (h.items.map _).trans (.of_eq ?_)
    rw [List.map_map, Recent.assign, List.map_map]
    refine List.map_congr_left fun x hx => ?_
    simp only [Function.comp_apply, Element.link, hkeys x hx]
  · have hsame : (r.assign el.id e).order.map (·.entry.key) = r.order.map (·.entry.key) := by
      rw [Recent.assign, List.map_map]
      exact List.map_congr_left hkeys
    exact hsame ▸ h.keys
  · simpa [Recent.assign, Function.comp_def] using h.ids
  · intro x hx
    obtain ⟨y, hy, rfl⟩ := List.mem_map.mp hx
    simpa [Recent.assign] using h.made y hy

/-- A new element under the key of its entry, which the map does not know yet. -/
theorem Linked.push (h : r.Linked) (hfind : r.find? e.key = none) :
    Linked { r with
      order := ⟨r.next, e⟩ :: r.order
      items := (e.key, ⟨r.next, e⟩) :: r.items
      next := r.next + 1 } where
  items := h.items.cons _
  keys := by
    rw [List.map_cons, List.nodup_cons]
    refine ⟨fun hmem => ?_, h.keys⟩
    obtain ⟨x, hx, hkey⟩ := List.mem_map.mp hmem
    exact h.key_ne hfind hx hkey
  ids := by
    rw [List.map_cons, List.nodup_cons]
    refine ⟨fun hmem => ?_, h.ids⟩
    obtain ⟨x, hx, hid⟩ := List.mem_map.mp hmem
    exact Nat.ne_of_lt (h.made x hx) hid
  made := by
    intro x hx
    rcases List.mem_cons.mp hx with rfl | hx
    · exact Nat.lt_succ_self _
    · exact Nat.lt_succ_of_lt (h.made x hx)

/-- The key of the last entry led to the last element and to no other one. -/
theorem Linked.dropOldest (h : r.Linked) (hne : r.order ≠ []) : (r.dropOldest hne).Linked := by
  have hsub := List.dropLast_sublist r.order
  refine ⟨?_, h.keys.sublist (hsub.map _), h.ids.sublist (hsub.map _),
    fun x hx => h.made x (hsub.subset hx)⟩
  refine (h.items.filter _).trans (.of_eq ?_)
  rw [List.filter_map]
  change (r.order.filter (·.entry.key != (r.order.getLast hne).entry.key)).map _ = _
  rw [filter_ne_eq_erase h.keys (List.getLast_mem hne)]
  congr 1
  obtain ⟨front, last, heq⟩ : ∃ front last, r.order = front ++ [last] :=
    ⟨_, _, (List.dropLast_append_getLast hne).symm⟩
  have hnot : last ∉ front := by
    have hnodup := h.keys.of_map
    rw [heq, List.nodup_append] at hnodup
    exact fun hmem => hnodup.2.2 last hmem last (by simp) rfl
  simp only [Recent.dropOldest, heq, List.getLast_append_singleton, List.dropLast_concat]
  rw [List.erase_append_right _ hnot, List.erase_cons_head, List.append_nil]

/-- Eviction cuts the list to the capacity, whatever its length. -/
theorem Linked.evict (h : r.Linked) : r.evict.1 = r.order.length - r.capacity ∧
    r.evict.2.order = r.order.take r.capacity ∧ r.evict.2.capacity = r.capacity ∧
      r.evict.2.Linked := by
  fun_induction Recent.evict r with
  | case1 r hfull rest ih =>
    obtain ⟨hcount, horder, hcapacity, hlinked⟩ := ih (h.dropOldest _)
    refine ⟨?_, ?_, hcapacity, hlinked⟩
    · change (Recent.evict _).1 + 1 = _
      rw [hcount]
      simp only [Recent.dropOldest, List.length_dropLast]
      omega
    · refine horder.trans ?_
      simp only [Recent.dropOldest]
      rw [List.dropLast_eq_take, List.take_take, Nat.min_eq_left (by omega)]
  | case2 r hfits =>
    have hle : r.order.length ≤ r.capacity := Nat.le_of_not_lt hfits
    exact ⟨(Nat.sub_eq_zero_of_le hle).symm, (List.take_of_length_le hle).symm, rfl, h⟩

end Recent

/-! ## Refinement -/

/-- The table stands for a ranking that fits the capacity, and its list and map are in step. -/
structure Recent.Refines (r : Recent) (bound : Nat) (m : Ranking) : Prop where
  capacity : r.capacity = bound
  linked : r.Linked
  ranking : r.ranking = m
  fits : m.length ≤ bound

namespace Recent.Refines

variable {r : Recent} {bound : Nat} {m : Ranking} {el : Element} {e : Entry}

theorem empty {next : Nat} : Refines { capacity := bound, next := next } bound [] where
  capacity := rfl
  linked := ⟨.nil, .nil, .nil, nofun⟩
  ranking := rfl
  fits := Nat.zero_le _

theorem size_eq (h : r.Refines bound m) : r.size = m.length := by
  rw [← h.ranking, Recent.ranking, List.length_map, size]

theorem nodup_keys (h : r.Refines bound m) : (m.map Prod.fst).Nodup := by
  rw [← h.ranking, Recent.ranking, List.map_map]
  exact h.linked.keys

/-- Without an element's key, the ranking is that of the other elements. -/
theorem filter_eq (h : r.Refines bound m) (hel : el ∈ r.order) :
    m.filter (·.1 != el.entry.key) = (r.order.erase el).map Element.pair := by
  rw [← h.ranking, Recent.ranking, List.filter_map, ← filter_ne_eq_erase h.linked.keys hel]
  rfl

/-- An element comes to the front, with the entry that it has or gets. -/
theorem use (h : r.Refines bound m) (hel : el ∈ r.order) {r' : Recent} {el' : Element}
    (hlinked : r'.Linked) (hcapacity : r'.capacity = r.capacity)
    (horder : r'.order = el' :: r.order.erase el) :
    r'.Refines bound (el'.pair :: m.filter (·.1 != el.entry.key)) := by
  refine ⟨hcapacity.trans h.capacity, hlinked, ?_, ?_⟩
  · rw [Recent.ranking, horder, h.filter_eq hel, List.map_cons]
  · have hfits := h.fits
    rw [← h.size_eq, size, (List.perm_cons_erase hel).length_eq] at hfits
    rw [h.filter_eq hel, List.length_cons, List.length_map]
    exact hfits

theorem moveToFront (h : r.Refines bound m) (hel : el ∈ r.order) :
    (r.moveToFront el).Refines bound (el.pair :: m.filter (·.1 != el.entry.key)) := by
  have hlinked := h.linked.moveToFront hel
  rw [h.linked.moveToFront_eq hel] at hlinked ⊢
  exact h.use hel hlinked rfl rfl

theorem get (h : r.Refines bound m) (key : String) :
    (r.get key).1 = (m.get key).1 ∧ (r.get key).2.Refines bound (m.get key).2 := by
  have hfind : m.find? (·.1 == key) = (r.find? key).map Element.pair := by
    rw [← h.ranking, Recent.ranking, h.linked.find?_eq, List.find?_map]
    rfl
  unfold Recent.get Ranking.get
  rw [hfind]
  cases hel : r.find? key with
  | none => exact ⟨rfl, h⟩
  | some el =>
    obtain ⟨hmem, rfl⟩ := h.linked.find?_eq_some.mp hel
    exact ⟨rfl, h.moveToFront hmem⟩

/-- An entry under a key that the table has: its element gets it and nothing is dropped. -/
theorem put_found (h : r.Refines bound m) (hfind : r.find? e.key = some el) :
    (r.put e.key e).1 = (m.put bound e).1 ∧ (r.put e.key e).2.Refines bound (m.put bound e).2 := by
  obtain ⟨hmem, hkey⟩ := h.linked.find?_eq_some.mp hfind
  have hassigned := h.linked.assign hmem hkey
  have hmem' : el.assign el.id e ∈ (r.assign el.id e).order := List.mem_map_of_mem hmem
  have hnext : (r.put e.key e).2.Refines bound
      ((el.assign el.id e).pair :: m.filter (·.1 != el.entry.key)) := by
    simp only [Recent.put, hfind]
    refine h.use hmem (hassigned.moveToFront hmem') ?_ ?_
    · rw [hassigned.moveToFront_eq hmem']
      rfl
    · rw [hassigned.moveToFront_eq hmem', ← filter_ne_eq_erase hassigned.ids hmem',
        Element.id_assign, Recent.assign, filter_assign, filter_ne_eq_erase h.linked.ids hmem]
  rw [Element.pair, Element.entry_assign_self, hkey] at hnext
  have hput : m.put bound e = (0, (e.key, e) :: m.filter (·.1 != e.key)) := by
    simp only [Ranking.put, List.take_of_length_le hnext.fits, List.drop_of_length_le hnext.fits,
      List.length_nil]
  rw [hput]
  exact ⟨by simp only [Recent.put, hfind], hnext⟩

/-- An entry under a new key: what then stands beyond the capacity goes. -/
theorem put_new (h : r.Refines bound m) (hfind : r.find? e.key = none) :
    (r.put e.key e).1 = (m.put bound e).1 ∧ (r.put e.key e).2.Refines bound (m.put bound e).2 := by
  obtain ⟨hcount, horder, hcapacity, hlinked⟩ := (h.linked.push hfind).evict
  have hfilter : m.filter (·.1 != e.key) = r.order.map Element.pair := by
    rw [← h.ranking, List.filter_eq_self.mpr]
    · rfl
    · intro x hx
      obtain ⟨el, hel, rfl⟩ := List.mem_map.mp hx
      simpa [Element.pair] using h.linked.key_ne hfind hel
  simp only [Recent.put, hfind, Ranking.put, hfilter]
  refine ⟨?_, hcapacity.trans h.capacity, hlinked, ?_, List.length_take_le _ _⟩
  · rw [hcount, ← h.capacity, List.length_drop, List.length_cons, List.length_cons,
      List.length_map]
  · rw [Recent.ranking, horder, ← h.capacity, List.map_take]
    rfl

theorem put (h : r.Refines bound m) (e : Entry) :
    (r.put e.key e).1 = (m.put bound e).1 ∧ (r.put e.key e).2.Refines bound (m.put bound e).2 := by
  cases hfind : r.find? e.key with
  | some el => exact h.put_found hfind
  | none => exact h.put_new hfind

/-- Every use answers as the reference does, and the table goes on standing for it. -/
theorem serve (h : r.Refines bound m) (u : Use) :
    (r.serve u).1 = (m.serve bound u).1 ∧ (r.serve u).2.Refines bound (m.serve bound u).2 := by
  cases u with
  | get key =>
    obtain ⟨hanswer, hnext⟩ := h.get key
    exact ⟨congrArg Answer.entry hanswer, hnext⟩
  | put e =>
    obtain ⟨hdropped, hnext⟩ := h.put e
    exact ⟨congrArg Answer.dropped hdropped, hnext⟩
  | clear => exact ⟨rfl, h.capacity ▸ empty⟩

theorem run (h : r.Refines bound m) (uses : List Use) :
    (r.run uses).1 = (m.run bound uses).1 ∧ (r.run uses).2.Refines bound (m.run bound uses).2 := by
  induction uses generalizing r m with
  | nil => exact ⟨rfl, h⟩
  | cons u rest ih =>
    obtain ⟨hanswer, hnext⟩ := h.serve u
    obtain ⟨hanswers, hlast⟩ := ih hnext
    simp only [Recent.run, Ranking.run]
    exact ⟨by rw [hanswer, hanswers], hlast⟩

theorem dropped_le_one (h : r.Refines bound m) {u : Use} {count : Nat}
    (hserve : (m.serve bound u).1 = .dropped count) : count ≤ 1 := by
  cases u with
  | get key => simp [Ranking.serve] at hserve
  | clear => simp [Ranking.serve] at hserve
  | put e =>
    have hfilter := List.length_filter_le (·.1 != e.key) m
    have hfits := h.fits
    simp only [Ranking.serve, Ranking.put, Answer.dropped.injEq, List.length_drop,
      List.length_cons] at hserve
    omega

theorem run_dropped_le_one (h : r.Refines bound m) (uses : List Use)
    {count : Nat} (hmem : .dropped count ∈ (m.run bound uses).1) : count ≤ 1 := by
  induction uses generalizing r m with
  | nil => simp [Ranking.run] at hmem
  | cons u rest ih =>
    rcases List.mem_cons.mp hmem with heq | hmem
    · exact h.dropped_le_one heq.symm
    · exact ih (h.serve u).2 hmem

end Recent.Refines

/-- After any uses the table stands for the reference list: it gave the same answers, holds the
same entries in the same order of use, and no put dropped more than the one entry at the end of the
list. The keys of the map are exactly those of the entries in the list, each with its element. -/
theorem run_refines_ranking (capacity : Nat) (uses : List Use) :
    let table := Recent.run { capacity } uses
    let reference := Ranking.run capacity [] uses
    table.1 = reference.1 ∧ table.2.ranking = reference.2 ∧ (reference.2.map Prod.fst).Nodup ∧
      table.2.size = reference.2.length ∧ table.2.size ≤ capacity ∧
      (∀ count, .dropped count ∈ table.1 → count ≤ 1) ∧ table.2.Linked := by
  have hstart : Recent.Refines { capacity } capacity [] := Recent.Refines.empty
  obtain ⟨hanswers, hrefines⟩ := hstart.run uses
  refine ⟨hanswers, hrefines.ranking, hrefines.nodup_keys, hrefines.size_eq, ?_, ?_,
    hrefines.linked⟩
  · rw [hrefines.size_eq]
    exact hrefines.fits
  · intro count hmem
    rw [hanswers] at hmem
    exact hstart.run_dropped_le_one uses hmem

/-- An entry with nothing but a key. -/
def Entry.blank (key : String) : Entry where
  schema := schemaVersion
  key := key
  fingerprint := ""
  name := ⟨[]⟩
  spirv := []
  abi := ⟨"main", (1, 1, 1), "f32", 4, 0, ⟨0, 0, 0, false, 0⟩, 4, 0, 0⟩
  unsupported := []

/-- Three entries in a table for two: asking for the first makes the second the one to go, from the
list and from the map. -/
theorem run_refines_ranking_evicting :
    let uses := [.put (.blank "a"), .put (.blank "b"), .get "a", .put (.blank "c"), .get "b"]
    let table := Recent.run { capacity := 2 } uses
    table.1 = [.dropped 0, .dropped 0, .entry (some (.blank "a")), .dropped 1, .entry none] ∧
      table.2.ranking = [("c", .blank "c"), ("a", .blank "a")] ∧
      table.2.items.map Prod.fst = ["c", "a"] ∧ table.2.Linked := by
  obtain ⟨hanswers, hranking, -, -, -, -, hlinked⟩ := run_refines_ranking 2
    [.put (.blank "a"), .put (.blank "b"), .get "a", .put (.blank "c"), .get "b"]
  exact ⟨hanswers.trans (by decide), hranking.trans (by decide), by decide +kernel, hlinked⟩

end Elementwise.Cache
