import Elementwise.Proofs.CacheRuns
import Elementwise.Proofs.Recency
import Mathlib.Data.List.Dedup

/-!
# The counters of a cache balance

A cache is asked for kernels and purged, in any order. Every request counts as a hit in memory, a
hit in the store or a miss. A miss counts as a compilation, unless the compilation fails. What came
from the store or was compiled is still in memory, or was dropped for something new, or by a purge.
As long as there is room for all keys that are asked for, nothing is dropped for something new, and
no key is compiled twice.
-/
namespace Elementwise.Cache
open IR Spirv

/-! ## Runs -/

inductive Call where
  | get (p : Program)
  | purge

/-- The call asks for a program that has a key. -/
def Call.key? (options : Options) : Call → Option String
  | .get p => (identityOf options p).toOption.map Identity.key
  | .purge => none

/-- What is seen of a run from outside. -/
structure Account where
  /-- The requests that were answered by a failed compilation. -/
  failures : Nat := 0
  /-- The entries that purges dropped from memory. -/
  purged : Nat := 0
  /-- The keys for which a compilation was counted, the latest first. -/
  compiled : List String := []

structure Session (σ : Type) where
  cache : Cache
  disk : σ
  account : Account := {}

/-- A request was answered, and left a cache behind. -/
def Account.answered (a : Account) (before : Cache) (p : Program) (result : Except Error Entry)
    (after : Cache) : Account where
  failures := a.failures + if result matches .error (.compile _ _) then 1 else 0
  purged := a.purged
  compiled :=
    if after.stats.compiles = before.stats.compiles then a.compiled
    else ((before.identity p).toOption.map Identity.key).toList ++ a.compiled

section Sessions

variable {σ : Type} [Files (StateM σ)]

def storeIn (dir : Option String) : Option (Store (StateM σ)) := dir.map .inDirectory

namespace Session

def serve (dir : Option String) (s : Session σ) : Call → Session σ
  | .get p =>
    let answer := s.cache.get (storeIn dir) (some p) s.disk
    ⟨answer.1.cache, answer.2, s.account.answered s.cache p answer.1.result answer.1.cache⟩
  | .purge =>
    let purged := s.cache.purge (storeIn dir) s.disk
    ⟨purged.1.2, purged.2, { s.account with purged := s.account.purged + s.cache.size }⟩

def run (dir : Option String) (s : Session σ) (calls : List Call) : Session σ :=
  calls.foldl (serve dir) s

end Session

end Sessions

/-! ## Entries in memory -/

namespace Recent.Refines

variable {r : Recent} {bound : Nat} {m : Ranking} {key : String} {e : Entry} {el : Element}

theorem perm_moveToFront (h : r.Refines bound m) (hfind : r.find? key = some el) :
    ∃ m', (r.moveToFront el).Refines bound m' ∧ m'.Perm m := by
  obtain ⟨hmem, rfl⟩ := h.linked.find?_eq_some.mp hfind
  refine ⟨_, h.moveToFront hmem, ?_⟩
  rw [h.filter_eq hmem, ← h.ranking]
  exact (List.perm_cons_erase hmem).symm.map Element.pair

/-- An entry under a new key comes to the front, and is counted or drops what is beyond. -/
theorem put_cons (h : r.Refines bound m) (hkey : e.key = key) (hfind : r.find? key = none) :
    key ∉ m.map Prod.fst ∧ (r.put key e).2.Refines bound (((key, e) :: m).take bound) ∧
      (r.put key e).1 = m.length + 1 - bound := by
  subst hkey
  have hnew : ∀ x ∈ m, x.1 ≠ e.key := by
    rw [← h.ranking]
    intro x hx
    obtain ⟨el, hel, rfl⟩ := List.mem_map.mp hx
    exact h.linked.key_ne hfind hel
  have hfilter : m.filter (·.1 != e.key) = m :=
    List.filter_eq_self.mpr fun x hx => by simpa using hnew x hx
  obtain ⟨hdropped, hnext⟩ := h.put e
  simp only [Ranking.put, hfilter] at hdropped hnext
  refine ⟨fun hmem => ?_, hnext, by rw [hdropped, List.length_drop, List.length_cons]⟩
  obtain ⟨x, hx, heq⟩ := List.mem_map.mp hmem
  exact hnew x hx heq

theorem put_size (h : r.Refines bound m) (hkey : e.key = key) (hfind : r.find? key = none) :
    (∃ m', (r.put key e).2.Refines bound m') ∧
      (r.put key e).2.size + (r.put key e).1 = r.size + 1 := by
  obtain ⟨-, hnext, hdropped⟩ := h.put_cons hkey hfind
  refine ⟨⟨_, hnext⟩, ?_⟩
  rw [hdropped, hnext.size_eq, h.size_eq, List.length_take, List.length_cons]
  omega

end Recent.Refines

/-! ## The balance -/

/-- The counts of a cache as numbers. -/
structure Tally where
  hits : Nat := 0
  storeHits : Nat := 0
  misses : Nat := 0
  compiles : Nat := 0
  evictions : Nat := 0

/-- What the counters show of them. -/
def Tally.stats (t : Tally) : CacheStats :=
  ⟨.ofNat t.hits, .ofNat t.storeHits, .ofNat t.misses, .ofNat t.compiles, .ofNat t.evictions⟩

/-- The counts after requests for programs with keys, `gets` of them. -/
structure Balanced (bound gets : Nat) (c : Cache) (a : Account) (t : Tally) : Prop where
  ranking : ∃ m, c.memory.Refines bound m
  stats : c.stats = t.stats
  gets : t.hits + t.storeHits + t.misses = gets
  failures : t.misses = t.compiles + a.failures
  entries : t.storeHits + t.compiles = c.size + t.evictions + a.purged

variable {σ : Type} [Files (StateM σ)] {dir : Option String} {options : Options}
  {c c' : Cache} {a : Account} {p : Program} {d d' : σ} {result : Except Error Entry}
  {bound gets : Nat}

theorem storeIn_get_key {s : Store (StateM σ)} {key : String} {e : Entry}
    (hstore : storeIn dir = some s) (h : (s.get key d).1 = .ok (some e)) : e.key = key := by
  obtain ⟨dir, -, rfl⟩ := Option.map_eq_some_iff.mp hstore
  obtain ⟨-, -, -, -, hkey⟩ := inDirectory_get_ok h
  exact hkey

/-- One request, by where its answer comes from. -/
theorem Gets.balanced (h : Gets c (storeIn dir) p d result c' d') {t : Tally}
    (hb : Balanced bound gets c a t) :
    ∃ t', Balanced bound (gets + if (c.identity p).isOk then 1 else 0) c'
      (a.answered c p result c') t' := by
  obtain ⟨⟨m, hm⟩, hstats, hgets, hfailures, hentries⟩ := hb
  unfold Cache.size at hentries
  cases h with
  | panic hid =>
    rw [hid]
    exact ⟨t, ⟨m, hm⟩, hstats, hgets, hfailures, hentries⟩
  | found hid hfind =>
    obtain ⟨m', hnext, hperm⟩ := hm.perm_moveToFront hfind
    have hsize := hperm.length_eq
    rw [← hnext.size_eq, ← hm.size_eq] at hsize
    refine ⟨{ t with hits := t.hits + 1 }, ⟨m', hnext⟩, ?_, ?_, ?_, ?_⟩
    · simp [hstats, Tally.stats]
    all_goals
      simp only [Account.answered, hid, Except.isOk, Except.toBool, Cache.size, if_true,
        Bool.false_eq_true, if_false]
      omega
  | @stored id _ e hid hfind hstore hget =>
    obtain ⟨hnext, hsize⟩ := hm.put_size (storeIn_get_key hstore hget) hfind
    refine ⟨{ t with
      storeHits := t.storeHits + 1
      evictions := t.evictions + (c.memory.put id.key e).1 }, hnext, ?_, ?_, ?_, ?_⟩
    · simp [hstats, Tally.stats]
    all_goals
      simp only [Account.answered, hid, Except.isOk, Except.toBool, Cache.size, if_true,
        Bool.false_eq_true, if_false]
      omega
  | failed hid hfind hcompile =>
    refine ⟨{ t with misses := t.misses + 1 }, ⟨m, hm⟩, ?_, ?_, ?_, ?_⟩
    · simp [hstats, Tally.stats]
    all_goals
      simp only [Account.answered, hid, Except.isOk, Except.toBool, Cache.size, if_true]
      omega
  | @compiled id k hid hfind hcompile =>
    have hkey : (entryOf id p k).key = id.key := rfl
    obtain ⟨hnext, hsize⟩ := hm.put_size hkey hfind
    refine ⟨{ t with
      misses := t.misses + 1
      compiles := t.compiles + 1
      evictions := t.evictions + (c.memory.put id.key (entryOf id p k)).1 }, hnext, ?_, ?_, ?_, ?_⟩
    · simp [hstats, Tally.stats]
    all_goals
      simp only [Account.answered, hid, Except.isOk, Except.toBool, Cache.size, if_true,
        Bool.false_eq_true, if_false]
      omega

/-! ## At most one compilation -/

/-- There is room for all keys that may be asked for, and what was compiled is in memory. -/
structure Resident (options : Options) (keys : List String) (c : Cache) (a : Account)
    (bound : Nat) (m : Ranking) : Prop where
  settles : c.options = settled options
  ranking : c.memory.Refines bound m
  room : keys.length ≤ bound
  asked : m.map Prod.fst ⊆ keys
  kept : a.compiled ⊆ m.map Prod.fst
  once : a.compiled.Nodup

variable {keys : List String} {key : String} {m m' : Ranking} {e : Entry}

/-- What is put in memory is under its key from now on, as there is room for it. -/
theorem Resident.put (h : Resident options keys c a bound m) (hkey : e.key = key)
    (hfind : c.memory.find? key = none) (hasked : key ∈ keys) (stats : CacheStats) {b : Account}
    (hb : b.compiled = a.compiled ∨ b.compiled = key :: a.compiled) :
    ∃ m', Resident options keys ⟨c.options, (c.memory.put key e).2, stats⟩ b bound m' := by
  obtain ⟨hnew, hnext, -⟩ := h.ranking.put_cons hkey hfind
  have hsub : key :: m.map Prod.fst ⊆ keys := List.cons_subset.mpr ⟨hasked, h.asked⟩
  have hfits : ((key, e) :: m).length ≤ bound := by
    have hnodup := List.nodup_cons.mpr ⟨hnew, h.ranking.nodup_keys⟩
    have hlength := (List.subperm_of_subset hnodup hsub).length_le
    simp only [List.length_cons, List.length_map] at hlength ⊢
    exact hlength.trans h.room
  rw [List.take_of_length_le hfits] at hnext
  refine ⟨_, h.settles, hnext, h.room, hsub, ?_, ?_⟩
  · rcases hb with hb | hb <;> rw [hb]
    · exact List.subset_cons_of_subset key h.kept
    · exact List.cons_subset_cons key h.kept
  · rcases hb with hb | hb <;> rw [hb]
    · exact h.once
    · exact List.nodup_cons.mpr ⟨fun hmem => hnew (h.kept hmem), h.once⟩

/-- Nothing is put in memory, and nothing is compiled. -/
theorem Resident.same (h : Resident options keys c a bound m) {b : Account}
    (hoptions : c'.options = c.options) (hm : c'.memory.Refines bound m') (hperm : m'.Perm m)
    (hb : b.compiled = a.compiled) : Resident options keys c' b bound m' := by
  have hkeys := hperm.map Prod.fst
  refine ⟨hoptions.trans h.settles, hm, h.room, List.Subset.trans hkeys.subset h.asked, ?_, ?_⟩
  · rw [hb]
    exact List.Subset.trans h.kept hkeys.symm.subset
  · rw [hb]
    exact h.once

theorem Gets.resident (h : Gets c (storeIn dir) p d result c' d')
    (hp : ∀ key ∈ (Call.get p).key? options, key ∈ keys)
    (hr : Resident options keys c a bound m) :
    ∃ m', Resident options keys c' (a.answered c p result c') bound m' := by
  have hkey : ∀ {id}, c.identity p = .ok id → id.key ∈ keys := by
    intro id hid
    rw [identity_eq hr.settles] at hid
    exact hp id.key (by simp [Call.key?, hid, Except.toOption])
  cases h with
  | panic hid => exact ⟨m, hr.same rfl hr.ranking (.refl m) (if_pos rfl)⟩
  | found hid hfind =>
    obtain ⟨m', hnext, hperm⟩ := hr.ranking.perm_moveToFront hfind
    exact ⟨m', hr.same rfl hnext hperm (if_pos rfl)⟩
  | stored hid hfind hstore hget =>
    exact hr.put (storeIn_get_key hstore hget) hfind (hkey hid) _ (.inl (if_pos rfl))
  | failed hid hfind hcompile => exact ⟨m, hr.same rfl hr.ranking (.refl m) (if_pos rfl)⟩
  | @compiled id k hid hfind hcompile =>
    have hown : (entryOf id p k).key = id.key := rfl
    refine hr.put hown hfind (hkey hid) _ (.inr ?_)
    simp [Account.answered, hid, Except.toOption]

/-! ## Runs balance -/

theorem Gets.options_eq (h : Gets c (storeIn dir) p d result c' d') :
    c'.options = c.options := by
  cases h <;> rfl

namespace Session

variable {s : Session σ}

theorem options_serve (s : Session σ) (call : Call) :
    (s.serve dir call).cache.options = s.cache.options := by
  cases call with
  | get p => exact (get_gets s.cache (storeIn dir) p s.disk).options_eq
  | purge =>
    change (s.cache.purge (storeIn dir) s.disk).1.2.options = _
    rw [memory_purge]

theorem serve_balanced (hoptions : s.cache.options = settled options) {t : Tally}
    (h : Balanced bound gets s.cache s.account t) (call : Call) :
    ∃ t', Balanced bound (gets + if (call.key? options).isSome then 1 else 0)
      (s.serve dir call).cache (s.serve dir call).account t' := by
  cases call with
  | get p =>
    have hasked : ((Call.get p).key? options).isSome = (s.cache.identity p).isOk := by
      rw [identity_eq hoptions, Call.key?]
      cases identityOf options p <;> rfl
    rw [hasked]
    exact (get_gets s.cache (storeIn dir) p s.disk).balanced h
  | purge =>
    obtain ⟨⟨m, hm⟩, hstats, hgets, hfailures, hentries⟩ := h
    simp only [serve, memory_purge]
    refine ⟨t, ⟨[], hm.capacity ▸ Recent.Refines.empty⟩, hstats, hgets, hfailures, ?_⟩
    rw [hentries]
    simp only [Cache.size, Recent.size, Recent.clear, List.length_nil]
    omega

theorem run_balanced (calls : List Call) (hoptions : s.cache.options = settled options)
    {t : Tally} (h : Balanced bound gets s.cache s.account t) :
    ∃ t', Balanced bound (gets + calls.countP fun call => (call.key? options).isSome)
      (s.run dir calls).cache (s.run dir calls).account t' := by
  induction calls generalizing s gets t with
  | nil => exact ⟨t, h⟩
  | cons call calls ih =>
    obtain ⟨t', hnext⟩ : ∃ t', Balanced bound _ (s.serve dir call).cache
        (s.serve dir call).account t' := serve_balanced hoptions h call
    rw [List.countP_cons, Nat.add_comm (calls.countP _), ← Nat.add_assoc]
    exact ih ((options_serve s call).trans hoptions) hnext

theorem run_resident (calls : List Call) (hget : ∀ call ∈ calls, call ≠ .purge)
    (hkeys : calls.filterMap (Call.key? options) ⊆ keys)
    (h : Resident options keys s.cache s.account bound m) :
    ∃ m', Resident options keys (s.run dir calls).cache (s.run dir calls).account bound m' := by
  induction calls generalizing s m with
  | nil => exact ⟨m, h⟩
  | cons call calls ih =>
    rw [List.forall_mem_cons] at hget
    cases call with
    | purge => exact absurd rfl hget.1
    | get p =>
      have hp : ∀ key ∈ (Call.get p).key? options, key ∈ keys := fun key hkey =>
        hkeys (List.mem_filterMap.mpr ⟨.get p, List.mem_cons_self, hkey⟩)
      obtain ⟨m', hnext⟩ := (get_gets s.cache (storeIn dir) p s.disk).resident hp h
      refine ih hget.2 (fun key hkey => hkeys ?_) hnext
      obtain ⟨other, hother, hsome⟩ := List.mem_filterMap.mp hkey
      exact List.mem_filterMap.mpr ⟨other, List.mem_cons_of_mem _ hother, hsome⟩

end Session

/-- From an empty cache, after any calls: every request for a program that has a key is counted
once, the misses are the compilations and the failures, and what was taken in is in memory or was
dropped. The counters are words and these are equations of words; they are equations of numbers
as long as the requests can be counted. If nothing was purged and there is room for all keys, none
of them was compiled twice. -/
theorem run_balances (dir : Option String) (capacity : Int) (options : Options) (d : σ)
    (calls : List Call) :
    let start := create capacity options
    let s := Session.run dir ⟨start, d, {}⟩ calls
    let keys := calls.filterMap (Call.key? options)
    let n := s.cache.stats
    (n.hits + n.storeHits + n.misses = .ofNat keys.length ∧
      n.misses = n.compiles + .ofNat s.account.failures ∧
      n.storeHits + n.compiles = .ofNat s.cache.size + n.evictions + .ofNat s.account.purged) ∧
      (keys.length < UInt64.size →
        n.hits.toNat + n.storeHits.toNat + n.misses.toNat = keys.length ∧
        n.misses.toNat = n.compiles.toNat + s.account.failures ∧
        n.storeHits.toNat + n.compiles.toNat =
          s.cache.size + n.evictions.toNat + s.account.purged) ∧
      ((∀ call ∈ calls, call ≠ .purge) → keys.dedup.length ≤ start.memory.capacity →
        s.account.compiled.Nodup) := by
  intro start s keys n
  have hempty : Balanced start.memory.capacity 0 start {} {} :=
    ⟨⟨[], Recent.Refines.empty⟩, rfl, rfl, rfl, rfl⟩
  obtain ⟨t, hrun⟩ : ∃ t, Balanced start.memory.capacity _ s.cache s.account t :=
    Session.run_balanced calls rfl hempty
  have hn : n = t.stats := hrun.stats
  have hgets : t.hits + t.storeHits + t.misses = keys.length := by
    rw [hrun.gets, Nat.zero_add, List.length_filterMap_eq_countP]
  have hfailures := hrun.failures
  have hentries := hrun.entries
  refine ⟨?_, fun hlt => ?_, fun hget hroom => ?_⟩
  · simp only [hn, Tally.stats, ← UInt64.ofNat_add, ← hgets, ← hfailures, ← hentries, and_self]
  · have hword : ∀ k ≤ keys.length, (UInt64.ofNat k).toNat = k := fun k hk =>
      UInt64.toNat_ofNat_of_lt' (Nat.lt_of_le_of_lt hk hlt)
    simp only [hn, Tally.stats]
    rw [hword t.hits (by omega), hword t.storeHits (by omega), hword t.misses (by omega),
      hword t.compiles (by omega), hword t.evictions (by omega)]
    exact ⟨hgets, hfailures, hentries⟩
  · have hstart : Resident options keys.dedup start {} start.memory.capacity [] :=
      ⟨rfl, Recent.Refines.empty, hroom, List.nil_subset _, List.nil_subset _, List.nodup_nil⟩
    obtain ⟨m, hresident⟩ : ∃ m, Resident options keys.dedup s.cache s.account _ m :=
      Session.run_resident calls hget (List.subset_dedup keys) hstart
    exact hresident.once

/-- Two programs are asked for, the first one twice; the other cannot be compiled. -/
def repeated : List Call := [.get shifting, .get ⟨"hollow", [], []⟩, .get shifting]

theorem run_balances_repeated :
    let s := Session.run none ⟨create 2 { debug := true }, FileTree.empty [], {}⟩ repeated
    (∀ call ∈ repeated, call ≠ .purge) ∧
      (repeated.filterMap (Call.key? { debug := true })).dedup.length ≤ 2 ∧
      s.cache.stats = ⟨1, 0, 2, 1, 0⟩ ∧ s.account.compiled.Nodup := by
  have hget : ∀ call ∈ repeated, call ≠ .purge := by simp [repeated]
  have hroom : (repeated.filterMap (Call.key? { debug := true })).dedup.length ≤ 2 := by
    decide +kernel
  have hstats : (Session.run none ⟨create 2 { debug := true }, FileTree.empty [], {}⟩
      repeated).cache.stats = ⟨1, 0, 2, 1, 0⟩ := by decide +kernel
  obtain ⟨-, -, honce⟩ := run_balances none 2 { debug := true } (FileTree.empty []) repeated
  exact ⟨hget, hroom, hstats, honce hget hroom⟩

end Elementwise.Cache
