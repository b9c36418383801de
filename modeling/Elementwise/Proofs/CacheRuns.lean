import Elementwise.Cache
import Elementwise.Files.Tree
import Elementwise.Proofs.Compilation
import Elementwise.Proofs.Recency

/-!
# The cache is transparent

Caches with one set of options are asked for kernels and purged, in any order, each in memory only
or over one directory. Whatever is kept, in memory or in a file, was compiled for its key: what one
request preserves, a whole run preserves. So a kernel that is returned is one that was compiled for
the program, or for an earlier one of the same key. A request that fails keeps nothing.

The directory may lose files, and reading may fail or give what no cache has put there, as long as
that is not an entry of the schema and the key that were asked for.
-/
namespace Elementwise.Cache
open IR Spirv

/-! ## Runs -/

/-- A cache, and whether it keeps its entries in the directory too. -/
structure InUse where
  cache : Cache
  stored : Bool

structure World (σ : Type) where
  caches : List InUse
  disk : σ

inductive Request where
  | create (capacity : Int) (stored : Bool)
  | get (cache : Nat) (program : Option Program)
  | purge (cache : Nat)

/-- A program was asked for. -/
def Asked (requests : List Request) (p : Program) : Prop :=
  ∃ cache, Request.get cache (some p) ∈ requests

section Worlds

variable {σ : Type} [Files (StateM σ)]

def InUse.store (dir : String) (u : InUse) : Option (Store (StateM σ)) :=
  if u.stored then some (.inDirectory dir) else none

namespace World

/-- Asks a cache for a kernel. -/
def ask (dir : String) (w : World σ) (cache : Nat) (program : Option Program) :
    Option (Except Error Entry × World σ) :=
  w.caches[cache]?.map fun u =>
    let answer := u.cache.get (u.store dir) program w.disk
    (answer.1.result, ⟨w.caches.set cache ⟨answer.1.cache, u.stored⟩, answer.2⟩)

/-- The world after a request. A cache whose directory cannot be opened is not created. -/
def serve (dir : String) (options : Options) (w : World σ) : Request → World σ
  | .create capacity false => { w with caches := w.caches ++ [⟨create capacity options, false⟩] }
  | .create capacity true =>
    let opened := (Store.open dir : StateM σ (Except FileError (Store (StateM σ)))) w.disk
    ⟨if opened.1.isOk then w.caches ++ [⟨create capacity options, true⟩] else w.caches, opened.2⟩
  | .get cache program => ((w.ask dir cache program).map Prod.snd).getD w
  | .purge cache =>
    match w.caches[cache]? with
    | none => w
    | some u =>
      let purged := u.cache.purge (u.store dir) w.disk
      ⟨w.caches.set cache ⟨purged.1.2, u.stored⟩, purged.2⟩

def run (dir : String) (options : Options) (w : World σ) (requests : List Request) : World σ :=
  requests.foldl (serve dir options) w

end World

/-- What is assumed of a disk: reading changes nothing and gives what some file holds, or what is
no entry of the schema and the key; a file holds what was put into one. -/
structure Disk (σ : Type) [Files (StateM σ)] (dir : String) where
  Contents : Type
  contents : σ → Contents
  /-- Some file holds these bytes. -/
  Holds : Contents → List UInt8 → Prop
  read_contents : ∀ path d, contents ((Files.read path : StateM σ _) d).2 = contents d
  read_holds : ∀ key d content, ((Files.read (entryPath dir key) : StateM σ _) d).1 = .ok content →
    Holds (contents d) content ∨
      ∀ e, Entry.ofBytes? content = some e → e.schema ≠ schemaVersion ∨ e.key ≠ key
  replace_holds : ∀ path bytes d content,
    Holds (contents ((Files.replace path bytes : StateM σ _) d).2) content →
      Holds (contents d) content ∨ content = bytes
  removeAll_holds : ∀ path d content,
    Holds (contents ((Files.removeAll path : StateM σ _) d).2) content → Holds (contents d) content
  makeDirectories_holds : ∀ path d content,
    Holds (contents ((Files.makeDirectories path : StateM σ _) d).2) content →
      Holds (contents d) content

end Worlds

/-! ## Options and keys -/

/-- The options that a cache compiles with. -/
def settled (options : Options) : Options := (create 0 options).options

/-- What identifies a program in caches with given options. -/
def identityOf (options : Options) (p : Program) : Except Panic Identity :=
  (create 0 options).identity p

variable {c : Cache} {e : Entry} {u : InUse} {key : String}

theorem identity_eq {options : Options} (h : c.options = settled options) (p : Program) :
    c.identity p = identityOf options p := by
  rw [identityOf, identity, identity, h]
  rfl

/-- The default entry point is the one that the empty name stands for. -/
theorem compileLogged_settled (options : Options) (p : Program) :
    compileLogged p (settled options) = compileLogged p options := by
  unfold settled create
  dsimp only
  split
  next hempty =>
    have hdefault : (Text.ofString defaultEntryPoint).isEmpty = false := by decide +kernel
    have hentry : ∀ k function, Gen.emitEntry { options with entryPoint := defaultEntryPoint } k
        function = Gen.emitEntry options k function := by
      intro k function
      unfold Gen.emitEntry
      simp only [hdefault, hempty, Bool.false_eq_true, if_false, if_true]
    have hassemble : Gen.assemble p { options with entryPoint := defaultEntryPoint } =
        Gen.assemble p options := by
      unfold Gen.assemble
      simp only [hentry]
      rfl
    unfold compileLogged
    rw [hassemble]
    rfl
  next => rfl

theorem compile_eq {options : Options} (h : c.options = settled options) (p : Program) :
    compile p c.options = compile p options := by
  rw [h, compile, compile, compileLogged_settled]

/-! ## What is kept in memory -/

namespace Recent

variable {P Q : String → Entry → Prop} {r : Recent} {el : Element}

/-- The table stands for a ranking, in which all entries are as their keys ask. -/
def All (P : String → Entry → Prop) (r : Recent) : Prop :=
  ∃ bound m, r.Refines bound m ∧ ∀ x ∈ m, P x.1 x.2

theorem All.empty (bound next : Nat) : All P { capacity := bound, next := next } :=
  ⟨bound, [], .empty, nofun⟩

theorem All.mono (hmono : ∀ key e, P key e → Q key e) (h : r.All P) : r.All Q := by
  obtain ⟨bound, m, hrefines, hall⟩ := h
  exact ⟨bound, m, hrefines, fun x hx => hmono _ _ (hall x hx)⟩

theorem All.find? (h : r.All P) (hfind : r.find? key = some el) : P key el.entry := by
  obtain ⟨bound, m, hrefines, hall⟩ := h
  obtain ⟨hmem, rfl⟩ := hrefines.linked.find?_eq_some.mp hfind
  exact hall el.pair (hrefines.ranking ▸ List.mem_map_of_mem hmem)

theorem All.moveToFront (h : r.All P) (hfind : r.find? key = some el) :
    (r.moveToFront el).All P := by
  have hvalue := h.find? hfind
  obtain ⟨bound, m, hrefines, hall⟩ := h
  obtain ⟨hmem, rfl⟩ := hrefines.linked.find?_eq_some.mp hfind
  refine ⟨bound, _, hrefines.moveToFront hmem, List.forall_mem_cons.mpr ⟨hvalue, ?_⟩⟩
  exact fun x hx => hall x (List.mem_of_mem_filter hx)

theorem All.put (h : r.All P) (hkey : e.key = key) (hvalue : P key e) :
    (r.put key e).2.All P := by
  subst hkey
  obtain ⟨bound, m, hrefines, hall⟩ := h
  refine ⟨bound, _, (hrefines.put e).2, fun x hx => ?_⟩
  rcases List.mem_cons.mp (List.mem_of_mem_take hx) with rfl | hx
  · exact hvalue
  · exact hall x (List.mem_of_mem_filter hx)

end Recent

/-! ## One request -/

section Requests

variable {σ : Type}

/-- Only the first operation touches the disk. -/
theorem bind_disk {α β : Type} {x : StateM σ α} {f : α → StateM σ β}
    (hf : ∀ a d, (f a d).2 = d) (d : σ) : ((x >>= f) d).2 = (x d).2 :=
  hf _ _

/-- The disk after a key was looked for. -/
def looked (store : Option (Store (StateM σ))) (key : String) (d : σ) : σ :=
  (store.map fun s => (s.get key d).2).getD d

/-- The disk after an entry was put. -/
def written (store : Option (Store (StateM σ))) (e : Entry) (d : σ) : σ :=
  (store.map fun s => (s.put e d).2).getD d

/-- What a request for a program can do to a cache and the disk. -/
inductive Gets (c : Cache) (store : Option (Store (StateM σ))) (p : Program) (d : σ) :
    Except Error Entry → Cache → σ → Prop
  | panic {f : Panic} (hid : c.identity p = .error f) :
    Gets c store p d (.error (.panic f)) c d
  | found {id : Identity} {el : Element} (hid : c.identity p = .ok id)
      (hfind : c.memory.find? id.key = some el) :
    Gets c store p d (.ok el.entry)
      ⟨c.options, c.memory.moveToFront el, { c.stats with hits := c.stats.hits + 1 }⟩ d
  | stored {id : Identity} {s : Store (StateM σ)} {e : Entry} (hid : c.identity p = .ok id)
      (hfind : c.memory.find? id.key = none) (hstore : store = some s)
      (hget : (s.get id.key d).1 = .ok (some e)) :
    Gets c store p d (.ok e)
      ⟨c.options, (c.memory.put id.key e).2, { c.stats with
        storeHits := c.stats.storeHits + 1
        evictions := c.stats.evictions + .ofNat (c.memory.put id.key e).1 }⟩
      (looked store id.key d)
  | failed {id : Identity} {f : Failure} (hid : c.identity p = .ok id)
      (hfind : c.memory.find? id.key = none) (hcompile : compile p c.options = .error f) :
    Gets c store p d (.error (.compile p.name f))
      { c with stats := { c.stats with misses := c.stats.misses + 1 } } (looked store id.key d)
  | compiled {id : Identity} {k : Compiled} (hid : c.identity p = .ok id)
      (hfind : c.memory.find? id.key = none) (hcompile : compile p c.options = .ok k) :
    Gets c store p d (.ok (entryOf id p k))
      ⟨c.options, (c.memory.put id.key (entryOf id p k)).2, { c.stats with
        misses := c.stats.misses + 1
        compiles := c.stats.compiles + 1
        evictions := c.stats.evictions + .ofNat (c.memory.put id.key (entryOf id p k)).1 }⟩
      (written store (entryOf id p k) (looked store id.key d))

theorem compileAndKeep_gets {c : Cache} {store : Option (Store (StateM σ))} {p : Program}
    {id : Identity} (d : σ) (log : List LogRecord)
    (hid : c.identity p = .ok id) (hfind : c.memory.find? id.key = none) :
    Gets c store p d
      (compileAndKeep c store id p log (looked store id.key d)).1.result
      (compileAndKeep c store id p log (looked store id.key d)).1.cache
      (compileAndKeep c store id p log (looked store id.key d)).2 := by
  unfold compileAndKeep
  rcases hlogged : compileLogged p c.options with ⟨f | k, records⟩
  · exact .failed hid hfind (congrArg Prod.fst hlogged)
  · have hcompile : compile p c.options = .ok k := congrArg Prod.fst hlogged
    cases store with
    | none => exact .compiled hid hfind hcompile
    | some s =>
      have hgets : Gets c (some s) p d (.ok (entryOf id p k)) _
          (s.put (entryOf id p k) (looked (some s) id.key d)).2 := .compiled hid hfind hcompile
      simp only [bind, StateT.bind]
      rcases hput : s.put (entryOf id p k) (looked (some s) id.key d) with ⟨text | _, d'⟩
      all_goals
        rw [hput] at hgets
        exact hgets

theorem remembered?_eq_none {id : Identity} (hfind : c.memory.find? id.key = none) :
    c.remembered? id = none := by
  simp only [remembered?, Recent.get, hfind]

theorem load_gets {p : Program} {id : Identity}
    (store : Option (Store (StateM σ))) (d : σ)
    (hid : c.identity p = .ok id) (hfind : c.memory.find? id.key = none) :
    Gets c store p d (load c store id p d).1.result (load c store id p d).1.cache
      (load c store id p d).2 := by
  -- Nothing has come into memory since the first look.
  have hmisses : c.remembered? id = none := remembered?_eq_none hfind
  unfold load
  simp only [hmisses]
  cases store with
  | none => exact compileAndKeep_gets d [] hid hfind
  | some s =>
    have hcompiles (log : List LogRecord) : Gets c (some s) p d
        (compileAndKeep c (some s) id p log (s.get id.key d).2).1.result
        (compileAndKeep c (some s) id p log (s.get id.key d).2).1.cache
        (compileAndKeep c (some s) id p log (s.get id.key d).2).2 :=
      compileAndKeep_gets d log hid hfind
    have hstored {e : Entry} (hget : (s.get id.key d).1 = .ok (some e)) :
        Gets c (some s) p d (.ok e) _ (s.get id.key d).2 := .stored hid hfind rfl hget
    simp only [bind, StateT.bind]
    rcases hget : s.get id.key d with ⟨text | _ | e, d'⟩
    · rw [hget] at hcompiles
      exact hcompiles [storeRecord "kernelcache: disk read failed" id.key text]
    · rw [hget] at hcompiles
      exact hcompiles []
    · rw [hget] at hstored
      exact hstored rfl

theorem get_gets (c : Cache) (store : Option (Store (StateM σ))) (p : Program) (d : σ) :
    Gets c store p d (c.get store (some p) d).1.result (c.get store (some p) d).1.cache
      (c.get store (some p) d).2 := by
  unfold Cache.get
  cases hid : c.identity p with
  | error f =>
    simp only [hid]
    exact .panic hid
  | ok id =>
    simp only [hid]
    cases hfind : c.memory.find? id.key with
    | some el =>
      have hfound : c.remembered? id = some (el.entry, { c with
          memory := c.memory.moveToFront el
          stats := { c.stats with hits := c.stats.hits + 1 } }) := by
        simp only [remembered?, Recent.get, hfind]
      simp only [hfound]
      exact .found hid hfind
    | none =>
      simp only [remembered?_eq_none hfind]
      exact load_gets store d hid hfind

/-- After a compilation failed, the next request for the program compiles it again, unless the
directory now gives an entry for it. -/
theorem Gets.again {store : Option (Store (StateM σ))} {c' c'' : Cache} {p : Program}
    {d d' d'' : σ} {name : Text} {f : Failure} {result : Except Error Entry}
    (h : Gets c store p d (.error (.compile name f)) c' d')
    (hnext : Gets c' store p d' result c'' d'') :
    result = .error (.compile name f) ∧ c''.stats.misses = c'.stats.misses + 1 ∨
      store.isSome = true ∧ c''.stats.storeHits = c'.stats.storeHits + 1 := by
  cases h with
  | failed hid hfind hcompile =>
    cases hnext with
    | panic hid' => exact absurd (hid.symm.trans hid') nofun
    | found hid' hfind' =>
      obtain rfl : _ = _ := Except.ok.inj (hid.symm.trans hid')
      exact absurd (hfind.symm.trans hfind') nofun
    | stored _ _ hstore => exact .inr ⟨hstore ▸ rfl, rfl⟩
    | failed _ _ hcompile' =>
      obtain rfl : _ = _ := Except.error.inj (hcompile.symm.trans hcompile')
      exact .inl ⟨rfl, rfl⟩
    | compiled _ _ hcompile' => exact absurd (hcompile.symm.trans hcompile') nofun

theorem memory_purge (c : Cache) (store : Option (Store (StateM σ))) (d : σ) :
    (c.purge store d).1.2 = { c with memory := c.memory.clear } := by
  cases store <;> rfl

end Requests

/-! ## The directory -/

section Directory

variable {σ : Type} [Files (StateM σ)] {dir : String} {d : σ} {content : List UInt8}

theorem inDirectory_get_disk (key : String) (d : σ) :
    ((Store.inDirectory dir : Store (StateM σ)).get key d).2 =
      ((Files.read (entryPath dir key) : StateM σ _) d).2 := by
  refine bind_disk (fun answer d => ?_) d
  rcases answer with e | content
  · dsimp only
    split
    · rfl
    · split <;> rfl
  · rfl

theorem inDirectory_put_disk (dir : String) (e : Entry) (d : σ) :
    ((Store.inDirectory dir : Store (StateM σ)).put e d).2 =
      ((Files.replace (entryPath dir e.key) { e with schema := schemaVersion }.bytes :
        StateM σ _) d).2 := by
  refine bind_disk (fun answer d => ?_) d
  rcases answer with err | _ <;> rfl

theorem open_disk (d : σ) :
    ((Store.open dir : StateM σ (Except FileError (Store (StateM σ)))) d).2 =
      ((Files.makeDirectories (kernelsIn dir) : StateM σ _) d).2 := by
  refine bind_disk (fun answer d => ?_) d
  rcases answer with err | _ <;> rfl

theorem looked_contents (disk : Disk σ dir) (u : InUse) (key : String) (d : σ) :
    disk.contents (looked (u.store dir) key d) = disk.contents d := by
  unfold InUse.store
  split
  · exact (congrArg disk.contents (inDirectory_get_disk key d)).trans (disk.read_contents _ d)
  · rfl

/-- What the directory gives for a key was read from its file, and is of that key. -/
theorem inDirectory_get_ok
    (h : ((Store.inDirectory dir : Store (StateM σ)).get key d).1 = .ok (some e)) :
    ∃ content, ((Files.read (entryPath dir key) : StateM σ _) d).1 = .ok content ∧
      Entry.ofBytes? content = some e ∧ e.schema = schemaVersion ∧ e.key = key := by
  simp only [Store.inDirectory, bind, StateT.bind] at h
  split at h
  next answer d' hread =>
  rcases answer with err | content
  · dsimp only at h
    split at h
    · cases h
    · split at h <;> cases h
  · have h : entryFor key content = .ok (some e) := h
    unfold entryFor at h
    split at h
    · cases h
    next e' hdecoded =>
      split at h
      next hmatch =>
        obtain rfl : e' = e := by simpa using h
        exact ⟨content, congrArg Prod.fst hread, hdecoded, hmatch⟩
      next => cases h

theorem inDirectory_get_held (disk : Disk σ dir)
    (h : ((Store.inDirectory dir : Store (StateM σ)).get key d).1 = .ok (some e)) :
    ∃ content, disk.Holds (disk.contents d) content ∧ Entry.ofBytes? content = some e ∧
      e.key = key := by
  obtain ⟨content, hread, hdecoded, hschema, hkey⟩ := inDirectory_get_ok h
  refine ⟨content, ?_, hdecoded, hkey⟩
  rcases disk.read_holds key d content hread with hheld | hother
  · exact hheld
  · exact absurd (hother e hdecoded) (by simp [hschema, hkey])

theorem written_holds (disk : Disk σ dir)
    (h : disk.Holds (disk.contents (written (u.store dir) e d)) content) :
    disk.Holds (disk.contents d) content ∨ content = { e with schema := schemaVersion }.bytes := by
  unfold InUse.store at h
  split at h
  · have hput := congrArg disk.contents (inDirectory_put_disk dir e d)
    exact disk.replace_holds _ _ d content (hput ▸ h)
  · exact .inl h

theorem inDirectory_clear_holds (disk : Disk σ dir)
    (h : disk.Holds (disk.contents ((Store.inDirectory dir : Store (StateM σ)).clear d).2)
      content) : disk.Holds (disk.contents d) content := by
  simp only [Store.inDirectory, bind, StateT.bind] at h
  split at h
  next answer d' hremove =>
  have hremoved : disk.Holds (disk.contents d') content → disk.Holds (disk.contents d) content := by
    intro hd'
    refine disk.removeAll_holds (kernelsIn dir) d content ?_
    rw [hremove]
    exact hd'
  rcases answer with err | _
  · exact hremoved h
  · refine hremoved (disk.makeDirectories_holds (kernelsIn dir) d' content ?_)
    refine Eq.mp (congrArg (disk.Holds · content) (congrArg disk.contents ?_)) h
    refine bind_disk (fun made d => ?_) d'
    rcases made with err | _ <;> rfl

theorem purge_holds (disk : Disk σ dir)
    (h : disk.Holds (disk.contents (u.cache.purge (u.store dir) d).2) content) :
    disk.Holds (disk.contents d) content := by
  unfold InUse.store at h
  split at h
  · exact inDirectory_clear_holds disk h
  · exact h

theorem open_holds (disk : Disk σ dir)
    (h : disk.Holds (disk.contents ((Store.open dir : StateM σ
      (Except FileError (Store (StateM σ)))) d).2) content) :
    disk.Holds (disk.contents d) content := by
  rw [open_disk] at h
  exact disk.makeDirectories_holds (kernelsIn dir) d content h

end Directory

/-! ## Kept entries -/

/-- An entry is the kernel of a program that was asked for, under its key. -/
inductive Kept (options : Options) (asked : Program → Prop) : String → Entry → Prop
  | intro {q : Program} {id : Identity} {k : Compiled} (hasked : asked q)
      (hid : identityOf options q = .ok id) (hcompile : compile q options = .ok k) :
    Kept options asked id.key (entryOf id q k)

/-- The file of a program's kernel is read back as the entry that was put. -/
def ReadsBack (options : Options) (q : Program) : Prop :=
  ∀ id ∈ (identityOf options q).toOption, ∀ k ∈ (compile q options).toOption,
    ∀ e ∈ Entry.ofBytes? (entryOf id q k).bytes, e = entryOf id q k

instance (options : Options) (q : Program) : Decidable (ReadsBack options q) :=
  inferInstanceAs (Decidable (∀ id ∈ (identityOf options q).toOption,
    ∀ k ∈ (compile q options).toOption,
      ∀ e ∈ Entry.ofBytes? (entryOf id q k).bytes, e = entryOf id q k))

section Soundness

variable {σ : Type} [Files (StateM σ)] {dir : String} {options : Options} {disk : Disk σ dir}
variable {w : World σ} {p : Program} {d : σ} {i : Nat}
variable {result : Except Error Entry}
  {asked asked' : Program → Prop}

theorem Kept.mono (hmono : ∀ q, asked q → asked' q) (h : Kept options asked key e) :
    Kept options asked' key e := by
  obtain ⟨hasked, hid, hcompile⟩ := h
  exact .intro (hmono _ hasked) hid hcompile

/-- Memory holds kernels of programs that were asked for. -/
structure Sound (options : Options) (asked : Program → Prop) (c : Cache) : Prop where
  settles : c.options = settled options
  memory : c.memory.All (Kept options asked)

theorem Sound.mono (hmono : ∀ q, asked q → asked' q) (h : Sound options asked c) :
    Sound options asked' c :=
  ⟨h.settles, h.memory.mono fun _ _ hkept => hkept.mono hmono⟩

theorem create_sound (capacity : Int) : Sound options asked (create capacity options) :=
  ⟨rfl, .empty _ _⟩

/-- The files hold kernels of programs that were asked for. -/
def Disk.Sound (disk : Disk σ dir) (options : Options) (asked : Program → Prop) (d : σ) : Prop :=
  ∀ content, disk.Holds (disk.contents d) content →
    ∃ key e, Kept options asked key e ∧ content = e.bytes

theorem Disk.Sound.mono (hmono : ∀ q, asked q → asked' q) (h : disk.Sound options asked d) :
    disk.Sound options asked' d := by
  intro content hheld
  obtain ⟨key, e, hkept, hcontent⟩ := h content hheld
  exact ⟨key, e, hkept.mono hmono, hcontent⟩

/-- What the directory gives for a key was put there for it. -/
theorem Disk.Sound.kept (h : disk.Sound options asked d)
    (hback : ∀ q, asked q → ReadsBack options q)
    (hget : ((Store.inDirectory dir : Store (StateM σ)).get key d).1 = .ok (some e)) :
    e.key = key ∧ Kept options asked key e := by
  obtain ⟨content, hheld, hdecoded, hkey⟩ := inDirectory_get_held disk hget
  obtain ⟨_, _, ⟨hasked, hid, hcompile⟩, rfl⟩ := h content hheld
  obtain rfl := hback _ hasked _ (by rw [hid]; rfl) _ (by rw [hcompile]; rfl) _ hdecoded
  exact ⟨hkey, hkey ▸ .intro hasked hid hcompile⟩

/-- A request keeps only kernels of the program and of those asked for before, and answers with
one of them. -/
theorem Gets.sound {d' : σ} {c' : Cache} (h : Gets u.cache (u.store dir) p d result c' d')
    (hback : ∀ q, asked q → ReadsBack options q) (hcache : Sound options asked u.cache)
    (hdisk : disk.Sound options asked d) :
    Sound options (fun q => q = p ∨ asked q) c' ∧
      disk.Sound options (fun q => q = p ∨ asked q) d' ∧
      ∀ e, result = .ok e → ∃ id, identityOf options p = .ok id ∧
        Kept options (fun q => q = p ∨ asked q) id.key e := by
  have hlater : ∀ q, asked q → q = p ∨ asked q := fun _ => .inr
  have hcache' := hcache.mono hlater
  have hdisk' := hdisk.mono hlater
  have hidentity := identity_eq hcache.settles p
  have hlooked : ∀ key, disk.Sound options (fun q => q = p ∨ asked q)
      (looked (u.store dir) key d) := by
    intro key content hheld
    rw [looked_contents] at hheld
    exact hdisk' content hheld
  cases h with
  | panic => exact ⟨hcache', hdisk', nofun⟩
  | failed hid => exact ⟨⟨hcache'.settles, hcache'.memory⟩, hlooked _, nofun⟩
  | found hid hfind =>
    refine ⟨⟨hcache'.settles, hcache'.memory.moveToFront hfind⟩, hdisk', ?_⟩
    rintro e ⟨⟩
    exact ⟨_, hidentity ▸ hid, hcache'.memory.find? hfind⟩
  | stored hid _ hstore hget =>
    unfold InUse.store at hstore
    split at hstore
    · cases hstore
      obtain ⟨hkey, hkept⟩ := hdisk.kept hback hget
      have hkept' := hkept.mono hlater
      refine ⟨⟨hcache'.settles, hcache'.memory.put hkey hkept'⟩, hlooked _, ?_⟩
      rintro _ ⟨⟩
      exact ⟨_, hidentity ▸ hid, hkept'⟩
    · cases hstore
  | @compiled id k hid _ hcompile =>
    have hkept : Kept options (fun q => q = p ∨ asked q) id.key (entryOf id p k) :=
      .intro (.inl rfl) (hidentity ▸ hid) (compile_eq hcache.settles p ▸ hcompile)
    refine ⟨⟨hcache'.settles, hcache'.memory.put rfl hkept⟩, ?_, ?_⟩
    · intro content hheld
      rcases written_holds disk hheld with hheld | hcontent
      · exact hlooked _ content hheld
      · exact ⟨_, _, hkept, hcontent⟩
    · rintro _ ⟨⟩
      exact ⟨_, hidentity ▸ hid, hkept⟩

/-- All that is kept anywhere are kernels of programs that were asked for. -/
structure World.Sound (disk : Disk σ dir) (options : Options) (asked : Program → Prop)
    (w : World σ) : Prop where
  caches : ∀ u ∈ w.caches, Cache.Sound options asked u.cache
  files : disk.Sound options asked w.disk

theorem World.Sound.mono (hmono : ∀ q, asked q → asked' q) (h : w.Sound disk options asked) :
    w.Sound disk options asked' :=
  ⟨fun u hu => (h.caches u hu).mono hmono, h.files.mono hmono⟩

/-- One cache and the disk change; the other caches stay as they are. -/
theorem World.Sound.set (h : w.Sound disk options asked) {stored : Bool}
    (hcache : Cache.Sound options asked c) (hdisk : disk.Sound options asked d) :
    World.Sound disk options asked ⟨w.caches.set i ⟨c, stored⟩, d⟩ := by
  refine ⟨fun u hu => ?_, hdisk⟩
  rcases List.mem_or_eq_of_mem_set hu with hu | rfl
  · exact h.caches u hu
  · exact hcache

theorem ask_sound {w w' : World σ} (h : w.Sound disk options asked)
    (hback : ∀ q, asked q → ReadsBack options q)
    (hask : w.ask dir i (some p) = some (result, w')) :
    w'.Sound disk options (fun q => q = p ∨ asked q) ∧
      ∀ e, result = .ok e → ∃ id, identityOf options p = .ok id ∧
        Kept options (fun q => q = p ∨ asked q) id.key e := by
  obtain ⟨u, hu, hanswer⟩ := Option.map_eq_some_iff.mp hask
  cases hanswer
  obtain ⟨hcache, hdisk, hresult⟩ := (get_gets u.cache (u.store dir) p w.disk).sound
    hback (h.caches u (List.mem_of_getElem? hu)) h.files
  exact ⟨(h.mono fun _ => .inr).set hcache hdisk, hresult⟩

/-- A request for a program adds it to those asked for. No other request keeps anything new. -/
theorem serve_sound (h : w.Sound disk options asked) (hback : ∀ q, asked q → ReadsBack options q)
    (request : Request) :
    (w.serve dir options request).Sound disk options
      (fun q => asked q ∨ Asked [request] q) := by
  have hlater : ∀ q, asked q → asked q ∨ Asked [request] q := fun _ => .inl
  cases request with
  | create capacity stored =>
    have hcreated : ∀ stored, ∀ u ∈ w.caches ++ [⟨create capacity options, stored⟩],
        Cache.Sound options asked u.cache := by
      intro stored u hu
      rcases List.mem_append.mp hu with hu | hu
      · exact h.caches u hu
      · obtain rfl := List.mem_singleton.mp hu
        exact create_sound capacity
    refine World.Sound.mono hlater ?_
    cases stored with
    | false => exact ⟨hcreated false, h.files⟩
    | true =>
      refine ⟨fun u hu => ?_, fun content hheld => h.files content (open_holds disk hheld)⟩
      simp only [World.serve] at hu
      split at hu
      · exact hcreated true u hu
      · exact h.caches u hu
  | get i program =>
    simp only [World.serve]
    cases hask : w.ask dir i program with
    | none => exact h.mono hlater
    | some answer =>
      cases program with
      | none =>
        obtain ⟨u, hu, rfl⟩ := Option.map_eq_some_iff.mp hask
        have hcache := h.caches u (List.mem_of_getElem? hu)
        exact (h.set hcache h.files).mono hlater
      | some p =>
        refine (ask_sound h hback hask).1.mono ?_
        rintro q (rfl | hq)
        · exact .inr ⟨i, List.mem_singleton.mpr rfl⟩
        · exact .inl hq
  | purge i =>
    refine World.Sound.mono hlater ?_
    simp only [World.serve]
    split
    · exact h
    next u hu =>
      have hcache := h.caches u (List.mem_of_getElem? hu)
      refine h.set ?_ fun content hheld => h.files content (purge_holds disk hheld)
      rw [memory_purge]
      exact ⟨hcache.settles, .empty _ _⟩

theorem run_sound {requests : List Request} (h : w.Sound disk options asked)
    (hback : ∀ q, asked q ∨ Asked requests q → ReadsBack options q) :
    (w.run dir options requests).Sound disk options
      (fun q => asked q ∨ Asked requests q) := by
  induction requests generalizing w asked with
  | nil => exact h.mono fun _ => .inl
  | cons request requests ih =>
    have hsplit : ∀ q, (asked q ∨ Asked [request] q) ∨ Asked requests q →
        asked q ∨ Asked (request :: requests) q := by
      rintro q ((hq | ⟨i, hmem⟩) | ⟨i, hmem⟩)
      · exact .inl hq
      · obtain rfl := List.mem_singleton.mp hmem
        exact .inr ⟨i, List.mem_cons_self⟩
      · exact .inr ⟨i, List.mem_cons_of_mem _ hmem⟩
    have hserved := serve_sound h (fun q hq => hback q (.inl hq)) request
    exact (ih hserved fun q hq => hback q (hsplit q hq)).mono hsplit

/-! ## Requests that fail -/

/-- A request fails by a panic, for the key of the program, or because the program cannot be
compiled. Then memory and the files stay as they were. -/
theorem Gets.error {d' : σ} {err : Error} {c' : Cache}
    (h : Gets u.cache (u.store dir) p d (.error err) c' d') (disk : Disk σ dir)
    (hsettles : u.cache.options = settled options) :
    c'.memory = u.cache.memory ∧ disk.contents d' = disk.contents d ∧
      ((∃ f, err = .panic f ∧ identityOf options p = .error f) ∨
        ∃ f, err = .compile p.name f ∧ compile p options = .error f) := by
  cases h with
  | panic hid => exact ⟨rfl, rfl, .inl ⟨_, rfl, identity_eq hsettles p ▸ hid⟩⟩
  | failed _ _ hcompile =>
    refine ⟨rfl, looked_contents disk u _ d, .inr ⟨_, rfl, ?_⟩⟩
    exact compile_eq hsettles p ▸ hcompile

theorem ask_error {w' : World σ} {err : Error} (h : w.Sound disk options asked)
    (hask : w.ask dir i (some p) = some (.error err, w')) :
    w'.caches.map (·.cache.memory) = w.caches.map (·.cache.memory) ∧
      disk.contents w'.disk = disk.contents w.disk ∧
      ((∃ f, err = .panic f ∧ identityOf options p = .error f) ∨
        ∃ f, err = .compile p.name f ∧ compile p options = .error f) := by
  obtain ⟨u, hu, hanswer⟩ := Option.map_eq_some_iff.mp hask
  have hgets := get_gets u.cache (u.store dir) p w.disk
  obtain ⟨hresult, rfl⟩ := Prod.mk.inj hanswer
  rw [hresult] at hgets
  obtain ⟨hmemory, hfiles⟩ := hgets.error disk (h.caches u (List.mem_of_getElem? hu)).settles
  refine ⟨?_, hfiles⟩
  obtain ⟨hi, rfl⟩ := List.getElem?_eq_some_iff.mp hu
  have hi' : i < (w.caches.map (·.cache.memory)).length := by rwa [List.length_map]
  refine Eq.trans ?_ (List.set_getElem_self hi')
  rw [List.map_set, hmemory, List.getElem_map]

/-- What is promised of a request for a program, where some programs were asked for earlier. -/
structure Transparent (disk : Disk σ dir) (options : Options) (earlier : Program → Prop)
    (w : World σ) (i : Nat) (p : Program) (result : Except Error Entry) (w' : World σ) : Prop where
  /-- An entry is of the program's key, and what compiling gives for the program or for an earlier
  one of that key. -/
  compiled : ∀ e, result = .ok e → ∃ id q idq k, identityOf options p = .ok id ∧ e.key = id.key ∧
    (q = p ∨ earlier q) ∧ identityOf options q = .ok idq ∧ idq.key = id.key ∧
    compile q options = .ok k ∧ e.spirv = k.bytes ∧ e.abi = k.abi ∧
    e.unsupported = k.unsupported.map Report.ofDiagnostic
  /-- A program that has a key is refused for the error of its compilation only. -/
  refused : ∀ err, result = .error err →
    (∃ f, err = .panic f ∧ identityOf options p = .error f) ∨
      ∃ f, err = .compile p.name f ∧ compile p options = .error f
  /-- A request that fails leaves what is in memory, in its order of use, and the files. -/
  unchanged : ∀ err, result = .error err →
    w'.caches.map (·.cache.memory) = w.caches.map (·.cache.memory) ∧
      disk.contents w'.disk = disk.contents w.disk
  /-- After a compilation failed, the next request compiles again, unless the directory has come to
  give an entry. -/
  again : ∀ name f, result = .error (.compile name f) →
    ∀ next w'', w'.ask dir i (some p) = some (next, w'') →
      ∃ u' u'', w'.caches[i]? = some u' ∧ w''.caches[i]? = some u'' ∧
        (next = result ∧ u''.cache.stats.misses = u'.cache.stats.misses + 1 ∨
          u'.stored = true ∧ u''.cache.stats.storeHits = u'.cache.stats.storeHits + 1)

theorem ask_again {w' w'' : World σ} {name : Text} {f : Failure} {next : Except Error Entry}
    (hask : w.ask dir i (some p) = some (.error (.compile name f), w'))
    (hnext : w'.ask dir i (some p) = some (next, w'')) :
    ∃ u' u'', w'.caches[i]? = some u' ∧ w''.caches[i]? = some u'' ∧
      (next = .error (.compile name f) ∧
          u''.cache.stats.misses = u'.cache.stats.misses + 1 ∨
        u'.stored = true ∧ u''.cache.stats.storeHits = u'.cache.stats.storeHits + 1) := by
  obtain ⟨u, hu, hanswer⟩ := Option.map_eq_some_iff.mp hask
  obtain ⟨u', hu', hanswer'⟩ := Option.map_eq_some_iff.mp hnext
  have hgets := get_gets u.cache (u.store dir) p w.disk
  obtain ⟨hresult, rfl⟩ := Prod.mk.inj hanswer
  obtain ⟨rfl, rfl⟩ := Prod.mk.inj hanswer'
  have hi := (List.getElem?_eq_some_iff.mp hu).1
  rw [List.getElem?_set_self hi] at hu'
  obtain rfl := Option.some.inj hu'
  refine ⟨_, _, List.getElem?_set_self hi, List.getElem?_set_self (by simpa using hi), ?_⟩
  rw [hresult] at hgets
  rcases hgets.again (get_gets _ _ p _) with hagain | ⟨hstore, hhits⟩
  · exact .inl hagain
  · refine .inr ⟨?_, hhits⟩
    by_contra hstored
    simp [InUse.store, hstored] at hstore

/-- The caches are transparent: from no caches and a directory that holds nothing, after any
requests, every request for a program is answered as if it were compiled. It is assumed that an
entry, if its file can be read, is read as it was put. -/
theorem run_transparent (disk : Disk σ dir) {d : σ} {before : List Request} {w w' : World σ}
    {i : Nat} {p : Program} {result : Except Error Entry}
    (hempty : ∀ content, ¬ disk.Holds (disk.contents d) content)
    (hback : ∀ q, Asked before q → ReadsBack options q)
    (hrun : World.run dir options ⟨[], d⟩ before = w)
    (hask : w.ask dir i (some p) = some (result, w')) :
    Transparent disk options (Asked before) w i p result w' := by
  have hstart : World.Sound disk options (fun _ => False) ⟨[], d⟩ :=
    ⟨fun _ hu => (nomatch hu), fun content hheld => absurd hheld (hempty content)⟩
  have hsound : w.Sound disk options (Asked before) := by
    rw [← hrun]
    exact (run_sound hstart fun q hq => hback q (hq.resolve_left id)).mono
      fun q hq => hq.resolve_left id
  refine ⟨?_, ?_, ?_, ?_⟩
  · intro e he
    obtain ⟨id, hid, hkept⟩ := (ask_sound hsound hback hask).2 e he
    generalize hkey : id.key = key at hkept
    obtain ⟨hearlier, hidq, hcompile⟩ := hkept
    exact ⟨id, _, _, _, hid, hkey.symm, hearlier, hidq, hkey.symm, hcompile, rfl, rfl, rfl⟩
  · rintro err rfl
    exact (ask_error hsound hask).2.2
  · rintro err rfl
    obtain ⟨hmemories, hcontents, -⟩ := ask_error hsound hask
    exact ⟨hmemories, hcontents⟩
  · rintro name f rfl next w'' hnext
    exact ask_again hask hnext

end Soundness

end Elementwise.Cache

namespace Elementwise
open Cache IR Spirv

/-! ## A tree of files is such a disk -/

namespace FileTree

variable {path : String} {content : List UInt8} {t t' : FileTree}

/-- Some file holds these bytes. -/
def Holds (t : FileTree) (content : List UInt8) : Prop :=
  ∃ place, (place, FileNode.file content) ∈ t.nodes

theorem holds_of_read (h : t.read path = .ok content) : t.Holds content := by
  unfold read at h
  split at h
  · cases h
  · cases h
  next content' hfind =>
    cases h
    unfold find at hfind
    cases hplace : t.place path with
    | error r => simp [hplace, bind, Except.bind] at hfind
    | ok place =>
      simp only [hplace, bind, Except.bind] at hfind
      split at hfind
      · cases hfind
      next n hnode =>
        cases hfind
        unfold node? at hnode
        split at hnode
        · cases hnode
        · exact ⟨place, mem_of_lookup hnode⟩

theorem holds_put {place : List String} {n : FileNode} (h : (t.put place n).Holds content) :
    t.Holds content ∨ n = .file content := by
  obtain ⟨there, hmem⟩ := h
  rcases List.mem_cons.mp hmem with hnew | hold
  · exact .inr (Prod.mk.inj hnew).2.symm
  · exact .inl ⟨there, List.mem_of_mem_filter hold⟩

theorem holds_replace {bytes : List UInt8} (ht : t.replace path bytes = .ok t')
    (h : t'.Holds content) : t.Holds content ∨ content = bytes := by
  unfold replace at ht
  split at ht
  · cases ht
  · split at ht
    · cases ht
    · cases ht
    · cases ht
      exact (holds_put h).imp_right fun hn => (FileNode.file.inj hn).symm

theorem holds_removeAll (ht : t.removeAll path = .ok t') (h : t'.Holds content) :
    t.Holds content := by
  unfold removeAll at ht
  split at ht
  · cases ht
    exact h
  · cases ht
  · cases ht
    obtain ⟨place, hmem⟩ := h
    exact ⟨place, List.mem_of_mem_filter hmem⟩

theorem holds_makeDirectory (ht : t.makeDirectory path = .ok t') (h : t'.Holds content) :
    t.Holds content := by
  unfold makeDirectory at ht
  split at ht
  · cases ht
  · split at ht
    · cases ht
      exact h
    · cases ht
    · cases ht
      exact (holds_put h).resolve_right nofun

theorem holds_makeDirectories (ht : t.makeDirectories path = .ok t') (h : t'.Holds content) :
    t.Holds content := by
  unfold makeDirectories at ht
  generalize prefixes path = paths at ht
  induction paths generalizing t with
  | nil =>
    cases ht
    exact h
  | cons first rest ih =>
    rw [List.foldlM_cons] at ht
    cases hfirst : t.makeDirectory first with
    | error e => simp [hfirst, bind, Except.bind] at ht
    | ok t₁ =>
      simp only [hfirst, bind, Except.bind] at ht
      exact holds_makeDirectory hfirst (ih ht)

/-- A change that fails leaves the tree. -/
theorem holds_change {f : FileTree → Except FileError FileTree}
    (h : (InTree.change f t).2.Holds content) :
    t.Holds content ∨ ∃ t', f t = .ok t' ∧ t'.Holds content := by
  unfold InTree.change at h
  split at h
  next t' ht => exact .inr ⟨t', ht, h⟩
  next => exact .inl h

def asDisk (dir : String) : Disk FileTree dir where
  Contents := FileTree
  contents t := t
  Holds := Holds
  read_contents _ _ := rfl
  read_holds _ _ _ h := .inl (holds_of_read h)
  replace_holds _ _ _ _ h := (holds_change h).elim .inl fun ⟨_, ht, h⟩ => holds_replace ht h
  removeAll_holds _ _ _ h := (holds_change h).elim (fun h => h) fun ⟨_, ht, h⟩ =>
    holds_removeAll ht h
  makeDirectories_holds _ _ _ h := (holds_change h).elim (fun h => h) fun ⟨_, ht, h⟩ =>
    holds_makeDirectories ht h

theorem not_holds_empty (current : List String) (content : List UInt8) :
    ¬ (empty current).Holds content := by
  rintro ⟨place, hmem⟩
  obtain ⟨k, -, hnode⟩ := List.mem_map.mp hmem
  cases hnode

end FileTree

namespace Cache

/-- Two caches share a directory. The first is asked for a program that cannot be compiled, as it
has no functions, and for one that can. -/
def shared : List Request :=
  [.create 1 true, .create 0 true, .get 0 (some ⟨"hollow", [], []⟩), .get 0 (some shifting)]

theorem readsBack_shared : ∀ q, Asked shared q → ReadsBack { debug := true } q := by
  rintro q ⟨i, hmem⟩
  simp only [shared, List.mem_cons, List.not_mem_nil, or_false, Request.get.injEq,
    Option.some.injEq, reduceCtorEq, false_or] at hmem
  rcases hmem with ⟨-, rfl⟩ | ⟨-, rfl⟩
  · decide +kernel
  · decide +kernel

/-- The second cache gives a kernel for what only the first was asked for. -/
theorem run_transparent_shared : ∃ w e w',
    World.run "/kept" { debug := true } ⟨[], FileTree.empty []⟩ shared = w ∧
      w.ask "/kept" 1 (some shifting) = some (.ok e, w') ∧
      Transparent (FileTree.asDisk "/kept") { debug := true } (Asked shared) w 1 shifting
        (.ok e) w' := by
  have hsome : (World.run "/kept" { debug := true } ⟨[], FileTree.empty []⟩
      shared).caches[1]?.isSome = true := by decide +kernel
  have hid : (identityOf { debug := true } shifting).isOk = true := by decide +kernel
  obtain ⟨k, hcompile⟩ := exists_compile_shifting
  generalize hrun : World.run "/kept" { debug := true } ⟨[], FileTree.empty []⟩ shared = w at hsome
  obtain ⟨u, hu⟩ := Option.isSome_iff_exists.mp hsome
  obtain ⟨⟨result, w'⟩, hask⟩ : ∃ answer, w.ask "/kept" 1 (some shifting) = some answer :=
    ⟨_, Option.map_eq_some_iff.mpr ⟨u, hu, rfl⟩⟩
  have h := run_transparent (FileTree.asDisk "/kept") (FileTree.not_holds_empty [])
    readsBack_shared hrun hask
  cases result with
  | ok e => exact ⟨w, e, w', rfl, hask, h⟩
  | error err =>
    rcases h.refused err rfl with ⟨f, -, hpanic⟩ | ⟨f, -, hfailed⟩
    · rw [hpanic] at hid
      cases hid
    · rw [hcompile] at hfailed
      cases hfailed

end Cache

end Elementwise
