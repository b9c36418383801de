import Elementwise.Proofs.KernelRuns

/-!
# What a compiled program consists of

A successful run has listed every function once and given each an id. The function section holds
the group of every listed function, in order, and then the entry function; all ids that were
allocated are defined. The words are those of the sections, one after the other.
-/
namespace Elementwise.Spirv
open IR Gen Text.Utf8

variable {T : Text → Prop} {s s' : Generator} {program : Program} {options : Options}
  {host : HostCodes}
  {elem : Ty} {a : Assembly} {k : KernelIds} {words : List UInt32} {entries : List (FuncId × Func)}

/-! ## The run -/

theorem coherent_start (version : Version) : (Generator.start version).Coherent where
  current := rfl
  backed := by constructor <;> simp [Generator.start, Generator.declared]
  declared := by simp [Generator.start, Generator.declared]
  inTime := trivial
  written := by simp [Generator.start, Generator.written]
  values := by simp [Generator.start]
  decorations := by simp [Generator.start]
  extensions := by simp [Generator.start]

theorem accounted_start (T : Text → Prop) (version : Version) :
    (Generator.start version).Accounted T [] where
  ids := by simp [Generator.start, Generator.declared, Generator.written, firstIds]
  inTime := trivial
  functions := by simp [Generator.start]
  labels := by simp [Generator.start]
  made := by simp [Generator.start]
  decorations := by simp [Generator.start]
  debug := by simp [Generator.start]

theorem func?_of_listed {entry : FuncId × Func} (h : some entry ∈ program.listed) :
    program.func? entry.1 = some entry.2 := by
  obtain ⟨slot, -, hslot⟩ := List.mem_map.1 h
  obtain ⟨k, -, hk⟩ := Option.bind_eq_some_iff.1 hslot
  obtain ⟨f, hf, rfl⟩ := Option.map_eq_some_iff.1 hk
  exact hf

/-- No listed function lists a block twice. -/
def ListsBlocksOnce (program : Program) : Prop :=
  ∀ slot ∈ program.listed, ∀ entry ∈ slot, BlocksOnce entry.2

instance (program : Program) : Decidable (ListsBlocksOnce program) :=
  inferInstanceAs (Decidable (∀ slot ∈ program.listed, ∀ entry ∈ slot, BlocksOnce entry.2))

/-- The names of the listed functions, their parameters, blocks and local variables. -/
def programNames (program : Program) : List Text :=
  program.listed.flatMap fun slot => (slot.map fun entry => debugNames entry.2 entry.1).getD []

/-- All names that may be written are permitted. -/
structure NamesPermitted (T : Text → Prop) (program : Program) (options : Options) :
    Prop where
  program : options.debug → ∀ name ∈ programNames program, T name
  kernel : options.debug → ∀ name ∈ kernelNames, T name
  entry : options.debug → T options.entryName

/-- The function section of a program, and what its ids stand for. -/
structure Assembled (T : Text → Prop) (program : Program) (options : Options)
    (entries : List (FuncId × Func)) (kernel : FuncId × Func) (elem : Ty) (k : KernelIds)
    (e : EntryIds) (function : UInt32) (groups : List (List Instruction)) (s : Generator) :
    Prop where
  listed : program.listed = entries.map some
  once : (entries.map Prod.fst).Nodup
  head : entries.head? = some kernel
  elementType : elementType kernel.2 = .ok elem
  coherent : ({ s with body := {} } : Generator).Coherent
  accounted : ({ s with body := {} } : Generator).Accounted T []
  entryPoints : s.assembly.entryPoints.toList = options.entryPointInstrs k e.entry
  sorted : (∀ i ∈ s.assembly.preambleInstrs, i.fits) → s.Sorted
  written : s.written = groups.flatten ++ e.group k function
  functionKeys : s.functions.map Prod.fst = (entries.map fun entry => some entry.1).reverse
  function : (some kernel.1, function) ∈ s.functions
  merges : ∀ group ∈ groups, (mergeIds group).Nodup
  declares : DeclaresKernel s.declared elem k
  lowers : (resultIds s.declared).Nodup →
    List.Forall₂ (fun (entry : FuncId × Func) group => ∃ values labels,
      LowersFunction ⟨s.declared, s.functions, values, labels⟩ program options.debug entry.1
        entry.2 group) entries groups

theorem kernel?_eq {kernel : FuncId × Func} (hlisted : program.listed = entries.map some)
    (h : program.kernel? = some kernel) : entries.head? = some kernel := by
  unfold Program.kernel? at h
  rw [hlisted] at h
  cases entries with
  | nil => cases h
  | cons entry rest => simpa using h

/-- The capabilities that are asked for are declared first. -/
theorem addCapabilities_spec {capabilities : List UInt32} {u : PUnit}
    (h : (forIn capabilities PUnit.unit fun c _ => do
      addCapability c
      pure (.yield PUnit.unit) : Gen PUnit) s = .ok u s') :
    Spec T s {} s' fun _ => True := by
  refine forIn_invariant (fun t => Spec T s {} t fun _ => True) ?_ h
    (Spec.same fun _ _ _ => trivial)
  intro c _ r t t' ht hturn
  obtain ⟨_, u, hcap, hend⟩ := bind_ok.1 hturn
  obtain ⟨rfl, rfl⟩ := pure_ok.1 hend
  exact ⟨rfl, (ht.trans (addCapability_spec hcap)).imp fun _ hN => hN.1⟩

theorem DeclaresKernel.interfaces_mem {declared : List Instruction}
    (h : DeclaresKernel declared elem k) : k.dataVar ∈ resultIds declared ∧
      k.configVar ∈ resultIds declared ∧ k.invocationVar ∈ resultIds declared := by
  obtain ⟨type, array, block, -, -, hdata⟩ := h.dataVar
  obtain ⟨block', hconfig⟩ := h.configVar
  obtain ⟨pointer, -, hinvocation⟩ := h.invocationVar
  have hinput : StorageClass.input ≠ StorageClass.function := by decide
  exact ⟨hdata.var_mem (by decide), hconfig.var_mem (by decide),
    mem_resultIds.2 ⟨_, hinvocation, (Profile.globalVariable hinput).result⟩⟩

theorem DeclaresKernel.reads {N : View} {function : UInt32} (h : DeclaresKernel N.declared elem k)
    (hzero : k.zero ∈ N.known) (hfunction : function ∈ N.functions.map Prod.snd) :
    ReadsKernel k function N := by
  have hdeclared : ∀ {id : UInt32}, id ∈ resultIds N.declared → N.Readable id :=
    fun hid => Or.inl (List.mem_append_left _ hid)
  obtain ⟨hdata, hconfig, hinvocation⟩ := h.interfaces_mem
  simp only [ReadsKernel, List.forall_mem_cons, List.not_mem_nil, false_implies, implies_true,
    and_true]
  exact ⟨hdeclared h.void.mem_resultIds, hdeclared h.bool.mem_resultIds,
    hdeclared h.uint.mem_resultIds, hdeclared h.elemPtr.mem_resultIds,
    hdeclared (mem_of_declares_pointer h.countPtr),
    hdeclared (mem_resultIds.2 ⟨_, h.invocation, Profile.typeVector.result⟩), Or.inl hzero,
    hdeclared hdata, hdeclared hconfig, hdeclared hinvocation,
    hdeclared (mem_resultIds.2 ⟨_, h.entryType, Profile.typeFunction.result⟩),
    Or.inr (Or.inl hfunction)⟩

/-- The state when the ids of the listed functions are allocated, and no function is written. -/
structure Prepared (T : Text → Prop) (options : Options)
    (entries : List (FuncId × Func)) (words : List UInt32) (elem : Ty) (k : KernelIds)
    (s : Generator) : Prop where
  coherent : s.Coherent
  accounted : s.Accounted T words
  written : s.written = []
  functions : s.functions = ((entries.map fun entry => some entry.1).zip words).reverse
  length : words.length = entries.length
  declares : ∀ N : View, s.declared ⊆ N.declared →
    DeclaresKernel N.declared elem k ∧ k.zero ∈ N.known

theorem prepared {s₁ s₂ : Generator}
    {u : PUnit} {v : Unit} (hnames : NamesPermitted T program options)
    (hlisted : program.listed = entries.map some) (honce : (entries.map Prod.fst).Nodup)
    (hcaps : (forIn options.capabilities PUnit.unit fun c _ => do
        addCapability c
        pure (.yield PUnit.unit) : Gen PUnit) (.start options.version) = .ok u s₁)
    (hkernel : declareKernel options elem s₁ = .ok k s₂)
    (hdeclare : declareFunctions (program.listed.map fun entry => entry.map (·.1)) s₂ = .ok v s)
    (hc : s.clean) : ∃ words, Prepared T options entries words elem k s := by
  have hids : (program.listed.map fun entry => entry.map (·.1)) =
      entries.map fun entry => some entry.1 := by simp [hlisted]
  have hnodup : (entries.map fun entry => some entry.1).Nodup := by
    have h := honce.map fun _ _ heq => Option.some.inj heq
    rwa [List.map_map] at h
  have hspec : Spec T (.start options.version) {} s₂ _ :=
    (addCapabilities_spec hcaps).trans (declareKernel_spec hnames.kernel hkernel)
  rw [hids] at hdeclare
  have hsteady : Lockstep .same false (Writes false) Eq (declareFunctions _) _ :=
    (declareFunctions_lockstep Relabeling.faithful_same (entries.map fun entry =>
      some entry.1)).writes
  have hc₂ := hsteady.clean hdeclare hc
  have hchange := hspec.change hc₂ (coherent_start options.version)
  have hnone : s₂.functions = [] := hchange.functions
  have hbody : s₂.body = {} := hchange.body_eq rfl rfl rfl
  have hwritten : s₂.written = [] := hchange.written
  obtain ⟨words, hlength, hfirst, hs⟩ := declareFunctions_ok hnodup (by simp [hnone]) hdeclare
  rw [hnone, List.append_nil] at hs
  refine ⟨words, ?_⟩
  exact
    { coherent := by
        rw [hs]
        exact { hchange.coherent with }
      accounted := by
        have h := (hchange.accounted [] (accounted_start T options.version)).allocate hfirst
          (by nth_rewrite 1 [hs]; rfl)
          (by rw [hs]; exact fun _ he => Or.inr (List.of_mem_zip (List.mem_reverse.1 he)).2)
          (by rw [hs]; exact fun _ he => Or.inl he) (by rw [hs]; exact fun _ hid => Or.inl hid)
        simpa using h
      written := by
        rw [hs]
        exact hwritten
      functions := by rw [hs]
      length := by simpa using hlength
      declares := by
        intro N hN
        have hfact := hspec.fact hc₂ (coherent_start options.version) N ?_
        · exact hfact.2
        · refine ⟨?_, ?_, ?_, ?_, ?_, ?_⟩ <;>
            simp only [Generator.view, hbody, hnone, hwritten, List.nil_subset, List.nil_suffix]
          rw [hs] at hN
          exact hN }

theorem Prepared.keys (h : Prepared T options entries words elem k s) :
    s.functions.map Prod.fst = (entries.map fun entry => some entry.1).reverse := by
  rw [h.functions, List.map_reverse, List.map_fst_zip (by simp [h.length])]

/-- Every listed function has the id that was allocated for it. -/
theorem Prepared.lookup (h : Prepared T options entries words elem k s)
    (honce : (entries.map Prod.fst).Nodup) :
    List.Forall₂ (fun (entry : FuncId × Func) word =>
      List.lookup (some entry.1) s.functions = some word) entries words := by
  have hnodup : (s.functions.map Prod.fst).Nodup := by
    have hsome := honce.map fun _ _ heq => Option.some.inj heq
    rw [h.keys, List.nodup_reverse]
    rwa [List.map_map] at hsome
  have hlength : words.length = (entries.map fun entry => some entry.1).length := by
    simp [h.length]
  have hzip := Frame.forall₂_zip hlength
  rw [← h.functions] at hzip
  exact (List.forall₂_map_left_iff.1 hzip).imp fun _ _ hmem => lookup_of_mem hnodup hmem

theorem assemble_spec {abi : HostCodes → Abi} (honce : ListsBlocksOnce program)
    (hnames : NamesPermitted T program options)
    (h : assemble program options (.start options.version) = .ok abi s) (hc : s.clean) :
    ∃ entries kernel elem k e function groups,
      Assembled T program options entries kernel elem k e function groups s := by
  obtain ⟨k, entry, t, hrun, -, rfl⟩ := exists_kernelRun h
  obtain ⟨hct, -, names, hpresent, hnamed⟩ := present_clean hc
  have hgrows := grows_of_reaches hrun.reaches hct
  have hsorted := (presented hc).sorted hgrows
  obtain @⟨kernel, elem, s₁, s₂, s₃, s₄, _, hkernel, helem, hcaps, hk, hdeclare, hlower,
    hinside⟩ := hrun
  obtain ⟨u, hentry, rfl⟩ := inFunctions_ok.1 hinside
  obtain ⟨entries, hlisted, hdistinct, -⟩ := lowerListed_present hlower
  have hsteady : ∀ f, Steady .same false (Writes false) (build (emitEntryFunction k f)) :=
    emitEntryFunction_steady k
  have hc₄ : (s₄.select .functions).clean := Lockstep.clean (hsteady _) hentry hct
  change s₄.clean at hc₄
  rw [hlisted] at hlower
  have hc₃ := lowerListed_clean hlower hc₄
  obtain ⟨words, hprepared⟩ := prepared hnames hlisted hdistinct hcaps hk hdeclare hc₃
  have hwords := hprepared.lookup hdistinct
  have hfuncs : ∀ entry ∈ entries, program.func? entry.1 = some entry.2 ∧ BlocksOnce entry.2 ∧
      (options.debug → ∀ name ∈ debugNames entry.2 entry.1, T name) := by
    intro entry he
    have hmem : some entry ∈ program.listed := hlisted ▸ List.mem_map_of_mem he
    refine ⟨func?_of_listed hmem, honce _ hmem entry rfl, fun hdebug name hname => ?_⟩
    exact hnames.program hdebug name (List.mem_flatMap.2 ⟨_, hmem, hname⟩)
  obtain ⟨groups, hgroups⟩ := lowerListed_spec hfuncs hwords hlower hc₄ hprepared.coherent
  have hhead := kernel?_eq hlisted hkernel
  obtain ⟨function, -, hfunction⟩ :=
    exists_right_of_mem hwords (List.mem_of_mem_head? hhead)
  rw [← hgroups.outer.functions] at hfunction
  rw [hfunction, Option.getD_some, hgroups.outer.coherent.select] at hentry
  obtain ⟨hdeclares, hzero⟩ := hprepared.declares s₄.view hgroups.outer.declared
  obtain ⟨e, rfl, hlast⟩ := emitEntryFunction_spec T hentry hct hgroups.outer.coherent
    (hdeclares.reads hzero (List.mem_map.2 ⟨_, mem_of_lookup hfunction, rfl⟩))
  have haccounted :=
    hlast.accounted [] (hgroups.outer.accounted [] (by simpa using hprepared.accounted))
  have hcurrent := hgroups.outer.coherent.current
  have hknown : e.entry ∈ firstIds u.assembly.allocated := by
    have hwritten : e.entry ∈ resultIds ({ u with body := {} } : Generator).written := by
      rw [hlast.written, resultIds_append]
      exact List.mem_append_right _ (mem_resultIds.2 ⟨_, List.mem_cons_self, Profile.func.result⟩)
    exact haccounted.mem_firstIds (Or.inl (List.mem_append_right _ hwritten))
  have hnames' : ∀ i ∈ names,
      Generator.Names T (firstIds u.assembly.allocated) i := by
    obtain rfl | ⟨hdebug, i, rfl, hi, rfl⟩ := hnamed
    · simp
    · exact List.forall_mem_singleton.2 ⟨e.entry, hknown, _, hnames.entry hdebug, Or.inl rfl⟩
  rw [hpresent] at hsorted ⊢
  exact ⟨entries, kernel, elem, k, e, function, groups,
    { listed := hlisted
      once := hdistinct
      head := hhead
      elementType := helem
      coherent := { hlast.coherent with current := hcurrent }
      accounted :=
        { haccounted with
          debug := by
            rw [Array.toList_append]
            exact List.forall_mem_append.2 ⟨haccounted.debug, hnames'⟩ }
      entryPoints := Array.toList_append.trans (congrArg (· ++ _) hgrows.entryPoints)
      sorted := hsorted
      written := by
        refine hlast.written.trans ?_
        rw [hgroups.outer.written, hprepared.written]
        rfl
      functionKeys := (congrArg _ (hlast.functions.trans hgroups.outer.functions)).trans hprepared.keys
      function := hlast.functions ▸ mem_of_lookup hfunction
      merges := hgroups.merges
      declares := (hprepared.declares ⟨⟨u.declared, [], [], []⟩, s₄.written, []⟩
        (List.Subset.trans hgroups.outer.declared hlast.declared)).1
      lowers := by
        intro hids
        have hlowers := hgroups.lowers u.declared hlast.declared hids
        rwa [← hgroups.outer.functions, ← hlast.functions] at hlowers }⟩

/-! ## The words -/

/-- The instructions of a module, section by section. -/
def Generator.contents (s : Generator) : List Instruction :=
  s.assembly.preambleInstrs ++ s.assembly.entryPoints.toList ++ s.assembly.debug.toList ++
    s.assembly.decorations.toList ++ s.declared ++ s.written

theorem writePreamble_eq (h : ∀ i ∈ a.preambleInstrs, i.fits) :
    a.writePreamble = { a with preamble := a.preambleInstrs.toArray, finished := true } := by
  have hfilter : a.preambleInstrs.filter Instruction.fits = a.preambleInstrs :=
    List.filter_eq_self.2 h
  have hfind : a.preambleInstrs.find? (!·.fits) = none := by simpa using h
  simp only [Assembly.writePreamble, hfilter, hfind]

theorem writePreamble_refusal (h : ¬ ∀ i ∈ a.preambleInstrs, i.fits) :
    a.writePreamble.refusal ≠ none := by
  cases hfind : a.preambleInstrs.find? (!·.fits) with
  | none => exact absurd (by simpa using hfind) h
  | some i => cases hrefusal : a.refusal <;>
      simp [Assembly.writePreamble, hfind, Assembly.refuse, hrefusal]

/-- A module can be finished once, if nothing was refused and its preamble fits. -/
theorem Assembly.finish_eq_ok_iff :
    a.finish.1 = .ok words ↔ a.refusal = none ∧ a.finished = false ∧
      (∀ i ∈ a.preambleInstrs, i.fits) ∧
      moduleWords a.version a.bound (a.preambleInstrs ++ a.entryPoints.toList ++ a.debug.toList ++
        a.decorations.toList ++ a.types.toList ++ a.functions.toList) = words := by
  unfold Assembly.finish
  cases hfinished : a.finished with
  | true => simp
  | false =>
    cases hrefusal : a.refusal with
    | some d => simp
    | none =>
      by_cases hfits : ∀ i ∈ a.preambleInstrs, i.fits
      · have hwords : a.writePreamble.words =
            moduleWords a.version a.bound (a.preambleInstrs ++ a.entryPoints.toList ++
              a.debug.toList ++ a.decorations.toList ++ a.types.toList ++ a.functions.toList) := by
          rw [writePreamble_eq hfits]
          rfl
        have hnone : a.writePreamble.refusal = none := by
          rw [writePreamble_eq hfits]
          exact hrefusal
        simpa [hnone, hwords] using fun _ => hfits
      · obtain ⟨d, hd⟩ := Option.ne_none_iff_exists'.1 (writePreamble_refusal hfits)
        simp only [hd]
        simpa using fun h => absurd h hfits

theorem finish_ok :
    (∃ s', finish s = .ok words s') ↔ s.clean ∧ s.assembly.finished = false ∧
      (∀ i ∈ s.assembly.preambleInstrs, i.fits) ∧
      moduleWords s.assembly.version s.assembly.bound s.contents = words := by
  have hassembly : (∃ s', finish s = .ok words s') ↔ s.assembly.finish.1 = .ok words := by
    unfold finish
    rcases s.assembly.finish with ⟨_ | _, _⟩ <;> simp
  exact hassembly.trans Assembly.finish_eq_ok_iff

theorem compile_ok {c : Compiled} :
    compile program options host = .ok c ↔ ∃ abi s s',
      assemble program options (.start options.version) = .ok abi s ∧
      finish s = .ok c.words s' ∧ judge options c.words s'.interned.diagnostics = .ok () ∧
      ⟨c.words, abi host, s'.interned.diagnostics⟩ = c := by
  have hrun : ∀ {words : List UInt32} {abi : HostCodes → Abi} {t : Generator}, (do
      let abi ← assemble program options
      return (← finish, abi) : Gen (List UInt32 × (HostCodes → Abi))) (.start options.version) =
        .ok (words, abi) t ↔
      ∃ s, assemble program options (.start options.version) = .ok abi s ∧
        finish s = .ok words t := by
    intro words abi t
    simp only [bind_ok, pure_ok, Prod.mk.injEq]
    constructor
    · rintro ⟨_, s, hassemble, _, _, hfinish, ⟨rfl, rfl⟩, rfl⟩
      exact ⟨s, hassemble, hfinish⟩
    · rintro ⟨s, hassemble, hfinish⟩
      exact ⟨abi, s, hassemble, words, t, hfinish, ⟨rfl, rfl⟩, rfl⟩
  unfold compile compileLogged
  dsimp only
  split
  next e t heq =>
    simp only [reduceCtorEq, false_iff, not_exists, not_and]
    intro abi s s' hassemble hfinish
    rw [hrun.2 ⟨s, hassemble, hfinish⟩] at heq
    cases heq
  next words abi t heq =>
    obtain ⟨s, hassemble, hfinish⟩ := hrun.1 heq
    constructor
    · intro h
      cases hjudge : judge options words t.interned.diagnostics with
      | error e => simp [hjudge] at h
      | ok u =>
        simp only [hjudge, Except.ok.injEq] at h
        subst h
        exact ⟨abi, s, t, hassemble, hfinish, hjudge, rfl⟩
    · rintro ⟨abi', s₁, t', hassemble', hfinish', hjudge, hc⟩
      cases hassemble.symm.trans hassemble'
      obtain ⟨rfl, rfl⟩ : words = c.words ∧ t = t' := by
        simpa using hfinish.symm.trans hfinish'
      simp [hjudge, hc]

theorem exists_compile_of_isOk (h : (compile program options).isOk = true) :
    ∃ c, compile program options = .ok c := by
  cases hc : compile program options with
  | error e => rw [hc] at h; cases h
  | ok c => exact ⟨c, rfl⟩

/-! ## Finished modules -/

/-- The module that a program is compiled to, once it is finished. -/
def finishedModule (program : Program) (options : Options) : Option Assembly :=
  match (assemble program options >>= fun _ => finish) (.start options.version) with
  | .ok _ s => some s.assembly
  | .error _ _ => none

/-- The run of a successful compilation, and what it returns. -/
structure CompiledRun (program : Program) (options : Options) (host : HostCodes) (c : Compiled)
    (k : KernelIds) (entry : UInt32) (t s : Generator) : Prop where
  run : KernelRun program options k entry (.start options.version) t
  presented : Generator.Presented options k entry t s
  clean : s.clean
  fits : ∀ i ∈ s.assembly.preambleInstrs, i.fits
  finished : finishedModule program options = some s.assembly.writePreamble
  words : c.words = s.assembly.writePreamble.words
  moduleWords : c.words = moduleWords s.assembly.version s.assembly.bound s.contents
  abi : c.abi = .ofKernel options.entryName k.elem k.stride host
  unsupported : c.unsupported = s.interned.diagnostics
  judged : judge options c.words c.unsupported = .ok ()

theorem finish_eq {words : List UInt32} (h : finish s = .ok words s') :
    words = s.assembly.writePreamble.words ∧
      s' = { s with assembly := s.assembly.writePreamble } := by
  unfold finish Assembly.finish at h
  cases hfinished : s.assembly.finished with
  | true => simp [hfinished] at h
  | false =>
    cases hrefusal : s.assembly.refusal with
    | some d => simp [hfinished, hrefusal] at h
    | none =>
      cases hdone : s.assembly.writePreamble.refusal with
      | some d => simp [hfinished, hrefusal, hdone] at h
      | none =>
        simp only [hfinished, hrefusal, hdone, Bool.false_eq_true, if_false,
          EStateM.Result.ok.injEq] at h
        exact ⟨h.1.symm, h.2.symm⟩

/-- The module is finished from the state in which its entry point is declared. -/
theorem exists_compiledRun_present {c : Compiled} (h : compile program options host = .ok c) :
    ∃ k entry t, CompiledRun program options host c k entry t (t.present options k entry) := by
  obtain ⟨abi, s, s', hassemble, hfinish, hjudge, hc⟩ := compile_ok.1 h
  obtain ⟨k, entry, t, hrun, habi, rfl⟩ := exists_kernelRun hassemble
  obtain ⟨hclean, -, hfits, hmodule⟩ := finish_ok.1 ⟨s', hfinish⟩
  obtain ⟨hwords, hs'⟩ := finish_eq hfinish
  have hunsupported : c.unsupported = s'.interned.diagnostics := by rw [← hc]
  refine ⟨k, entry, t, hrun, presented hclean, hclean, hfits, ?_, hwords, hmodule.symm, ?_, ?_, ?_⟩
  · unfold finishedModule
    rw [bind_ok.2 ⟨abi, _, hassemble, hfinish⟩, hs']
  · rw [← hc, habi]
  · rw [hunsupported, hs']
  · rw [hunsupported]
    exact hjudge

theorem exists_compiledRun {c : Compiled} (h : compile program options host = .ok c) :
    ∃ k entry t s, CompiledRun program options host c k entry t s := by
  obtain ⟨k, entry, t, hrun⟩ := exists_compiledRun_present h
  exact ⟨k, entry, t, _, hrun⟩

/-- Each byte becomes the sum of the next one and five, computed with 24 bits. -/
def shifting : Program where
  name := "shifting"
  funcs := [
    { name := "shift"
      params := [some ⟨"element", .pointer (.int 8) .buffer⟩]
      result := .void
      blocks := [
        ⟨"entry", none, [
          some (.elementPtr (.param ⟨⟨0⟩, 0⟩) (.constant (.ofWord 1))),
          some (.load (.result ⟨⟨⟨0⟩, 0⟩, 0⟩)),
          some (.convert (.result ⟨⟨⟨0⟩, 0⟩, 1⟩) .unsigned (.int 24) .unsigned),
          some (.binary .add .unsigned (.result ⟨⟨⟨0⟩, 0⟩, 2⟩) (.constant ⟨.int 24, 5⟩)),
          some (.convert (.result ⟨⟨⟨0⟩, 0⟩, 3⟩) .unsigned (.int 8) .unsigned),
          some (.elementPtr (.param ⟨⟨0⟩, 0⟩) (.constant (.ofWord 0))),
          some (.store (.result ⟨⟨⟨0⟩, 0⟩, 4⟩) (.result ⟨⟨⟨0⟩, 0⟩, 5⟩)),
          some (.ret .missing)]⟩]
      order := [some 0] }]
  order := [some 0]

theorem exists_compile_shifting : ∃ c, compile shifting { debug := true } = .ok c :=
  exists_compile_of_isOk (by decide +kernel)

end Elementwise.Spirv
