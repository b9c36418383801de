import Elementwise.Proofs.Kernel

/-!
# The course of a kernel

A kernel is assembled in four parts. Its globals are declared, its functions get ids, the functions
are written, and so is the entry function. In the end the entry function is named as the entry
point. Two runs for one program differ, whatever their options are, in version, capabilities,
extensions, names and the entry point, and in nothing else.
-/
namespace Elementwise.Spirv
open IR Gen Relation

variable {r : Relabeling} {w debug : Bool} {s t s' : Generator}

/-! ## The kernel -/

theorem optional_silent {R : Generator → Generator → Prop} {c : Prop} [Decidable c]
    {x : Gen Unit} (hx : Silent R x ()) : Silent R (if c then x else pure ()) () :=
  .ite (fun _ => hx) fun _ => .pure

theorem narrowStorage_silent (version : Version) (width : UInt32) :
    Silent Interns (narrowStorage version width) ⟨⟩ := by
  unfold narrowStorage
  refine .ite (fun _ => ?_) fun _ => .ite (fun _ => ?_) fun _ => .pure
  · exact (addCapability_silent _).bind (optional_silent (addExtension_silent _))
  · exact (addCapability_silent _).bind (optional_silent (addExtension_silent _))

theorem kernelRequirements_silent (version : Version) (elem : Ty) :
    Silent Interns (kernelRequirements version elem) ⟨⟩ := by
  refine (addCapability_silent _).bind ((addCapability_silent _).bind ?_)
  refine .ite (fun _ => ?_) fun _ => narrowStorage_silent _ _
  exact (addExtension_silent _).bind ((addExtension_silent _).bind (narrowStorage_silent _ _))

theorem narrowStorage_steady (version : Version) (width : UInt32) :
    Steady r w Interns (narrowStorage version width) := by
  have hnarrow : ∀ (c : Prop) [Decidable c] (capability : UInt32) (name : String),
      Steady r w Interns (do
        addCapability capability
        if c then addExtension name) :=
    fun c _ capability name => (addCapability_steady capability).andThen fun _ =>
      .ite Iff.rfl (fun _ => addExtension_steady name) fun _ => .pure rfl
  unfold narrowStorage
  exact .ite Iff.rfl (fun _ => hnarrow _ _ _) fun _ =>
    .ite Iff.rfl (fun _ => hnarrow _ _ _) fun _ => .pure rfl

theorem kernelRequirements_lockstep {version other : Version} (hw : w = true → version = other)
    (elem : Ty) :
    Lockstep r w Interns Eq (kernelRequirements version elem) (kernelRequirements other elem) := by
  cases w with
  | false =>
    have hsilent := fun version => kernelRequirements_silent version elem
    exact (hsilent version).lockstep (hsilent other) rfl
  | true =>
    cases hw rfl
    refine (addCapability_steady _).andThen fun _ => (addCapability_steady _).andThen fun _ => ?_
    refine .ite Iff.rfl (fun _ => ?_) fun _ => narrowStorage_steady _ _
    refine (addExtension_steady _).andThen fun _ => (addExtension_steady _).andThen fun _ => ?_
    exact narrowStorage_steady _ _

/-- A structure or a variable of the kernel. -/
theorem declareOwn_steady {op : Opcode} {operands : UInt32 → List UInt32}
    (hhome : ∀ id, (⟨op, operands id⟩ : Instruction).home? = some .types)
    (hop : op = .typeStruct ∨ op = .variableOp) :
    Steady r w (Assembles debug) (build (.declare op operands)) := by
  intro s t hst
  refine .ok (u := s.alloc.put .types ⟨op, operands s.next⟩) hst.next ?_
    (.head (Interns.quiet (quiet_alloc s)).assembles (.single (.own (hhome _) hop)))
  rw [hst.next]
  exact hst.alloc.put _ _

theorem runtimeArrayId_steady (elem stride : UInt32) :
    Steady r w (Assembles debug) (runtimeArrayId elem stride) := by
  intro s t hst
  refine recorded_paired (d := .array elem) hst intern_of_recorded fun hid hid' => ?_
  rw [runtimeArrayId_of_new stride hid, runtimeArrayId_of_new stride hid', ← hst.next]
  exact .ok rfl ((hst.declare _ _).put _ _) (.tail (.single (.array hid)) (.decorate rfl))

theorem blockVariable_steady (member : UInt32) {storage : UInt32}
    (hstorage : storage ≠ StorageClass.function) :
    Steady r w (Assembles debug) (blockVariable member storage) := by
  refine Lockstep.andThen (declareOwn_steady (fun _ => rfl) (Or.inl rfl)) fun block => ?_
  refine (decorate_steady rfl).andThen fun _ => ?_
  refine (decorate_steady rfl).andThen fun _ => ?_
  refine (pointerId_steady storage block).writes.assembles.andThen fun pointer => ?_
  refine Lockstep.andThen (declareOwn_steady (fun _ => ?_) (Or.inr rfl)) fun _ => .pure rfl
  exact (Profile.globalVariable hstorage).home

/-- The names of the kernel's variables and of their parts. -/
theorem kernelNames_silent {α : Type} (hdebug : debug = true)
    (dataBlock dataVar configBlock configVar invocationVar : UInt32) (a : α) :
    Silent (Writes debug) (do
      build (.name dataBlock "Data")
      build (.memberName dataBlock 0 "data")
      build (.name dataVar "data")
      build (.name configBlock "Config")
      build (.memberName configBlock 0 "count")
      build (.name configVar "config")
      build (.name invocationVar "global_invocation_id")
      return a) a := by
  have hname : ∀ id text, Silent (Writes debug) (build (.name id text)) ⟨⟩ :=
    fun id text => name_silent id text hdebug
  have hmember : ∀ id member text, Silent (Writes debug) (build (.memberName id member text)) ⟨⟩ :=
    fun id member text => memberName_silent id member text hdebug
  refine (hname _ _).bind ((hmember _ _ _).bind ((hname _ _).bind ?_))
  refine (hname _ _).bind ((hmember _ _ _).bind ((hname _ _).bind ?_))
  exact (hname _ _).bind .pure

theorem declareKernel_lockstep {options other : Options}
    (hw : w = true → options = other ∧ options.debug = false) (element : Ty) :
    Lockstep r w (Assembles options.debug) Eq (declareKernel options element)
      (declareKernel other element) := by
  refine (normalize_steady element).writes.assembles.andThen fun elem => ?_
  refine (kernelRequirements_lockstep (fun h => congrArg Options.version (hw h).1)
    elem).writes.assembles.andThen fun _ => ?_
  refine (byteSize_steady elem).writes.assembles.andThen fun stride => ?_
  refine (typeId_steady elem).writes.assembles.andThen fun elemId => ?_
  refine (typeId_steady .void).writes.assembles.andThen fun void => ?_
  refine (typeId_steady .bool).writes.assembles.andThen fun bool => ?_
  refine (typeId_steady (.int 32)).writes.assembles.andThen fun uint => ?_
  refine (typeId_steady (.pointer elem .buffer)).writes.assembles.andThen fun elemPtr => ?_
  refine (constantId_steady (.ofWord 0)).writes.assembles.andThen fun zero => ?_
  refine (runtimeArrayId_steady elemId stride).andThen fun array => ?_
  refine (blockVariable_steady array (by decide)).andThen fun data => ?_
  refine (decorate_steady rfl).andThen fun _ => ?_
  refine (decorate_steady rfl).andThen fun _ => ?_
  refine (blockVariable_steady uint (by decide)).andThen fun config => ?_
  refine (pointerId_steady _ uint).writes.assembles.andThen fun countPtr => ?_
  refine (vectorId_steady uint 3).writes.assembles.andThen fun v => ?_
  refine (pointerId_steady _ v).writes.assembles.andThen fun vPtr => ?_
  refine Lockstep.andThen (declareOwn_steady (fun _ => rfl) (Or.inr rfl)) fun vVar => ?_
  refine (decorate_steady rfl).andThen fun _ => ?_
  refine (functionTypeId_steady void []).writes.assembles.andThen fun entryType => ?_
  have hnames := fun (debug : Bool) (k : KernelIds) => Silent.ite (p := debug = true)
    (fun hdebug => kernelNames_silent hdebug data.1 data.2 config.1 config.2 vVar k)
    fun _ => Silent.pure
  cases w with
  | false => exact (hnames options.debug _).assembles.lockstep (hnames other.debug _) rfl
  | true =>
    obtain ⟨rfl, hdebug⟩ := hw rfl
    rw [hdebug]
    exact .pure rfl

theorem emitEntryFunction_steady (k : KernelIds) (function : UInt32) :
    Steady r w (Writes debug) (build (emitEntryFunction k function)) := by
  intro s t hst
  have hallocated : s.assembly.allocated = t.assembly.allocated := hst.code.allocated
  rw [emitEntryFunction_eq, emitEntryFunction_eq, ← hst.current, ← hallocated]
  refine .ok hst.next (hst.putAll _ _) (Generator.putAll_keeps
    (fun u => ReflTransGen (Writes debug) s u ∧ u.assembly.current = s.assembly.current)
    ⟨.refl, rfl⟩ ?_ ?_).1
  · exact fun u ⟨hu, hcurrent⟩ => ⟨hu.tail (.interns (.quiet (quiet_alloc u))), hcurrent⟩
  · rintro u x hx i hi ⟨hu, hcurrent⟩
    obtain ⟨hhome, -, hop⟩ := EntryIds.home_steps _ k function x hx i hi
    refine ⟨hu.tail ?_, (u.put_current _ i).trans hcurrent⟩
    rw [← hcurrent]
    exact .write hhome fun h => absurd h hop

/-! ## Runs -/

theorem addCapabilities_lockstep {capabilities others : List UInt32}
    (hw : w = true → capabilities = others) :
    Lockstep r w Interns Eq
      (forIn capabilities PUnit.unit fun c _ => do
        addCapability c
        pure (.yield PUnit.unit))
      (forIn others PUnit.unit fun c _ => do
        addCapability c
        pure (.yield PUnit.unit)) := by
  cases w with
  | false =>
    have hsilent : ∀ capabilities : List UInt32,
        Silent Interns (forIn capabilities PUnit.unit fun c _ => do
          addCapability c
          pure (.yield PUnit.unit)) ⟨⟩ :=
      fun _ => .forIn fun c => (addCapability_silent c).bind .pure
    exact (hsilent capabilities).lockstep (hsilent others) rfl
  | true =>
    cases hw rfl
    induction capabilities with
    | nil => exact .pure rfl
    | cons c rest ih =>
      simp only [List.forIn_cons, bind_assoc, pure_bind]
      exact (addCapability_steady c).andThen fun _ => ih fun _ => rfl

/-- The state after the entry point is declared, and named if names are asked for. -/
def Generator.present (s : Generator) (options : Options) (k : KernelIds) (entry : UInt32) :
    Generator :=
  let declared := (options.entryPointInstrs k entry).foldl (fun s i => s.put .entryPoints i) s
  if options.debug then
    declared.put .debug ⟨.name, entry :: textWords options.entryName.bytes⟩
  else declared

/-- A run that assembles a kernel, up to the state where its entry function is written. -/
inductive KernelRun (program : Program) (options : Options) (k : KernelIds) (entry : UInt32)
    (s : Generator) : Generator → Prop
  | intro {kernel : FuncId × Func} {elem : Ty} {s₁ s₂ s₃ s₄ s' : Generator}
      (hkernel : program.kernel? = some kernel) (helem : elementType kernel.2 = .ok elem)
      (hcapabilities : (forIn options.capabilities PUnit.unit fun c _ => do
        addCapability c
        pure (.yield PUnit.unit) : Gen PUnit) s = .ok ⟨⟩ s₁)
      (hdeclare : declareKernel options elem s₁ = .ok k s₂)
      (hids : declareFunctions (program.listed.map fun entry => entry.map (·.1)) s₂ = .ok () s₃)
      (hlower : lowerListed program options.debug [] program.listed s₃ = .ok () s₄)
      (hentry : inFunctions (build (emitEntryFunction k
        ((List.lookup (some kernel.1) s₄.functions).getD 0))) s₄ = .ok entry s') :
      KernelRun program options k entry s s'

variable {program : Program} {options : Options} {k : KernelIds} {entry : UInt32}
  {function : UInt32}

theorem emitEntry_ok {abi : HostCodes → Abi} (h : emitEntry options k function s = .ok abi s') :
    ∃ entry t, inFunctions (build (emitEntryFunction k function)) s = .ok entry t ∧
      abi = .ofKernel options.entryName k.elem k.stride ∧ s' = t.present options k entry := by
  simp only [emitEntry, bind_ok, Build.entryPoint, Build.executionMode, emitTo_ok, ite_ok,
    Build.name, pure_ok] at h
  obtain ⟨entry, t, hentry, _, _, rfl, _, _, rfl, h⟩ := h
  refine ⟨entry, t, hentry, ?_⟩
  simp only [Generator.present, Options.entryPointInstrs, Options.entryName, Options.interfaces,
    List.foldl_cons, List.foldl_nil]
  cases hdebug : options.debug with
  | true =>
    simp only [hdebug, if_true] at h ⊢
    obtain ⟨_, _, rfl, rfl, rfl⟩ := h
    exact ⟨rfl, rfl⟩
  | false =>
    simp only [hdebug, Bool.false_eq_true, if_false] at h ⊢
    obtain ⟨rfl, rfl⟩ := h
    exact ⟨rfl, rfl⟩

theorem exists_kernelRun {abi : HostCodes → Abi} (h : assemble program options s = .ok abi s') :
    ∃ k entry t, KernelRun program options k entry s t ∧
      abi = .ofKernel options.entryName k.elem k.stride ∧ s' = t.present options k entry := by
  simp only [assemble, bind_ok, ite_ok, Gen.fail_ok, false_and, exists_false, if_false_left] at h
  obtain ⟨-, _, s₁, hcapabilities, h⟩ := h
  cases hkernel : program.kernel? with
  | none => simp only [hkernel, Gen.fail_ok] at h
  | some kernel =>
    cases helem : elementType kernel.2 with
    | error e => simp only [hkernel, helem, throw_ok] at h
    | ok elem =>
      simp only [hkernel, helem, bind_ok, get_ok] at h
      obtain ⟨k, s₂, hdeclare, _, s₃, hids, _, s₄, hlower, _, _, ⟨rfl, rfl⟩, hentry⟩ := h
      obtain ⟨entry, t, hrun, habi, hs'⟩ := emitEntry_ok hentry
      exact ⟨k, entry, t, .intro hkernel helem hcapabilities hdeclare hids hlower hrun, habi, hs'⟩

namespace KernelRun

theorem lowers_same (program : Program) (debug other : Bool) :
    Lockstep .same false (Writes debug) Eq (lowerListed program debug [] program.listed)
      (lowerListed program other [] program.listed) :=
  lowerListed_lockstep (w := false) program.corresponds_same nofun
    program.corresponds_same.listed []

theorem declares_same (ids : List (Option FuncId)) :
    Steady .same false Interns (declareFunctions ids) := by
  have h := declareFunctions_lockstep (w := false) Relabeling.faithful_same ids
  simpa using h

/-- The functions get ids and are written, and so is the entry function. -/
theorem writes {s₁ s₂ : Generator}
    (hids : declareFunctions (program.listed.map fun entry => entry.map (·.1)) s = .ok () s₁)
    (hlower : lowerListed program debug [] program.listed s₁ = .ok () s₂)
    (hentry : inFunctions (build (emitEntryFunction k function)) s₂ = .ok entry s') :
    ReflTransGen (Writes debug) s s' := by
  have hfunction : Steady .same false (Writes debug) _ :=
    .inFunctions select_writes (emitEntryFunction_steady k function)
  exact ((declares_same _).writes.reaches hids).trans <|
    ((lowers_same program debug debug).reaches hlower).trans (hfunction.reaches hentry)

theorem reaches (h : KernelRun program options k entry s s') :
    ReflTransGen (Assembles options.debug) s s' := by
  obtain ⟨-, -, hcapabilities, hdeclare, hids, hlower, hentry⟩ := h
  have hcaps := Steady.reaches (addCapabilities_lockstep (w := false) nofun) hcapabilities
  have hkernel := Steady.reaches (declareKernel_lockstep (w := false) nofun _) hdeclare
  refine (ReflTransGen.mono (fun _ _ => Interns.assembles) _ _ hcaps).trans (hkernel.trans ?_)
  exact ReflTransGen.mono (fun _ _ => Assembles.writes) _ _ (writes hids hlower hentry)

/-- Options decide nothing but the entry point. -/
theorem sameCode {other : Options} {k' : KernelIds} {entry' : UInt32} {t' : Generator}
    (h : KernelRun program options k entry s s') (h' : KernelRun program other k' entry' t t')
    (hst : s.SameCode t) : k = k' ∧ entry = entry' ∧ s'.SameCode t' := by
  obtain ⟨hkernel, helem, hcapabilities, hdeclare, hids, hlower, hentry⟩ := h
  obtain ⟨hkernel', helem', hcapabilities', hdeclare', hids', hlower', hentry'⟩ := h'
  cases hkernel.symm.trans hkernel'
  cases helem.symm.trans helem'
  obtain ⟨-, hcode₁⟩ := (addCapabilities_lockstep (w := false) nofun).of_ok hst hcapabilities hcapabilities'
  obtain ⟨rfl, hcode₂⟩ := (declareKernel_lockstep (w := false) nofun _).of_ok hcode₁ hdeclare hdeclare'
  obtain ⟨-, hcode₃⟩ := (declares_same _).of_ok hcode₂ hids hids'
  obtain ⟨-, hcode₄⟩ := (lowers_same program _ _).of_ok hcode₃ hlower hlower'
  rw [hcode₄.functions] at hentry
  exact ⟨rfl, (Lockstep.inFunctions (@select_writes false)
    (emitEntryFunction_steady k _)).of_ok hcode₄ hentry hentry'⟩

end KernelRun

/-! ## The entry point -/

/-- The entry point is declared and named, and nothing else is changed. -/
structure Generator.Presented (options : Options) (k : KernelIds) (entry : UInt32)
    (s s' : Generator) : Prop where
  clean : s.clean
  code : s'.SameCode s
  version : s'.assembly.version = s.assembly.version
  addressing : s'.assembly.addressing = s.assembly.addressing
  memory : s'.assembly.memory = s.assembly.memory
  entryPoints : s'.part .entryPoints = s.part .entryPoints ++ options.entryPointInstrs k entry
  fits : ∀ i ∈ options.entryPointInstrs k entry, i.fits
  debug : s'.part .debug = s.part .debug ∨ options.debug = true ∧
    ∃ i, i.opcode = .name ∧ i.fits ∧ s'.part .debug = s.part .debug ++ [i]

/-- If nothing was refused, the entry point was declared and, if asked for, named. -/
theorem present_clean (hc : (s.present options k entry).clean) :
    s.clean ∧ (∀ i ∈ options.entryPointInstrs k entry, i.fits) ∧ ∃ names : List Instruction,
      s.present options k entry = { s with assembly := { s.assembly with
        entryPoints := s.assembly.entryPoints ++ (options.entryPointInstrs k entry).toArray
        debug := s.assembly.debug ++ names.toArray } } ∧
      (names = [] ∨ options.debug = true ∧ ∃ i, names = [i] ∧ i.fits ∧
        i = ⟨.name, entry :: textWords options.entryName.bytes⟩) := by
  unfold Generator.present at hc ⊢
  simp only [Options.entryPointInstrs, List.foldl_cons, List.foldl_nil] at hc ⊢
  split_ifs at hc ⊢ with hdebug
  · obtain ⟨hc₂, hname, hnameAdd⟩ := Generator.put_clean hc
    obtain ⟨hc₁, hmode, hmodeAdd⟩ := Generator.put_clean hc₂
    obtain ⟨hc₀, hpoint, hpointAdd⟩ := Generator.put_clean hc₁
    refine ⟨hc₀, by simpa using ⟨hpoint, hmode⟩, [_], ?_, Or.inr ⟨hdebug, _, rfl, hname, rfl⟩⟩
    rw [hnameAdd, hmodeAdd, hpointAdd]
    simp [Generator.add, Assembly.append, ← Array.toList_inj]
  · obtain ⟨hc₁, hmode, hmodeAdd⟩ := Generator.put_clean hc
    obtain ⟨hc₀, hpoint, hpointAdd⟩ := Generator.put_clean hc₁
    refine ⟨hc₀, by simpa using ⟨hpoint, hmode⟩, [], ?_, Or.inl rfl⟩
    rw [hmodeAdd, hpointAdd]
    simp [Generator.add, Assembly.append, ← Array.toList_inj]

theorem presented (hc : (s.present options k entry).clean) :
    Generator.Presented options k entry s (s.present options k entry) := by
  obtain ⟨hclean, hfits, names, hpresent, hnames⟩ := present_clean hc
  rw [hpresent]
  refine ⟨hclean, by constructor <;> rfl, rfl, rfl, rfl, Array.toList_append, hfits, ?_⟩
  obtain rfl | ⟨hdebug, i, rfl, hi, rfl⟩ := hnames
  · exact Or.inl (by simp [Generator.part, Assembly.sectionInstrs])
  · exact Or.inr ⟨hdebug, _, rfl, hi, Array.toList_append⟩

/-- Every section holds instructions of its own. -/
structure Generator.Sorted (s : Generator) : Prop where
  preamble : ∀ i ∈ s.assembly.preambleInstrs, i.fits ∧ i.home? = some .preamble
  entryPoints : ∀ i ∈ s.assembly.entryPoints.toList, i.fits ∧ i.home? = some .entryPoints
  debug : ∀ i ∈ s.assembly.debug.toList, i.fits ∧ i.home? = some .debug
  decorations : ∀ i ∈ s.assembly.decorations.toList, i.fits ∧ i.home? = some .decorations
  declared : ∀ i ∈ s.declared, i.fits ∧ i.home? = some .types
  written : ∀ i ∈ s.written, i.fits ∧ i.home? = some .functions

/-- Whatever was put into a section belongs there. -/
theorem Generator.Presented.sorted (h : t.Presented options k entry s)
    (hgrows : (Generator.start options.version).Grows debug t)
    (hfits : ∀ i ∈ s.assembly.preambleInstrs, i.fits) : s.Sorted := by
  have hplaced : ∀ home, (Generator.start options.version).part home = [] →
      ∀ i ∈ t.part home, i.fits ∧ i.home? = some home := by
    intro home hnone i hi
    rcases hgrows.mem home i hi with hi | ⟨hfits, hhome, -⟩
    · rw [hnone] at hi
      cases hi
    · exact ⟨hfits, hhome⟩
  have hdeclared : s.declared = t.part .types := congrArg Array.toList h.code.types
  have hwritten : s.written = t.part .functions := congrArg Array.toList h.code.code
  have hdecorations : s.part .decorations = t.part .decorations :=
    congrArg Array.toList h.code.decorations
  constructor
  · intro i hi
    refine ⟨hfits i hi, ?_⟩
    simp only [Assembly.preambleInstrs, List.mem_append, List.mem_map, List.mem_singleton] at hi
    rcases hi with (⟨_, -, rfl⟩ | ⟨_, -, rfl⟩) | rfl <;> rfl
  · intro i hi
    have hpoint : i ∈ options.entryPointInstrs k entry := by
      have hi' : i ∈ s.part .entryPoints := hi
      rwa [h.entryPoints, hgrows.entryPoints] at hi'
    refine ⟨h.fits i hpoint, ?_⟩
    simp only [Options.entryPointInstrs, List.mem_cons, List.not_mem_nil, or_false] at hpoint
    rcases hpoint with rfl | rfl <;> rfl
  · intro i hi
    have hi' : i ∈ s.part .debug := hi
    obtain hsame | ⟨-, j, hj, hfits, hsame⟩ := h.debug
    · exact hplaced .debug rfl i (hsame ▸ hi')
    · rw [hsame] at hi'
      rcases List.mem_append.1 hi' with hi' | hi'
      · exact hplaced .debug rfl i hi'
      · cases List.mem_singleton.1 hi'
        exact ⟨hfits, home?_of_name (Or.inl hj)⟩
  · exact fun i hi => hplaced .decorations rfl i (hdecorations ▸ hi)
  · exact fun i hi => hplaced .types rfl i (hdeclared ▸ hi)
  · exact fun i hi => hplaced .functions rfl i (hwritten ▸ hi)

end Elementwise.Spirv
