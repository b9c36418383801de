import Elementwise.Proofs.Compilation

/-!
# Options do not change the code

One program, compiled with any two sets of options, gets the same decorations, declarations and
functions, the same number of ids, the same reports and, but for the name of its entry point, the
same interface. Options decide about the version, about capabilities and extensions, about the name
of the entry point and the variables listed with it, and about names.
-/
namespace Elementwise.Spirv
open IR Gen Relation

/-- What options decide of a finished module, given the ids of the kernel and of its entry
function. -/
structure Assembly.PresentedBy (options : Options) (k : KernelIds) (entry : UInt32)
    (a : Assembly) : Prop where
  header : a.headerWords = [magicNumber, options.version.word, generatorNumber, a.bound, 0]
  preamble : a.preamble.toList = a.capabilities.map (fun c => ⟨.capability, [c]⟩) ++
    a.extensions.map (fun e => ⟨.extension, textWords (Text.Utf8.bytes e)⟩) ++
    [⟨.memoryModel, [AddressingModel.logical, MemoryModel.glsl450]⟩]
  entryPoints : a.entryPoints.toList = options.entryPointInstrs k entry
  debug : ∀ i ∈ a.debug, i.opcode = .name ∨ i.opcode = .memberName
  unnamed : options.debug = false → a.debug = #[]

variable {program : Program} {options other : Options} {host : HostCodes} {c c' : Compiled}
  {k : KernelIds} {entry : UInt32} {s t : Generator}

/-- The first state of any two runs is the same but for the version. -/
theorem sameCode_start (version version' : Version) :
    (Generator.start version).SameCode (.start version') := by
  constructor <;> rfl

theorem CompiledRun.presentedBy (h : CompiledRun program options host c k entry t s) :
    s.assembly.writePreamble.PresentedBy options k entry := by
  have hgrows := grows_of_reaches h.run.reaches h.presented.clean
  have hdebug : ∀ i ∈ s.part .debug, options.debug = true ∧
      (i.opcode = .name ∨ i.opcode = .memberName) := by
    have hearlier : ∀ i ∈ t.part .debug, options.debug = true ∧
        (i.opcode = .name ∨ i.opcode = .memberName) := by
      intro i hi
      rcases hgrows.mem .debug i hi with hi | ⟨-, -, hi, -⟩
      · cases hi
      · exact hi rfl
    intro i hi
    obtain hsame | ⟨hon, j, hj, -, hsame⟩ := h.presented.debug
    · exact hearlier i (hsame ▸ hi)
    · rw [hsame] at hi
      rcases List.mem_append.1 hi with hi | hi
      · exact hearlier i hi
      · cases List.mem_singleton.1 hi
        exact ⟨hon, Or.inl hj⟩
  rw [writePreamble_eq h.fits]
  constructor
  · have hversion : s.assembly.version = options.version :=
      h.presented.version.trans hgrows.version
    simp only [Assembly.headerWords, hversion]
  · have haddressing : s.assembly.addressing = AddressingModel.logical :=
      h.presented.addressing.trans hgrows.addressing
    have hmemory : s.assembly.memory = MemoryModel.glsl450 :=
      h.presented.memory.trans hgrows.memory
    simp only [Assembly.preambleInstrs, haddressing, hmemory]
  · exact h.presented.entryPoints.trans (congrArg (· ++ _) hgrows.entryPoints)
  · exact fun i hi => (hdebug i (Array.mem_def.1 hi)).2
  · intro hoff
    refine Array.eq_empty_iff_forall_not_mem.2 fun i hi => ?_
    have hon := (hdebug i (Array.mem_def.1 hi)).1
    rw [hoff] at hon
    cases hon

/-- Two compilations of a program agree in all that options do not decide, and each presents it in
the way of its options. -/
structure AgreeInCode (program : Program) (options other : Options) (c c' : Compiled)
    (a a' : Assembly) (k : KernelIds) (entry : UInt32) : Prop where
  finished : finishedModule program options = some a ∧ finishedModule program other = some a'
  words : c.words = a.words ∧ c'.words = a'.words
  decorations : a.decorations = a'.decorations
  types : a.types = a'.types
  functions : a.functions = a'.functions
  bound : a.bound = a'.bound
  unsupported : c.unsupported = c'.unsupported
  abi : { c.abi with entryPoint := c'.abi.entryPoint } = c'.abi
  presented : a.PresentedBy options k entry ∧ a'.PresentedBy other k entry

/-- Options never change the code. -/
theorem compile_agreeInCode (h : compile program options host = .ok c)
    (h' : compile program other host = .ok c') :
    ∃ a a' k entry, AgreeInCode program options other c c' a a' k entry := by
  obtain ⟨k, entry, t, s, hrun⟩ := exists_compiledRun h
  obtain ⟨k', entry', t', s', hrun'⟩ := exists_compiledRun h'
  obtain ⟨rfl, rfl, hcode⟩ := hrun.run.sameCode hrun'.run (sameCode_start _ _)
  have hsame : s.SameCode s' :=
    hrun.presented.code.trans (hcode.trans hrun'.presented.code.symm)
  refine ⟨_, _, k, entry, ⟨hrun.finished, hrun'.finished⟩, ⟨hrun.words, hrun'.words⟩,
    ?_, ?_, ?_, ?_, ?_, ?_, hrun.presentedBy, hrun'.presentedBy⟩
  · rw [writePreamble_eq hrun.fits, writePreamble_eq hrun'.fits]
    exact hsame.decorations
  · rw [writePreamble_eq hrun.fits, writePreamble_eq hrun'.fits]
    exact hsame.types
  · rw [writePreamble_eq hrun.fits, writePreamble_eq hrun'.fits]
    exact hsame.code
  · rw [writePreamble_eq hrun.fits, writePreamble_eq hrun'.fits, Assembly.bound, Assembly.bound]
    exact congrArg (fun n => (n + 1).toUInt32) hsame.allocated
  · rw [hrun.unsupported, hrun'.unsupported, hsame.interned]
  · rw [hrun.abi, hrun'.abi]
    rfl

/-- A later version and another entry point, without verification. -/
def laterOptions : Options where
  version := ⟨1, 5⟩
  capabilities := [Capability.int64]
  validation := false
  entryPoint := "shift"

theorem compile_agreeInCode_shifting : ∃ c c', compile shifting { debug := true } = .ok c ∧
    compile shifting laterOptions = .ok c' ∧
      ∃ a a' k entry, AgreeInCode shifting { debug := true } laterOptions c c' a a' k entry := by
  have hok : (compile shifting laterOptions).isOk = true := by decide +kernel
  obtain ⟨c, hc⟩ := exists_compile_shifting
  cases hc' : compile shifting laterOptions with
  | error e => rw [hc'] at hok; cases hok
  | ok c' => exact ⟨c, c', hc, rfl, compile_agreeInCode hc hc'⟩

end Elementwise.Spirv
