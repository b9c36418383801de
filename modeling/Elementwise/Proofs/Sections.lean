import Elementwise.Proofs.Nesting

/-!
# Sections

Every instruction of a module stands in the section of its opcode, and the sections stand in
order. Only types, constants, variables and functions define ids, and only the last section holds
functions.
-/
namespace Elementwise.Spirv
open IR

/-! ## Homes of opcodes -/

variable {home : Section} {i : Instruction} {is : List Instruction}

/-- Only types, constants, variables and the instructions of functions define ids. -/
theorem result?_eq_none_of_home {s : Section} (h : i.home? = some s) (htypes : s ≠ .types)
    (hfunctions : s ≠ .functions) : i.result? = none := by
  have hshapes : ∀ entry ∈ Opcode.shapes, entry.2.hasResult = true →
      entry.2.home = .types ∨ entry.2.home = .functions := by decide
  have hnone : ∀ shape, i.opcode.shape? = some shape → shape.hasResult = false := by
    intro shape hs
    unfold Instruction.home? Opcode.home? at h
    split at h
    · exact absurd (Option.some.inj h).symm hfunctions
    · rw [hs, Option.map_some, Option.some.injEq] at h
      subst h
      by_contra hresult
      rcases hshapes _ (mem_of_lookup hs) (by simpa using hresult) with heq | heq
      · exact htypes heq
      · exact hfunctions heq
  unfold Instruction.result?
  cases hread : i.readAt 0 with
  | error e => rfl
  | ok d =>
    cases hs : i.opcode.shape? with
    | none => rw [Instruction.readAt, decodeInstr, hs] at hread; cases hread
    | some shape =>
      simp only [Instruction.readAt, decodeInstr, hs, bind, Except.bind, readOptional,
        hnone shape hs, Bool.false_eq_true, if_false] at hread
      split at hread
      · cases hread
      split at hread
      · cases hread
      cases hread
      rfl

theorem plain_of_home {s : Section} (h : i.home? = some s) (hfunctions : s ≠ .functions) :
    i.opcode ∉ structuralOps := by
  intro hop
  have hall : ∀ op ∈ structuralOps, op ≠ .variableOp ∧ op.shape?.map Shape.home =
      some .functions := by decide
  obtain ⟨hvariable, hhome⟩ := hall _ hop
  unfold Instruction.home? Opcode.home? at h
  rw [if_neg (by simp [hvariable]), hhome] at h
  exact hfunctions (Option.some.inj h).symm

/-- The sections of the instructions ascend, up to a last one. -/
def Ascends (last : Section) (instrs : List Instruction) : Prop :=
  (instrs.Pairwise fun i j => ∀ s t, i.home? = some s → j.home? = some t → s.code ≤ t.code) ∧
    ∀ i ∈ instrs, ∀ s, i.home? = some s → Section.preamble.code ≤ s.code ∧ s.code ≤ last.code

theorem Ascends.append {last next : Section} {js : List Instruction} (h : Ascends last is)
    (hlast : last.code ≤ next.code) (hnext : Section.preamble.code ≤ next.code)
    (hjs : ∀ j ∈ js, j.home? = some next) : Ascends next (is ++ js) := by
  constructor
  · refine List.pairwise_append.2 ⟨h.1, ?_, ?_⟩
    · refine List.pairwise_of_forall_mem_list fun i hi j hj s t hs ht => ?_
      cases (hjs i hi).symm.trans hs
      cases (hjs j hj).symm.trans ht
      exact UInt8.le_refl _
    · intro i hi j hj s t hs ht
      cases (hjs j hj).symm.trans ht
      exact UInt8.le_trans (h.2 i hi s hs).2 hlast
  · intro i hi s hs
    rcases List.mem_append.1 hi with hi | hi
    · exact ⟨(h.2 i hi s hs).1, UInt8.le_trans (h.2 i hi s hs).2 hlast⟩
    · cases (hjs i hi).symm.trans hs
      exact ⟨hnext, UInt8.le_refl _⟩

theorem filter_home {own : Section} (h : ∀ i ∈ is, i.home? = some own) :
    is.filter (fun i => i.home? = some home) = if own = home then is else [] := by
  split_ifs with heq
  · exact List.filter_eq_self.2 fun i hi => by simp [h i hi, heq]
  · exact List.filter_eq_nil_iff.2 fun i hi => by simp [h i hi, heq]

theorem filter_filter_home {p : Instruction → Bool} (hp : ∀ i, p i = true → i.home? = some home) :
    (is.filter fun i => i.home? = some home).filter p = is.filter p := by
  rw [List.filter_filter]
  refine List.filter_congr fun i _ => ?_
  cases hi : p i with
  | false => rfl
  | true => simp [hp i hi]

theorem home?_of_opcode {op : Opcode} (hop : i.opcode = op) (hvariable : op ≠ .variableOp)
    (hshape : op.shape?.map Shape.home = some home) : i.home? = some home := by
  rw [Instruction.home?, Opcode.home?, hop, if_neg (by simp [hvariable]), hshape]

/-! ## The sections of a module -/

section Modules

variable {s : Generator}

/-- The instructions before the types. -/
def Generator.front (s : Generator) : List Instruction :=
  s.assembly.preambleInstrs ++ s.assembly.entryPoints.toList ++ s.assembly.debug.toList ++
    s.assembly.decorations.toList

theorem Generator.contents_eq (s : Generator) : s.contents = s.front ++ (s.declared ++ s.written) :=
  List.append_assoc _ _ _

namespace Generator.Sorted

variable (h : s.Sorted)
include h

theorem of_mem_front : ∀ i ∈ s.front, i.fits ∧
    ∃ home : Section, i.home? = some home ∧ home ≠ .types ∧ home ≠ .functions := by
  intro i hi
  simp only [front, List.mem_append] at hi
  rcases hi with ((hi | hi) | hi) | hi
  · exact ⟨(h.preamble i hi).1, _, (h.preamble i hi).2, by decide, by decide⟩
  · exact ⟨(h.entryPoints i hi).1, _, (h.entryPoints i hi).2, by decide, by decide⟩
  · exact ⟨(h.debug i hi).1, _, (h.debug i hi).2, by decide, by decide⟩
  · exact ⟨(h.decorations i hi).1, _, (h.decorations i hi).2, by decide, by decide⟩

theorem fits : ∀ i ∈ s.contents, i.fits := by
  intro i hi
  rw [contents_eq, List.mem_append, List.mem_append] at hi
  rcases hi with hi | hi | hi
  · exact (h.of_mem_front i hi).1
  · exact (h.declared i hi).1
  · exact (h.written i hi).1

theorem ascends : Ascends .functions s.contents := by
  have hnil : Ascends .preamble [] := ⟨List.Pairwise.nil, by simp⟩
  have hpreamble := hnil.append (by decide) (by decide) fun i hi => (h.preamble i hi).2
  have hentry := hpreamble.append (by decide) (by decide) fun i hi => (h.entryPoints i hi).2
  have hdebug := hentry.append (by decide) (by decide) fun i hi => (h.debug i hi).2
  have hdecorations :=
    hdebug.append (by decide) (by decide) fun i hi => (h.decorations i hi).2
  have hdeclared :=
    hdecorations.append (by decide) (by decide) fun i hi => (h.declared i hi).2
  exact hdeclared.append (by decide) (by decide) fun i hi => (h.written i hi).2

theorem resultIds_contents : resultIds s.contents = resultIds (s.declared ++ s.written) := by
  have hnone : resultIds s.front = [] := by
    refine List.filterMap_eq_nil_iff.2 fun i hi => ?_
    obtain ⟨-, _, hhome, htypes, hfunctions⟩ := h.of_mem_front i hi
    exact result?_eq_none_of_home hhome htypes hfunctions
  rw [contents_eq, resultIds_append, hnone, List.nil_append]

/-- No function begins before the function section. -/
theorem plain_of_mem : ∀ i ∈ s.front ++ s.declared, i.opcode ∉ structuralOps := by
  intro i hi
  rcases List.mem_append.1 hi with hi | hi
  · obtain ⟨-, _, hhome, -, hfunctions⟩ := h.of_mem_front i hi
    exact plain_of_home hhome hfunctions
  · exact plain_of_home (h.declared i hi).2 (by decide)

theorem filter_contents (home : Section) :
    s.contents.filter (fun i => i.home? = some home) =
      (if .preamble = home then s.assembly.preambleInstrs else []) ++
      (if .entryPoints = home then s.assembly.entryPoints.toList else []) ++
      (if .debug = home then s.assembly.debug.toList else []) ++
      (if .decorations = home then s.assembly.decorations.toList else []) ++
      (if .types = home then s.declared else []) ++
      (if .functions = home then s.written else []) := by
  simp only [contents, List.filter_append, filter_home fun i hi => (h.preamble i hi).2,
    filter_home fun i hi => (h.entryPoints i hi).2, filter_home fun i hi => (h.debug i hi).2,
    filter_home fun i hi => (h.decorations i hi).2, filter_home fun i hi => (h.declared i hi).2,
    filter_home fun i hi => (h.written i hi).2]

/-- What stands in a section is what was appended to it. -/
theorem filter_part (hhome : home ∈ growingSections) :
    s.contents.filter (fun i => i.home? = some home) = s.part home := by
  rw [h.filter_contents]
  simp only [growingSections, List.mem_cons, List.not_mem_nil, or_false] at hhome
  rcases hhome with rfl | rfl | rfl | rfl | rfl <;>
    simp [part, Assembly.sectionInstrs, Generator.declared, Generator.written]

/-- Opcodes of the preamble stand nowhere else. -/
theorem filter_preamble {op : Opcode} (hvariable : op ≠ .variableOp)
    (hshape : op.shape?.map Shape.home = some .preamble) :
    (s.contents.filter fun i => i.opcode = op) =
      s.assembly.preambleInstrs.filter fun i => i.opcode = op := by
  have hpreamble : s.contents.filter (fun i => i.home? = some .preamble) =
      s.assembly.preambleInstrs := by
    rw [h.filter_contents]
    simp
  have hhome : ∀ i : Instruction, decide (i.opcode = op) = true → i.home? = some .preamble :=
    fun i hi => home?_of_opcode (of_decide_eq_true hi) hvariable hshape
  rw [← filter_filter_home hhome, hpreamble]

theorem memoryModel_once : s.contents.countP (fun i => i.opcode = .memoryModel) = 1 := by
  have hcapability : Opcode.capability ≠ .memoryModel := by decide
  have hextension : Opcode.extension ≠ .memoryModel := by decide
  rw [List.countP_eq_length_filter, h.filter_preamble (by decide) rfl]
  simp [Assembly.preambleInstrs, List.filter_map, Function.comp_def, hcapability, hextension]

end Generator.Sorted

end Modules

end Elementwise.Spirv
