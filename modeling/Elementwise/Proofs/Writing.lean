import Elementwise.Proofs.Compilation
import Elementwise.Proofs.Judgement
import Mathlib.Data.List.Induction
import Mathlib.Data.List.Sort
import Mathlib.Data.List.TakeWhile
import Mathlib.Data.String.Basic

/-!
# Modules are written as they were built, and read back

A module is built by calls in any order: ids are allocated, sections selected, instructions emitted,
capabilities and extensions declared. What the calls emit is said here without the state of the
module: a call depends on earlier ones only through the selected section and the next id.

Finishing succeeds exactly if every emission belongs where it goes and everything fits. Then the
words are the header, the declarations in order and each section with its instructions in the order
of emission, so that only the order within a section matters. If the instructions have the shapes of
their opcodes, the reader gives them back.
-/
namespace Elementwise.Spirv
open Text.Utf8

/-! ## Calls -/

/-- A call that extends a module under construction. Types, constants, names and the instructions
of function bodies are written by these calls, each with an opcode and operands of its own. -/
inductive Call where
  | allocId
  | setSection (target : Section)
  /-- Writes to the selected section. -/
  | emit (op : Opcode) (operands : List UInt32)
  | emitTo (target : Section) (op : Opcode) (operands : List UInt32)
  /-- Writes an instruction with a new result id to the selected section. -/
  | emitNew (op : Opcode) (operands : UInt32 → List UInt32)
  /-- Writes an instruction with a new result id among the types. -/
  | declare (op : Opcode) (operands : UInt32 → List UInt32)
  | addCapability (c : UInt32)
  | addExtension (name : String)
  | setMemoryModel (addressing memory : UInt32)

namespace Call

def run (a : Assembly) : Call → Assembly
  | allocId => (Build.allocId.run a).2
  | setSection target => ((Build.setSection target).run a).2
  | emit op operands => ((Build.emit op operands).run a).2
  | emitTo target op operands => ((Build.emitTo target op operands).run a).2
  | emitNew op operands => ((Build.emitNew op operands).run a).2
  | declare op operands => ((Build.declare op operands).run a).2
  | addCapability c => a.addCapability c
  | addExtension name => a.addExtension name
  | setMemoryModel addressing memory => a.setMemoryModel addressing memory

end Call

/-- The module after calls. -/
def Assembly.extend (a : Assembly) (calls : List Call) : Assembly := calls.foldl Call.run a

/-- The selected section and the number of ids in use. -/
structure Cursor where
  current : Section := .functions
  allocated : Nat := 0

/-- The next free id. -/
def Cursor.next (k : Cursor) : UInt32 := (k.allocated + 1).toUInt32

namespace Call

def move (k : Cursor) : Call → Cursor
  | allocId | emitNew .. | declare .. => { k with allocated := k.allocated + 1 }
  | setSection target => { k with current := target }
  | _ => k

/-- The instruction that a call emits, and the section that it is for. -/
def emission? (k : Cursor) : Call → Option (Section × Instruction)
  | emit op operands => some (k.current, ⟨op, operands⟩)
  | emitTo target op operands => some (target, ⟨op, operands⟩)
  | emitNew op operands => some (k.current, ⟨op, operands k.next⟩)
  | declare op operands => some (.types, ⟨op, operands k.next⟩)
  | _ => none

/-- The memory model after a call. -/
def memoryModel (model : UInt32 × UInt32) : Call → UInt32 × UInt32
  | setMemoryModel addressing memory => (addressing, memory)
  | _ => model

end Call

/-- The cursor after calls. -/
def cursorAfter (calls : List Call) : Cursor := calls.foldl Call.move {}

/-- The memory model that was set last. -/
def memoryModelAfter (calls : List Call) : UInt32 × UInt32 :=
  calls.foldl Call.memoryModel (AddressingModel.logical, MemoryModel.glsl450)

/-- The emissions of calls, in order. -/
def emissions (k : Cursor) : List Call → List (Section × Instruction)
  | [] => []
  | c :: rest => (c.emission? k).toList ++ emissions (c.move k) rest

/-- The instructions among emissions that are for a section. -/
def forSection (target : Section) (es : List (Section × Instruction)) : List Instruction :=
  (es.filter fun e => e.1 = target).map Prod.snd

/-- The sections that calls can write to, in the order in which they are written. -/
def openSections : List Section := [.entryPoints, .debug, .decorations, .types, .functions]

/-- The instructions of a module with the given declarations and emissions. -/
def writtenInstrs (capabilities : List UInt32) (extensions : List String) (model : UInt32 × UInt32)
    (es : List (Section × Instruction)) : List Instruction :=
  capabilities.map (fun c => ⟨.capability, [c]⟩) ++
    extensions.map (fun e => ⟨.extension, textWords (bytes e)⟩) ++
    [⟨.memoryModel, [model.1, model.2]⟩] ++
    openSections.flatMap fun target => forSection target es

/-! ## Declarations in order -/

section Ascending

variable {α : Type} [DecidableEq α] {x y : α} {xs : List α}

theorem mem_insertAscending_iff {lt : α → α → Bool} :
    y ∈ insertAscending lt x xs ↔ y ∈ xs ∨ y = x := by
  refine ⟨mem_insertAscending, fun h => ?_⟩
  induction xs with
  | nil => simpa [insertAscending] using h
  | cons z rest ih =>
    rw [List.mem_cons, or_assoc] at h
    unfold insertAscending
    split_ifs with heq hlt
    · subst heq
      rw [List.mem_cons]
      tauto
    · rw [List.mem_cons, List.mem_cons]
      tauto
    · rw [List.mem_cons]
      exact h.imp_right ih

theorem pairwise_insertAscending [LT α] [DecidableLT α] [IsTrans α (· < ·)]
    [Std.Trichotomous fun x y : α => x < y] (h : xs.Pairwise (· < ·)) :
    (insertAscending (fun x y => decide (x < y)) x xs).Pairwise (· < ·) := by
  induction xs with
  | nil => simp [insertAscending]
  | cons z rest ih =>
    obtain ⟨hz, hrest⟩ := List.pairwise_cons.1 h
    unfold insertAscending
    split_ifs with heq hlt
    · exact h
    · have hxz : x < z := of_decide_eq_true hlt
      refine List.pairwise_cons.2 ⟨fun w hw => ?_, h⟩
      rcases List.mem_cons.1 hw with rfl | hw
      · exact hxz
      · exact Trans.trans hxz (hz w hw)
    · have hzx : z < x := by
        rcases trichotomous_of (· < ·) x z with hxz | hxz | hxz
        · exact absurd (decide_eq_true hxz) hlt
        · exact absurd hxz heq
        · exact hxz
      refine List.pairwise_cons.2 ⟨fun w hw => ?_, ih hrest⟩
      rcases mem_insertAscending hw with hw | rfl
      · exact hz w hw
      · exact hzx

end Ascending

/-! ## What calls leave behind -/

/-- The instruction may be written to the section. -/
def Instruction.Admitted (i : Instruction) (target : Section) : Prop :=
  (target ≠ .header ∧ target ≠ .preamble) ∧ (∀ home, i.home? = some home → home = target) ∧ i.fits

namespace Assembly

variable {a : Assembly} {target : Section} {i : Instruction}

theorem refusal_emitInstr (hopen : a.finished = false) :
    (a.emitInstr target i).refusal = none ↔ a.refusal = none ∧ i.Admitted target := by
  have hadmitted : a.objection? target i = none ↔ i.Admitted target := by
    rw [objection?_eq_none, Instruction.Admitted]
    simp only [hopen, true_and]
  rw [← hadmitted, emitInstr]
  cases a.objection? target i with
  | some cause =>
    unfold refuse
    cases hrefusal : a.refusal <;> simp [hrefusal]
  | none => cases target <;> simp [append]

theorem sectionInstrs_emitInstr (hopen : a.finished = false) (hadmitted : i.Admitted target)
    {s : Section} (hs : s ∈ openSections) :
    ((a.emitInstr target i).sectionInstrs s).toList =
      (a.sectionInstrs s).toList ++ forSection s [(target, i)] := by
  have hnone : a.objection? target i = none := by
    rw [objection?_eq_none]
    exact ⟨⟨hopen, hadmitted.1⟩, hadmitted.2⟩
  rw [emitInstr, hnone]
  dsimp only
  simp only [openSections, List.mem_cons, List.not_mem_nil, or_false] at hs
  rcases hs with rfl | rfl | rfl | rfl | rfl <;>
    cases target <;> simp [append, sectionInstrs, forSection]

end Assembly

/-- The state after a call, before it emits anything. -/
def Call.prepare (a : Assembly) : Call → Assembly
  | allocId | emitNew .. | declare .. => { a with allocated := a.allocated + 1 }
  | setSection target => { a with current := target }
  | emit .. | emitTo .. => a
  | addCapability c => a.addCapability c
  | addExtension name => a.addExtension name
  | setMemoryModel addressing memory => a.setMemoryModel addressing memory

theorem Call.run_eq {a : Assembly} {k : Cursor} (hcurrent : a.current = k.current)
    (hallocated : a.allocated = k.allocated) (c : Call) :
    c.run a = (c.emission? k).elim (c.prepare a) fun e => (c.prepare a).emitInstr e.1 e.2 := by
  have hnext : a.bound = k.next := by rw [Assembly.bound, Cursor.next, hallocated]
  cases c with
  | emit op operands =>
    change a.emitInstr a.current ⟨op, operands⟩ = _
    rw [hcurrent]
    rfl
  | emitNew op operands =>
    change Assembly.emitInstr { a with allocated := a.allocated + 1 } a.current
      ⟨op, operands a.bound⟩ = Assembly.emitInstr _ k.current ⟨op, operands k.next⟩
    rw [← hcurrent, ← hnext]
    rfl
  | declare op operands =>
    change Assembly.emitInstr { a with allocated := a.allocated + 1 } .types
      ⟨op, operands a.bound⟩ = _
    rw [hnext]
    rfl
  | _ => rfl

/-- Capabilities and extensions are declared in order, each once. -/
structure Declared (calls : List Call) (capabilities : List UInt32) (extensions : List String) :
    Prop where
  ascending : capabilities.Pairwise (· < ·)
  capabilities : ∀ c, c ∈ capabilities ↔ .addCapability c ∈ calls
  lexical : extensions.Pairwise (· < ·)
  extensions : ∀ e, e ∈ extensions ↔ .addExtension e ∈ calls

namespace Declared

variable {calls : List Call} {capabilities : List UInt32} {extensions : List String}

theorem addCapability (h : Declared calls capabilities extensions) (c : UInt32) :
    Declared (calls ++ [.addCapability c])
      (insertAscending (fun x y => decide (x < y)) c capabilities) extensions where
  ascending := pairwise_insertAscending h.ascending
  capabilities x := by simp [mem_insertAscending_iff, h.capabilities]
  lexical := h.lexical
  extensions e := by simp [h.extensions]

theorem addExtension (h : Declared calls capabilities extensions) (e : String) :
    Declared (calls ++ [.addExtension e]) capabilities
      (insertAscending (fun x y => decide (x < y)) e extensions) where
  ascending := h.ascending
  capabilities c := by simp [h.capabilities]
  lexical := pairwise_insertAscending h.lexical
  extensions x := by simp [mem_insertAscending_iff, h.extensions]

theorem append (h : Declared calls capabilities extensions) {c : Call}
    (hc : ∀ x, c ≠ .addCapability x) (he : ∀ e, c ≠ .addExtension e) :
    Declared (calls ++ [c]) capabilities extensions where
  ascending := h.ascending
  capabilities x := by simp [h.capabilities, Ne.symm (hc x)]
  lexical := h.lexical
  extensions e := by simp [h.extensions, Ne.symm (he e)]

/-- The lists are determined by what was declared. -/
theorem unique (h : Declared calls capabilities extensions) {calls' : List Call}
    (hc : ∀ c, Call.addCapability c ∈ calls' ↔ .addCapability c ∈ calls)
    (he : ∀ e, Call.addExtension e ∈ calls' ↔ .addExtension e ∈ calls)
    {capabilities' : List UInt32} {extensions' : List String}
    (h' : Declared calls' capabilities' extensions') :
    capabilities' = capabilities ∧ extensions' = extensions := by
  constructor
  · apply h'.ascending.eq_of_mem_iff h.ascending
    intro c
    rw [h'.capabilities, h.capabilities, hc]
  · apply h'.lexical.eq_of_mem_iff h.lexical
    intro e
    rw [h'.extensions, h.extensions, he]

end Declared

/-- What calls leave of a module that was begun with a version, apart from its sections. -/
structure Tracks (version : Version) (calls : List Call) (a : Assembly) : Prop where
  version : a.version = version
  unfinished : a.finished = false
  current : a.current = (cursorAfter calls).current
  allocated : a.allocated = (cursorAfter calls).allocated
  declared : Declared calls a.capabilities a.extensions
  model : (a.addressing, a.memory) = memoryModelAfter calls

namespace Tracks

variable {version : Version} {calls : List Call} {a b : Assembly}

theorem sameFrame (h : Tracks version calls a) (hframe : a.SameFrame b) :
    Tracks version calls b where
  version := hframe.version.trans h.version
  unfinished := hframe.finished.trans h.unfinished
  current := hframe.current.trans h.current
  allocated := hframe.allocated.trans h.allocated
  declared := by
    rw [hframe.capabilities, hframe.extensions]
    exact h.declared
  model := by
    rw [hframe.addressing, hframe.memory]
    exact h.model

theorem prepare (h : Tracks version calls a) (c : Call) :
    Tracks version (calls ++ [c]) (c.prepare a) := by
  have hcursor : cursorAfter (calls ++ [c]) = c.move (cursorAfter calls) := by
    simp [cursorAfter]
  have hmodel : memoryModelAfter (calls ++ [c]) = c.memoryModel (memoryModelAfter calls) := by
    simp [memoryModelAfter]
  constructor
  · cases c <;> exact h.version
  · cases c <;> exact h.unfinished
  · rw [hcursor]
    cases c with
    | setSection target => rfl
    | _ => exact h.current
  · rw [hcursor]
    cases c with
    | allocId | emitNew | declare => exact congrArg (· + 1) h.allocated
    | _ => exact h.allocated
  · cases c with
    | addCapability c => exact h.declared.addCapability c
    | addExtension e => exact h.declared.addExtension e
    | _ => exact h.declared.append (by simp) (by simp)
  · rw [hmodel]
    cases c with
    | setMemoryModel addressing memory => rfl
    | _ => exact h.model

end Tracks

/-- What calls leave of a module. Nothing was refused exactly if every emission is admitted, and
then each section holds what was emitted to it. -/
structure Built (version : Version) (calls : List Call) (a : Assembly) : Prop
    extends Tracks version calls a where
  refusal : a.refusal = none ↔ ∀ e ∈ emissions {} calls, e.2.Admitted e.1
  sections : a.refusal = none → ∀ s ∈ openSections,
    (a.sectionInstrs s).toList = forSection s (emissions {} calls)

theorem emissions_append (k : Cursor) (calls calls' : List Call) :
    emissions k (calls ++ calls') =
      emissions k calls ++ emissions (calls.foldl Call.move k) calls' := by
  induction calls generalizing k with
  | nil => rfl
  | cons c rest ih => simp [emissions, ih]

theorem forSection_append (s : Section) (es es' : List (Section × Instruction)) :
    forSection s (es ++ es') = forSection s es ++ forSection s es' := by simp [forSection]

namespace Built

variable {version : Version} {calls : List Call} {a : Assembly}

theorem start (version : Version) : Built version [] { version } where
  version := rfl
  unfinished := rfl
  current := rfl
  allocated := rfl
  declared := ⟨.nil, by simp, .nil, by simp⟩
  model := rfl
  refusal := by simp [emissions]
  sections _ s hs := by
    simp only [openSections, List.mem_cons, List.not_mem_nil, or_false] at hs
    rcases hs with rfl | rfl | rfl | rfl | rfl <;> rfl

/-- One call more. -/
theorem call (h : Built version calls a) (c : Call) : Built version (calls ++ [c]) (c.run a) := by
  have hemissions : emissions {} (calls ++ [c]) =
      emissions {} calls ++ (c.emission? (cursorAfter calls)).toList := by
    simp [emissions_append, emissions, cursorAfter]
  have htracks := h.toTracks.prepare c
  have hrefusal : (c.prepare a).refusal = a.refusal := by cases c <;> rfl
  have hsections : ∀ s, (c.prepare a).sectionInstrs s = a.sectionInstrs s := by
    intro s
    cases c <;> cases s <;> rfl
  rw [c.run_eq h.current h.allocated]
  cases hemission : c.emission? (cursorAfter calls) with
  | none =>
    rw [hemission] at hemissions
    rw [Option.toList_none, List.append_nil] at hemissions
    refine ⟨htracks, ?_, ?_⟩
    · rw [Option.elim_none, hrefusal, hemissions]
      exact h.refusal
    · intro hclean s hs
      rw [Option.elim_none, hsections, hemissions]
      exact h.sections (hrefusal ▸ hclean) s hs
  | some e =>
    rw [hemission, Option.toList_some] at hemissions
    rw [Option.elim_some]
    have hopen := htracks.unfinished
    refine ⟨htracks.sameFrame (Assembly.sameFrame_emitInstr _ e.1 e.2), ?_, ?_⟩
    · rw [Assembly.refusal_emitInstr hopen, hrefusal, h.refusal, hemissions]
      simp [or_imp, forall_and]
    · intro hclean s hs
      obtain ⟨hbefore, hadmitted⟩ := (Assembly.refusal_emitInstr hopen).1 hclean
      rw [Assembly.sectionInstrs_emitInstr hopen hadmitted hs, hsections, hemissions,
        forSection_append, h.sections (hrefusal ▸ hbefore) s hs]

theorem extend (version : Version) (calls : List Call) :
    Built version calls (Assembly.extend { version } calls) := by
  induction calls using List.reverseRecOn with
  | nil => exact start version
  | append_singleton calls c ih =>
    have hstep := ih.call c
    rwa [Assembly.extend, List.foldl_append]

/-- The contents of a module to which nothing was refused. -/
theorem contents (h : Built version calls a) (hclean : a.refusal = none) :
    a.preambleInstrs ++ a.entryPoints.toList ++ a.debug.toList ++ a.decorations.toList ++
        a.types.toList ++ a.functions.toList =
      writtenInstrs a.capabilities a.extensions (memoryModelAfter calls) (emissions {} calls) := by
  have hsections := h.sections hclean
  simp only [openSections, List.forall_mem_cons, Assembly.sectionInstrs] at hsections
  obtain ⟨hentry, hdebug, hdecorations, htypes, hfunctions, -⟩ := hsections
  simp only [writtenInstrs, ← h.model, Assembly.preambleInstrs, openSections, List.flatMap_cons,
    List.flatMap_nil, hentry, hdebug, hdecorations, htypes, hfunctions, List.append_assoc,
    List.append_nil]

end Built

variable {words : List UInt32} {model : UInt32 × UInt32} {es : List (Section × Instruction)}

/-- A module is finished exactly if every emission is admitted and what is declared fits, and then
its words are its header and its instructions. -/
theorem finish_extend_iff {version : Version} {calls : List Call} {capabilities : List UInt32}
    {extensions : List String} (hdeclared : Declared calls capabilities extensions) :
    (Assembly.extend { version } calls).finish.1 = .ok words ↔
      (∀ e ∈ emissions {} calls, e.2.Admitted e.1) ∧
      (∀ e ∈ extensions, (textWords (bytes e)).length + 1 < UInt16.size) ∧
      words = moduleWords version (cursorAfter calls).next
        (writtenInstrs capabilities extensions (memoryModelAfter calls) (emissions {} calls)) := by
  have hbuilt := Built.extend version calls
  obtain ⟨hcapabilities, hextensions⟩ :=
    hdeclared.unique (fun _ => Iff.rfl) (fun _ => Iff.rfl) hbuilt.declared
  have hbound : (Assembly.extend { version } calls).bound = (cursorAfter calls).next := by
    rw [Assembly.bound, Cursor.next, hbuilt.allocated]
  have hpreamble : (∀ i ∈ (Assembly.extend { version } calls).preambleInstrs, i.fits) ↔
      ∀ e ∈ extensions, (textWords (bytes e)).length + 1 < UInt16.size := by
    simp [Assembly.preambleInstrs, or_imp, forall_and, Instruction.fits, hextensions,
      UInt16.size]
  rw [Assembly.finish_eq_ok_iff, hpreamble]
  constructor
  · rintro ⟨hclean, -, hfits, rfl⟩
    refine ⟨hbuilt.refusal.1 hclean, hfits, ?_⟩
    rw [hbuilt.contents hclean, hbuilt.version, hbound, hcapabilities, hextensions]
  · rintro ⟨hadmitted, hfits, rfl⟩
    have hclean := hbuilt.refusal.2 hadmitted
    refine ⟨hclean, hbuilt.unfinished, hfits, ?_⟩
    rw [hbuilt.contents hclean, hbuilt.version, hbound, hcapabilities, hextensions]

/-- The calls declare and set the same, use as many ids and emit the same to each section. -/
structure SameContent (calls calls' : List Call) : Prop where
  capabilities : ∀ c, Call.addCapability c ∈ calls' ↔ .addCapability c ∈ calls
  extensions : ∀ e, Call.addExtension e ∈ calls' ↔ .addExtension e ∈ calls
  model : memoryModelAfter calls' = memoryModelAfter calls
  allocated : (cursorAfter calls').allocated = (cursorAfter calls).allocated
  emitted : ∀ s, forSection s (emissions {} calls') = forSection s (emissions {} calls)

theorem mem_forSection {s : Section} {i : Instruction} : i ∈ forSection s es ↔ (s, i) ∈ es := by
  simp [forSection]

theorem SameContent.finish_eq {calls calls' : List Call} (h : SameContent calls calls')
    {version : Version} (hfinish : (Assembly.extend { version } calls).finish.1 = .ok words) :
    (Assembly.extend { version } calls').finish.1 = .ok words := by
  have hdeclared := (Built.extend version calls).declared
  have hdeclared' := (Built.extend version calls').declared
  obtain ⟨hcapabilities, hextensions⟩ :=
    hdeclared.unique h.capabilities h.extensions hdeclared'
  obtain ⟨hadmitted, hfits, rfl⟩ := (finish_extend_iff hdeclared).1 hfinish
  refine (finish_extend_iff hdeclared').2 ⟨?_, hextensions ▸ hfits, ?_⟩
  · intro e he
    rw [← mem_forSection (s := e.1), h.emitted, mem_forSection] at he
    exact hadmitted e he
  · simp only [hcapabilities, hextensions, h.model, Cursor.next, h.allocated, writtenInstrs,
      h.emitted]

/-! ## Reading back -/

theorem Version.ofWord_word (v : Version) : .ofWord v.word = v := by
  obtain ⟨major, minor⟩ := v
  simp only [word, ofWord, Version.mk.injEq]
  refine ⟨?_, ?_⟩
  all_goals
    apply UInt8.toBitVec_inj.1
    apply BitVec.eq_of_getLsbD_eq
    intro k hk
    simp
  all_goals grind

theorem wordOfBytes_wordBytes (w : UInt32) :
    wordOfBytes w.toUInt8 (w >>> 8).toUInt8 (w >>> 16).toUInt8 (w >>> 24).toUInt8 = w := by
  apply UInt32.toBitVec_inj.1
  apply BitVec.eq_of_getLsbD_eq
  intro k hk
  simp [wordOfBytes, -UInt32.toUInt32_toUInt8]
  grind

theorem groupWords_bytesOfWords (words : List UInt32) : groupWords (bytesOfWords words) = words := by
  induction words with
  | nil => rfl
  | cons w rest ih =>
    rw [bytesOfWords, List.flatMap_cons, wordBytes]
    simp only [List.cons_append, List.nil_append, groupWords, wordOfBytes_wordBytes]
    exact congrArg (w :: ·) ih

theorem wordsOfBytes?_bytesOfWords (words : List UInt32) :
    wordsOfBytes? (bytesOfWords words) = some words := by
  have hlength : (bytesOfWords words).length = 4 * words.length := by
    induction words with
    | nil => rfl
    | cons w rest ih =>
      have hcons : bytesOfWords (w :: rest) = wordBytes w ++ bytesOfWords rest := rfl
      rw [hcons, List.length_append, ih, List.length_cons]
      simp only [wordBytes, List.length_cons, List.length_nil]
      omega
  rw [wordsOfBytes?, if_pos (by omega), groupWords_bytesOfWords]

/-- Words stand for operands. A text ends with the first word that has a zero byte, or with the
last word of all, and holds the bytes before the first zero. -/
inductive Stands : List OperandKind → List UInt32 → List Operand → Prop
  | nil : Stands [] [] []
  | id {kinds : List OperandKind} {rest : List UInt32} {operands : List Operand} (word : UInt32)
      (h : Stands kinds rest operands) : Stands (.id :: kinds) (word :: rest) (.id word :: operands)
  | literal {kinds : List OperandKind} {rest : List UInt32} {operands : List Operand}
      (word : UInt32) (h : Stands kinds rest operands) :
      Stands (.literal :: kinds) (word :: rest) (.literal word :: operands)
  | text {kinds : List OperandKind} {front rest : List UInt32} {last : UInt32}
      {operands : List Operand} (hfront : ∀ word ∈ front, 0 ∉ wordBytes word)
      (hlast : 0 ∈ wordBytes last ∨ rest = []) (h : Stands kinds rest operands) :
      Stands (.text :: kinds) (front ++ last :: rest)
        (.text ((bytesOfWords (front ++ last :: rest)).takeWhile (· != 0)) :: operands)
  | ids {kinds : List OperandKind} {operands : List Operand} (words : List UInt32)
      (h : Stands kinds [] operands) : Stands (.ids :: kinds) words (words.map .id ++ operands)
  | literals {kinds : List OperandKind} {operands : List Operand} (words : List UInt32)
      (h : Stands kinds [] operands) :
      Stands (.literals :: kinds) words (words.map .literal ++ operands)

theorem readText_fst (words : List UInt32) :
    (readText words).1 = (bytesOfWords words).takeWhile (· != 0) := by
  induction words with
  | nil => rfl
  | cons w rest ih =>
    have hcons : bytesOfWords (w :: rest) = wordBytes w ++ bytesOfWords rest := rfl
    rw [readText, hcons, List.takeWhile_append]
    have hall : ((wordBytes w).takeWhile (· != 0)).length = (wordBytes w).length ↔
        0 ∉ wordBytes w := by
      rw [(List.takeWhile_sublist _).length_eq, List.takeWhile_eq_self_iff]
      simp only [bne_iff_ne]
      exact ⟨fun h hzero => h 0 hzero rfl, fun h x hx hzero => h (hzero ▸ hx)⟩
    by_cases hzero : 0 ∈ wordBytes w
    · rw [if_pos (by simpa using hzero), if_neg (by rw [hall]; exact not_not.2 hzero)]
    · rw [if_neg (by simpa using hzero), if_pos (hall.2 hzero), ← ih]

theorem stands_of_readOperands {name : String} {kinds : List OperandKind} {operands : List Operand}
    (h : readOperands name kinds words = .ok operands) : Stands kinds words operands := by
  fun_induction readOperands name kinds words generalizing operands with
  | case1 =>
    cases h
    exact .nil
  | case3 kinds w rest ih =>
    obtain ⟨more, hmore, rfl⟩ := map_eq_ok_iff.1 h
    exact .id w (ih hmore)
  | case4 kinds w rest ih =>
    obtain ⟨more, hmore, rfl⟩ := map_eq_ok_iff.1 h
    exact .literal w (ih hmore)
  | case8 kinds words hwords bytes rest heq ih =>
    obtain ⟨more, hmore, rfl⟩ := map_eq_ok_iff.1 h
    have hbytes : bytes = (bytesOfWords words).takeWhile (· != 0) := by
      rw [← readText_fst, heq]
    obtain ⟨front, last, rfl, hfront, hlast⟩ :=
      (readText_eq_iff hwords).1 (congrArg Prod.snd heq)
    exact hbytes ▸ .text hfront hlast (ih hmore)
  | case9 kinds words ih =>
    obtain ⟨more, hmore, rfl⟩ := map_eq_ok_iff.1 h
    exact .ids words (ih hmore)
  | case10 kinds words ih =>
    obtain ⟨more, hmore, rfl⟩ := map_eq_ok_iff.1 h
    exact .literals words (ih hmore)
  | _ => cases h

/-- What is read of an instruction: its words are split as the shape of its opcode says. -/
structure Instruction.Splits (i : Instruction) (offset : Nat) (d : Decoded) : Prop where
  offset : d.offset = offset
  opcode : d.opcode = i.opcode
  words : d.words = i.operands
  shape : i.opcode.shape? = some d.shape
  resultType : d.resultType.isSome = d.shape.hasResultType
  result : d.result.isSome = d.shape.hasResult
  operands : ∃ rest, i.operands = d.resultType.toList ++ (d.result.toList ++ rest) ∧
    Stands d.shape.operands rest d.operands

theorem Instruction.splits_of_readAt {i : Instruction} {offset : Nat} {d : Decoded}
    (h : i.readAt offset = .ok d) : i.Splits offset d := by
  obtain ⟨shape, type, result, rest, operands, hshape, htype, hresult, hwords, hoperands, rfl⟩ :=
    (Instruction.readAt_eq_ok_iff offset).1 h
  exact ⟨rfl, rfl, rfl, hshape, htype, hresult, rest, hwords, stands_of_readOperands hoperands⟩

/-- Instructions are read one by one, each at the offset where its words begin. -/
def SplitsAll (offset : Nat) (instrs : List Instruction) (ds : List Decoded) : Prop :=
  ds.length = instrs.length ∧ ∀ (k : Nat) (i : Instruction) (d : Decoded),
    instrs[k]? = some i → ds[k]? = some d →
      i.Splits (offset + ((instrs.take k).flatMap Instruction.words).length) d

theorem splitsAll_of_readAll {offset : Nat} {instrs : List Instruction} {ds : List Decoded}
    (h : readAll offset instrs = (ds, none)) : SplitsAll offset instrs ds := by
  induction instrs generalizing offset ds with
  | nil =>
    cases h
    exact ⟨rfl, by simp⟩
  | cons i rest ih =>
    rw [readAll] at h
    cases hread : i.readAt offset with
    | error e => rw [hread] at h; cases h
    | ok d =>
      rw [hread] at h
      obtain ⟨rfl, hnone⟩ := Prod.mk.inj h
      obtain ⟨hlength, hrest⟩ := ih (Prod.ext rfl hnone)
      refine ⟨congrArg (· + 1) hlength, ?_⟩
      intro k j e hj he
      cases k with
      | zero =>
        cases hj
        cases he
        exact Instruction.splits_of_readAt hread
      | succ k =>
        have hsplits := hrest k j e hj he
        rwa [Nat.add_assoc, ← List.length_append] at hsplits

/-- The instruction has a known opcode, and operand words of its shape. -/
def Instruction.IsFormed (i : Instruction) : Prop := ∃ line : Line, line.Formed ∧ line.instr = i

theorem Instruction.isFormed_iff {i : Instruction} : i.IsFormed ↔ i.shaped := by
  constructor
  · rintro ⟨line, hformed, rfl⟩
    exact (Line.formed_iff.1 hformed).1
  · intro hshaped
    exact ⟨.of i, Line.formed_of.2 hshaped, rfl⟩

theorem shaped_writtenInstrs {capabilities : List UInt32} {extensions : List String}
    (hextensions : ∀ e ∈ extensions, 0 ∉ bytes e) (hes : ∀ e ∈ es, e.2.IsFormed) :
    ∀ i ∈ writtenInstrs capabilities extensions model es, i.shaped := by
  intro i hi
  simp only [writtenInstrs, List.mem_append, List.mem_map, List.mem_singleton,
    List.mem_flatMap] at hi
  rcases hi with ((⟨c, -, rfl⟩ | ⟨e, he, rfl⟩) | rfl) | ⟨s, -, hi⟩
  · exact (Profile.capability (a := c)).shaped
  · exact (Profile.extension (hextensions e he)).shaped
  · exact (Profile.memoryModel (a := model.1) (b := model.2)).shaped
  · exact Instruction.isFormed_iff.1 (hes _ (mem_forSection.1 hi))

theorem fits_writtenInstrs {capabilities : List UInt32} {extensions : List String}
    (hextensions : ∀ e ∈ extensions, (textWords (bytes e)).length + 1 < UInt16.size)
    (hes : ∀ e ∈ es, e.2.Admitted e.1) :
    ∀ i ∈ writtenInstrs capabilities extensions model es, i.fits := by
  intro i hi
  simp only [writtenInstrs, List.mem_append, List.mem_map, List.mem_singleton,
    List.mem_flatMap] at hi
  rcases hi with ((⟨c, -, rfl⟩ | ⟨e, he, rfl⟩) | rfl) | ⟨s, -, hi⟩
  · rfl
  · exact decide_eq_true (hextensions e he)
  · rfl
  · exact (hes _ (mem_forSection.1 hi)).2.2

/-- A module that was built by calls and finished is its header, its declarations in order and its
sections, each with what was emitted to it in the order of emission. Other calls with the same
content give the same words. The words are read back from their bytes, with version and bound; if
all that was emitted is formed and no name of an extension has a zero byte, the instructions are
read back one by one. -/
theorem finish_extend {version : Version} {calls : List Call} {words : List UInt32}
    (h : (Assembly.extend { version } calls).finish.1 = .ok words) :
    ∃ capabilities extensions, Declared calls capabilities extensions ∧
      let bound := (Assembly.extend { version } calls).bound
      let header : Header := ⟨version, generatorNumber, bound, 0⟩
      let instrs :=
        writtenInstrs capabilities extensions (memoryModelAfter calls) (emissions {} calls)
      words = [magicNumber, version.word, generatorNumber, bound, 0] ++
        instrs.flatMap Instruction.words ∧
      (∀ calls', SameContent calls calls' →
        (Assembly.extend { version } calls').finish.1 = .ok words) ∧
      readHeader words = .ok (header, instrs.flatMap Instruction.words) ∧
      wordsOfBytes? (bytesOfWords words) = some words ∧
      ((∀ e ∈ emissions {} calls, e.2.IsFormed) → (∀ e ∈ extensions, 0 ∉ bytes e) →
        ∃ ds, readModule words = .ok ⟨header, ds, none⟩ ∧ SplitsAll headerSize instrs ds) := by
  have hbuilt := Built.extend version calls
  refine ⟨_, _, hbuilt.declared, ?_⟩
  obtain ⟨hadmitted, hfits, hwords⟩ := (finish_extend_iff hbuilt.declared).1 h
  have hbound : (Assembly.extend { version } calls).bound = (cursorAfter calls).next := by
    rw [Assembly.bound, Cursor.next, hbuilt.allocated]
  rw [hbound]
  refine ⟨hwords, fun calls' hsame => hsame.finish_eq h, ?_, wordsOfBytes?_bytesOfWords words, ?_⟩
  · rw [hwords, moduleWords, binaryWords, List.cons_append, List.cons_append, List.cons_append,
      List.cons_append, List.cons_append, readHeader, if_pos rfl, Version.ofWord_word]
    rfl
  · intro hformed hzero
    obtain ⟨ds, hds⟩ := exists_readAll (shaped_writtenInstrs hzero hformed) headerSize
    refine ⟨ds, ?_, splitsAll_of_readAll hds⟩
    rw [hwords, moduleWords, readModule_binaryWords _ _ _ (fits_writtenInstrs hfits hadmitted), hds,
      Version.ofWord_word]

/-- Declares a type, names it and opens a block in between. -/
def mixedCalls : List Call :=
  [.addCapability 22, .declare .typeFloat (fun id => [id, 32]), .addExtension "SPV_b", .allocId,
    .addCapability 1, .emit .label [2], .emitTo .debug .name (1 :: textWords (bytes "float")),
    .addExtension "SPV_a", .emit .unreachable []]

/-- The same in another order, with repetitions. -/
def sortedCalls : List Call :=
  [.addExtension "SPV_a", .addExtension "SPV_b", .addCapability 1, .addCapability 22,
    .addCapability 1, .setSection .debug, .allocId, .emit .name (1 :: textWords (bytes "float")),
    .setSection .types, .emit .typeFloat [1, 32], .setSection .functions,
    .emitNew .label (fun id => [id]), .emit .unreachable [], .addExtension "SPV_a"]

theorem sameContent_mixedCalls : SameContent mixedCalls sortedCalls where
  capabilities c := by
    simp only [mixedCalls, sortedCalls, List.mem_cons, List.not_mem_nil, Call.addCapability.injEq,
      reduceCtorEq, or_false, false_or]
    tauto
  extensions e := by
    simp only [mixedCalls, sortedCalls, List.mem_cons, List.not_mem_nil, Call.addExtension.injEq,
      reduceCtorEq, or_false, false_or]
    tauto
  model := rfl
  allocated := rfl
  emitted s := by cases s <;> rfl

theorem declared_mixedCalls : Declared mixedCalls [1, 22] ["SPV_a", "SPV_b"] where
  ascending := by decide
  capabilities c := by
    simp only [mixedCalls, List.mem_cons, List.not_mem_nil, Call.addCapability.injEq, reduceCtorEq,
      or_false, false_or]
    tauto
  lexical := by decide
  extensions e := by
    simp only [mixedCalls, List.mem_cons, List.not_mem_nil, Call.addExtension.injEq, reduceCtorEq,
      or_false, false_or]
    tauto

/-- Both orders give the same words, and the reader gives back the instructions. -/
theorem finish_extend_mixedCalls : ∃ words ds,
    (Assembly.extend { version := ⟨1, 3⟩ } mixedCalls).finish.1 = .ok words ∧
      (Assembly.extend { version := ⟨1, 3⟩ } sortedCalls).finish.1 = .ok words ∧
      readModule words = .ok ⟨⟨⟨1, 3⟩, generatorNumber, 3, 0⟩, ds, none⟩ ∧
      SplitsAll headerSize
        [⟨.capability, [1]⟩, ⟨.capability, [22]⟩, ⟨.extension, textWords (bytes "SPV_a")⟩,
          ⟨.extension, textWords (bytes "SPV_b")⟩, ⟨.memoryModel, [0, 1]⟩,
          ⟨.name, 1 :: textWords (bytes "float")⟩, ⟨.typeFloat, [1, 32]⟩, ⟨.label, [2]⟩,
          ⟨.unreachable, []⟩] ds := by
  have hok : (Assembly.extend { version := ⟨1, 3⟩ } mixedCalls).finish.1.isOk := by decide +kernel
  cases hfinish : (Assembly.extend { version := ⟨1, 3⟩ } mixedCalls).finish.1 with
  | error d =>
    rw [hfinish] at hok
    cases hok
  | ok words =>
    obtain ⟨capabilities, extensions, hdeclared, -, hsame, -, -, hread⟩ := finish_extend hfinish
    obtain ⟨rfl, rfl⟩ :=
      declared_mixedCalls.unique (fun _ => Iff.rfl) (fun _ => Iff.rfl) hdeclared
    have hshaped : ∀ e ∈ emissions {} mixedCalls, e.2.shaped := by decide
    obtain ⟨ds, hmodule, hsplits⟩ :=
      hread (fun e he => Instruction.isFormed_iff.2 (hshaped e he)) (by decide)
    exact ⟨words, ds, rfl, hsame _ sameContent_mixedCalls, hmodule, hsplits⟩

end Elementwise.Spirv
