import Elementwise.Proofs.Requirements

/-!
# Dispatches

A kernel is launched in groups of invocations, and each invocation runs the entry function. This
function is run here, as far as its kinds of instructions go: it fetches the number of the
invocation and the element count, compares them, and calls the function for one element or not.
The groups that an interface asks for handle every element, each once, for all counts to which the
group size can be added without overflow; for the others it asks for no group at all.
-/
namespace Elementwise.Spirv
open IR Gen

/-! ## Invocations -/

/-- What an id stands for while the entry function runs. -/
inductive Datum where
  | word (value : UInt32)
  | truth (value : Bool)
  | vector (parts : List UInt32)
  /-- The storage class of a variable, and the way from there to a part of it. -/
  | place (storage : UInt32) (path : List UInt32)
  deriving DecidableEq, Repr

abbrev Values := UInt32 → Option Datum

/-- One run of the entry function: its number among all, and the element count that it is given. -/
structure Invocation where
  number : UInt32
  count : UInt32
  deriving DecidableEq, Repr

/-- What an instruction does: an id gets a value, the run goes on at a label, a function is called,
or the run ends. -/
inductive Event where
  | pass
  | define (id : UInt32) (value : Datum)
  | jump (label : UInt32)
  | call (function : UInt32) (args : List Datum)
  | stop
  deriving DecidableEq, Repr

namespace Invocation

/-- The number stands in the first of three dimensions, the count at the start of its block. -/
def fetch (v : Invocation) : Datum → Option Datum
  | .place storage path =>
    if storage = StorageClass.input ∧ path = [] then some (.vector [v.number, 0, 0])
    else if storage = StorageClass.pushConstant ∧ path = [0] then some (.word v.count)
    else none
  | _ => none

def wordAt (values : Values) (id : UInt32) : Option UInt32 :=
  match values id with
  | some (.word value) => some value
  | _ => none

def event (v : Invocation) (values : Values) (i : Instruction) : Option Event :=
  if i.opcode = .label ∨ i.opcode = .selectionMerge then some .pass
  else if i.opcode = .ret then some .stop
  else if i.opcode = .load then
    match i.operands with
    | [_, id, pointer] => ((values pointer).bind v.fetch).map (.define id)
    | _ => none
  else if i.opcode = .compositeExtract then
    match i.operands with
    | [_, id, whole, index] =>
      match values whole with
      | some (.vector parts) => parts[index.toNat]?.map fun part => .define id (.word part)
      | _ => none
    | _ => none
  else if i.opcode = .accessChain then
    match i.operands with
    | _ :: id :: base :: indices =>
      match values base, indices.mapM (wordAt values) with
      | some (.place storage path), some steps => some (.define id (.place storage (path ++ steps)))
      | _, _ => none
    | _ => none
  else if i.opcode = .uLessThan then
    match i.operands with
    | [_, id, a, b] =>
      match wordAt values a, wordAt values b with
      | some a, some b => some (.define id (.truth (a < b)))
      | _, _ => none
    | _ => none
  else if i.opcode = .branch then i.operands.head?.map .jump
  else if i.opcode = .branchConditional then
    match i.operands with
    | [condition, yes, no] =>
      match values condition with
      | some (.truth b) => some (.jump (if b then yes else no))
      | _ => none
    | _ => none
  else if i.opcode = .functionCall then
    match i.operands with
    | _ :: _ :: function :: args => (args.mapM values).map (.call function)
    | _ => none
  else none

/-- Runs code, from the label on that a jump leads to. Jumps lead ahead. Returns the calls that were
made, as functions with arguments. -/
def run (v : Invocation) :
    Option UInt32 → Values → List Instruction → Option (List (UInt32 × List Datum))
  | _, _, [] => none
  | some label, values, i :: rest =>
    v.run (if i = ⟨.label, [label]⟩ then none else some label) values rest
  | none, values, i :: rest =>
    match v.event values i with
    | some .pass => v.run none values rest
    | some (.define id value) => v.run none (Function.update values id (some value)) rest
    | some (.jump label) => v.run (some label) values rest
    | some (.call function args) => (v.run none values rest).map ((function, args) :: ·)
    | some .stop => some []
    | none => none

end Invocation

/-- What a constant or a variable stands for. -/
def Instruction.datum? (i : Instruction) : Option Datum :=
  match i.operands with
  | [_, _, word] =>
    if i.opcode = .constant then some (.word word)
    else if i.opcode = .variableOp then some (.place word [])
    else none
  | _ => none

def globalValues (instrs : List Instruction) : Values :=
  fun id => (instrs.find? fun i => i.result? = some id).bind Instruction.datum?

/-- The code of the function that the entry point names. -/
def entryCode (instrs : List Instruction) : Option (List Instruction) :=
  (instrs.find? fun i => i.opcode = .entryPoint).bind fun point =>
    point.operands[1]?.map fun entry =>
      (instrs.dropWhile fun i => ¬ (i.opcode = .func ∧ i.result? = some entry)).tail

/-- The calls that an invocation of a module makes. -/
def invoke (instrs : List Instruction) (v : Invocation) : Option (List (UInt32 × List Datum)) :=
  (entryCode instrs).bind (v.run none (globalValues instrs))

/-! ## The entry function -/

variable {k : KernelIds} {e : EntryIds} {values : Values} {function : UInt32}

/-- The ids that the entry function gives values to. -/
def EntryIds.computed (e : EntryIds) : List UInt32 :=
  [e.invocation, e.thread, e.countPtr, e.count, e.inRange, e.element]

/-- The ids of constants and variables that the entry function reads. -/
def KernelIds.read (k : KernelIds) : List UInt32 :=
  [k.zero, k.dataVar, k.configVar, k.invocationVar]

structure KernelIds.Stands (k : KernelIds) (values : Values) : Prop where
  zero : values k.zero = some (.word 0)
  dataVar : values k.dataVar = some (.place StorageClass.storageBuffer [])
  configVar : values k.configVar = some (.place StorageClass.pushConstant [])
  invocationVar : values k.invocationVar = some (.place StorageClass.input [])

theorem KernelIds.Stands.update (h : k.Stands values) {id : UInt32} (hid : id ∉ k.read)
    (value : Option Datum) : k.Stands (Function.update values id value) := by
  simp only [KernelIds.read, List.mem_cons, List.not_mem_nil, or_false, not_or] at hid
  obtain ⟨hzero, hdata, hconfig, hinvocation⟩ := hid
  constructor
  · rw [Function.update_of_ne (Ne.symm hzero), h.zero]
  · rw [Function.update_of_ne (Ne.symm hdata), h.dataVar]
  · rw [Function.update_of_ne (Ne.symm hconfig), h.configVar]
  · rw [Function.update_of_ne (Ne.symm hinvocation), h.invocationVar]

namespace Invocation

variable (v : Invocation) (rest : List Instruction)

/-! ### Single instructions -/

section Steps

variable {type id a b : UInt32} {d : Datum} {x y : UInt32} {steps indices : List UInt32}

theorem run_load (ha : values a = some d) {found : Datum} (hfound : v.fetch d = some found) :
    v.run none values (⟨.load, [type, id, a]⟩ :: rest) =
      v.run none (Function.update values id (some found)) rest := by
  have hevent : v.event values ⟨.load, [type, id, a]⟩ = some (.define id found) := by
    simp +decide [event, ha, hfound]
  simp only [run, hevent]

theorem run_extract {parts : List UInt32} (ha : values a = some (.vector parts))
    (hx : parts[b.toNat]? = some x) :
    v.run none values (⟨.compositeExtract, [type, id, a, b]⟩ :: rest) =
      v.run none (Function.update values id (some (.word x))) rest := by
  have hevent : v.event values ⟨.compositeExtract, [type, id, a, b]⟩ =
      some (.define id (.word x)) := by simp +decide [event, ha, hx]
  simp only [run, hevent]

theorem run_accessChain {storage : UInt32} {path : List UInt32}
    (ha : values a = some (.place storage path))
    (hindices : indices.mapM (wordAt values) = some steps) :
    v.run none values (⟨.accessChain, type :: id :: a :: indices⟩ :: rest) =
      v.run none (Function.update values id (some (.place storage (path ++ steps)))) rest := by
  have hevent : v.event values ⟨.accessChain, type :: id :: a :: indices⟩ =
      some (.define id (.place storage (path ++ steps))) := by simp +decide [event, ha, hindices]
  simp only [run, hevent]

theorem run_uLessThan (ha : values a = some (.word x)) (hb : values b = some (.word y)) :
    v.run none values (⟨.uLessThan, [type, id, a, b]⟩ :: rest) =
      v.run none (Function.update values id (some (.truth (x < y)))) rest := by
  have hevent : v.event values ⟨.uLessThan, [type, id, a, b]⟩ =
      some (.define id (.truth (x < y))) := by simp +decide [event, wordAt, ha, hb]
  simp only [run, hevent]

end Steps

/-- Up to the branch, the number of the invocation is compared with the count. -/
theorem run_guard (hvalues : k.Stands values) (hnodup : e.computed.Nodup)
    (hnew : ∀ id ∈ e.computed, id ∉ k.read) :
    ∃ values', v.run none values ((e.guard k).tail ++ rest) = v.run none values' rest ∧
      k.Stands values' ∧ values' e.thread = some (.word v.number) ∧
      values' e.inRange = some (.truth (v.number < v.count)) := by
  simp only [EntryIds.computed, List.forall_mem_cons] at hnew
  obtain ⟨hinvocation, hthread, hcountPtr, hcount, hinRange, -⟩ := hnew
  obtain ⟨hthreadPtr, hthreadCount, hthreadRange⟩ :
      e.thread ≠ e.countPtr ∧ e.thread ≠ e.count ∧ e.thread ≠ e.inRange := by
    simp only [EntryIds.computed, List.nodup_cons, List.mem_cons, not_or] at hnodup
    exact ⟨hnodup.2.1.1, hnodup.2.1.2.1, hnodup.2.1.2.2.1⟩
  -- the values after each of the five steps
  have h₁ := hvalues.update hinvocation (some (.vector [v.number, 0, 0]))
  have h₂ := h₁.update hthread (some (.word v.number))
  have h₃ := h₂.update hcountPtr (some (.place StorageClass.pushConstant [0]))
  have h₄ := h₃.update hcount (some (.word v.count))
  have h₅ := h₄.update hinRange (some (.truth (v.number < v.count)))
  refine ⟨_, ?_, h₅, ?_, Function.update_self ..⟩
  · calc v.run none values ((e.guard k).tail ++ rest)
      _ = v.run none values (⟨.load, [k.invocation, e.invocation, k.invocationVar]⟩ :: _) := rfl
      _ = _ := v.run_load _ hvalues.invocationVar rfl
      _ = _ := v.run_extract _ (Function.update_self ..) rfl
      _ = _ := v.run_accessChain _ h₂.configVar (by simp [wordAt, h₂.zero])
      _ = _ := v.run_load _ (Function.update_self ..) rfl
      _ = _ := v.run_uLessThan _ (by
        rw [Function.update_of_ne hthreadCount, Function.update_of_ne hthreadPtr,
          Function.update_self]) (Function.update_self ..)
  · rw [Function.update_of_ne hthreadRange, Function.update_of_ne hthreadCount,
      Function.update_of_ne hthreadPtr, Function.update_self]

/-- From the branch on, an invocation below the count handles its element. -/
theorem run_dispatch (hvalues : k.Stands values) (hbody : e.body ≠ e.merge)
    (hthread : values e.thread = some (.word v.number))
    (hinRange : values e.inRange = some (.truth (v.number < v.count))) :
    v.run none values (e.dispatch k function) = some (if v.number < v.count then
      [(function, [.place StorageClass.storageBuffer [0, v.number]])] else []) := by
  have hret : ∀ values, v.event values ⟨.ret, []⟩ = some .stop := fun values => by
    simp +decide [event]
  -- the two blocks, each as what a jump to it leads to
  have hcall : v.run (some e.body) values ((e.dispatch k function).drop 2) =
      some [(function, [.place StorageClass.storageBuffer [0, v.number]])] := by
    let reached := Function.update values e.element
      (some (.place StorageClass.storageBuffer [0, v.number]))
    have hargs : v.event reached ⟨.functionCall, [k.void, e.call, function, e.element]⟩ =
        some (.call function [.place StorageClass.storageBuffer [0, v.number]]) := by
      simp +decide [event, reached]
    have hleave : v.event reached ⟨.branch, [e.merge]⟩ = some (.jump e.merge) := by
      simp +decide [event]
    calc v.run (some e.body) values ((e.dispatch k function).drop 2)
      _ = v.run none values (⟨.accessChain, [k.elemPtr, e.element, k.dataVar, k.zero, e.thread]⟩ ::
          (e.dispatch k function).drop 4) := by simp [EntryIds.dispatch, run]
      _ = v.run none reached ((e.dispatch k function).drop 4) := v.run_accessChain _
        hvalues.dataVar (by simp [wordAt, hvalues.zero, hthread])
      _ = _ := by simp [EntryIds.dispatch, run, hargs, hleave, hret]
  have hskip : v.run (some e.merge) values ((e.dispatch k function).drop 2) = some [] := by
    have hchain : Opcode.accessChain ≠ .label := by decide
    have hcalls : Opcode.functionCall ≠ .label := by decide
    have hleaves : Opcode.branch ≠ .label := by decide
    simp [EntryIds.dispatch, run, hbody, hchain, hcalls, hleaves, hret]
  have hbranch : v.run none values (e.dispatch k function) =
      v.run (some (if v.number < v.count then e.body else e.merge)) values
        ((e.dispatch k function).drop 2) := by
    simp +decide [EntryIds.dispatch, run, event, hinRange]
  rw [hbranch]
  split
  · exact hcall
  · exact hskip

end Invocation

theorem EntryIds.resultIds_group (e : EntryIds) (k : KernelIds) (function : UInt32) :
    resultIds (e.group k function) = [e.entry, e.start, e.invocation, e.thread, e.countPtr, e.count,
      e.inRange, e.body, e.element, e.call, e.merge] := rfl

/-- The entry function as a whole. -/
theorem Invocation.run_group (v : Invocation) (hvalues : k.Stands values)
    (hnodup : (resultIds (e.group k function)).Nodup)
    (hnew : ∀ id ∈ resultIds (e.group k function), id ∉ k.read) :
    v.run none values (e.group k function).tail = some (if v.number < v.count then
      [(function, [.place StorageClass.storageBuffer [0, v.number]])] else []) := by
  rw [EntryIds.resultIds_group] at hnodup hnew
  have hsub : e.computed.Sublist [e.entry, e.start, e.invocation, e.thread, e.countPtr, e.count,
      e.inRange, e.body, e.element, e.call, e.merge] := by simp [EntryIds.computed]
  have hbody : e.body ≠ e.merge := by
    simp only [List.nodup_cons, List.mem_cons, not_or] at hnodup
    exact hnodup.2.2.2.2.2.2.2.1.2.2.1
  obtain ⟨values', hrun, hvalues', hthread, hinRange⟩ := v.run_guard (e.dispatch k function)
    hvalues (hnodup.sublist hsub) fun id hid => hnew id (hsub.subset hid)
  exact hrun.trans (v.run_dispatch hvalues' hbody hthread hinRange)

/-! ## Compiled programs -/

section Compiled

variable {program : Program} {options : Options} {host : HostCodes} {c : Compiled}
  {entry : UInt32} {s t : Generator}

theorem find?_result {instrs : List Instruction} {i : Instruction} {id : UInt32}
    (hnodup : (resultIds instrs).Nodup) (hi : i ∈ instrs) (hid : i.result? = some id) :
    (instrs.find? fun j => j.result? = some id) = some i := by
  cases hfind : instrs.find? fun j => j.result? = some id with
  | none => exact absurd (decide_eq_true hid) (List.find?_eq_none.1 hfind i hi)
  | some j =>
    have hj : j.result? = some id := by simpa using List.find?_some hfind
    rw [eq_of_result hnodup (List.mem_of_find?_eq_some hfind) hi hj hid]

namespace Generator.LaidOut

variable {b : BlockIds} {strided : List (UInt32 × Ty)} (h : s.LaidOut k b strided entry)
  (hsorted : s.Sorted) (hunique : (resultIds s.contents).Nodup)
include h hsorted hunique

theorem stands : k.Stands (globalValues s.contents) ∧
    ∀ id ∈ k.read, id ∈ resultIds s.declared := by
  obtain ⟨type, hzero⟩ := h.zero (hsorted.nodup_declared hunique)
  have hvar : ∀ i ∈ k.globals b, i ∈ s.declared := fun i hi => by
    rw [← h.globals] at hi
    exact (List.mem_filter.1 hi).1
  -- an instruction that is declared is the one that is found by its result
  have hfind : ∀ {i id d}, i ∈ s.declared → i.result? = some id → i.datum? = some d →
      globalValues s.contents id = some d ∧ id ∈ resultIds s.declared := by
    intro i id d hi hid hd
    rw [globalValues, find?_result hunique (mem_contents_of_declared hi) hid]
    exact ⟨hd, mem_resultIds.2 ⟨i, hi, hid⟩⟩
  simp only [KernelIds.globals, List.forall_mem_cons] at hvar
  have hzero' := hfind hzero Profile.constant.result rfl
  have hdata := hfind hvar.1 (Profile.globalVariable (by decide)).result rfl
  have hconfig := hfind hvar.2.1 (Profile.globalVariable (by decide)).result rfl
  have hinvocation := hfind hvar.2.2.1 (Profile.globalVariable (by decide)).result rfl
  refine ⟨⟨hzero'.1, hdata.1, hconfig.1, hinvocation.1⟩, ?_⟩
  simp only [KernelIds.read, List.forall_mem_cons, List.not_mem_nil, false_implies, implies_true,
    and_true]
  exact ⟨hzero'.2, hdata.2, hconfig.2, hinvocation.2⟩

end Generator.LaidOut

theorem CompiledRun.entryCode_contents (h : CompiledRun program options host c k e.entry t s)
    (hunique : (resultIds s.contents).Nodup) {functions : List Instruction}
    (hwritten : s.written = functions ++ e.group k function) :
    entryCode s.contents = some (e.group k function).tail := by
  obtain ⟨before, hcontents⟩ : ∃ before, s.contents = before ++ e.group k function := by
    rw [Generator.contents, hwritten, ← List.append_assoc]
    exact ⟨_, rfl⟩
  have hbefore : ∀ i ∈ before,
      decide (¬ (i.opcode = .func ∧ i.result? = some e.entry)) = true := by
    intro i hi
    refine decide_eq_true ?_
    rintro ⟨-, hid⟩
    rw [hcontents, resultIds_append] at hunique
    have hmem : e.entry ∈ resultIds before := mem_resultIds.2 ⟨i, hi, hid⟩
    exact (List.nodup_append'.1 hunique).2.2 hmem (by simp [EntryIds.resultIds_group])
  rw [entryCode, ← List.head?_filter, h.filter_entryPoint, hcontents]
  simp only [List.head?_cons, Option.bind_some, List.cons_append, List.getElem?_cons_succ,
    List.getElem?_cons_zero, Option.map_some, List.dropWhile_append_of_pos hbefore]
  have hfirst : (⟨.func, [k.void, e.entry, noControl, k.entryType]⟩ : Instruction).result? =
      some e.entry := Profile.func.result
  rw [EntryIds.group, EntryIds.guard, List.cons_append,
    List.dropWhile_cons_of_neg (by simp [hfirst])]

/-- An invocation of a compiled kernel calls the function for its element, if there is one. -/
theorem CompiledRun.exists_invoke (h : CompiledRun program options host c k entry t s)
    (hunique : (resultIds s.contents).Nodup) :
    ∃ function, ∀ v : Invocation, invoke s.contents v = some (if v.number < v.count then
      [(function, [.place StorageClass.storageBuffer [0, v.number]])] else []) := by
  obtain ⟨b, strided, hlaidAt⟩ := h.run.exists_laidOut h.presented.clean
  have hlaid := hlaidAt.sameCode h.presented.code h.presented.clean
  obtain ⟨hstands, hread⟩ := hlaid.stands h.sorted hunique
  obtain ⟨functions, function, e, rfl, hwritten⟩ := hlaid.entry
  have hids := hunique
  rw [h.sorted.resultIds_contents, resultIds_append, hwritten, resultIds_append] at hids
  obtain ⟨-, hfunctions, hapart⟩ := List.nodup_append'.1 hids
  refine ⟨function, fun v => ?_⟩
  rw [invoke, h.entryCode_contents hunique hwritten]
  refine v.run_group hstands (List.nodup_append'.1 hfunctions).2.1 fun id hid hk => ?_
  exact hapart (hread id hk) (List.mem_append_right _ hid)

/-! ## Groups -/

theorem toNat_dispatchSize {abi : Abi} (h : abi.workgroup.1 = 256) (count : UInt32) :
    (abi.dispatchSize count).1.toNat =
      if count.toNat ≤ 2 ^ 32 - 256 then (count.toNat + 255) / 256 else 0 := by
  have hsize : (abi.dispatchSize count).1 = (count + 256 - 1) / 256 := by
    simp [Abi.dispatchSize, h]
  have h256 : UInt32.toNat 256 = 256 := rfl
  have hone : UInt32.toNat 1 = 1 := rfl
  have hcount := count.toNat_lt
  rw [hsize, UInt32.toNat_div, UInt32.toNat_sub, UInt32.toNat_add, h256, hone]
  split <;> omega

theorem CompiledRun.workgroup (h : CompiledRun program options host c k entry t s) :
    c.abi.workgroup.1 = 256 := by
  rw [h.abi]
  rfl

/-- The groups of a dispatch handle each of the counted elements once, and nothing else: there is
one invocation for each number below their size. -/
def Compiled.Covers (c : Compiled) (function count : UInt32) (groups : Nat) : Prop :=
  ∀ id : UInt32, id.toNat < groups * c.abi.workgroup.1.toNat ∧
      invoke (instructionsIn (c.words.drop headerSize)) ⟨id, count⟩ =
        some [(function, [.place StorageClass.storageBuffer [0, id]])] ↔
    id < count

/-- A binary defines no id twice if it was verified, or if the ids suffice and the labels are told
apart by their blocks. -/
theorem nodup_resultIds_compiled (h : compile program options host = .ok c)
    (hids : options.validation = true ∨
      ListsBlocksOnce program ∧ idCount program options < 2 ^ 32 - 1) :
    (resultIds (instructionsIn (c.words.drop headerSize))).Nodup := by
  rcases hids with hvalidation | ⟨honce, hids⟩
  · obtain ⟨k, entry, t, s, hrun⟩ := exists_compiledRun h
    have hverify := verify_of_judge hvalidation hrun.judged
    rw [hrun.moduleWords] at hverify
    obtain ⟨-, -, -, hunique⟩ := exists_readList_of_verify hrun.sorted.fits hverify
    rwa [hrun.instructionsIn_words]
  · obtain ⟨_, s, _, _, _, _, _, _, _, _, hassemble, -, hfits, hwords, hassembled⟩ :=
      exists_assembled honce namesPermitted_true h
    rw [idCount, hassemble] at hids
    have hcontents : instructionsIn (c.words.drop headerSize) = s.contents := by
      rw [hwords]
      exact instructionsIn_flatMap_words (hassembled.sorted hfits).fits
    rw [hcontents]
    exact (hassembled.perm_contents hfits).nodup_iff.2 (nodup_firstIds hids)

/-- A dispatch covers all elements with the fewest groups, unless adding the group size to the count
goes past the last word: no group is launched then. -/
theorem dispatch_covers (h : compile program options host = .ok c)
    (hids : options.validation = true ∨
      ListsBlocksOnce program ∧ idCount program options < 2 ^ 32 - 1) :
    ∃ function, ∀ count : UInt32,
      (count.toNat ≤ 2 ^ 32 - 256 →
        c.Covers function count (c.abi.dispatchSize count).1.toNat ∧
        ∀ groups, c.Covers function count groups → (c.abi.dispatchSize count).1.toNat ≤ groups) ∧
      (2 ^ 32 - 256 < count.toNat → (c.abi.dispatchSize count).1 = 0) := by
  have hunique := nodup_resultIds_compiled h hids
  obtain ⟨k, entry, t, s, hrun⟩ := exists_compiledRun h
  rw [hrun.instructionsIn_words] at hunique
  obtain ⟨function, hinvoke⟩ := hrun.exists_invoke hunique
  have hsize : c.abi.workgroup.1.toNat = 256 := congrArg UInt32.toNat hrun.workgroup
  have hgroups := toNat_dispatchSize hrun.workgroup
  -- an invocation handles its element exactly if its number is below the count
  have hcovers : ∀ count groups, c.Covers function count groups ↔
      ∀ id : UInt32, id < count → id.toNat < groups * 256 := by
    intro count groups
    rw [Compiled.Covers, hrun.instructionsIn_words, hsize]
    refine forall_congr' fun id => ?_
    rw [hinvoke]
    by_cases hid : id < count <;> simp [hid]
  refine ⟨function, fun count => ⟨fun hcount => ?_, fun hcount => ?_⟩⟩
  · simp only [hcovers, hgroups, if_pos hcount]
    constructor
    · intro id hid
      have hlt := UInt32.lt_iff_toNat_lt.1 hid
      omega
    · intro groups hgroups
      have hlast := hgroups (count - 1)
      rw [UInt32.lt_iff_toNat_lt, UInt32.toNat_sub] at hlast
      have hone : UInt32.toNat 1 = 1 := rfl
      omega
  · have hnone := hgroups count
    rw [if_neg (Nat.not_le.2 hcount)] at hnone
    exact UInt32.toNat_inj.1 hnone

theorem dispatch_covers_shifting : ∃ c, compile shifting { debug := true } = .ok c ∧
    ∃ function, c.Covers function 1000 (c.abi.dispatchSize 1000).1.toNat ∧
      ∀ groups, c.Covers function 1000 groups → (c.abi.dispatchSize 1000).1.toNat ≤ groups := by
  obtain ⟨c, hc⟩ := exists_compile_shifting
  obtain ⟨function, hcovers⟩ := dispatch_covers hc (.inl rfl)
  exact ⟨c, hc, function, (hcovers 1000).1 (by decide)⟩

/-- The largest count of all launches nothing. -/
theorem not_covers_shifting : ∃ c, compile shifting { debug := true } = .ok c ∧ ∀ function,
    ¬ c.Covers function 0xFFFFFFFF (c.abi.dispatchSize 0xFFFFFFFF).1.toNat := by
  obtain ⟨c, hc⟩ := exists_compile_shifting
  obtain ⟨k, entry, t, s, hrun⟩ := exists_compiledRun hc
  refine ⟨c, hc, fun function hcovers => ?_⟩
  have hlaunched := ((hcovers 0).2 (by decide)).1
  rw [toNat_dispatchSize hrun.workgroup, if_neg (by decide), Nat.zero_mul] at hlaunched
  exact Nat.not_lt_zero _ hlaunched

end Compiled

end Elementwise.Spirv
