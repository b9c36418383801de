import Elementwise.Proofs.Compilation
import Elementwise.Proofs.LoweringRequests

/-!
# What a kernel asks for

The declarations of a kernel ask for the type of its elements and for supported types only. They
need capabilities and extensions of their own, which depend on the version and on the width of the
elements. Together with the request of the program this accounts for all that is reported and
required.
-/
namespace Elementwise.Spirv
open IR Gen Generator

/-! ## Accounts -/

/-- What led to a state: a request, and the capabilities and extensions that were given. -/
structure Generator.Account (r : List Ask) (given : UInt32 → Prop) (asked : String → Prop)
    (s : Generator) : Prop where
  reported : ∀ u, u ∈ s.interned.unsupported ↔ ∃ t, .type t ∈ r ∧ unsupportedPart? t = some u
  nodup : s.interned.unsupported.Nodup
  values : ∀ v ∈ s.body.values.map Prod.fst, .define v ∈ r
  capable : s.Capable given
  lexical : s.assembly.extensions.Pairwise (· < ·)
  extensions : ∀ e, e ∈ s.assembly.extensions ↔ asked e

variable {s t s' : Generator} {r r' : List Ask} {given given' : UInt32 → Prop}
  {asked asked' : String → Prop} {u : Unit} {version : Version} {k : KernelIds}
  {capabilities : List UInt32}

theorem account_start (version : Version) :
    (Generator.start version).Account [] (fun _ => False) fun _ => False where
  reported u := by simp [Generator.start]
  nodup := List.nodup_nil
  values := by simp [Generator.start]
  capable := ⟨List.Pairwise.nil, by simp [Generator.start]⟩
  lexical := List.Pairwise.nil
  extensions := by simp [Generator.start]

namespace Generator.Account

theorem meets (h : s.Account r given asked) (h' : Meets r' s s') :
    s'.Account (r ++ r') given asked where
  reported u := by
    rw [h'.reported, h.reported]
    simp [or_and_right, exists_or]
  nodup := h'.nodup h.nodup
  values v hv := by
    rw [List.mem_append]
    exact (h'.defines v hv).symm.imp_left (h.values v)
  capable := h'.capable given h.capable
  lexical := by
    rw [h'.extensions]
    exact h.lexical
  extensions e := by rw [h'.extensions, h.extensions]

theorem andIdle (h : s.Account r given asked) (h' : Meets [] s s') : s'.Account r given asked :=
  List.append_nil r ▸ h.meets h'

theorem congr (h : s.Account r given asked) (hgiven : ∀ c, given' c ↔ given c)
    (hasked : ∀ e, asked' e ↔ asked e) : s.Account r given' asked' :=
  { h with
    capable := ⟨h.capable.ascending, fun c => by rw [h.capable.mem, hgiven]⟩
    extensions := fun e => by rw [h.extensions, hasked] }

theorem addCapability (h : s.Account r given asked) {c : UInt32}
    (hrun : addCapability c s = .ok u s') : s'.Account r (fun x => given x ∨ x = c) asked := by
  obtain rfl := modify_ok.1 hrun
  refine { h with capable := ⟨pairwise_insertAscending h.capable.ascending, fun x => ?_⟩ }
  change x ∈ insertAscending _ c s.assembly.capabilities ↔ _
  rw [mem_insertAscending_iff, h.capable.mem, or_right_comm]

theorem addExtension (h : s.Account r given asked) {name : String}
    (hrun : addExtension name s = .ok u s') : s'.Account r given fun e => asked e ∨ e = name := by
  obtain rfl := modify_ok.1 hrun
  refine { h with
    capable := ⟨h.capable.ascending, h.capable.mem⟩
    lexical := pairwise_insertAscending h.lexical
    extensions := fun e => ?_ }
  change e ∈ insertAscending _ name s.assembly.extensions ↔ _
  rw [mem_insertAscending_iff, h.extensions]

theorem addCapabilities (h : s.Account r given asked) {u : PUnit}
    (hrun : (forIn capabilities PUnit.unit fun c _ => do
      Gen.addCapability c
      pure (.yield PUnit.unit) : Gen PUnit) s = .ok u s') :
    s'.Account r (fun x => given x ∨ x ∈ capabilities) asked := by
  induction capabilities generalizing s given with
  | nil =>
    obtain ⟨-, rfl⟩ := pure_ok.1 hrun
    exact h.congr (by simp) fun _ => Iff.rfl
  | cons c rest ih =>
    simp only [List.forIn_cons, bind_ok, pure_ok] at hrun
    obtain ⟨_, _, ⟨_, t, hc, rfl, rfl⟩, hrest⟩ := hrun
    refine (ih (h.addCapability hc) hrest).congr (fun x => ?_) fun _ => Iff.rfl
    rw [List.mem_cons, or_assoc]

end Generator.Account

/-! ## Requirements of kernels -/

/-- The capability for buffer elements of less than 32 bits. -/
def narrowCapabilities (width : UInt32) : List UInt32 :=
  if width = 8 then [Capability.storageBuffer8BitAccess]
  else if width = 16 then [Capability.storageBuffer16BitAccess]
  else []

/-- The extension for them, before the version that has it built in. -/
def narrowExtensions (version : Version) (width : UInt32) : List String :=
  if width = 8 then if version.atLeast ⟨1, 5⟩ then [] else [Extension.storage8Bit]
  else if width = 16 then if version.atLeast ⟨1, 3⟩ then [] else [Extension.storage16Bit]
  else []

def kernelCapabilities (elem : Ty) : List UInt32 :=
  [Capability.shader, Capability.variablePointersStorageBuffer] ++
    narrowCapabilities (numberWidth elem)

def kernelExtensions (version : Version) (elem : Ty) : List String :=
  (if version.atLeast ⟨1, 3⟩ then []
    else [Extension.storageBufferStorageClass, Extension.variablePointers]) ++
    narrowExtensions version (numberWidth elem)

namespace Generator.Account

/-- An extension that is built in from some version on. -/
theorem addExtensionBefore (h : s.Account r given asked) {first : Version} {name : String}
    (hrun : (if (!version.atLeast first) = true then Gen.addExtension name
      else pure () : Gen Unit) s = .ok u s') :
    s'.Account r given fun e =>
      asked e ∨ e ∈ if version.atLeast first then [] else [name] := by
  simp only [ite_ok, pure_ok] at hrun
  cases hversion : version.atLeast first with
  | true =>
    simp only [hversion, Bool.not_true, Bool.false_eq_true, if_false] at hrun
    exact hrun.2 ▸ h.congr (fun _ => Iff.rfl) (by simp)
  | false =>
    simp only [hversion, Bool.not_false, if_true] at hrun
    exact (h.addExtension hrun).congr (fun _ => Iff.rfl) (by simp)

theorem narrowStorage (h : s.Account r given asked) {width : UInt32}
    (hrun : narrowStorage version width s = .ok u s') :
    s'.Account r (fun c => given c ∨ c ∈ narrowCapabilities width)
      fun e => asked e ∨ e ∈ narrowExtensions version width := by
  unfold Gen.narrowStorage at hrun
  unfold narrowCapabilities narrowExtensions
  by_cases hbyte : width = 8
  · rw [if_pos hbyte] at hrun
    obtain ⟨_, t, hc, he⟩ := bind_ok.1 hrun
    refine ((h.addCapability hc).addExtensionBefore he).congr (fun c => ?_) fun e => ?_
    all_goals simp [hbyte]
  · rw [if_neg hbyte] at hrun
    by_cases hhalf : width = 16
    · rw [if_pos hhalf] at hrun
      obtain ⟨_, t, hc, he⟩ := bind_ok.1 hrun
      refine ((h.addCapability hc).addExtensionBefore he).congr (fun c => ?_) fun e => ?_
      all_goals simp [hhalf]
    · rw [if_neg hhalf] at hrun
      exact (pure_ok.1 hrun).2 ▸ h.congr (by simp [hbyte, hhalf]) (by simp [hbyte, hhalf])

theorem kernelRequirements (h : s.Account r given asked) {elem : Ty}
    (hrun : kernelRequirements version elem s = .ok u s') :
    s'.Account r (fun c => given c ∨ c ∈ kernelCapabilities elem)
      fun e => asked e ∨ e ∈ kernelExtensions version elem := by
  simp only [Gen.kernelRequirements, bind_ok, ite_ok] at hrun
  obtain ⟨_, s₁, hshader, _, s₂, hpointers, hrun⟩ := hrun
  have hfirst := (h.addCapability hshader).addCapability hpointers
  unfold kernelCapabilities kernelExtensions
  cases hversion : version.atLeast ⟨1, 3⟩ with
  | true =>
    simp only [hversion, Bool.not_true, Bool.false_eq_true, if_false] at hrun
    refine (hfirst.narrowStorage hrun).congr (fun c => ?_) fun e => ?_
    all_goals simp [or_assoc]
  | false =>
    simp only [hversion, Bool.not_false, if_true] at hrun
    obtain ⟨_, s₃, hstorage, _, s₄, hvariable, hrun⟩ := hrun
    refine (((hfirst.addExtension hstorage).addExtension hvariable).narrowStorage hrun).congr
      (fun c => ?_) fun e => ?_
    all_goals simp [or_assoc]

end Generator.Account

/-! ## Declarations -/

theorem unsupportedPart?_normalized (ty : Ty) : unsupportedPart? (normalized ty) = none := by
  induction ty with
  | int w =>
    have h32 : hasIntWidth 32 = true := rfl
    cases hw : hasIntWidth w <;> simp [normalized, unsupportedPart?, hw, h32]
  | float w =>
    have h32 : hasFloatWidth 32 = true := rfl
    cases hw : hasFloatWidth w <;> simp [normalized, unsupportedPart?, hw, h32]
  | pointer elem space ih => simpa [normalized, unsupportedPart?] using ih
  | _ => rfl

/-- Asking for a supported type is as good as nothing. -/
theorem Gen.Wants.supported {α : Type} {x : Gen α} {ty : Ty} (hty : unsupportedPart? ty = none)
    (hx : Wants x [.type ty]) : Wants x [] :=
  fun _ _ _ h => (hx h).congr (by simp [hty]) fun a ha => by simp [ha]

theorem runtimeArrayId_wants (elem stride : UInt32) : Wants (runtimeArrayId elem stride) [] := by
  intro s id s' h
  cases hid : (Declaration.array elem).id? s.interned with
  | some found =>
    cases (intern_of_recorded (d := .array elem) hid).symm.trans h
    exact .refl s
  | none =>
    cases (runtimeArrayId_of_new stride hid).symm.trans h
    exact (meets_declare (by simp) _).andIdle (meets_put _ _ _)

theorem blockVariable_wants (member storage : UInt32) : Wants (blockVariable member storage) [] := by
  refine (declare_wants .typeStruct).bind fun block => (emitTo_wants _ _ _).bind fun _ => ?_
  refine (emitTo_wants _ _ _).bind fun _ => (pointerId_wants storage block).bind fun pointer => ?_
  exact (declare_wants .variableOp).bind fun var => .pure _

theorem elem_of_bind {α : Type} {x : Gen α} {f : α → Gen KernelIds} {elem : Ty} {s s'} {k}
    (h : (x >>= f) s = .ok k s') (hf : ∀ a {s s'}, f a s = .ok k s' → k.elem = elem) :
    k.elem = elem := by
  obtain ⟨a, t, -, hb⟩ := bind_ok.1 h
  exact hf a hb

theorem declareKernel_account {options : Options} {element : Ty} (hs : s.Account r given asked)
    (h : declareKernel options element s = .ok k s') :
    k.elem = normalized element ∧ s'.functions = s.functions ∧
      s'.Account (r ++ [.type element])
        (fun c => given c ∨ c ∈ kernelCapabilities (normalized element))
        fun e => asked e ∨ e ∈ kernelExtensions options.version (normalized element) := by
  obtain ⟨elem, s₁, helem, h⟩ := bind_ok.1 h
  obtain ⟨rfl, hnormal⟩ := normalize_meets helem
  obtain ⟨_, s₂, hrequire, h⟩ := bind_ok.1 h
  have hnone := unsupportedPart?_normalized element
  have hpointee : unsupportedPart? (.pointer (normalized element) .buffer) = none := hnone
  have hrest : Meets [] s₂ s' := by
    refine (?_ : Wants _ []) h
    refine ((byteSize_wants _).supported hnone).bind fun stride => ?_
    refine ((typeId_wants _).supported hnone).bind fun elemId => ?_
    refine ((typeId_wants .void).supported rfl).bind fun void => ?_
    refine ((typeId_wants .bool).supported rfl).bind fun bool => ?_
    refine ((typeId_wants (.int 32)).supported rfl).bind fun uint => ?_
    refine ((typeId_wants _).supported hpointee).bind fun elemPtr => ?_
    refine ((constantId_wants (.ofWord 0)).supported rfl).bind fun zero => ?_
    refine (runtimeArrayId_wants elemId stride).bind fun array => ?_
    refine (blockVariable_wants array _).bind fun data => ?_
    refine (emitTo_wants _ _ _).bind fun _ => (emitTo_wants _ _ _).bind fun _ => ?_
    refine (blockVariable_wants uint _).bind fun config => (pointerId_wants _ uint).bind fun _ => ?_
    refine (vectorId_wants uint 3).bind fun invocation => ?_
    refine (pointerId_wants _ invocation).bind fun pointer => (declare_wants .variableOp).bind ?_
    refine fun var => (emitTo_wants _ _ _).bind fun _ => (functionTypeId_wants void []).bind ?_
    refine fun entryType => .ite ?_ (.pure _)
    iterate 7 refine (emitTo_wants _ _ _).bind fun _ => ?_
    exact .pure _
  have hresult : k.elem = normalized element := by
    iterate 18 refine elem_of_bind h fun _ _ _ h => ?_
    split at h
    · iterate 7 refine elem_of_bind h fun _ _ _ h => ?_
      exact (pure_ok.1 h).1 ▸ rfl
    · exact (pure_ok.1 h).1 ▸ rfl
  have hsilent := kernelRequirements_silent options.version (normalized element)
  have hcode := (hsilent.of_ok hrequire).2.1
  refine ⟨hresult, ?_, ?_⟩
  · rw [hrest.functions, hcode.functions, hnormal.functions]
  · exact ((hs.meets hnormal).kernelRequirements hrequire).andIdle hrest

/-! ## The entry function -/

theorem emitEntry_wants {function : UInt32} :
    Wants (inFunctions (build (emitEntryFunction k function))) [] := by
  intro s entry s' h
  obtain ⟨t, ht, rfl⟩ := inFunctions_ok.1 h
  rw [emitEntryFunction_eq] at ht
  cases ht
  refine .idle ((ledger_select _ _).trans ?_)
  exact Generator.putAll_keeps (fun t => t.ledger = s.ledger) (ledger_select s _)
    (fun _ ht => ht) fun t _ _ i _ ht => (ledger_put t _ i).trans ht

theorem present_meets (s : Generator) (options : Options) (k : KernelIds) (entry : UInt32) :
    Meets [] s (s.present options k entry) := by
  simp only [Generator.present, Options.entryPointInstrs, List.foldl_cons, List.foldl_nil]
  split_ifs <;> exact .idle (by simp only [ledger_put])

/-! ## Runs -/

/-- Operands and calls lead to what is listed. -/
structure Settled (p : Program) : Prop where
  uses : ∀ v, .use v ∈ askProgram p → .define v ∈ askProgram p
  calls : ∀ f, .call f ∈ askProgram p → ∃ g, (f, g) ∈ p.functions

/-- What a run of a program that could be compiled has asked for. -/
structure Fulfilled (program : Program) (options : Options) (elem : Ty) (s : Generator) : Prop where
  account : s.Account (.type elem :: askProgram program)
    (fun c => c ∈ options.capabilities ∨ c ∈ kernelCapabilities (normalized elem))
    fun e => e ∈ kernelExtensions options.version (normalized elem)
  settled : Settled program

variable {program : Program} {options : Options} {host : HostCodes} {k : KernelIds} {entry : UInt32}

theorem functions_addCapabilities {u : PUnit}
    (h : (forIn capabilities PUnit.unit fun c _ => do
      addCapability c
      pure (.yield PUnit.unit) : Gen PUnit) s = .ok u s') : s'.functions = s.functions := by
  refine forIn_invariant (fun t => t.functions = s.functions) ?_ h rfl
  intro c _ step t t' ht hturn
  simp only [addCapability, bind_ok, modify_ok, pure_ok] at hturn
  obtain ⟨_, _, rfl, rfl, rfl⟩ := hturn
  exact ⟨rfl, ht⟩

/-- Once the listed functions have ids, they and no others are known. -/
theorem declareFunctions_account {entries : List (FuncId × Func)}
    (honce : (entries.map Prod.fst).Nodup) (hnone : s.functions = []) (hs : s.Account r given asked)
    (h : declareFunctions (entries.map fun e => some e.1) s = .ok u s') :
    s'.Account r given asked ∧
      ∀ f, some f ∈ s'.functions.map Prod.fst ↔ f ∈ entries.map Prod.fst := by
  have hids : (entries.map fun e => some e.1).Nodup := by
    have hsome := honce.map (Option.some_injective FuncId)
    rwa [List.map_map] at hsome
  obtain ⟨words, hlength, -, hs'⟩ := declareFunctions_ok hids (by simp [hnone]) h
  have hkeys : s'.functions.map Prod.fst = (entries.map fun e => some e.1).reverse := by
    rw [hs', hnone, List.append_nil, List.map_reverse, List.map_fst_zip (by simp [hlength])]
  refine ⟨?_, fun f => ?_⟩
  · rw [hs']
    exact { hs with capable := ⟨hs.capable.ascending, hs.capable.mem⟩ }
  · rw [hkeys]
    simp

theorem KernelRun.fulfilled (h : KernelRun program options k entry (.start options.version) t) :
    ∃ kernel elem, program.kernel? = some kernel ∧ elementType kernel.2 = .ok elem ∧
      k.elem = normalized elem ∧ Fulfilled program options elem t := by
  obtain @⟨kernel, elem, s₁, s₂, s₃, s₄, _, hkernel, helem, hcapabilities, hdeclare, hids, hlower,
    hentry⟩ := h
  obtain ⟨entries, hlisted, honce, -⟩ := lowerListed_present hlower
  have hentries : program.functions = entries := by
    rw [Program.functions, hlisted, reduceOption_map_some]
  have hgiven := (account_start options.version).addCapabilities hcapabilities
  obtain ⟨hk, hfunctions, hdeclared⟩ := declareKernel_account hgiven hdeclare
  have hnone : s₂.functions = [] := hfunctions.trans (functions_addCapabilities hcapabilities)
  rw [hlisted, List.map_map] at hids
  obtain ⟨hnamed, hknown⟩ := declareFunctions_account honce hnone hdeclared hids
  have hlowered := lowerProgram_meets (fun e he => by
    rw [hknown, ← hentries]
    exact List.mem_map_of_mem he) hlower
  refine ⟨kernel, elem, hkernel, helem, hk, ?_, fun v hv => ?_, fun f hf => ?_⟩
  · exact ((hnamed.meets hlowered).andIdle (emitEntry_wants hentry)).congr (by simp) (by simp)
  · rcases hlowered.uses v hv with hv | hv
    · exact hv
    · cases List.mem_singleton.1 (hnamed.values v hv)
  · have hmem := (hknown f).1 (hlowered.calls f hf)
    rw [← hentries] at hmem
    obtain ⟨⟨_, g⟩, hg, rfl⟩ := List.mem_map.1 hmem
    exact ⟨g, hg⟩

/-- A compiled program was asked for nothing but what it lists. -/
theorem exists_fulfilled {c : Compiled} (h : compile program options host = .ok c) :
    ∃ k entry t s kernel elem, CompiledRun program options host c k entry t s ∧
      program.kernel? = some kernel ∧ elementType kernel.2 = .ok elem ∧
      k.elem = normalized elem ∧ Fulfilled program options elem s := by
  obtain ⟨k, entry, t, hrun⟩ := exists_compiledRun_present h
  obtain ⟨kernel, elem, hkernel, helem, hk, hdone⟩ := hrun.run.fulfilled
  exact ⟨k, entry, t, _, kernel, elem, hrun, hkernel, helem, hk,
    { hdone with account := hdone.account.andIdle (present_meets t options k entry) }⟩

end Elementwise.Spirv
