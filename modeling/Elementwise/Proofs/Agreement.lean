import Elementwise.Proofs.Acceptance
import Elementwise.Proofs.Bodies

/-!
# Validation and compilation agree

A supported program without findings compiles: what validation demands of operands, targets,
types and terminators is all that the generator asks for.
-/
namespace Elementwise.Spirv
open IR Gen Text.Utf8

variable {storage : UInt32}

section Kernel

variable {s : Generator} {options : Options}

theorem addCapability_runs (c : UInt32) : s.Runs (addCapability c) :=
  .of fun hs => Proceeds.of_ok rfl
    ⟨⟨hs.clean, hs.unfinished, hs.current, hs.extensions⟩, rfl, rfl, Nat.le_refl _⟩

theorem addExtension_runs {name : String}
    (hname : (⟨.extension, textWords (bytes name)⟩ : Instruction).fits) :
    s.Runs (addExtension name) := by
  refine .of fun hs => Proceeds.of_ok rfl
    ⟨⟨hs.clean, hs.unfinished, hs.current, ?_⟩, rfl, rfl, Nat.le_refl _⟩
  intro e he
  rcases mem_insertAscending he with he | rfl
  · exact hs.extensions e he
  · exact hname

theorem narrowStorage_runs (version : Version) (width : UInt32) :
    s.Runs (narrowStorage version width) := by
  refine .ite ?_ (.ite ?_ (.pure _))
  · refine Generator.Leads.bind (addCapability_runs _) fun _ => .ite ?_ (.pure _)
    exact addExtension_runs (by decide +kernel)
  · refine Generator.Leads.bind (addCapability_runs _) fun _ => .ite ?_ (.pure _)
    exact addExtension_runs (by decide +kernel)

theorem kernelRequirements_runs (version : Version) (elem : Ty) :
    s.Runs (kernelRequirements version elem) := by
  refine Generator.Leads.bind (addCapability_runs _) fun _ => ?_
  refine Generator.Leads.bind (addCapability_runs _) fun _ => .ite ?_ (narrowStorage_runs version _)
  refine Generator.Leads.bind (addExtension_runs (by decide +kernel)) fun _ => ?_
  refine Generator.Leads.bind (addExtension_runs (by decide +kernel)) fun _ => ?_
  exact narrowStorage_runs version _

theorem memberName_runs {text : Text} (htext : (textWords text.bytes).length + 3 < UInt16.size)
    (id member : UInt32) : s.Runs (build (.memberName id member text)) :=
  emitTo_runs rfl (decide_eq_true htext) (by decide)

theorem globalVariable_runs (pointer : UInt32) (hstorage : storage ≠ StorageClass.function) :
    s.Runs (build (.globalVariable pointer storage)) :=
  .of fun hs => Proceeds.of_ok rfl
    (hs.allocPut (Profile.globalVariable hstorage).home rfl (by decide))

theorem blockVariable_runs (member : UInt32) (hstorage : storage ≠ StorageClass.function) :
    s.Runs (blockVariable member storage) := by
  refine (structId_runs member).bind fun block => ?_
  refine Generator.Leads.bind (emitTo_runs rfl rfl (by decide)) fun _ => ?_
  refine Generator.Leads.bind (emitTo_runs rfl rfl (by decide)) fun _ => ?_
  refine (pointerId_runs storage block).bind fun pointer => ?_
  exact (globalVariable_runs pointer hstorage).bind fun var => .pure _

theorem whole_of_number {t : Ty} (h : t.isInt || t.isFloat) : t.whole := by
  cases t with
  | int _ | float _ => rfl
  | _ => cases h

/-- The globals of a kernel over numbers can be declared. -/
theorem declareKernel_runs {elem : Ty} (helem : elem.isInt || elem.isFloat) :
    s.Runs (declareKernel options elem) := by
  have hnumber : (normalized elem).isInt || (normalized elem).isFloat := by
    rcases normalized_number helem with ⟨w, hw⟩ | ⟨w, hw⟩ <;> rw [hw] <;> rfl
  have hwhole := whole_of_number hnumber
  have hpointer : (Ty.pointer (normalized elem) .buffer).whole := by
    simp only [Ty.whole, hwhole]
    decide
  have hdecorate : ∀ {op operands}, (⟨op, operands⟩ : Instruction).home? = some .decorations →
      (⟨op, operands⟩ : Instruction).fits → s.Runs (build (.emitTo .decorations op operands)) :=
    fun hhome hfits => emitTo_runs hhome hfits (by decide)
  refine .normalize ((kernelRequirements_runs options.version _).bind fun _ => ?_)
  refine (byteSize_runs hnumber).bind fun stride => ?_
  refine (typeId_runs hwhole).bind fun elemId => ?_
  refine (typeId_runs (t := .void) rfl).bind fun void => ?_
  refine (typeId_runs (t := .bool) rfl).bind fun bool => ?_
  refine (typeId_runs (t := .int 32) rfl).bind fun uint => ?_
  refine (typeId_runs hpointer).bind fun elemPtr => ?_
  refine (constantId_runs (c := .ofWord 0) rfl).bind fun zero => ?_
  refine (runtimeArrayId_runs elemId stride).bind fun array => ?_
  refine (blockVariable_runs array (by decide)).bind fun data => ?_
  refine (hdecorate rfl rfl).bind fun _ => (hdecorate rfl rfl).bind fun _ => ?_
  refine (blockVariable_runs uint (by decide)).bind fun config => ?_
  refine (pointerId_runs _ uint).bind fun countPtr => ?_
  refine (vectorId_runs uint 3).bind fun invocation => ?_
  refine (pointerId_runs _ invocation).bind fun invocationPtr => ?_
  refine (globalVariable_runs invocationPtr (by decide)).bind fun invocationVar => ?_
  refine (hdecorate rfl rfl).bind fun _ => ?_
  refine (functionTypeId_runs (by decide)).bind fun entryType => .ite ?_ (.pure _)
  refine (name_runs (by decide +kernel) data.1).bind fun _ => ?_
  refine (memberName_runs (by decide +kernel) data.1 0).bind fun _ => ?_
  refine (name_runs (by decide +kernel) data.2).bind fun _ => ?_
  refine (name_runs (by decide +kernel) config.1).bind fun _ => ?_
  refine (memberName_runs (by decide +kernel) config.1 0).bind fun _ => ?_
  refine (name_runs (by decide +kernel) config.2).bind fun _ => ?_
  exact (name_runs (by decide +kernel) invocationVar).bind fun _ => .pure _

theorem emitEntryFunction_runs (k : KernelIds) (function : UInt32) :
    s.Runs (build (emitEntryFunction k function)) := by
  refine .of fun {s} hs => Proceeds.of_ok (emitEntryFunction_eq s k function) ?_
  refine Generator.putAll_keeps s.Advances (Generator.Advances.refl hs) ?_ ?_
  · exact fun t ht => ht.trans ht.ready.alloc
  · intro t x hx i hi ht
    obtain ⟨hhome, hfits, -⟩ := EntryIds.home_steps _ k function x hx i hi
    rw [hs.current]
    exact ht.trans (ht.ready.put hhome hfits (by decide))

theorem emitEntry_runs {k : KernelIds} {function : UInt32}
    (hfits : (textWords options.entryName.bytes).length +
      (if options.version.atLeast ⟨1, 4⟩ then 3 else 1) + 3 < UInt16.size) :
    s.Runs (emitEntry options k function) := by
  have hname : FitsName options.entryName := by
    change (textWords options.entryName.bytes).length + 2 < UInt16.size
    split at hfits <;> omega
  have hentry : s.Runs (inFunctions (build (emitEntryFunction k function))) := by
    refine .of fun {s} hs => Proceeds.inFunctions ?_
    have hselect : ∀ {t : Generator}, t.Ready → t.select s.assembly.current = t := by
      intro t ht
      rw [hs.current, ← ht.current]
      rfl
    rw [← hs.current, hselect hs]
    refine ((emitEntryFunction_runs k function).proceeds hs).mono fun _ t ht => ?_
    rwa [hselect ht.ready]
  refine hentry.bind fun entry => ?_
  have hentryFits : ∀ model id, (⟨.entryPoint, model :: id ::
      textWords options.entryName.bytes ++ options.interfaces k⟩ : Instruction).fits := by
    intro model id
    have hlength : (options.interfaces k).length =
        if options.version.atLeast ⟨1, 4⟩ then 3 else 1 := by
      unfold Options.interfaces
      split <;> rfl
    rw [Instruction.fits, decide_eq_true_eq]
    simp only [List.length_append, List.length_cons, hlength]
    omega
  refine Generator.Leads.bind (emitTo_runs rfl (hentryFits _ _) (by decide)) fun _ => ?_
  refine Generator.Leads.bind (emitTo_runs rfl rfl (by decide)) fun _ => .ite ?_ (.pure _)
  exact (name_runs hname entry).bind fun _ => .pure _

end Kernel

/-! ## Programs -/

theorem declareFunctions_proceeds {s : Generator} {ids : List (Option FuncId)} (hs : s.Ready) :
    Proceeds (declareFunctions ids) s fun _ t => t.Ready ∧
      (∀ f, (List.lookup f s.functions).isSome → (List.lookup f t.functions).isSome) ∧
      ∀ f ∈ ids, (List.lookup f t.functions).isSome := by
  induction ids generalizing s with
  | nil => exact Proceeds.pure ⟨hs, fun _ hf => hf, by simp⟩
  | cons id rest ih =>
    refine Proceeds.okBind rfl ?_
    cases hlookup : List.lookup id s.functions with
    | some word =>
      refine (ih hs).mono ?_
      rintro _ t ⟨hready, hkept, hrest⟩
      exact ⟨hready, hkept, List.forall_mem_cons.2 ⟨hkept id (by rw [hlookup]; rfl), hrest⟩⟩
    | none =>
      have hdeclared : Proceeds (declareFunctions rest)
          { s.alloc with functions := (id, s.next) :: s.functions } _ :=
        ih (hs.alloc.ready.of_assembly rfl)
      refine Proceeds.okBind rfl (Proceeds.okBind rfl (hdeclared.mono ?_))
      rintro _ t ⟨hready, hkept, hrest⟩
      refine ⟨hready, fun f hf => hkept f ?_, List.forall_mem_cons.2 ⟨hkept id ?_, hrest⟩⟩
      · exact Generator.isSome_lookup_cons (Or.inr hf)
      · exact Generator.isSome_lookup_cons (Or.inl rfl)

section Programs

variable {program : Program} {options : Options}

theorem ready_start (version : Version) : (Generator.start version).Ready :=
  ⟨rfl, rfl, rfl, by simp [Generator.start]⟩

theorem elementType_eq_ok {kernel : FuncId × Func} {name : Text} {elem : Ty}
    (hparams : kernel.2.params = [some ⟨name, .pointer elem .buffer⟩])
    (hresult : kernel.2.resultType = .void)
    (helement : ∀ q ∈ kernel.2.signature kernel.1, q.2.type.isElementPointer) :
    elementType kernel.2 = .ok elem ∧ (elem.isInt || elem.isFloat) := by
  have hsignature : kernel.2.signature kernel.1 =
      [(⟨kernel.1, 0⟩, ⟨name, .pointer elem .buffer⟩)] := by
    rw [Func.signature, Func.paramIds, hparams]
    rfl
  have hnumber : elem.isInt || elem.isFloat := by
    simpa [hsignature, Ty.isElementPointer] using helement
  refine ⟨?_, hnumber⟩
  simp only [elementType, hparams]
  simp [hresult, hnumber]

theorem assemble_proceeds (hvalid : program.Valid) (hsupported : Supported program options) :
    Proceeds (assemble program options) (.start options.version) fun _ t => t.Ready := by
  obtain ⟨kernel, hkernel, name, elem, hparams, hresult⟩ := hvalid.kernel
  obtain ⟨helement, hnumber⟩ :=
    elementType_eq_ok hparams hresult (hsupported.element kernel hkernel)
  obtain ⟨rest, hfunctions⟩ := List.head?_eq_some_iff.1 hkernel
  have hlisted := hvalid.listed
  have hfirst : program.kernel? = some kernel := by
    rw [Program.kernel?, hlisted, hfunctions]
    rfl
  have horder : program.order.isEmpty = false := by
    rw [hfunctions, Program.listed] at hlisted
    cases horder : program.order with
    | nil => simp [horder] at hlisted
    | cons slot order => rfl
  unfold assemble
  rw [horder, if_neg Bool.false_ne_true]
  refine (Proceeds.forIn ?_ (ready_start options.version)).bind fun _ s₁ hs₁ => ?_
  · intro c _ t ht
    exact ((addCapability_runs c).proceeds ht).bind fun _ _ hu => Proceeds.pure ⟨rfl, hu.ready⟩
  rw [hfirst]
  dsimp only
  rw [helement]
  refine ((declareKernel_runs hnumber).proceeds hs₁).bind fun k s₂ h₂ => ?_
  refine (declareFunctions_proceeds h₂.ready).bind ?_
  rintro _ s₃ ⟨hready₃, -, hdeclared⟩
  have h₃ : Numbered program s₃ := by
    refine ⟨hready₃, fun g hg => hdeclared _ (List.mem_map.2 ⟨some g, ?_, rfl⟩)⟩
    exact List.reduceOption_mem_iff.1 hg
  rw [hlisted]
  refine (lowerListed_proceeds hvalid hsupported (fun _ he => he) hsupported.once (by simp)
    h₃).bind fun _ s₄ h₄ => ?_
  refine Proceeds.okBind rfl ?_
  exact ((emitEntry_runs hsupported.entry).proceeds h₄.ready).mono fun _ _ h₅ => h₅.ready

theorem Generator.Ready.preamble_fits {s : Generator} (h : s.Ready) :
    ∀ i ∈ s.assembly.preambleInstrs, i.fits := by
  intro i hi
  simp only [Assembly.preambleInstrs, List.mem_append, List.mem_map, List.mem_singleton] at hi
  rcases hi with (⟨c, -, rfl⟩ | ⟨name, hname, rfl⟩) | rfl
  · rfl
  · exact h.extensions name hname
  · rfl

/-- Validation and compilation agree: a supported program without findings compiles, unless its
ids begin anew. -/
theorem compile_of_validate (hvalid : program.validate = .ok [])
    (hsupported : Supported program options) (hids : idCount program options < 2 ^ 32 - 1)
    (hvalidation : options.validation = false) (hstrict : options.strict = false) :
    ∃ c, compile program options = .ok c := by
  have hassemble := assemble_proceeds (valid_of_validate hvalid) hsupported
  unfold Proceeds at hassemble
  unfold idCount at hids
  cases hrun : assemble program options (.start options.version) with
  | error e s =>
    rw [hrun] at hassemble hids
    exact absurd hids (Nat.not_lt_of_le hassemble)
  | ok abi s =>
    rw [hrun] at hassemble
    obtain ⟨s', hfinish⟩ := finish_ok.2 ⟨hassemble.clean, hassemble.unfinished,
      hassemble.preamble_fits, rfl⟩
    refine ⟨⟨_, abi {}, s'.interned.diagnostics⟩, compile_ok.2 ⟨abi, s, s', hrun, hfinish, ?_, rfl⟩⟩
    unfold judge
    rw [hvalidation]
    cases s'.interned.diagnostics <;> simp [hstrict]

end Programs

theorem supported_doubling : Supported doubling { validation := false, debug := true } where
  once := by decide +kernel
  element := by decide +kernel
  functions e he :=
    { params := (by decide +kernel : ∀ e ∈ doubling.functions, ∀ q ∈ e.2.signature e.1,
        q.2.type.whole) e he
      result := (by decide +kernel : ∀ e ∈ doubling.functions, e.2.resultType.whole) e he
      instrs := (by decide +kernel : ∀ e ∈ doubling.functions, ∀ x ∈ e.2.entries e.1, ∀ i ∈ x.2,
        i.Supported doubling) e he
      merges := (by decide +kernel : ∀ e ∈ doubling.functions,
        ((e.2.body e.1).filterMap (Layout.claim? ⟨e.2.body e.1⟩)).Nodup) e he
      arity := (by decide +kernel : ∀ e ∈ doubling.functions,
        e.2.params.length + 3 < UInt16.size) e he }
  constants := by decide +kernel
  names := by decide +kernel
  entry := by decide +kernel

theorem compile_of_validate_doubling : doubling.validate = .ok [] ∧
    ∃ c, compile doubling { validation := false, debug := true } = .ok c := by
  have hvalid : doubling.validate = .ok [] := by decide +kernel
  exact ⟨hvalid, compile_of_validate hvalid supported_doubling idCount_doubling rfl rfl⟩

end Elementwise.Spirv
