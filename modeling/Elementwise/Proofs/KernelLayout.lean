import Elementwise.Proofs.Compilation

/-!
# The layout of a kernel

What a kernel decorates and which variables it declares are settled before its functions are
written. The functions add strides to pointer types, each once and each to a pointer to a number,
and nothing else that bears on the layout. The entry function is written last.
-/
namespace Elementwise.Spirv
open IR Gen Relation

variable {debug : Bool} {s t s' : Generator} {i : Instruction} {id : UInt32} {k : KernelIds}
  {options : Options} {target : Section} {d : Declaration}

/-- The global variables that were declared. -/
def Generator.globals (s : Generator) : List Instruction :=
  (s.part .types).filter fun i => i.opcode = .variableOp

/-- The decorations that give pointer types the sizes of their numbers as strides. -/
def strideInstrs (strided : List (UInt32 × Ty)) : List Instruction :=
  strided.map fun e => ⟨.decorate, [e.1, Decoration.arrayStride, numberWidth e.2 / 8]⟩

theorem Generator.part_put {home : Section} (hc : (s.put target i).clean)
    (hhome : i.home? = some home) (hopen : home ∈ growingSections) (other : Section) :
    (s.put target i).part other = if other = home then s.part other ++ [i] else s.part other := by
  rw [(put_at_home hc hhome).2, s.part_add hopen]

theorem Generator.part_declare (hi : d.DeclaredBy id i) (hc : (s.declare d i).clean)
    (other : Section) :
    (s.declare d i).part other = if other = .types then s.part other ++ [i] else s.part other := by
  have hput : (s.alloc.put .types i).clean := hc
  exact Generator.part_put hput hi.home (by decide) other

theorem declared_of_reaches (h : ReflTransGen (Assembles debug) s s') (hc : s'.clean)
    (hi : s.clean → i ∈ s.declared) : i ∈ s'.declared := by
  have hgrows := grows_of_reaches h hc
  exact hgrows.subset .types (hi hgrows.clean)

/-! ## Strides -/

/-- Pointer types were given strides, and nothing else was decorated. -/
structure Generator.StridesTo (s : Generator) (strided : List (UInt32 × Ty)) (s' : Generator) :
    Prop where
  decorations : s'.part .decorations = s.part .decorations ++ strideInstrs strided
  globals : s'.globals = s.globals
  strides : s'.interned.strides = (strided.map Prod.fst).reverse ++ s.interned.strides
  nodup : s.interned.strides.Nodup → s'.interned.strides.Nodup
  typed : ∀ e ∈ strided, DeclaredNumber e.2 ∧ ∃ pointee storage,
    (Declaration.pointer pointee storage).id? s'.interned = some e.1 ∧
    (Declaration.scalar e.2).id? s'.interned = some pointee

namespace Generator.StridesTo

/-- Nothing that bears on the layout has changed. -/
theorem same (hdecorations : s'.part .decorations = s.part .decorations)
    (hglobals : s'.globals = s.globals)
    (hstrides : s'.interned.strides = s.interned.strides) : s.StridesTo [] s' where
  decorations := by simp [hdecorations, strideInstrs]
  globals := hglobals
  strides := hstrides
  nodup h := hstrides ▸ h
  typed := by simp

protected theorem trans {first second : List (UInt32 × Ty)} (h : s.StridesTo first t)
    (h' : t.StridesTo second s')
    (hrecord : ∀ (d : Declaration) id, d.id? t.interned = some id → d.id? s'.interned = some id) :
    s.StridesTo (first ++ second) s' where
  decorations := by rw [h'.decorations, h.decorations]; simp [strideInstrs]
  globals := h'.globals.trans h.globals
  strides := by rw [h'.strides, h.strides]; simp
  nodup hs := h'.nodup (h.nodup hs)
  typed e he := by
    rcases List.mem_append.1 he with he | he
    · obtain ⟨hnumber, pointee, storage, hpointer, helem⟩ := h.typed e he
      exact ⟨hnumber, pointee, storage, hrecord _ _ hpointer, hrecord _ _ helem⟩
    · exact h'.typed e he

end Generator.StridesTo

theorem Interns.stridesTo (h : Interns s s') (hc : s'.clean) : s.StridesTo [] s' := by
  have hstrides := h.strides_eq
  cases h with
  | quiet h =>
    have hpart : ∀ home, s'.part home = s.part home := fun home =>
      congrArg Array.toList (h.sections home)
    exact .same (hpart _) (by rw [Generator.globals, hpart, Generator.globals]) hstrides
  | @declare d i hd hnew hi =>
    have hpart := Generator.part_declare hi hc
    refine .same (hpart .decorations) ?_ hstrides
    rw [Generator.globals, hpart, if_pos rfl, List.filter_append,
      List.filter_cons_of_neg (by simpa using hi.shared.2)]
    simp [Generator.globals]

theorem Writes.exists_stridesTo (h : Writes debug s s') (hc : s'.clean) :
    ∃ strided, s.StridesTo strided s' := by
  -- what is put outside the sections of types and decorations bears on no layout
  have hother : ∀ {target home : Section} {i : Instruction}, (s.put target i).clean →
      i.home? = some home → home ∈ growingSections → home ≠ .types → home ≠ .decorations →
      s.StridesTo [] (s.put target i) := by
    intro target home i hput hhome hopen htypes hdecorations
    have hpart := Generator.part_put hput hhome hopen
    refine .same ?_ ?_ rfl
    · rw [hpart, if_neg hdecorations.symm]
    · rw [Generator.globals, hpart, if_neg htypes.symm, Generator.globals]
  cases h with
  | interns h => exact ⟨[], h.stridesTo hc⟩
  | name hdebug hop =>
    exact ⟨[], hother hc (home?_of_name hop) (by decide) (by decide) (by decide)⟩
  | write hhome hstrided => exact ⟨[], hother hc hhome (by decide) (by decide) (by decide)⟩
  | @stride id pointee storage t hnew hpointer helem hnumber =>
    have hput : (s.put .decorations
        ⟨.decorate, [id, Decoration.arrayStride, numberWidth t / 8]⟩).clean := hc
    have hpart := Generator.part_put hput rfl (by decide)
    refine ⟨[(id, t)], hpart .decorations, ?_, rfl, fun hs => List.nodup_cons.2 ⟨hnew, hs⟩, ?_⟩
    · exact congrArg (List.filter _) (hpart .types)
    · intro e he
      cases List.mem_singleton.1 he
      exact ⟨hnumber, pointee, storage, hpointer, helem⟩

theorem exists_stridesTo (h : ReflTransGen (Writes debug) s s') (hc : s'.clean) :
    ∃ strided, s.StridesTo strided s' := by
  induction h with
  | refl => exact ⟨[], .same rfl rfl rfl⟩
  | tail _ hstep ih =>
    obtain ⟨first, hfirst⟩ := ih ((Assembles.writes hstep).grows hc).clean
    obtain ⟨second, hsecond⟩ := hstep.exists_stridesTo hc
    exact ⟨first ++ second, hfirst.trans hsecond fun _ _ => (Assembles.writes hstep).recorded⟩

/-! ## Globals -/

/-- What was decorated and which variables were declared, if nothing was refused. -/
structure Generator.Lays (debug : Bool) (s : Generator)
    (decorations globals : List Instruction) (s' : Generator) : Prop where
  reaches : ReflTransGen (Assembles debug) s s'
  decorations : s'.clean → s'.part .decorations = s.part .decorations ++ decorations
  globals : s'.clean → s'.globals = s.globals ++ globals
  strides : s'.interned.strides = s.interned.strides

namespace Generator.Lays

variable {ds es vs ws : List Instruction}

protected theorem trans (h : s.Lays debug ds vs t) (h' : t.Lays debug es ws s') :
    s.Lays debug (ds ++ es) (vs ++ ws) s' where
  reaches := h.reaches.trans h'.reaches
  decorations hc := by
    have ht := (grows_of_reaches h'.reaches hc).clean
    rw [h'.decorations hc, h.decorations ht, List.append_assoc]
  globals hc := by
    have ht := (grows_of_reaches h'.reaches hc).clean
    rw [h'.globals hc, h.globals ht, List.append_assoc]
  strides := h'.strides.trans h.strides

/-- Writing that gives no strides. -/
theorem writes (h : ReflTransGen (Writes debug) s s')
    (hstrides : s'.interned.strides = s.interned.strides) : s.Lays debug [] [] s' := by
  have hnone : s'.clean → s.StridesTo [] s' := by
    intro hc
    obtain ⟨strided, hs⟩ := exists_stridesTo h hc
    have hnil : (strided.map Prod.fst).reverse = [] :=
      List.append_left_eq_self.1 (hs.strides.symm.trans hstrides)
    obtain rfl : strided = [] := by simpa using hnil
    exact hs
  exact
    { reaches := ReflTransGen.mono (fun _ _ => Assembles.writes) _ _ h
      decorations := fun hc => (hnone hc).decorations
      globals := fun hc => by rw [(hnone hc).globals, List.append_nil]
      strides := hstrides }

theorem interns (h : ReflTransGen Interns s s') : s.Lays debug [] [] s' :=
  .writes (ReflTransGen.mono (fun _ _ => Writes.interns) _ _ h) (strides_eq_of_reaches h)

theorem decorate (hhome : i.home? = some .decorations) :
    s.Lays debug [i] [] (s.put .decorations i) where
  reaches := .single (.decorate hhome)
  decorations hc := Generator.part_put hc hhome (by decide) .decorations
  globals hc := by
    have htypes := Generator.part_put hc hhome (by decide) .types
    rw [List.append_nil]
    exact congrArg (List.filter _) htypes
  strides := rfl

/-- A structure or a variable. -/
theorem own (hhome : i.home? = some .types) (hop : i.opcode = .typeStruct ∨ i.opcode = .variableOp)
    (hvs : [i].filter (fun i => i.opcode = .variableOp) = vs) :
    s.Lays debug [] vs (s.alloc.put .types i) where
  reaches := .head (Interns.quiet (quiet_alloc s)).assembles (.single (.own hhome hop))
  decorations hc := by
    rw [Generator.part_put hc hhome (by decide), List.append_nil]
    rfl
  globals hc := by
    rw [Generator.globals, Generator.part_put hc hhome (by decide), if_pos rfl,
      List.filter_append, hvs]
    rfl
  strides := rfl

theorem recorded (h : s.Lays debug ds vs s') (hd : d.id? s.interned = some id) :
    d.id? s'.interned = some id :=
  recorded_of_reaches h.reaches hd

theorem declared (h : s.Lays debug ds vs s') (hc : s'.clean) (hi : s.clean → i ∈ s.declared) :
    i ∈ s'.declared :=
  declared_of_reaches h.reaches hc hi

end Generator.Lays

theorem mem_declared_put (hhome : i.home? = some .types) (hc : (s.put .types i).clean) :
    i ∈ (s.put .types i).declared := by
  have htypes := Generator.part_put hc hhome (by decide) .types
  rw [if_pos rfl] at htypes
  change i ∈ (s.put .types i).part .types
  rw [htypes]
  exact List.mem_append_right _ (List.mem_singleton_self i)

/-! ## The kernel -/

/-- The types behind the variables of a kernel. -/
structure BlockIds where
  elem : UInt32
  array : UInt32
  dataBlock : UInt32
  dataPtr : UInt32
  configBlock : UInt32
  configPtr : UInt32
  invocationPtr : UInt32
  deriving DecidableEq, Repr

def KernelIds.decorations (k : KernelIds) (b : BlockIds) : List Instruction :=
  [⟨.decorate, [b.array, Decoration.arrayStride, k.stride]⟩,
   ⟨.decorate, [b.dataBlock, Decoration.block]⟩,
   ⟨.memberDecorate, [b.dataBlock, 0, Decoration.offset, 0]⟩,
   ⟨.decorate, [k.dataVar, Decoration.descriptorSet, 0]⟩,
   ⟨.decorate, [k.dataVar, Decoration.binding, 0]⟩,
   ⟨.decorate, [b.configBlock, Decoration.block]⟩,
   ⟨.memberDecorate, [b.configBlock, 0, Decoration.offset, 0]⟩,
   ⟨.decorate, [k.invocationVar, Decoration.builtIn, BuiltIn.globalInvocationId]⟩]

def KernelIds.globals (k : KernelIds) (b : BlockIds) : List Instruction :=
  [⟨.variableOp, [b.dataPtr, k.dataVar, StorageClass.storageBuffer]⟩,
   ⟨.variableOp, [b.configPtr, k.configVar, StorageClass.pushConstant]⟩,
   ⟨.variableOp, [b.invocationPtr, k.invocationVar, StorageClass.input]⟩]

/-- The blocks of a kernel are declared, and so are their members and the pointers to them. -/
structure KernelTypes (k : KernelIds) (b : BlockIds) (s : Generator) : Prop where
  number : DeclaredNumber k.elem
  stride : k.stride = numberWidth k.elem / 8
  elem : (Declaration.scalar k.elem).id? s.interned = some b.elem
  uint : (Declaration.scalar (.int 32)).id? s.interned = some k.uint
  dataPtr : (Declaration.pointer b.dataBlock StorageClass.storageBuffer).id? s.interned =
    some b.dataPtr
  configPtr : (Declaration.pointer b.configBlock StorageClass.pushConstant).id? s.interned =
    some b.configPtr
  array : s.clean → ⟨.typeRuntimeArray, [b.array, b.elem]⟩ ∈ s.declared
  dataBlock : s.clean → ⟨.typeStruct, [b.dataBlock, b.array]⟩ ∈ s.declared
  configBlock : s.clean → ⟨.typeStruct, [b.configBlock, k.uint]⟩ ∈ s.declared

theorem Interns.arrays_eq (h : Interns s s') : s'.interned.arrays = s.interned.arrays := by
  cases h with
  | quiet h => rw [h.interned]
  | @declare d i hd =>
    cases d with
    | array elem => exact absurd rfl (hd elem)
    | _ => rfl

theorem arrays_eq_of_reaches (h : ReflTransGen Interns s s') :
    s'.interned.arrays = s.interned.arrays := by
  induction h with
  | refl => rfl
  | tail _ hstep ih => exact hstep.arrays_eq.trans ih

theorem byteSize_eq {t : Ty} {size : UInt32} (h : byteSize t s = .ok size s') :
    size = numberWidth (normalized t) / 8 ∧
      ((normalized t).isInt || (normalized t).isFloat) = true :=
  ((byteSize_lockstep t).of_ok .rfl h h).1.2

/-- A number is on record once its type was asked for. -/
theorem typeId_number {t : Ty} (hnumber : ((normalized t).isInt || (normalized t).isFloat) = true)
    (h : typeId t s = .ok id s') :
    (Declaration.scalar (normalized t)).id? s'.interned = some id := by
  obtain ⟨u, s₁, hnormalize, hdeclared⟩ := bind_ok.1 h
  obtain ⟨rfl, -⟩ : _ ∧ Spec (fun _ => True) s {} s₁ _ := normalize_ok hnormalize
  cases hu : normalized t with
  | int w | float w =>
    rw [hu] at hdeclared
    exact scalarId_recorded hdeclared
  | _ =>
    rw [hu] at hnumber
    cases hnumber

/-- The first array is declared, and its stride with it. -/
theorem runtimeArrayId_lays {elem stride : UInt32} (harrays : s.interned.arrays = [])
    (h : runtimeArrayId elem stride s = .ok id s') :
    s.Lays debug [⟨.decorate, [id, Decoration.arrayStride, stride]⟩] [] s' ∧
      (s'.clean → ⟨.typeRuntimeArray, [id, elem]⟩ ∈ s'.declared) := by
  have hnew : (Declaration.array elem).id? s.interned = none := by
    simp [Declaration.id?, harrays]
  have harray : (Declaration.array elem).DeclaredBy s.next
      ⟨.typeRuntimeArray, [s.next, elem]⟩ := rfl
  cases (runtimeArrayId_of_new stride hnew).symm.trans h
  have hdeclare : s.Lays debug [] []
      (s.declare (.array elem) ⟨.typeRuntimeArray, [s.next, elem]⟩) :=
    { reaches := .single (.array hnew)
      decorations := fun hc => by
        rw [Generator.part_declare harray hc, List.append_nil]
        rfl
      globals := fun hc => by
        rw [Generator.globals, Generator.part_declare harray hc, if_pos rfl, List.filter_append,
          List.filter_cons_of_neg (by simpa using harray.shared.2)]
        rfl
      strides := rfl }
  have hdecorate : Generator.Lays debug
      (s.declare (.array elem) ⟨.typeRuntimeArray, [s.next, elem]⟩)
      [⟨.decorate, [s.next, Decoration.arrayStride, stride]⟩] [] _ := .decorate rfl
  refine ⟨hdeclare.trans hdecorate, fun hc => hdecorate.declared hc fun hclean => ?_⟩
  exact mem_declared_put (s := s.alloc) rfl hclean

section Steps

variable {op : Opcode} {operands : List UInt32} {operandsOf : UInt32 → List UInt32}

theorem decorate_lays {u : Unit} (h : build (.emitTo .decorations op operands) s = .ok u s')
    (hhome : (⟨op, operands⟩ : Instruction).home? = some .decorations) :
    s.Lays debug [⟨op, operands⟩] [] s' := by
  obtain rfl := emitTo_ok.1 h
  exact .decorate hhome

theorem declareOwn_lays {vs : List Instruction} (h : build (.declare op operandsOf) s = .ok id s')
    (hhome : (⟨op, operandsOf id⟩ : Instruction).home? = some .types)
    (hop : op = .typeStruct ∨ op = .variableOp)
    (hvs : [(⟨op, operandsOf id⟩ : Instruction)].filter (fun i => i.opcode = .variableOp) = vs) :
    s.Lays debug [] vs s' ∧ (s'.clean → ⟨op, operandsOf id⟩ ∈ s'.declared) := by
  obtain ⟨rfl, rfl⟩ := declare_ok.1 h
  exact ⟨.own hhome hop hvs, mem_declared_put hhome⟩

end Steps

/-- A block is declared and decorated, and a variable that holds it is declared. -/
theorem blockVariable_lays {member storage block var : UInt32}
    (hstorage : storage ≠ StorageClass.function)
    (h : blockVariable member storage s = .ok (block, var) s') :
    ∃ pointer,
      s.Lays debug [⟨.decorate, [block, Decoration.block]⟩,
        ⟨.memberDecorate, [block, 0, Decoration.offset, 0]⟩]
        [⟨.variableOp, [pointer, var, storage]⟩] s' ∧
      (s'.clean → ⟨.typeStruct, [block, member]⟩ ∈ s'.declared) ∧
      (Declaration.pointer block storage).id? s'.interned = some pointer := by
  obtain ⟨_, s₁, hstruct, h⟩ := bind_ok.1 h
  obtain ⟨_, s₂, hblock, h⟩ := bind_ok.1 h
  obtain ⟨_, s₃, hoffset, h⟩ := bind_ok.1 h
  obtain ⟨pointer, s₄, hpointer, h⟩ := bind_ok.1 h
  obtain ⟨_, s₅, hvar, h⟩ := bind_ok.1 h
  obtain ⟨heq, rfl⟩ := pure_ok.1 h
  obtain ⟨rfl, rfl⟩ := Prod.mk.inj heq
  obtain ⟨hfirst, hmem⟩ : s.Lays debug [] [] s₁ ∧ _ := declareOwn_lays hstruct rfl (Or.inl rfl) rfl
  have hpointed : s₃.Lays debug [] [] s₄ := .interns ((pointerId_steady _ _).reaches hpointer)
  obtain ⟨hlast, -⟩ : s₄.Lays debug [] _ s₅ ∧ _ :=
    declareOwn_lays hvar (Profile.globalVariable hstorage).home (Or.inr rfl) rfl
  have hrest := ((decorate_lays hblock rfl).trans (decorate_lays hoffset rfl)).trans
    (hpointed.trans hlast)
  exact ⟨pointer, hfirst.trans hrest, fun hc => hrest.declared hc hmem,
    hlast.recorded (pointerId_recorded hpointer)⟩

/-- The globals of a kernel, where no array was declared before. -/
theorem declareKernel_lays {element : Ty} (harrays : s.interned.arrays = [])
    (h : declareKernel options element s = .ok k s') :
    ∃ b, s.Lays options.debug (k.decorations b) (k.globals b) s' ∧ KernelTypes k b s' := by
  obtain ⟨elem, s₁, hnormalize, h⟩ := bind_ok.1 h
  obtain ⟨_, s₂, hrequire, h⟩ := bind_ok.1 h
  obtain ⟨stride, s₃, hstride, h⟩ := bind_ok.1 h
  obtain ⟨elemId, s₄, helem, h⟩ := bind_ok.1 h
  obtain ⟨void, s₅, hvoid, h⟩ := bind_ok.1 h
  obtain ⟨bool, s₆, hbool, h⟩ := bind_ok.1 h
  obtain ⟨uint, s₇, huint, h⟩ := bind_ok.1 h
  obtain ⟨elemPtr, s₈, helemPtr, h⟩ := bind_ok.1 h
  obtain ⟨zero, s₉, hzero, h⟩ := bind_ok.1 h
  obtain ⟨array, s₁₀, harray, h⟩ := bind_ok.1 h
  obtain ⟨⟨dataBlock, dataVar⟩, s₁₁, hdata, h⟩ := bind_ok.1 h
  obtain ⟨_, s₁₂, hset, h⟩ := bind_ok.1 h
  obtain ⟨_, s₁₃, hbinding, h⟩ := bind_ok.1 h
  obtain ⟨⟨configBlock, configVar⟩, s₁₄, hconfig, h⟩ := bind_ok.1 h
  obtain ⟨countPtr, s₁₅, hcountPtr, h⟩ := bind_ok.1 h
  obtain ⟨invocation, s₁₆, hinvocation, h⟩ := bind_ok.1 h
  obtain ⟨invocationPtr, s₁₇, hinvocationPtr, h⟩ := bind_ok.1 h
  obtain ⟨invocationVar, s₁₈, hinvocationVar, h⟩ := bind_ok.1 h
  obtain ⟨_, s₁₉, hbuiltIn, h⟩ := bind_ok.1 h
  obtain ⟨entryType, s₂₀, hentryType, h⟩ := bind_ok.1 h
  obtain ⟨rfl, -⟩ : _ ∧ Spec (fun _ => True) s {} s₁ _ := normalize_ok hnormalize
  -- the numbers and their sizes
  obtain ⟨hsize, hnumber⟩ := byteSize_eq hstride
  have helemId := typeId_number hnumber helem
  have huintId : (Declaration.scalar (.int 32)).id? s₇.interned = some uint :=
    typeId_number (t := .int 32) rfl huint
  rw [normalized_normalized] at hsize hnumber helemId
  -- what is asked for before the array
  have hrequired := (kernelRequirements_silent options.version (normalized element)).of_ok hrequire
  have hto₄ := ((normalize_steady element).reaches hnormalize).trans <|
    hrequired.2.2.trans <| ((byteSize_steady _).reaches hstride).trans <|
    (typeId_steady _).reaches helem
  have hto₇ := ((typeId_steady .void).reaches hvoid).trans <|
    ((typeId_steady .bool).reaches hbool).trans <| (typeId_steady (.int 32)).reaches huint
  have hto₉ := ((typeId_steady _).reaches helemPtr).trans ((constantId_steady _).reaches hzero)
  have hnone : s₉.interned.arrays = [] :=
    (arrays_eq_of_reaches (hto₄.trans (hto₇.trans hto₉))).trans harrays
  -- the globals, and the names that may follow
  obtain ⟨hlaid₁₀, harrayMem⟩ : s₉.Lays options.debug _ _ s₁₀ ∧ _ :=
    runtimeArrayId_lays hnone harray
  obtain ⟨dataPtr, hlaid₁₁, hdataMem, hdataPtr⟩ :
      ∃ pointer, s₁₀.Lays options.debug _ _ s₁₁ ∧ _ := blockVariable_lays (by decide) hdata
  obtain ⟨configPtr, hlaid₁₄, hconfigMem, hconfigPtr⟩ :
      ∃ pointer, s₁₃.Lays options.debug _ _ s₁₄ ∧ _ := blockVariable_lays (by decide) hconfig
  have hlaid₁₇ : s₁₄.Lays options.debug [] [] s₁₇ := .interns <|
    ((pointerId_steady _ _).reaches hcountPtr).trans <|
    ((vectorId_steady _ _).reaches hinvocation).trans <|
    (pointerId_steady _ _).reaches hinvocationPtr
  obtain ⟨hlaid₁₈, -⟩ : s₁₇.Lays options.debug [] _ s₁₈ ∧ _ :=
    declareOwn_lays hinvocationVar rfl (Or.inr rfl) rfl
  have hlaid₂₀ : s₁₉.Lays options.debug [] [] s₂₀ :=
    .interns ((functionTypeId_steady _ _).reaches hentryType)
  have hsilent := fun ids : KernelIds => Silent.ite (p := options.debug = true)
    (fun hdebug => kernelNames_silent hdebug dataBlock dataVar configBlock configVar
      invocationVar ids) fun _ => Silent.pure
  obtain ⟨rfl, hcode, hnamed⟩ := (hsilent _).of_ok h
  have hlast : s₂₀.Lays options.debug [] [] s' :=
    .writes hnamed (congrArg Interned.strides hcode.interned)
  have hfrom₁₄ := hlaid₁₇.trans <| hlaid₁₈.trans <|
    (decorate_lays hbuiltIn rfl).trans (hlaid₂₀.trans hlast)
  have hfrom₁₁ := (decorate_lays hset rfl).trans <| (decorate_lays hbinding rfl).trans <|
    hlaid₁₄.trans hfrom₁₄
  have hfrom₁₀ := hlaid₁₁.trans hfrom₁₁
  have hfrom₉ := hlaid₁₀.trans hfrom₁₀
  have hfrom₇ := (Generator.Lays.interns hto₉).trans hfrom₉
  have hfrom₄ := (Generator.Lays.interns hto₇).trans hfrom₇
  refine ⟨⟨elemId, array, dataBlock, dataPtr, configBlock, configPtr, invocationPtr⟩,
    (Generator.Lays.interns hto₄).trans hfrom₄, ?_⟩
  exact
    { number := ⟨hnumber, normalized_normalized element⟩
      stride := hsize
      elem := hfrom₄.recorded helemId
      uint := hfrom₇.recorded huintId
      dataPtr := hfrom₁₁.recorded hdataPtr
      configPtr := hfrom₁₄.recorded hconfigPtr
      array := fun hc => hfrom₁₀.declared hc harrayMem
      dataBlock := fun hc => hfrom₁₁.declared hc hdataMem
      configBlock := fun hc => hfrom₁₄.declared hc hconfigMem }

/-! ## The entry function -/

theorem emitEntryFunction_written {function entry : UInt32}
    (hcurrent : s.assembly.current = .functions)
    (h : build (emitEntryFunction k function) s = .ok entry s') (hc : s'.clean) :
    ∃ e : EntryIds, e.entry = entry ∧ s'.written = s.written ++ e.group k function := by
  rw [emitEntryFunction_eq, hcurrent] at h
  cases h
  rw [(Generator.putAll_clean hc).2]
  exact ⟨.after s.assembly.allocated, rfl, Array.toList_append⟩

/-! ## Whole runs -/

/-- The layout that the run of a kernel leaves. -/
structure Generator.LaidOut (s : Generator) (k : KernelIds) (b : BlockIds)
    (strided : List (UInt32 × Ty)) (entry : UInt32) : Prop where
  types : KernelTypes k b s
  decorations : s.part .decorations = k.decorations b ++ strideInstrs strided
  globals : s.globals = k.globals b
  strides : s.interned.strides = (strided.map Prod.fst).reverse
  nodup : (strided.map Prod.fst).Nodup
  typed : ∀ e ∈ strided, DeclaredNumber e.2 ∧ ∃ pointee storage,
    (Declaration.pointer pointee storage).id? s.interned = some e.1 ∧
    (Declaration.scalar e.2).id? s.interned = some pointee
  zero : (resultIds s.declared).Nodup → ∃ type, ⟨.constant, [type, k.zero, 0]⟩ ∈ s.declared
  entry : ∃ functions function, ∃ e : EntryIds, e.entry = entry ∧
    s.written = functions ++ e.group k function

theorem KernelTypes.mono {b : BlockIds} (h : KernelTypes k b s)
    (hreaches : ReflTransGen (Assembles debug) s s') : KernelTypes k b s' where
  number := h.number
  stride := h.stride
  elem := recorded_of_reaches hreaches h.elem
  uint := recorded_of_reaches hreaches h.uint
  dataPtr := recorded_of_reaches hreaches h.dataPtr
  configPtr := recorded_of_reaches hreaches h.configPtr
  array hc := declared_of_reaches hreaches hc h.array
  dataBlock hc := declared_of_reaches hreaches hc h.dataBlock
  configBlock hc := declared_of_reaches hreaches hc h.configBlock

theorem KernelRun.exists_laidOut {program : Program} {entry : UInt32}
    (h : KernelRun program options k entry (.start options.version) s') (hc : s'.clean) :
    ∃ b strided, s'.LaidOut k b strided entry := by
  obtain @⟨kernel, elem, s₁, s₂, s₃, s₄, _, -, -, hcapabilities, hdeclare, hids, hlower, hentry⟩ :=
    h
  have hcaps := Steady.reaches (addCapabilities_lockstep (w := false) nofun) hcapabilities
  obtain ⟨b, hlaid, htypes⟩ := declareKernel_lays (arrays_eq_of_reaches hcaps) hdeclare
  have hwrites := KernelRun.writes hids hlower hentry
  have hreaches := ReflTransGen.mono (fun _ _ => Assembles.writes) _ _ hwrites
  have hgrows := grows_of_reaches hreaches hc
  have hc₂ := hgrows.clean
  have hspec : Spec (fun _ => True) (.start options.version) {} s₂ _ :=
    (addCapabilities_spec hcapabilities).trans (declareKernel_spec (by simp) hdeclare)
  have hkernel : DeclaresKernel s'.declared elem k :=
    (hspec.fact hc₂ (coherent_start _) { s₂.view with declared := s'.declared }
      { View.le_refl s₂.view with declared := hgrows.subset .types }).2.1
  obtain ⟨strided, hstrided⟩ := exists_stridesTo hwrites hc
  have hbefore : (Generator.start options.version).Lays options.debug (k.decorations b)
      (k.globals b) s₂ := (Generator.Lays.interns hcaps).trans hlaid
  have hnone : s₂.interned.strides = [] := hbefore.strides
  have hstrides : s'.interned.strides = (strided.map Prod.fst).reverse := by
    rw [hstrided.strides, hnone, List.append_nil]
  obtain ⟨t, hbuild, rfl⟩ := inFunctions_ok.1 hentry
  obtain ⟨e, hentryId, hwritten⟩ := emitEntryFunction_written rfl hbuild hc
  exact ⟨b, strided,
    { types := htypes.mono hreaches
      decorations := by
        rw [hstrided.decorations, hbefore.decorations hc₂]
        rfl
      globals := by
        rw [hstrided.globals, hbefore.globals hc₂]
        rfl
      strides := hstrides
      nodup := by
        have hnodup := hstrided.nodup (hnone ▸ List.nodup_nil)
        rw [hstrides] at hnodup
        exact List.nodup_reverse.1 hnodup
      typed := hstrided.typed
      zero := fun hnodup => by
        obtain ⟨type, i, -, hi, hmem⟩ := hkernel.zero hnodup
        cases hi
        exact ⟨type, hmem⟩
      entry := ⟨_, _, e, hentryId, hwritten⟩ }⟩

end Elementwise.Spirv
