import Elementwise.Proofs.Scoping
import Elementwise.Proofs.Typing

/-!
# Compiled programs are well typed

The id of every value has the id of the value's declared type as its result type, and every
instruction of a function obeys the rule of its opcode. A value that stands for another has the
other's id, and with it a result type that is declared for both.
-/
namespace Elementwise.Spirv
open IR Gen

/-! ## Values -/

variable {debug : Bool} {f : Frame} {p : Place} {q : ParamId × Param}
  {group js locals : List Instruction} {params : List (ParamId × Param)}
  {groups : List (List Instruction)}

section Values

variable {all : List Instruction} {program : Program} {N : Naming} {func : Func}
variable {blocks : List (BlockId × Block)} {instrs : List (InstrId × Option Instr)}
variable {made : List UInt32} {out : List Instruction} {i : Instr} {v : Value} {t : Ty}
  {id : FuncId}

theorem instr?_of_mem {j : InstrId} (hfunc : program.func? id = some func)
    (hblocks : func.listed id = blocks.map some)
    (h : (j, some i) ∈ blocks.flatMap fun entry => entry.2.instrIds entry.1) :
    program.instr? j = some i := by
  have hentries : (j, some i) ∈ func.entries id := by
    rwa [Func.entries, Func.body, hblocks, reduceOption_map_some]
  exact Program.instr?_of_func? hfunc hentries

theorem param?_of_mem (hfunc : program.func? id = some func)
    (hparams : func.paramIds id = params.map some) (h : q ∈ params) :
    program.param? q.1 = some q.2 := by
  have hsignature : q ∈ func.signature id := by
    rwa [Func.signature, hparams, reduceOption_map_some]
  exact Program.param?_of_func? hfunc hsignature

theorem LowersAll.exists_of_mem (h : LowersAll N p instrs made out) {id : InstrId}
    (hmem : (id, some i) ∈ instrs) : ∃ made' out', Lowers N p id i made' out' ∧ out' ⊆ out := by
  induction h with
  | nil => cases hmem
  | cons head _ ih =>
    rcases List.mem_cons.1 hmem with heq | hmem
    · cases heq
      exact ⟨_, _, head, List.subset_append_left _ _⟩
    · obtain ⟨made', out', hlowers, hsub⟩ := ih hmem
      exact ⟨made', out', hlowers, List.Subset.trans hsub (List.subset_append_right _ _)⟩

theorem LowersBlocks.exists_of_mem {body : List Instruction}
    (h : LowersBlocks N f locals blocks made body) {id : InstrId}
    (hmem : (id, some i) ∈ blocks.flatMap fun entry => entry.2.instrIds entry.1) :
    ∃ p made' out, p.frame = f ∧ Lowers N p id i made' out ∧ out ⊆ body := by
  induction h with
  | nil => cases hmem
  | cons _ _ _ hbody _ ih =>
    rw [List.flatMap_cons, List.mem_append] at hmem
    rcases hmem with hmem | hmem
    · obtain ⟨made', out, hlowers, hsub⟩ := hbody.exists_of_mem hmem
      refine ⟨_, made', out, rfl, hlowers, List.Subset.trans hsub ?_⟩
      exact List.Subset.trans (List.subset_append_right _ _) (List.subset_append_left _ _)
    · obtain ⟨p, made', out, hp, hlowers, hsub⟩ := ih hmem
      exact ⟨p, made', out, hp, hlowers, List.Subset.trans hsub (List.subset_append_right _ _)⟩

theorem LowersBlocks.locals_subset {body : List Instruction}
    (h : LowersBlocks N f locals blocks made body) (hne : blocks ≠ []) : locals ⊆ body := by
  cases h with
  | nil => exact absurd rfl hne
  | cons =>
    intro i hi
    simp [hi]

theorem Hoists.exists_of_mem (h : Hoists N instrs locals) {id : InstrId} {name : Text} {elem : Ty}
    (hmem : (id, some (.localVar name elem)) ∈ instrs) :
    ∃ type word, N.type (.pointer elem .function) type ∧ (.result id, word) ∈ N.values ∧
      ⟨.variableOp, [type, word, StorageClass.function]⟩ ∈ locals := by
  induction h with
  | nil => cases hmem
  | localVar htype hword _ ih =>
    rcases List.mem_cons.1 hmem with heq | hmem
    · cases heq
      exact ⟨_, _, htype, hword, List.mem_cons_self⟩
    · obtain ⟨type, word, htype, hword, hlocal⟩ := ih hmem
      exact ⟨type, word, htype, hword, List.mem_cons_of_mem _ hlocal⟩
  | other hother _ ih =>
    rcases List.mem_cons.1 hmem with heq | hmem
    · cases heq
      exact absurd rfl (hother _ _)
    · exact ih hmem

/-- An instruction defines a value and gives it the id of a type. -/
def WritesValue (N : Naming) (out : List Instruction) (v : Value) (t : Ty) : Prop :=
  ∃ op shape type word ws, op.shape? = some shape ∧ shape.hasResultType = true ∧
    shape.hasResult = true ∧ N.type t type ∧ (v, word) ∈ N.values ∧ ⟨op, type :: word :: ws⟩ ∈ out

theorem writesValue_self {op : Opcode} {shape : Shape} {type word : UInt32} {ws : List UInt32}
    (hs : op.shape? = some shape) (ht : shape.hasResultType = true) (hr : shape.hasResult = true)
    (htype : N.type t type) (hword : (v, word) ∈ N.values) :
    WritesValue N [⟨op, type :: word :: ws⟩] v t :=
  ⟨op, shape, type, word, ws, hs, ht, hr, htype, hword, List.mem_singleton.2 rfl⟩

/-- A value has the id of another of the same declared type, which is a constant or got its id
earlier. -/
def StandsFor (N : Naming) (program : Program) (v : Value) (t : Ty) : Prop :=
  ∃ x s a earlier, program.typeOf x = .ok s ∧ normalized s = normalized t ∧ N.operand x a ∧
    (v, a) :: earlier <:+ N.values ∧ ((∃ c, x = .constant c) ∨ (x, a) ∈ earlier)

theorem Lowers.defines {id : InstrId} (hi : p.frame.program.instr? id = some i)
    (hkeys : loweredKeys id i = [.result id]) (h : Lowers N p id i made out) :
    ∃ t, p.frame.program.typeOf (.result id) = .ok t ∧
      (WritesValue N out (.result id) t ∨ StandsFor N p.frame.program (.result id) t) := by
  cases h with
  | binary _ _ _ hop htype _ _ hword =>
    obtain ⟨t, ht, htype⟩ := htype
    obtain ⟨name, hs⟩ := isBinary_of_arithmetic hop
    exact ⟨t, ht, Or.inl (writesValue_self hs rfl rfl htype hword)⟩
  | compare _ _ _ hop htype _ _ hword =>
    obtain ⟨t, ht, htype⟩ := htype
    obtain ⟨name, hs⟩ := isBinary_of_comparison hop
    exact ⟨t, ht, Or.inl (writesValue_self hs rfl rfl htype hword)⟩
  | @negate domain _ _ _ _ _ _ _ htype _ hword =>
    obtain ⟨t, ht, htype⟩ := htype
    obtain ⟨name, hs⟩ := isUnary_negate domain
    exact ⟨t, ht, Or.inl (writesValue_self hs rfl rfl htype hword)⟩
  | convert _ hop _ htype _ hword =>
    obtain ⟨t, ht, htype⟩ := htype
    obtain ⟨name, hs⟩ := isUnary_of_conversion hop
    exact ⟨t, ht, Or.inl (writesValue_self hs rfl rfl htype hword)⟩
  | @standsFor x _ _ s t _ a hx _ heq ha hword =>
    obtain ⟨earlier, hsuffix, hearlier⟩ := hword
    exact ⟨t, Program.typeOf_convert hi, Or.inr ⟨x, s, a, earlier, hx, heq, ha, hsuffix, hearlier⟩⟩
  | load hpointer htype _ hword =>
    exact ⟨_, Program.typeOf_load hi hpointer, Or.inl (writesValue_self rfl rfl rfl htype hword)⟩
  | elementPtr hbase _ _ htype _ _ hword =>
    exact ⟨_, Program.typeOf_elementPtr hi hbase,
      Or.inl (writesValue_self rfl rfl rfl htype hword)⟩
  | call hcallee _ _ _ _ htype hword =>
    exact ⟨_, Program.typeOf_call hi hcallee, Or.inl (writesValue_self rfl rfl rfl htype hword)⟩
  | _ => cases hkeys

theorem WritesValue.hasType {a : UInt32} (h : WritesValue N out v t) (hsub : out ⊆ all)
    (hshaped : ∀ i ∈ all, i.shaped) (hkeys : (N.values.map Prod.fst).Nodup)
    (ha : (v, a) ∈ N.values) :
    ∃ type, N.type t type ∧ HasType all a type := by
  obtain ⟨op, shape, type, word, ws, hs, ht, hr, htype, hword, hmem⟩ := h
  obtain rfl := eq_of_mem_nodup_keys hkeys hword ha
  exact ⟨type, htype, hasType_of_mem hshaped hs ht hr (hsub hmem)⟩

/-- In a list without repeated keys, what follows an entry is determined by its key. -/
theorem suffix_unique {entries es es' : List (Value × UInt32)} {a b : UInt32}
    (hkeys : (entries.map Prod.fst).Nodup) (h : (v, a) :: es <:+ entries)
    (h' : (v, b) :: es' <:+ entries) : es = es' := by
  induction entries with
  | nil => cases List.suffix_nil.1 h
  | cons entry rest ih =>
    rw [List.map_cons, List.nodup_cons] at hkeys
    have hnot : ∀ {c : UInt32} {cs : List (Value × UInt32)}, (v, c) :: cs <:+ rest →
        entry.1 ≠ v := by
      intro c cs hsuffix heq
      exact hkeys.1 (heq ▸ List.mem_map_of_mem (hsuffix.subset List.mem_cons_self))
    rcases List.suffix_cons_iff.1 h with heq | h
    · rcases List.suffix_cons_iff.1 h' with heq' | h'
      · exact (List.cons.inj (heq.trans heq'.symm)).2
      · exact absurd (congrArg Prod.fst (List.cons.inj heq).1).symm (hnot h')
    · rcases List.suffix_cons_iff.1 h' with heq' | h'
      · exact absurd (congrArg Prod.fst (List.cons.inj heq').1).symm (hnot h)
      · exact ih hkeys.2 h h'

theorem exists_functionParameter {types words : List UInt32}
    (htypes : List.Forall₂ (fun (q : ParamId × Param) t => N.type q.2.type t) params types)
    (hwords : List.Forall₂ (fun (q : ParamId × Param) w => (.param q.1, w) ∈ N.values) params words)
    (hq : q ∈ params) :
    WritesValue N (List.zipWith (fun t w => ⟨.functionParameter, [t, w]⟩) types words)
      (.param q.1) q.2.type := by
  induction htypes generalizing words with
  | nil => cases hq
  | cons htype _ ih =>
    cases hwords with
    | cons hword hwords =>
      rcases List.mem_cons.1 hq with rfl | hq
      · exact ⟨_, _, _, _, [], rfl, rfl, rfl, htype, hword, List.mem_cons_self⟩
      · obtain ⟨op, shape, type, word, ws, hs, ht, hr, htype, hword, hmem⟩ := ih hwords hq
        exact ⟨op, shape, type, word, ws, hs, ht, hr, htype, hword, List.mem_cons_of_mem _ hmem⟩

theorem WritesValue.mono {more : List Instruction} (h : WritesValue N out v t) (hsub : out ⊆ more) :
    WritesValue N more v t := by
  obtain ⟨op, shape, type, word, ws, hs, ht, hr, htype, hword, hmem⟩ := h
  exact ⟨op, shape, type, word, ws, hs, ht, hr, htype, hword, hsub hmem⟩

/-- Every value of a function is written, or stands for another. -/
theorem LowersFunction.defines (h : LowersFunction N program debug id func group)
    (hfunc : program.func? id = some func) (hv : v ∈ N.values.map Prod.fst) :
    ∃ t, program.typeOf v = .ok t ∧ (WritesValue N group v t ∨ StandsFor N program v t) := by
  obtain @⟨params, blocks, word, result, type, types, words, made, locals, body, hparams, hblocks,
    hnonempty, hvalues, -, -, hsignature, hwords, hlocals, hbody⟩ := h
  rw [hvalues, List.mem_reverse, definedValues, List.mem_append, List.mem_append] at hv
  rcases hv with hv | hv | hv
  · obtain ⟨q, hq, rfl⟩ := List.mem_map.1 hv
    refine ⟨_, Program.typeOf_param (param?_of_mem hfunc hparams hq), Or.inl ?_⟩
    refine (exists_functionParameter hsignature.paramTypes hwords hq).mono fun i hi => ?_
    simp [hi]
  · obtain ⟨j, name, elem, rfl, hmem⟩ := mem_hoistedValues.1 hv
    refine ⟨_, Program.typeOf_localVar (instr?_of_mem hfunc hblocks hmem), Or.inl ?_⟩
    obtain ⟨type, word, htype, hword, hlocal⟩ := hlocals.exists_of_mem hmem
    refine ⟨.variableOp, _, type, word, [StorageClass.function], rfl, rfl, rfl, htype, hword, ?_⟩
    simp [hbody.locals_subset hnonempty hlocal]
  · obtain ⟨j, i, rfl, hmem, hkeys⟩ := mem_loweredValues.1 hv
    have hi := instr?_of_mem hfunc hblocks hmem
    obtain ⟨p, made', out, hp, hlowers, hsub⟩ := hbody.exists_of_mem hmem
    have hprogram : p.frame.program = program := by rw [hp]
    subst hprogram
    obtain ⟨t, ht, hdefines⟩ := hlowers.defines hi hkeys
    refine ⟨t, ht, hdefines.imp_left fun hwrites => hwrites.mono fun i hi => ?_⟩
    simp [hsub hi]

/-- The ids of values have the declared types of the values. An id that stands for another value
has its type from there, so this goes from the values that got their ids first to the last. -/
theorem LowersFunction.values_hasType (h : LowersFunction N program debug id func group)
    (hfunc : program.func? id = some func) (honce : BlocksOnce func) (hsub : N.declared ⊆ all)
    (hgroup : group ⊆ all) (hshaped : ∀ i ∈ all, i.shaped) (v : Value) (a : UInt32)
    (hv : N.operand v a) :
    ∃ t type, program.typeOf v = .ok t ∧ N.type t type ∧ HasType all a type := by
  have hkeys := (h.nodup_keys honce).1
  have hconstant : ∀ c b, N.operand (.constant c) b →
      ∃ type, N.type c.type type ∧ HasType all b type := fun c b hc =>
    DeclaresConstant.hasType hc hsub hshaped
  have hall : ∀ vs, vs <:+ N.values → ∀ v a, (v, a) ∈ vs →
      ∃ t type, program.typeOf v = .ok t ∧ N.type t type ∧ HasType all a type := by
    intro vs
    induction vs with
    | nil => simp
    | cons entry rest ih =>
      intro hsuffix v a hmem
      rcases List.mem_cons.1 hmem with rfl | hrest
      · have ha : (v, a) ∈ N.values := hsuffix.subset List.mem_cons_self
        obtain ⟨t, ht, hwrites | ⟨x, s, b, earlier, hx, heq, hb, hearly, hfrom⟩⟩ :=
          h.defines hfunc (List.mem_map_of_mem ha)
        · obtain ⟨type, htype, hid⟩ := hwrites.hasType hgroup hshaped hkeys ha
          exact ⟨t, type, ht, htype, hid⟩
        · obtain rfl := suffix_unique hkeys hearly hsuffix
          obtain rfl := eq_of_mem_nodup_keys hkeys (hearly.subset List.mem_cons_self) ha
          have hsame : ∃ type, N.type s type ∧ HasType all b type := by
            rcases hfrom with ⟨c, rfl⟩ | hfrom
            · cases hx
              exact hconstant c b hb
            · obtain ⟨u, type, hu, htype, hid⟩ :=
                ih ((List.suffix_cons _ _).trans hsuffix) x b hfrom
              cases hx.symm.trans hu
              exact ⟨type, htype, hid⟩
          obtain ⟨type, htype, hid⟩ := hsame
          refine ⟨t, type, ht, ?_, hid⟩
          rwa [Naming.type, ← heq]
      · exact ih ((List.suffix_cons _ _).trans hsuffix) v a hrest
  cases v with
  | missing => cases hv
  | constant c =>
    obtain ⟨type, htype, hid⟩ := hconstant c a hv
    exact ⟨c.type, type, rfl, htype, hid⟩
  | param q => exact hall _ (List.suffix_refl _) _ a hv
  | result j => exact hall _ (List.suffix_refl _) _ a hv

end Values

/-! ## Functions -/

section Functions

variable {all : List Instruction} {program : Program} {N : Naming} {result : UInt32} {func : Func}
variable {id : FuncId} {made : List UInt32} {instrs : List (InstrId × Option Instr)}

theorem wellTyped_of_inner (h : ∀ j ∈ js, j.Inner all result) : WellTyped all result js := by
  induction js with
  | nil => trivial
  | cons j rest ih =>
    obtain ⟨hj, hrest⟩ := List.forall_mem_cons.1 h
    rw [WellTyped, if_neg hj.1]
    exact ⟨hj.2, ih hrest⟩

theorem wellTyped_group {id control type : UInt32} (h : ∀ j ∈ js, j.Inner all result) (r : UInt32) :
    WellTyped all r (⟨.func, [result, id, control, type]⟩ :: js) :=
  ⟨trivial, wellTyped_of_inner h⟩

theorem wellTyped_append {is : List Instruction} (h : ∀ r, WellTyped all r is)
    (h' : ∀ r, WellTyped all r js) (r : UInt32) : WellTyped all r (is ++ js) := by
  have hall : ∀ r, WellTyped all r is → WellTyped all r (is ++ js) := by
    clear h
    induction is with
    | nil => exact fun r _ => h' r
    | cons i rest ih => exact fun r hi => ⟨hi.1, ih _ hi.2⟩
  exact hall r (h r)

theorem wellTyped_flatten (h : ∀ group ∈ groups, ∀ r, WellTyped all r group) (r : UInt32) :
    WellTyped all r groups.flatten := by
  induction groups generalizing r with
  | nil => trivial
  | cons group rest ih =>
    obtain ⟨hgroup, hrest⟩ := List.forall_mem_cons.1 h
    exact wellTyped_append hgroup (ih hrest) r

theorem LowersAll.inner {out : List Instruction} (h : Typed all p.frame.program N)
    (hinstrs : ∀ id i, (id, some i) ∈ instrs → p.frame.program.instr? id = some i)
    (hresult : N.type p.frame.func.resultType result) (hlowers : LowersAll N p instrs made out) :
    ∀ j ∈ out, j.Inner all result := by
  induction hlowers with
  | nil => simp
  | @cons id i _ _ _ _ _ head _ ih =>
    refine List.forall_mem_append.2 ⟨?_, ih fun id i hmem => ?_⟩
    · exact head.inner h (hinstrs id i List.mem_cons_self) hresult
    · exact hinstrs id i (List.mem_cons_of_mem _ hmem)

theorem Hoists.inner (h : Hoists N instrs locals) : ∀ j ∈ locals, j.Inner all result := by
  induction h with
  | nil => simp
  | localVar _ _ _ ih => exact List.forall_mem_cons.2 ⟨inner_free rfl (by decide), ih⟩
  | other _ _ ih => exact ih

theorem LowersBlocks.inner {blocks : List (BlockId × Block)}
    {body : List Instruction} (h : Typed all f.program N)
    (hinstrs : ∀ id i, (id, some i) ∈ blocks.flatMap (fun entry => entry.2.instrIds entry.1) →
      f.program.instr? id = some i)
    (hresult : N.type f.func.resultType result) (hlocals : ∀ j ∈ locals, j.Inner all result)
    (hlowers : LowersBlocks N f locals blocks made body) : ∀ j ∈ body, j.Inner all result := by
  induction hlowers with
  | nil => simp
  | cons _ _ _ hbody _ ih =>
    simp only [List.flatMap_cons, List.mem_append] at hinstrs
    refine List.forall_mem_append.2 ⟨List.forall_mem_append.2 ⟨List.forall_mem_cons.2
      ⟨inner_free rfl (by decide), hlocals⟩, ?_⟩, ?_⟩
    · exact hbody.inner h (fun id i hmem => hinstrs id i (Or.inl hmem)) hresult
    · exact ih (fun id i hmem => hinstrs id i (Or.inr hmem)) (by simp)

theorem inner_params (types words : List UInt32) :
    ∀ j ∈ List.zipWith (fun t w => (⟨.functionParameter, [t, w]⟩ : Instruction)) types words,
      j.Inner all result := by
  induction types generalizing words with
  | nil => simp
  | cons t types ih =>
    cases words with
    | nil => simp
    | cons w words => exact List.forall_mem_cons.2 ⟨inner_free rfl (by decide), ih words⟩

theorem inner_unreachable (made : List UInt32) :
    ∀ j ∈ made.flatMap unreachableBlock, j.Inner all result := by
  intro j hj
  obtain ⟨label, -, hj⟩ := List.mem_flatMap.1 hj
  simp only [unreachableBlock, List.mem_cons, List.not_mem_nil, or_false] at hj
  rcases hj with rfl | rfl <;> exact inner_free rfl (by decide)

/-- A translated function obeys the rules. -/
theorem LowersFunction.wellTyped (h : Typed all program N) (hfunc : program.func? id = some func)
    (hlowers : LowersFunction N program debug id func group) (r : UInt32) :
    WellTyped all r group := by
  obtain @⟨params, blocks, word, result, type, types, words, made, locals, body, -, hblocks, -, -,
    -, -, hsignature, -, hlocals, hbody⟩ := hlowers
  have hinner := hbody.inner h (fun id i hmem => instr?_of_mem hfunc hblocks hmem)
    hsignature.resultType hlocals.inner
  have hend : ∀ j ∈ [(⟨.functionEnd, []⟩ : Instruction)], j.Inner all result :=
    List.forall_mem_singleton.2 (inner_free rfl (by decide))
  exact wellTyped_group (List.forall_mem_append.2 ⟨List.forall_mem_append.2
    ⟨List.forall_mem_append.2 ⟨inner_params types words, hinner⟩, inner_unreachable made⟩, hend⟩) r

theorem params_eq_map_snd (h : func.paramIds id = params.map some) :
    func.params = (params.map Prod.snd).map some := by
  have hsnd := congrArg (List.map (Option.map Prod.snd)) h
  have hleft : (func.paramIds id).map (Option.map Prod.snd) = func.params := by
    apply List.ext_getElem
    · simp [Func.paramIds]
    · intro j hj hj'
      simp [Func.paramIds, Function.comp_def]
  rw [hleft, List.map_map] at hsnd
  rw [hsnd, List.map_map]
  rfl

/-- A translated function is declared with its signature. -/
theorem LowersFunction.declares (h : LowersFunction N program debug id func group)
    (hsub : N.declared ⊆ all) (hgroup : group ⊆ all) :
    ∃ word, (some id, word) ∈ N.functions ∧ DeclaresFunction all N func word := by
  obtain @⟨params, blocks, word, result, type, types, words, made, locals, body, hparams, -, -, -,
    -, hword, hsignature, -, -, -⟩ := h
  refine ⟨word, hword, result, type, types, params.map Prod.snd, hgroup List.mem_cons_self,
    hsub hsignature.declared, hsignature.resultType, params_eq_map_snd hparams, ?_⟩
  exact List.forall₂_map_left_iff.2 hsignature.paramTypes

end Functions

/-! ## The entry function -/

theorem elementType_ok {f : Func} {elem : Ty} (h : elementType f = .ok elem) :
    ∃ q, f.params = [some q] ∧ q.type = .pointer elem .buffer ∧ f.resultType = .void := by
  unfold elementType at h
  dsimp only at h
  split at h
  · cases h
  next q hq =>
    split at h
    next e space htype =>
      split_ifs at h with hspace hvoid helem
      cases h
      exact ⟨q, hq, by rw [htype, not_not.1 hspace], not_not.1 hvoid⟩
    · cases h
  · cases h

section Entry

variable {all : List Instruction} {N : Naming} {elem : Ty} {k : KernelIds} {e : EntryIds}
  {kernel : Func} {function : UInt32}

/-- The entry function obeys the rules. -/
theorem DeclaresKernel.wellTyped (h : DeclaresKernel N.declared elem k)
    (helem : elementType kernel = .ok elem) (hfunction : DeclaresFunction all N kernel function)
    (hsub : N.declared ⊆ all) (hshaped : ∀ i ∈ all, i.shaped)
    (hunique : ∀ {t : Ty} {a b : UInt32}, N.type t a → N.type t b → a = b)
    (hgroup : e.group k function ⊆ all) (r : UInt32) : WellTyped all r (e.group k function) := by
  have hmem : ∀ i ∈ e.group k function, i ∈ all := fun _ hi => hgroup hi
  simp only [EntryIds.group, EntryIds.guard, EntryIds.dispatch, List.cons_append, List.nil_append,
    List.forall_mem_cons] at hmem
  obtain ⟨-, -, -, hthread, hcountPtr, hcount, hinRange, -, -, -, helement, -⟩ := hmem
  have hload := hasType_of_mem hshaped rfl rfl rfl hcount
  have hbool : ⟨.typeBool, [k.bool]⟩ ∈ all := hsub (mem_of_declares_scalar rfl h.bool)
  obtain ⟨pointer, hpointer, hvar⟩ := h.invocationVar
  -- the kernel takes a pointer to an element and returns nothing
  obtain ⟨q, hparams, hq, hvoid⟩ := elementType_ok helem
  obtain ⟨result, type, types, params, hfunc, hsignature, hresult, hparams', htypes⟩ := hfunction
  rw [hvoid] at hresult
  obtain rfl := hunique hresult h.void
  have hone : params = [q] := by
    have hlist := hparams'.symm.trans hparams
    cases params with
    | nil => cases hlist
    | cons q' rest => simpa using hlist
  subst hone
  cases htypes with
  | @cons _ t _ _ ht hrest =>
    cases hrest
    rw [hq] at ht
    obtain rfl := hunique ht h.elemPtr
    have hguard : ∀ j ∈ (e.guard k).tail, j.Inner all k.void := by
      simp only [EntryIds.guard, List.tail_cons, List.forall_mem_cons]
      refine ⟨inner_free rfl (by decide), inner_of_rule .load rfl (by decide) ?_,
        inner_free rfl (by decide), inner_free rfl (by decide),
        inner_of_rule .load rfl (by decide) ?_, inner_of_rule .comparison rfl (by decide) ?_,
        List.forall_mem_nil _⟩
      · exact ⟨pointer, _, hasType_of_mem hshaped rfl rfl rfl (hsub hvar), hsub hpointer⟩
      · exact ⟨k.countPtr, _, hasType_of_mem hshaped rfl rfl rfl hcountPtr, hsub h.countPtr⟩
      · exact ⟨hbool, k.uint, hasType_of_mem hshaped rfl rfl rfl hthread, hload⟩
    have hdispatch : ∀ j ∈ e.dispatch k function, j.Inner all k.void := by
      simp only [EntryIds.dispatch, List.forall_mem_cons]
      refine ⟨inner_free rfl (by decide), inner_of_rule .condition rfl (by decide) ?_,
        inner_free rfl (by decide), inner_free rfl (by decide),
        inner_of_rule .call rfl (by decide) ?_, inner_free rfl (by decide),
        inner_free rfl (by decide), inner_of_rule .ret rfl (by decide) ?_,
        inner_free rfl (by decide), List.forall_mem_nil _⟩
      · exact ⟨k.bool, hasType_of_mem hshaped rfl rfl rfl hinRange, hbool⟩
      · exact ⟨type, [k.elemPtr], hfunc, hsignature,
          .cons (hasType_of_mem hshaped rfl rfl rfl helement) .nil⟩
      · exact hsub (mem_of_declares_scalar rfl h.void)
    exact wellTyped_group (List.forall_mem_append.2 ⟨hguard, hdispatch⟩) r

end Entry

/-! ## Programs -/

section Compiled

variable {program : Program} {options : Options}

/-- In an assembled program the ids of a function's values have the types of the values, and the
ids of functions are declared with their signatures. -/
theorem Assembled.typed {T : Text → Prop} {entries : List (FuncId × Func)}
    {kernel : FuncId × Func} {elem : Ty} {k : KernelIds} {e : EntryIds} {function : UInt32}
    {s : Generator}
    (h : Assembled T program options entries kernel elem k e function groups s)
    (honce : ListsBlocksOnce program) (hshaped : ∀ i ∈ s.contents, i.shaped)
    (hnodup : (resultIds s.declared).Nodup) :
    (∀ f g word, (some f, word) ∈ s.functions → program.func? f = some g →
      DeclaresFunction s.contents ⟨s.declared, s.functions, [], []⟩ g word) ∧
    List.Forall₂ (fun (entry : FuncId × Func) group => ∃ values labels,
      LowersFunction ⟨s.declared, s.functions, values, labels⟩ program options.debug entry.1
        entry.2 group ∧
      Typed s.contents program ⟨s.declared, s.functions, values, labels⟩) entries groups := by
  have hdeclared : s.declared ⊆ s.contents := by
    rw [s.contents_eq]
    exact fun i hi => by simp [hi]
  have hwritten : ∀ group ∈ groups, group ⊆ s.contents := by
    intro group hgroup i hi
    have hmem : i ∈ s.written := by
      rw [h.written]
      exact List.mem_append_left _ (List.mem_flatten_of_mem hgroup hi)
    rw [s.contents_eq]
    simp [hmem]
  have hfuncs : ∀ entry ∈ entries, program.func? entry.1 = some entry.2 ∧ BlocksOnce entry.2 := by
    intro entry hentry
    have hmem : some entry ∈ program.listed := h.listed ▸ List.mem_map_of_mem hentry
    exact ⟨func?_of_listed hmem, honce _ hmem entry rfl⟩
  have hgroups := h.lowers hnodup
  have hkeys : (s.functions.map Prod.fst).Nodup := by
    rw [h.functionKeys, List.nodup_reverse]
    have hmap := h.once.map fun _ _ heq => Option.some.inj heq
    rwa [List.map_map] at hmap
  have hfunctions : ∀ f g word, (some f, word) ∈ s.functions → program.func? f = some g →
      DeclaresFunction s.contents ⟨s.declared, s.functions, [], []⟩ g word := by
    intro f g word hword hg
    have hkey : some f ∈ s.functions.map Prod.fst := List.mem_map_of_mem hword
    rw [h.functionKeys, List.mem_reverse] at hkey
    obtain ⟨entry, hentry, hf⟩ := List.mem_map.1 hkey
    cases hf
    cases hg.symm.trans (hfuncs entry hentry).1
    obtain ⟨group, hgroup, values, labels, hlowers⟩ := exists_right_of_mem hgroups hentry
    obtain ⟨found, hfound, hdeclares⟩ := hlowers.declares hdeclared (hwritten group hgroup)
    cases eq_of_mem_nodup_keys hkeys hword hfound
    exact hdeclares
  refine ⟨hfunctions, ?_⟩
  obtain ⟨hlength, hlowered⟩ := List.forall₂_iff_zip.1 hgroups
  refine List.forall₂_iff_zip.2 ⟨hlength, fun {entry group} hmem => ?_⟩
  obtain ⟨hentry, hgroup⟩ := List.of_mem_zip hmem
  obtain ⟨values, labels, hlowers⟩ := hlowered hmem
  obtain ⟨hfunc, hblocks⟩ := hfuncs entry hentry
  refine ⟨values, labels, hlowers, hdeclared, Declares.unique h.coherent.backed, ?_, hfunctions⟩
  exact hlowers.values_hasType hfunc hblocks hdeclared (hwritten group hgroup) hshaped

/-- A binary that was verified is well typed: the ids of values have the ids of their types, and
the instructions of its functions, the entry function included, obey the rules of their opcodes. -/
theorem wellTyped_compiled {c : Compiled} (honce : ListsBlocksOnce program)
    (hvalidation : options.validation = true) (h : compile program options = .ok c) :
    ∃ contents entries functions groups entryGroup,
      readModule c.words = .ok contents ∧ contents.failure = none ∧
      (definedIds c.words).Nodup ∧ WellTyped contents.instructions 0 (contents.part .functions) ∧
      program.listed = entries.map some ∧
      contents.part .functions = groups.flatten ++ entryGroup ∧
      List.Forall₂ (fun (entry : FuncId × Func) group => ∃ values labels,
        LowersFunction ⟨contents.part .types, functions, values, labels⟩ program options.debug
          entry.1 entry.2 group ∧
        Typed contents.instructions program ⟨contents.part .types, functions, values, labels⟩)
        entries groups := by
  obtain ⟨contents, s, entries, kernel, elem, k, e, function, groups, hmodule, hend, hread, hnodup,
    hsorted, hassembled⟩ := exists_assembled_of_compile honce hvalidation h
  have hdefined : definedIds c.words = resultIds s.contents := by
    rw [definedIds, hmodule, ← hread.filterMap_result]
  have hdeclared : s.declared ⊆ s.contents := by
    rw [s.contents_eq]
    exact fun i hi => by simp [hi]
  obtain ⟨hfunctions, hgroups⟩ :=
    hassembled.typed honce hread.shaped (hsorted.nodup_declared hnodup)
  have hkernel : program.func? kernel.1 = some kernel.2 :=
    func?_of_listed (hassembled.listed ▸ List.mem_map_of_mem (List.mem_of_head? hassembled.head))
  have hentry : e.group k function ⊆ s.contents := by
    rw [s.contents_eq, hassembled.written]
    exact fun i hi => by simp [hi]
  refine ⟨contents, entries, s.functions, groups, e.group k function, hmodule, hend,
    hdefined ▸ hnodup, ?_, hassembled.listed, ?_, ?_⟩
  · rw [hread.part_functions hsorted, hread.instructions_eq, hassembled.written]
    refine wellTyped_append (wellTyped_flatten ?_) (hassembled.declares.wellTyped
      hassembled.elementType (hfunctions _ _ _ hassembled.function hkernel) hdeclared hread.shaped
      (Declares.unique hassembled.coherent.backed) hentry) 0
    intro group hgroup
    obtain ⟨entry, hmem, values, labels, hlowers, htyped⟩ :=
      exists_right_of_mem hgroups.flip hgroup
    have hlisted : some entry ∈ program.listed := hassembled.listed ▸ List.mem_map_of_mem hmem
    exact hlowers.wellTyped htyped (func?_of_listed hlisted)
  · rw [hread.part_functions hsorted, hassembled.written]
  · rwa [hread.part_types hsorted, hread.instructions_eq]

end Compiled

theorem wellTyped_compiled_doubling : ∃ c contents entries functions groups entryGroup,
    compile doubling { debug := true } = .ok c ∧ readModule c.words = .ok contents ∧
      contents.failure = none ∧ (definedIds c.words).Nodup ∧
      WellTyped contents.instructions 0 (contents.part .functions) ∧
      doubling.listed = entries.map some ∧
      contents.part .functions = groups.flatten ++ entryGroup ∧
      List.Forall₂ (fun (entry : FuncId × Func) group => ∃ values labels,
        LowersFunction ⟨contents.part .types, functions, values, labels⟩ doubling true
          entry.1 entry.2 group ∧
        Typed contents.instructions doubling ⟨contents.part .types, functions, values, labels⟩)
        entries groups := by
  obtain ⟨c, hc⟩ := exists_verified_doubling
  obtain ⟨contents, entries, functions, groups, entryGroup, h⟩ :=
    wellTyped_compiled listsBlocksOnce_doubling rfl hc
  exact ⟨c, contents, entries, functions, groups, entryGroup, hc, h⟩

end Elementwise.Spirv
