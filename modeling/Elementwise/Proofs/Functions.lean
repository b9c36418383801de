import Elementwise.Proofs.SteadyRuns

/-!
# What the generator writes for a function

The labels of all blocks are pending when the first block is begun, and each block defines its
own. After the last one, the labels that were made on the way are defined as well, so that a
function leaves no id pending. This needs that no block is listed twice.
-/
namespace Elementwise.Spirv
open IR Gen

variable {T : Text → Prop} {s s' t : Generator} {e : Effect} {F : View → Prop} {u : Unit}
variable {program : Program} {debug : Bool} {func : Func} {params : List (ParamId × Param)}
variable {blocks : List (BlockId × Block)} {labels types : List UInt32} {seen : List FuncId}
  {P : Generator → Prop} {entries : List (FuncId × Func)} {ids : List (Option FuncId)}

namespace Frame

variable {f : Frame}

/-! ## Blocks -/

/-- The values that get ids in blocks, apart from local variables. -/
def blockValues (blocks : List (BlockId × Block)) : List Value :=
  blocks.flatMap fun entry => loweredValues (entry.2.instrIds entry.1)

/-- The beginning of a block. -/
theorem label_spec {p : Place} {id : BlockId} {label : UInt32} {s₁ : Generator}
    (h : p.label (some id) s = .ok label s₁) :
    Spec T s { takes := [label], out := [⟨.label, [label]⟩] }
      (s₁.put s₁.assembly.current ⟨.label, [label]⟩) fun N => (id, label) ∈ N.labels := by
  refine Spec.imp ((Place.label_spec h).andThen Generator.clean_of_put fun _ _ =>
    Spec.take Profile.label (Or.inl rfl) (by simp)) ?_
  rintro N ⟨⟨b, hb, hN⟩, -⟩
  cases hb
  exact hN

theorem emitBlocks_spec (T : Text → Prop) (h : f.emitBlocks false blocks s = .ok u s') :
    ∃ takes made out, Spec T s
      { takes, keys := blockValues blocks, made, out } s' fun N =>
        List.Forall₂ (fun entry label => (entry.1, label) ∈ N.labels) blocks takes ∧
          ((resultIds N.declared).Nodup → LowersBlocks N.toNaming f [] blocks made out) := by
  induction blocks generalizing s with
  | nil =>
    obtain ⟨-, rfl⟩ := pure_ok.1 h
    exact ⟨[], [], [], Spec.same fun _ _ _ => ⟨.nil, fun _ => .nil⟩⟩
  | cons entry rest ih =>
    obtain ⟨id, b⟩ := entry
    simp only [emitBlocks, bind_ok, Build.labelWithId, emit_ok, Bool.false_eq_true,
      if_false] at h
    obtain ⟨label, s₁, hlabel, _, _, rfl, _, s₃, hblock, hrest⟩ := h
    obtain ⟨hterminator, hinner, made, out, hspec⟩ := Place.emitBlock_spec T hblock
    obtain ⟨takes, more, tail, htail⟩ := ih hrest
    refine ⟨label :: takes, made ++ more, ⟨.label, [label]⟩ :: out ++ tail,
      Spec.effect (Spec.imp (((label_spec hlabel).trans hspec).trans htail) ?_) ?_⟩
    · rintro N ⟨⟨hN, hbody⟩, hlabels, hblocks⟩
      refine ⟨.cons hN hlabels, fun hnodup => ?_⟩
      exact .cons hN hterminator hinner (hbody hnodup) (hblocks hnodup)
    · ext1 <;> simp [blockValues]

/-- The blocks of a function. The first one begins with the local variables. -/
theorem emitBlocks_first_spec (T : Text → Prop) {id : BlockId} {b : Block}
    {rest : List (BlockId × Block)}
    (hnames : f.debug → ∀ id name elem, (id, some (.localVar name elem)) ∈ f.instrs →
      T name)
    (h : f.emitBlocks true ((id, b) :: rest) s = .ok u s') :
    ∃ takes made locals out, Spec T s
      { takes, keys := hoistedValues f.instrs ++ blockValues ((id, b) :: rest), made, out }
      s' fun N =>
        List.Forall₂ (fun entry label => (entry.1, label) ∈ N.labels) ((id, b) :: rest) takes ∧
          Hoists N.toNaming f.instrs locals ∧
          ((resultIds N.declared).Nodup →
            LowersBlocks N.toNaming f locals ((id, b) :: rest) made out) := by
  simp only [emitBlocks, bind_ok, Build.labelWithId, emit_ok, if_true] at h
  obtain ⟨label, s₁, hlabel, _, _, rfl, _, s₂, hhoist, _, s₃, hblock, hrest⟩ := h
  obtain ⟨locals, hlocals⟩ := Place.hoistAll_spec hnames hhoist
  obtain ⟨hterminator, hinner, made, out, hspec⟩ := Place.emitBlock_spec T hblock
  obtain ⟨takes, more, tail, htail⟩ := emitBlocks_spec T hrest
  refine ⟨label :: takes, made ++ more, locals, ⟨.label, [label]⟩ :: locals ++ out ++ tail,
    Spec.effect (Spec.imp ((((label_spec hlabel).trans hlocals).trans hspec).trans htail) ?_) ?_⟩
  · rintro N ⟨⟨⟨hN, hhoists⟩, hbody⟩, hlabels, hblocks⟩
    refine ⟨.cons hN hlabels, hhoists, fun hnodup => ?_⟩
    exact .cons hN hterminator hinner (hbody hnodup) (hblocks hnodup)
  · ext1 <;> simp [blockValues]

theorem emitUnreachable_spec (T : Text → Prop) (h : emitUnreachable labels s = .ok u s') :
    Spec T s { takes := labels, out := labels.flatMap unreachableBlock } s'
      fun _ => True := by
  induction labels generalizing s with
  | nil =>
    obtain ⟨-, rfl⟩ := pure_ok.1 h
    exact Spec.same fun _ _ _ => trivial
  | cons label rest ih =>
    simp only [emitUnreachable, bind_ok, Build.labelWithId, Build.unreachable, emit_ok] at h
    obtain ⟨_, _, rfl, _, _, rfl, hrest⟩ := h
    have hlabel : Spec T s { takes := [label], out := [⟨.label, [label]⟩] } _ _ :=
      Spec.take Profile.label (Or.inl rfl) (by simp)
    have hblock : Spec T s _ _ _ := hlabel.andEmit Profile.unreachable rfl (by simp)
    exact Spec.effect (Spec.imp (hblock.trans (ih hrest)) fun _ _ => trivial) rfl

/-! ## Parameters and names -/

theorem emitParams_spec {params : List (ParamId × UInt32)} (hbefore : Spec T s e t F)
    (hF : ∀ N, F N → ∀ q ∈ params, q.2 ∈ resultIds N.declared)
    (h : emitParams params t = .ok u s') :
    ∃ words, Spec T s
      (e ++ { keys := params.map fun q => .param q.1,
              out := List.zipWith (fun q w => ⟨.functionParameter, [q.2, w]⟩) params words }) s'
      fun N => F N ∧ List.Forall₂ (fun q w => (.param q.1, w) ∈ N.values) params words := by
  induction params generalizing t e F with
  | nil =>
    obtain ⟨-, rfl⟩ := pure_ok.1 h
    refine ⟨[], Spec.effect (hbefore.imp fun N hN => ⟨hN, .nil⟩) ?_⟩
    ext1 <;> simp
  | cons q rest ih =>
    obtain ⟨id, type⟩ := q
    simp only [emitParams, bind_ok, Build.functionParameter, emitNew_ok, modifyBody_ok] at h
    obtain ⟨_, _, ⟨rfl, rfl⟩, _, _, rfl, hrest⟩ := h
    have hparam := (hbefore.andEmitNew Profile.functionParameter rfl fun hN r hr => by
      rw [List.mem_singleton.1 hr]
      exact Or.inl (List.mem_append_left _ (hF _ hN _ List.mem_cons_self))).andDefine
        (v := .param id) fun hN => hN.2
    obtain ⟨words, hspec⟩ := ih hparam
      (fun N hN q hq => hF N hN.1.1 q (List.mem_cons_of_mem _ hq)) hrest
    refine ⟨t.next :: words, Spec.effect (hspec.imp ?_) ?_⟩
    · rintro N ⟨⟨⟨hN, -⟩, hvalue⟩, hwords⟩
      exact ⟨hN, .cons hvalue hwords⟩
    · ext1 <;> simp

/-- A turn of a loop that names what has a name. -/
theorem nameTurn_keeps (word : Generator → UInt32) {t' : Generator}
    {text : Text} {r : ForInStep PUnit}
    (hname : P t → P (t.put .debug ⟨.name, word t :: textWords text.bytes⟩)) (ht : P t)
    (h : (if (!text.isEmpty) = true then do
        let g ← get
        build (.name (word g) text)
        pure (.yield PUnit.unit)
      else pure (.yield PUnit.unit) : Gen (ForInStep PUnit)) t = .ok r t') :
    r = .yield ⟨⟩ ∧ P t' := by
  simp only [ite_ok, bind_ok, get_ok, Build.name, emitTo_ok, pure_ok] at h
  split_ifs at h
  · obtain ⟨_, _, ⟨rfl, rfl⟩, _, _, rfl, rfl, rfl⟩ := h
    exact ⟨rfl, hname ht⟩
  · obtain ⟨rfl, rfl⟩ := h
    exact ⟨rfl, ht⟩

/-- What each name keeps is kept while the names are written. -/
theorem emitNames_keeps {id : UInt32}
    (hfunc : P t → P (t.put .debug ⟨.name, id :: textWords f.func.name.bytes⟩))
    (hparams : ∀ q ∈ params, ∀ t, P t → P (t.put .debug
      ⟨.name, (List.lookup (.param q.1) t.body.values).getD 0 :: textWords q.2.name.bytes⟩))
    (hblocks : ∀ b ∈ f.layout.blocks, ∀ t, P t → P (t.put .debug
      ⟨.name, (List.lookup b.1 t.body.labels).getD 0 :: textWords b.2.name.bytes⟩))
    (h : f.emitNames id params t = .ok u s') (ht : P t) : P s' := by
  simp only [emitNames, bind_ok, Build.name, emitTo_ok] at h
  obtain ⟨_, _, rfl, _, s₂, hloop, _, s₃, hloop', hend⟩ := h
  obtain ⟨-, rfl⟩ := pure_ok.1 hend
  have hmiddle : P s₂ := forIn_invariant P (fun q hq _ t _ =>
    nameTurn_keeps (fun g => (List.lookup (.param q.1) g.body.values).getD 0) (hparams q hq t))
    hloop (hfunc ht)
  exact forIn_invariant P (fun b hb _ t _ =>
    nameTurn_keeps (fun g => (List.lookup b.1 g.body.labels).getD 0) (hblocks b hb t))
    hloop' hmiddle

theorem blockValues_layout (f : Frame) : blockValues f.layout.blocks = loweredValues f.instrs := by
  simp [blockValues, loweredValues, instrs, List.flatMap_assoc]

/-! ## Labels -/

section Zip

variable {κ : Type} {keys : List κ} {words : List UInt32}

theorem forall₂_zip (hlength : words.length = keys.length) :
    List.Forall₂ (fun key word => (key, word) ∈ (keys.zip words).reverse) keys words :=
  List.forall₂_iff_zip.2 ⟨hlength.symm, fun hmem => List.mem_reverse.2 hmem⟩

/-- Words that a table without repetition has for its keys, in the order of the keys. -/
theorem eq_of_forall₂_zip [BEq κ] [LawfulBEq κ] {found : List UInt32} (honce : keys.Nodup)
    (hlength : words.length = keys.length)
    (h : List.Forall₂ (fun key word => (key, word) ∈ (keys.zip words).reverse) keys found) :
    found = words := by
  have hkeys : ((keys.zip words).reverse.map Prod.fst).Nodup := by
    rw [List.map_reverse, List.map_fst_zip (by simp [hlength])]
    exact List.nodup_reverse.2 honce
  have hunique : Relator.RightUnique fun key word => (key, word) ∈ (keys.zip words).reverse :=
    fun _ _ _ ha hb => eq_of_mem_nodup_keys hkeys ha hb
  exact List.right_unique_forall₂' hunique h (forall₂_zip hlength)

end Zip

/-- Every block gets a new label. -/
theorem allocLabels_ok (h : allocLabels blocks s = .ok u s') :
    ∃ labels, labels.length = blocks.length ∧
      firstIds s'.assembly.allocated = firstIds s.assembly.allocated ++ labels ∧
      s' = { s with
        assembly := { s.assembly with allocated := s'.assembly.allocated }
        body := { s.body with
          labels := ((blocks.map Prod.fst).zip labels).reverse ++ s.body.labels } } := by
  induction blocks generalizing s with
  | nil =>
    obtain ⟨-, rfl⟩ := pure_ok.1 h
    exact ⟨[], rfl, by simp, rfl⟩
  | cons entry rest ih =>
    obtain ⟨id, b⟩ := entry
    simp only [allocLabels, bind_ok, allocId_ok, modifyBody_ok] at h
    obtain ⟨_, _, ⟨rfl, rfl⟩, _, _, rfl, hrest⟩ := h
    obtain ⟨labels, hlength, hfirst, hs'⟩ := ih hrest
    refine ⟨s.next :: labels, by simp [hlength], ?_, ?_⟩
    · rw [hfirst]
      change firstIds (s.assembly.allocated + 1) ++ labels = _
      rw [firstIds_succ, List.append_assoc]
      rfl
    · rw [hs']
      simp [Generator.alloc]

end Frame

theorem allPresent_eq_ok {α : Type} {slots : List (Option α)} {xs : List α} :
    allPresent slots = .ok xs ↔ slots = xs.map some := by
  induction slots generalizing xs with
  | nil => cases xs <;> simp [allPresent]
  | cons slot rest ih =>
    cases slot with
    | none => cases xs <;> simp [allPresent]
    | some x =>
      rw [allPresent]
      cases hrest : allPresent rest with
      | error e =>
        have hnot : ∀ ys : List α, rest ≠ ys.map some := fun ys heq => by
          rw [ih.2 heq] at hrest
          cases hrest
        cases xs with
        | nil => simp [Except.map]
        | cons y ys => simp [Except.map, hnot ys]
      | ok ys =>
        cases xs with
        | nil => simp [Except.map]
        | cons y zs =>
          have hys := @ih zs
          rw [hrest] at hys
          simp [Except.map, ← hys]

theorem paramTypeIds_spec (h : paramTypeIds params s = .ok types s') :
    Spec T s {} s' fun N =>
      List.Forall₂ (fun (q : ParamId × Param) t => N.type q.2.type t) params types := by
  induction params generalizing s types with
  | nil =>
    obtain ⟨rfl, rfl⟩ := pure_ok.1 h
    exact Spec.same fun _ _ _ => .nil
  | cons q rest ih =>
    simp only [paramTypeIds, bind_ok, pure_ok] at h
    obtain ⟨type, s₁, htype, more, s₂, hrest, rfl, rfl⟩ := h
    exact Spec.imp ((typeId_spec htype).trans (ih hrest)) fun N hN => .cons hN.1 hN.2

/-! ## Functions -/

variable {id : FuncId} {word : UInt32}

/-- No block is listed twice. -/
def BlocksOnce (func : Func) : Prop := (func.order.filterMap fun slot => slot).Nodup

instance (func : Func) : Decidable (BlocksOnce func) := inferInstanceAs (Decidable (List.Nodup _))

theorem BlocksOnce.nodup (h : BlocksOnce func) (hblocks : func.listed id = blocks.map some) :
    (blocks.map Prod.fst).Nodup := by
  have horder : ∀ (order : List (Option Nat)) (blocks : List (BlockId × Block)),
      (order.map fun slot => slot.bind fun k => (func.blocks[k]?).map fun b =>
        ((⟨id, k⟩ : BlockId), b)) = blocks.map some →
      blocks.map Prod.fst = (order.filterMap fun slot => slot).map fun k => ⟨id, k⟩ := by
    intro order
    induction order with
    | nil => simp
    | cons slot rest ih =>
      intro blocks heq
      cases blocks with
      | nil => cases heq
      | cons entry others =>
        simp only [List.map_cons, List.cons.injEq, Option.bind_eq_some_iff,
          Option.map_eq_some_iff] at heq
        obtain ⟨⟨k, rfl, b, -, rfl⟩, hrest⟩ := heq
        simp [ih others hrest]
  rw [horder func.order blocks hblocks]
  exact h.map fun k l hkl => (BlockId.mk.inj hkl).2

/-- The name of a local variable. -/
def localName? : Option Instr → Option Text
  | some (.localVar name _) => some name
  | _ => none

/-- The names of a function, its parameters, its blocks and its local variables. -/
def debugNames (func : Func) (id : FuncId) : List Text :=
  func.name :: func.params.filterMap (fun q => q.map Param.name) ++
    (func.listed id).flatMap fun entry =>
      (entry.map fun b => b.2.name :: b.2.instrs.filterMap localName?).getD []

section DebugNames

variable (hnames : ∀ name ∈ debugNames func id, T name)

include hnames

theorem permitted_param (hparams : func.paramIds id = params.map some) {q : ParamId × Param}
    (hq : q ∈ params) : T q.2.name := by
  have hmem : some q ∈ func.paramIds id := hparams ▸ List.mem_map.2 ⟨q, hq, rfl⟩
  obtain ⟨k, hk, heq⟩ := List.mem_mapIdx.1 hmem
  obtain ⟨param, hparam, rfl⟩ := Option.map_eq_some_iff.1 heq
  refine hnames _ (List.mem_append_left _ (List.mem_cons_of_mem _ (List.mem_filterMap.2 ?_)))
  exact ⟨some param, hparam ▸ List.getElem_mem hk, rfl⟩

theorem permitted_block (hblocks : func.listed id = blocks.map some) {b : BlockId × Block}
    (hb : b ∈ blocks) : T b.2.name := by
  have hmem : some b ∈ func.listed id := hblocks ▸ List.mem_map.2 ⟨b, hb, rfl⟩
  exact hnames _ (List.mem_append_right _ (List.mem_flatMap.2 ⟨_, hmem, List.mem_cons_self⟩))

theorem permitted_local (hblocks : func.listed id = blocks.map some) {i : InstrId} {name : Text}
    {elem : Ty}
    (h : (i, some (.localVar name elem)) ∈ Frame.instrs ⟨program, func, ⟨blocks⟩, debug⟩) :
    T name := by
  obtain ⟨b, hb, hi⟩ := List.mem_flatMap.1 h
  have hmem : some b ∈ func.listed id := hblocks ▸ List.mem_map.2 ⟨b, hb, rfl⟩
  have hinstr : some (.localVar name elem) ∈ b.2.instrs := by
    rw [← Place.map_snd_instrIds b.2 b.1]
    exact List.mem_map.2 ⟨_, hi, rfl⟩
  refine hnames _ (List.mem_append_right _ (List.mem_flatMap.2 ⟨_, hmem, ?_⟩))
  exact List.mem_cons_of_mem _ (List.mem_filterMap.2 ⟨_, hinstr, rfl⟩)

end DebugNames

theorem exists_right_of_mem {α β : Type} {R : α → β → Prop} {as : List α} {bs : List β}
    (h : List.Forall₂ R as bs) {a : α} (ha : a ∈ as) : ∃ b ∈ bs, R a b := by
  induction h with
  | nil => cases ha
  | cons hhead _ ih =>
    rcases List.mem_cons.1 ha with rfl | ha
    · exact ⟨_, List.mem_cons_self, hhead⟩
    · obtain ⟨b, hb, hR⟩ := ih ha
      exact ⟨b, List.mem_cons_of_mem _ hb, hR⟩

theorem Signature.mem_resultIds {N : Naming} {type result : UInt32}
    (h : Signature N func params type result types) {t : UInt32} (ht : t ∈ types) :
    t ∈ resultIds N.declared := by
  obtain ⟨q, -, hq⟩ := exists_right_of_mem h.paramTypes.flip ht
  exact Declares.mem_resultIds hq

/-- Names are written if asked for. -/
theorem Spec.andNames {f : Frame} {id : UInt32} (hbefore : Spec T s e t F)
    (hnames : f.debug → T f.func.name ∧ (∀ q ∈ params, T q.2.name) ∧
      (∀ b ∈ f.layout.blocks, T b.2.name) ∧
      ∀ id name elem, (id, some (.localVar name elem)) ∈ f.instrs → T name)
    (hid : ∀ N, F N → N.Readable id)
    (hvalues : ∀ N, F N → ∀ q ∈ params, ∃ w, (.param q.1, w) ∈ N.values)
    (hlabels : ∀ N, F N → ∀ b ∈ f.layout.blocks, ∃ l, (b.1, l) ∈ N.labels)
    (h : (if f.debug = true then f.emitNames id params else pure ()) t = .ok u s') :
    Spec T s e s' F := by
  simp only [ite_ok, pure_ok] at h
  split_ifs at h with hdebug
  · obtain ⟨hfunc, hparams, hblocks, -⟩ := hnames hdebug
    refine Frame.emitNames_keeps (P := fun t => Spec T s e t F) (fun ht => ?_)
      (fun q hq t ht => ?_) (fun b hb t ht => ?_) h hbefore
    · exact ht.andName hfunc (fun _ hF => hid _ hF) (Or.inl rfl)
    · refine ht.andName (hparams q hq) (fun hcoherent hF => ?_) (Or.inl rfl)
      obtain ⟨w, hw⟩ := hvalues _ hF _ hq
      exact Or.inl (hcoherent.values _ (mem_lookup_getD hw))
    · refine ht.andName (hblocks b hb) (fun _ hF => ?_) (Or.inl rfl)
      obtain ⟨l, hl⟩ := hlabels _ hF _ hb
      exact Or.inr (Or.inr (Or.inl (List.mem_map_of_mem (mem_lookup_getD hl))))
  · obtain ⟨-, rfl⟩ := h
    exact hbefore

/-- What a function writes after its labels were allocated, apart from the blocks that are never
reached. -/
theorem emitBody_spec {f : Frame} {type result : UInt32}
    {s₁ s₂ s₃ : Generator} {u v w : Unit} (hnonempty : f.layout.blocks ≠ [])
    (hsignature : ∀ N, s.view ≤ N → Signature N.toNaming f.func params type result types)
    (hword : ∃ id, (id, word) ∈ s.functions)
    (hlabels : ∀ b ∈ f.layout.blocks, ∃ l, (b.1, l) ∈ s.body.labels)
    (hnames : f.debug → T f.func.name ∧ (∀ q ∈ params, T q.2.name) ∧
      (∀ b ∈ f.layout.blocks, T b.2.name) ∧
      ∀ id name elem, (id, some (.localVar name elem)) ∈ f.instrs → T name)
    (hs₁ : s₁ = s.put s.assembly.current ⟨.func, [result, word, noControl, type]⟩)
    (hparams : Frame.emitParams ((params.map (·.1)).zip types) s₁ = .ok u s₂)
    (hdebug : (if f.debug = true then f.emitNames word params else pure ()) s₂ = .ok v s₃)
    (hblocks : f.emitBlocks true f.layout.blocks s₃ = .ok w s') :
    ∃ takes words made locals body, Spec T s
      { takes := word :: takes, keys := definedValues params f.instrs, made,
        out := ⟨.func, [result, word, noControl, type]⟩ ::
          List.zipWith (fun t w => ⟨.functionParameter, [t, w]⟩) types words ++ body } s'
      fun N => Signature N.toNaming f.func params type result types ∧
        List.Forall₂ (fun (q : ParamId × Param) w => (.param q.1, w) ∈ N.values) params words ∧
        List.Forall₂ (fun entry label => (entry.1, label) ∈ N.labels) f.layout.blocks takes ∧
        Hoists N.toNaming f.instrs locals ∧
        ((resultIds N.declared).Nodup →
          LowersBlocks N.toNaming f locals f.layout.blocks made body) := by
  obtain ⟨id, hword⟩ := hword
  have hlength : params.length = types.length :=
    (hsignature _ (View.le_refl _)).paramTypes.length_eq
  have hfst : ((params.map (·.1)).zip types).map Prod.fst = params.map (·.1) :=
    List.map_fst_zip (by simp [hlength])
  have hsnd : ((params.map (·.1)).zip types).map Prod.snd = types :=
    List.map_snd_zip (by simp [hlength])
  -- what is known from the start stays known
  have hstart : Spec T s {} s fun N =>
      Signature N.toNaming f.func params type result types ∧ (id, word) ∈ N.functions ∧
        ∀ b ∈ f.layout.blocks, ∃ l, (b.1, l) ∈ N.labels := by
    refine Spec.same fun _ N hN => ⟨hsignature N hN, hN.functions hword, fun b hb => ?_⟩
    obtain ⟨l, hl⟩ := hlabels b hb
    exact ⟨l, hN.labels hl⟩
  have hheader : Spec T s
      { takes := [word], out := [⟨.func, [result, word, noControl, type]⟩] } s₁ _ :=
    hs₁ ▸ hstart.andThen Generator.clean_of_put fun _ hF =>
      Spec.take Profile.func (Or.inr rfl) (by
        have htype := mem_resultIds.2 ⟨_, hF.1.declared, Profile.typeFunction.result⟩
        exact List.forall_iff_forall_mem.1
          ⟨Place.readable_type hF.1.resultType, Or.inl (List.mem_append_left _ htype)⟩)
  obtain ⟨words, hwords⟩ := Frame.emitParams_spec hheader
    (fun N hN q hq => hN.1.1.mem_resultIds (List.of_mem_zip hq).2) hparams
  have hentry : Spec T s
      { takes := [word], keys := params.map fun q => .param q.1,
        out := ⟨.func, [result, word, noControl, type]⟩ ::
          List.zipWith (fun t w => ⟨.functionParameter, [t, w]⟩) types words } s₂ fun N =>
      (Signature N.toNaming f.func params type result types ∧ (id, word) ∈ N.functions ∧
        ∀ b ∈ f.layout.blocks, ∃ l, (b.1, l) ∈ N.labels) ∧
      List.Forall₂ (fun (q : ParamId × Param) w => (.param q.1, w) ∈ N.values) params words := by
    refine Spec.effect (Spec.imp hwords fun N hN => ⟨hN.1.1, ?_⟩) ?_
    · have hids : List.Forall₂ (fun id w => (Value.param id, w) ∈ N.values)
          (((params.map (·.1)).zip types).map Prod.fst) words := List.forall₂_map_left_iff.2 hN.2
      rw [hfst] at hids
      exact List.forall₂_map_left_iff.1 hids
    · have hkeys : ((params.map (·.1)).zip types).map (fun q => Value.param q.1) =
          params.map fun q => .param q.1 := by
        have h := congrArg (List.map Value.param) hfst
        rwa [List.map_map, List.map_map] at h
      have hout : List.zipWith (fun (q : ParamId × UInt32) w =>
            (⟨.functionParameter, [q.2, w]⟩ : Instruction)) ((params.map (·.1)).zip types) words =
          List.zipWith (fun t w => ⟨.functionParameter, [t, w]⟩) types words := by
        rw [← List.zipWith_map_left (f := Prod.snd)
          (g := fun t w => (⟨.functionParameter, [t, w]⟩ : Instruction)), hsnd]
      ext1 <;> simp [hkeys, hout]
  have hnamed : Spec T s _ s₃ _ := hentry.andNames hnames (by
      rintro N ⟨⟨-, hN, -⟩, -⟩
      exact Or.inr (Or.inl (List.mem_map.2 ⟨_, hN, rfl⟩))) (by
      rintro N ⟨-, hN⟩ q hq
      obtain ⟨w, -, hw⟩ := exists_right_of_mem hN hq
      exact ⟨w, hw⟩) (fun N hN => hN.1.2.2) hdebug
  obtain ⟨⟨first, b⟩, rest, hlist⟩ := List.exists_cons_of_ne_nil hnonempty
  rw [hlist] at hblocks
  obtain ⟨takes, made, locals, body, hbody⟩ :=
    Frame.emitBlocks_first_spec T (fun hd => (hnames hd).2.2.2) hblocks
  refine ⟨takes, words, made, locals, body, Spec.effect (Spec.imp (hnamed.trans hbody) ?_) ?_⟩
  · rintro N ⟨⟨⟨hsig, -, -⟩, hvalues⟩, htakes, hhoists, hlowers⟩
    rw [hlist]
    exact ⟨hsig, hvalues, htakes, hhoists, hlowers⟩
  · rw [← hlist]
    ext1 <;> simp [definedValues, Frame.blockValues_layout]

theorem signature_spec {type result : UInt32} {s₁ s₂ : Generator}
    (hresult : typeId func.resultType s = .ok result s₁)
    (htypes : paramTypeIds params s₁ = .ok types s₂)
    (htype : functionTypeId result types s₂ = .ok type s') :
    Spec T s {} s' fun N => Signature N.toNaming func params type result types := by
  have hspec : Spec T s {} s₂ _ := (typeId_spec hresult).trans (paramTypeIds_spec htypes)
  refine Spec.imp (hspec.follow (functionTypeId_spec htype) ?_) ?_
  · rintro ⟨hN, hparams⟩ r hr
    rcases List.mem_cons.1 hr with rfl | hr
    · exact Declares.mem_resultIds hN
    · obtain ⟨q, -, hq⟩ := exists_right_of_mem hparams.flip hr
      exact Declares.mem_resultIds hq
  · rintro N ⟨⟨hN, hparams⟩, hdeclared⟩
    exact ⟨hN, hparams, hdeclared⟩

/-- When a function begins, nothing is known but the labels of its blocks, which are pending. -/
theorem opened {type result : UInt32} {n : Nat} (hs : s.Coherent) (hc : t.clean)
    (hsignature : Spec T { s with body := {} } {} t
      fun N => Signature N.toNaming func params type result types)
    (hfirst : firstIds n = firstIds t.assembly.allocated ++ labels)
    (hs' : s' = { t with
      assembly := { t.assembly with allocated := n }
      body := { t.body with
        labels := ((blocks.map Prod.fst).zip labels).reverse ++ t.body.labels } }) :
    Outer T s [] labels [] s' ∧
      s'.body = { labels := ((blocks.map Prod.fst).zip labels).reverse } ∧
      ∀ N, s'.view ≤ N → Signature N.toNaming func params type result types := by
  have hreset : Outer T s [] [] [] { s with body := {} } := Outer.reset T hs
  have hchange := hsignature.change hc hreset.coherent
  have hbody : t.body = {} := hchange.body_eq rfl rfl rfl
  have houter : Outer T s [] [] [] t := hreset.trans hchange.toOuter
  rw [hbody, List.append_nil] at hs'
  subst hs'
  refine ⟨{ houter with coherent := { houter.coherent with values := by simp }
                        accounted := fun pending h => ?_ }, rfl, fun N hN => ?_⟩
  · refine (houter.accounted pending h).allocate hfirst rfl (fun _ he => Or.inl he) ?_ (by simp)
    exact fun _ he => Or.inr (List.of_mem_zip (List.mem_reverse.1 he)).2
  · refine hsignature.fact hc hreset.coherent N (View.le_trans ?_ hN)
    constructor <;> simp [Generator.view, hbody, Generator.declared, Generator.written]

/-- What a function writes, if nothing was refused. -/
structure FunctionSpec (T : Text → Prop) (program : Program) (debug : Bool) (id : FuncId)
    (func : Func) (word : UInt32) (s : Generator) (group : List Instruction) (s' : Generator) :
    Prop where
  outer : Outer T s [word] [] group s'
  merges : (mergeIds group).Nodup
  lowers : ∀ declared, s'.declared ⊆ declared → (resultIds declared).Nodup →
    ∃ values labels, LowersFunction ⟨declared, s.functions, values, labels⟩ program debug id func
      group

/-- A run that writes a function: its declarations, its labels, its body and its end. -/
inductive FunctionRun (program : Program) (debug : Bool) (id : FuncId) (func : Func)
    (word : UInt32) (s : Generator) : Generator → Prop
  | intro {params : List (ParamId × Param)} {blocks : List (BlockId × Block)}
      {result type : UInt32} {types : List UInt32} {s₁ s₂ s₃ s₄ s₅ s₆ s₇ s₈ : Generator}
      (hparams : func.paramIds id = params.map some) (hblocks : func.listed id = blocks.map some)
      (hresult : typeId func.resultType { s with body := {} } = .ok result s₁)
      (htypes : paramTypeIds params s₁ = .ok types s₂)
      (htype : functionTypeId result types s₂ = .ok type s₃)
      (hlabels : Frame.allocLabels blocks s₃ = .ok () s₄)
      (hemitParams : Frame.emitParams ((params.map (·.1)).zip types)
        (s₄.put s₄.assembly.current ⟨.func, [result, word, noControl, type]⟩) = .ok () s₅)
      (hnamed : (if debug = true then
          Frame.emitNames ⟨program, func, ⟨blocks⟩, debug⟩ word params else pure ()) s₅ = .ok () s₆)
      (hemitBlocks : Frame.emitBlocks ⟨program, func, ⟨blocks⟩, debug⟩ true blocks s₆ = .ok () s₇)
      (hunreachable : Frame.emitUnreachable s₇.body.unreachable s₇ = .ok () s₈) :
      FunctionRun program debug id func word s
        (s₈.put s₈.assembly.current ⟨.functionEnd, []⟩)

theorem emitFunction_ok (h : emitFunction program debug id func word s = .ok u s') :
    FunctionRun program debug id func word s s' := by
  simp only [emitFunction, bind_ok, modify_ok, orPanic_ok, located_ok, Build.functionWithId,
    Build.functionEnd, emit_ok] at h
  obtain ⟨_, _, rfl, params, _, ⟨hparams, rfl⟩, result, s₁, hresult, types, s₂, htypes, type, s₃,
    htype, blocks, _, ⟨hblocks, rfl⟩, _, s₄, hlabels, _, _, rfl, _, s₅, hemitParams, h⟩ := h
  obtain ⟨s₆, hnamed, h⟩ := when_ok.1 h
  simp only [bind_ok, get_ok, emit_ok] at h
  obtain ⟨_, s₇, hemitBlocks, _, _, ⟨rfl, rfl⟩, _, s₈, hunreachable, rfl⟩ := h
  exact .intro (allPresent_eq_ok.1 hparams) (allPresent_eq_ok.1 hblocks) hresult htypes htype
    hlabels hemitParams hnamed hemitBlocks hunreachable

/-- Refusals are kept while a body is written. -/
theorem emitBody_clean {f : Frame} {i : Instruction} {s₁ s₂ : Generator}
    {u v w : Unit}
    (hparams : Frame.emitParams ((params.map (·.1)).zip types) (s.put s.assembly.current i) =
      .ok u s₁)
    (hnamed : (if f.debug = true then f.emitNames word params else pure ()) s₁ = .ok v s₂)
    (hblocks : f.emitBlocks true f.layout.blocks s₂ = .ok w s') (hc : s'.clean) : s.clean := by
  have hnames : Silent (Writes f.debug) (if f.debug = true then f.emitNames word params
      else pure ()) () := .ite (Frame.emitNames_silent f word params) fun _ => .pure
  have hc₂ : s₂.clean := (f.alike_same.emitBlocks true f.alike_same.layout).clean hblocks hc
  have hc₁ := clean_of_writes (hnames.of_ok hnamed).2.2 hc₂
  have hsteady : Lockstep .same false (Writes f.debug) Eq
      (Frame.emitParams ((params.map (·.1)).zip types)) _ := Frame.emitParams_lockstep _
  exact Generator.clean_of_put (hsteady.clean hparams hc₁)

theorem allocLabels_clean (h : Frame.allocLabels blocks s = .ok u s') (hc : s'.clean) :
    s.clean := by
  obtain ⟨labels, -, -, hs'⟩ := Frame.allocLabels_ok h
  rw [hs'] at hc
  exact hc

theorem FunctionRun.spec (honce : BlocksOnce func) (hnonempty : func.order ≠ [])
    (hnames : debug → ∀ name ∈ debugNames func id, T name)
    (hword : (some id, word) ∈ s.functions) (h : FunctionRun program debug id func word s s')
    (hc : s'.clean) (hs : s.Coherent) :
    ∃ group, FunctionSpec T program debug id func word s group s' := by
  obtain @⟨params, blocks, result, type, types, s₁, s₂, s₃, s₄, s₅, s₆, s₇, s₈, hparams, hblocks,
    hresult, htypes, htype, hlabels, hemitParams, hnamed, hemitBlocks, hunreachable⟩ := h
  have hpresent : blocks ≠ [] := by
    rintro rfl
    exact hnonempty (List.map_eq_nil_iff.1 hblocks)
  have hlocal : debug → ∀ i name elem, (i, some (.localVar name elem)) ∈
      Frame.instrs ⟨program, func, ⟨blocks⟩, debug⟩ → T name :=
    fun hd _ _ _ hi => permitted_local (hnames hd) hblocks hi
  obtain ⟨labels, hlength, hfirst, hs₄⟩ := Frame.allocLabels_ok hlabels
  have hsignature : Spec T { s with body := {} } {} s₃ _ :=
    signature_spec hresult htypes htype
  have hnever := Frame.emitUnreachable_spec T hunreachable
  have hend : Spec T s₈ _ _ _ := Spec.emit Profile.functionEnd rfl (by simp)
  have hc₈ := hend.clean hc
  have hc₇ := hnever.clean hc₈
  have hc₃ := allocLabels_clean hlabels
    (emitBody_clean (f := ⟨program, func, ⟨_⟩, debug⟩) hemitParams hnamed hemitBlocks hc₇)
  obtain ⟨hopen, hempty, hsig⟩ := opened hs hc₃ hsignature hfirst hs₄
  obtain ⟨takes, words, made, locals, body, hbody⟩ := emitBody_spec
    (f := ⟨program, func, ⟨blocks⟩, debug⟩) hpresent hsig ⟨some id, hopen.functions ▸ hword⟩
    (fun b hb => by
      have hkeys : labels.length = (blocks.map Prod.fst).length := by simp [hlength]
      obtain ⟨l, -, hl⟩ := exists_right_of_mem (Frame.forall₂_zip hkeys) (List.mem_map_of_mem hb)
      exact ⟨l, hempty ▸ hl⟩)
    (fun hd => ⟨hnames hd _ List.mem_cons_self, fun _ => permitted_param (hnames hd) hparams,
      fun _ => permitted_block (hnames hd) hblocks, hlocal hd⟩)
    rfl hemitParams hnamed hemitBlocks
  have hchange := hbody.change hc₇ hopen.coherent
  have hmade : s₇.body.unreachable = made := by
    rw [hchange.made, hempty]
    rfl
  have hlast := hnever.change hc₈ hchange.coherent
  have hfinal := hend.change hc hlast.coherent
  have htotal := (hchange.trans hlast).trans hfinal
  rw [hmade] at hlast htotal
  have hfacts := hbody.fact hc₇ hopen.coherent
  have htakes : takes = labels := by
    obtain ⟨-, -, htakes, -⟩ := hfacts _ (View.le_refl _)
    refine Frame.eq_of_forall₂_zip (honce.nodup hblocks) (by simp [hlength]) ?_
    have hbodyLabels : s₇.body.labels = _ := hchange.labels.trans (congrArg _ hempty)
    rw [show s₇.view.labels = _ from hbodyLabels] at htakes
    exact List.forall₂_map_left_iff.2 htakes
  subst htakes
  refine ⟨⟨.func, [result, word, noControl, type]⟩ ::
      List.zipWith (fun t w => ⟨.functionParameter, [t, w]⟩) types words ++ body ++
      made.flatMap unreachableBlock ++ [⟨.functionEnd, []⟩],
    ⟨?_, ?_, ?_⟩⟩
  · refine { hopen.trans htotal.toOuter with accounted := fun pending h => ?_ }
    have h₇ := hchange.accounted pending ((hopen.accounted _ h).perm (by simp [List.perm_middle]))
    exact hfinal.accounted pending (hlast.accounted pending h₇)
  · have hmerges := htotal.merges
    rw [hempty, List.append_nil] at hmerges
    have hnodup := htotal.distinct (by rw [hempty]; exact List.nodup_nil)
    rw [hmerges] at hnodup
    exact List.nodup_reverse.1 hnodup
  · intro declared hsub hnodup
    have hfunctions : s₇.functions = s.functions := hchange.functions.trans hopen.functions
    have hle : s₇.view ≤ ⟨⟨declared, s.functions, s₇.body.values, s₇.body.labels⟩, s₇.written,
        s₇.body.unreachable⟩ :=
      { declared := List.Subset.trans (List.Subset.trans hlast.declared hfinal.declared) hsub
        functions := hfunctions ▸ List.Subset.refl _
        values := List.suffix_refl _
        labels := List.Subset.refl _
        written := List.Subset.refl _
        made := List.Subset.refl _ }
    obtain ⟨hsignature, hwords, -, hlocals, hlowers⟩ := hfacts _ hle
    have hvalues : s₇.body.values.map Prod.fst =
        (definedValues params (Frame.instrs ⟨program, func, ⟨blocks⟩, debug⟩)).reverse := by
      obtain ⟨new, hnew, hkeys⟩ := hchange.values
      rw [hnew, hempty, List.append_nil, hkeys]
    have hlabelKeys : s₇.body.labels.map Prod.fst = (blocks.map Prod.fst).reverse := by
      rw [hchange.labels, hempty, List.map_reverse, List.map_fst_zip (by simp [hlength])]
    exact ⟨s₇.body.values, s₇.body.labels, .intro hparams hblocks hpresent hvalues hlabelKeys
      hword hsignature hwords hlocals (hlowers hnodup)⟩

/-! ## The functions of a program -/

/-- Every function that is listed gets a new id, if none is listed twice. -/
theorem declareFunctions_ok (honce : ids.Nodup) (hnew : ∀ id ∈ ids, id ∉ s.functions.map Prod.fst)
    (h : declareFunctions ids s = .ok u s') :
    ∃ words, words.length = ids.length ∧
      firstIds s'.assembly.allocated = firstIds s.assembly.allocated ++ words ∧
      s' = { s with
        assembly := { s.assembly with allocated := s'.assembly.allocated }
        functions := (ids.zip words).reverse ++ s.functions } := by
  induction ids generalizing s with
  | nil =>
    obtain ⟨-, rfl⟩ := pure_ok.1 h
    exact ⟨[], rfl, by simp, rfl⟩
  | cons id rest ih =>
    have hnone : List.lookup id s.functions = none :=
      lookup_eq_none_iff_keys.2 (hnew id List.mem_cons_self)
    obtain ⟨hfresh, hrest⟩ := List.nodup_cons.1 honce
    simp only [declareFunctions, bind_ok, get_ok] at h
    obtain ⟨_, _, ⟨rfl, rfl⟩, h⟩ := h
    simp only [hnone, bind_ok, allocId_ok, modify_ok] at h
    obtain ⟨_, _, ⟨rfl, rfl⟩, _, _, rfl, hmore⟩ := h
    obtain ⟨words, hlength, hfirst, hs'⟩ := ih hrest (by
      intro other ho
      simp only [List.map_cons, List.mem_cons, not_or]
      exact ⟨fun heq => hfresh (heq ▸ ho), hnew other (List.mem_cons_of_mem _ ho)⟩) hmore
    refine ⟨s.next :: words, by simp [hlength], ?_, ?_⟩
    · rw [hfirst]
      change firstIds (s.assembly.allocated + 1) ++ words = _
      rw [firstIds_succ, List.append_assoc]
      rfl
    · rw [hs']
      simp [Generator.alloc]

/-- A function that has an id keeps it. -/
theorem functionId_ok {found : UInt32} (hword : List.lookup (some id) s.functions = some word)
    (h : functionId id s = .ok found s') : found = word ∧ s' = s := by
  simp only [functionId, declareFunctions, bind_ok, get_ok] at h
  obtain ⟨_, t, ⟨_, _, ⟨rfl, rfl⟩, hdeclare⟩, _, _, ⟨rfl, rfl⟩, h⟩ := h
  simp only [hword, pure_ok] at hdeclare
  obtain ⟨-, rfl⟩ := hdeclare
  obtain ⟨rfl, rfl⟩ := pure_ok.1 h
  exact ⟨by rw [hword]; rfl, rfl⟩

theorem Generator.Coherent.select (hs : s.Coherent) : s.select .functions = s := by
  rw [← hs.current]
  rfl

theorem lowerFunction_ok (h : lowerFunction program debug id s = .ok word s') :
    ∃ func t u, program.func? id = some func ∧ functionId id s = .ok word t ∧
      func.order ≠ [] ∧ FunctionRun program debug id func word (t.select .functions) u ∧
      u.select t.assembly.current = s' := by
  cases hfunc : program.func? id with
  | none => simp only [lowerFunction, hfunc, throw_ok] at h
  | some func =>
    simp only [lowerFunction, hfunc, bind_ok] at h
    obtain ⟨_, t, hid, h⟩ := h
    simp only [Gen.check_ok, bind_ok, inFunctions_ok, pure_ok] at h
    obtain ⟨hnonempty, _, _, ⟨u, hemit, rfl⟩, rfl, rfl⟩ := h
    exact ⟨func, t, u, rfl, hid, fun hnil => hnonempty (by simp [hnil]), emitFunction_ok hemit, rfl⟩

theorem lowerFunction_spec {found : UInt32} (hfunc : program.func? id = some func)
    (honce : BlocksOnce func) (hnames : debug → ∀ name ∈ debugNames func id, T name)
    (hword : List.lookup (some id) s.functions = some word)
    (h : lowerFunction program debug id s = .ok found s') (hc : s'.clean) (hs : s.Coherent) :
    ∃ group, FunctionSpec T program debug id func word s group s' := by
  obtain ⟨_, t, u, hfunc', hid, hnonempty, hrun, rfl⟩ := lowerFunction_ok h
  cases hfunc.symm.trans hfunc'
  obtain ⟨rfl, rfl⟩ := functionId_ok hword hid
  rw [hs.select] at hrun
  obtain ⟨group, hgroup⟩ := hrun.spec honce hnonempty hnames (mem_of_lookup hword) hc hs
  rw [hs.current, hgroup.outer.coherent.select]
  exact ⟨group, hgroup⟩

/-- What the listed functions write, if nothing was refused: for each its group. -/
structure ListedSpec (T : Text → Prop) (program : Program) (debug : Bool)
    (entries : List (FuncId × Func)) (words : List UInt32) (s : Generator)
    (groups : List (List Instruction)) (s' : Generator) : Prop where
  outer : Outer T s words [] groups.flatten s'
  merges : ∀ group ∈ groups, (mergeIds group).Nodup
  lowers : ∀ declared, s'.declared ⊆ declared → (resultIds declared).Nodup →
    List.Forall₂ (fun (entry : FuncId × Func) group => ∃ values labels,
      LowersFunction ⟨declared, s.functions, values, labels⟩ program debug entry.1 entry.2 group)
      entries groups

/-- All listed functions are there and are listed once. -/
theorem lowerListed_present {listed : List (Option (FuncId × Func))}
    (h : lowerListed program debug seen listed s = .ok u s') :
    ∃ entries : List (FuncId × Func), listed = entries.map some ∧
      (entries.map Prod.fst).Nodup ∧ ∀ id ∈ entries.map Prod.fst, id ∉ seen := by
  induction listed generalizing s seen with
  | nil => exact ⟨[], by simp⟩
  | cons slot rest ih =>
    cases slot with
    | none => exact absurd h Gen.fail_ok.1
    | some entry =>
      obtain ⟨id, func⟩ := entry
      simp only [lowerListed, bind_ok, Gen.check_ok] at h
      obtain ⟨hseen, _, _, -, hrest⟩ := h
      obtain ⟨entries, rfl, hnodup, hnew⟩ := ih hrest
      refine ⟨(id, func) :: entries, rfl, ?_, ?_⟩
      · exact List.nodup_cons.2 ⟨fun hmem => hnew id hmem List.mem_cons_self, hnodup⟩
      · intro other ho
        rcases List.mem_cons.1 ho with rfl | ho
        · simpa using hseen
        · exact fun hmem => hnew other ho (List.mem_cons_of_mem _ hmem)

theorem lowerListed_clean {listed : List (Option (FuncId × Func))}
    (h : lowerListed program debug seen listed s = .ok u s') (hc : s'.clean) : s.clean := by
  have hsteady : Lockstep .same false (Writes debug) Eq (lowerListed program debug seen listed)
      (lowerListed program debug _ listed) :=
    lowerListed_lockstep program.corresponds_same (w := false) nofun
      (slots_same (R := fun e e' => e'.1 = e.1) (fun _ => rfl) listed) seen
  exact hsteady.clean h hc

theorem lowerListed_spec {words : List UInt32}
    (hfuncs : ∀ entry ∈ entries, program.func? entry.1 = some entry.2 ∧ BlocksOnce entry.2 ∧
      (debug → ∀ name ∈ debugNames entry.2 entry.1, T name))
    (hwords : List.Forall₂ (fun (entry : FuncId × Func) word =>
      List.lookup (some entry.1) s.functions = some word) entries words)
    (h : lowerListed program debug seen (entries.map some) s = .ok u s') (hc : s'.clean)
    (hs : s.Coherent) : ∃ groups, ListedSpec T program debug entries words s groups s' := by
  induction entries generalizing s seen words with
  | nil =>
    obtain ⟨-, rfl⟩ := pure_ok.1 h
    cases hwords
    exact ⟨[], Outer.refl hs, by simp, fun _ _ _ => .nil⟩
  | cons entry rest ih =>
    obtain ⟨⟨hfunc, honce, hnames⟩, hfuncs⟩ := List.forall_mem_cons.1 hfuncs
    cases hwords with | cons hword hwords =>
    simp only [List.map_cons, lowerListed, bind_ok, Gen.check_ok] at h
    obtain ⟨-, _, t, hfunction, hrest⟩ := h
    obtain ⟨group, hgroup⟩ :=
      lowerFunction_spec hfunc honce hnames hword hfunction (lowerListed_clean hrest hc) hs
    obtain ⟨groups, hgroups⟩ := ih hfuncs (hgroup.outer.functions ▸ hwords) hrest
      hgroup.outer.coherent
    refine ⟨group :: groups, hgroup.outer.trans hgroups.outer, ?_, fun declared hsub hnodup => ?_⟩
    · exact List.forall_mem_cons.2 ⟨hgroup.merges, hgroups.merges⟩
    · have hmore := hgroups.lowers declared hsub hnodup
      rw [hgroup.outer.functions] at hmore
      exact .cons (hgroup.lowers declared (List.Subset.trans hgroups.outer.declared hsub) hnodup) hmore

end Elementwise.Spirv
