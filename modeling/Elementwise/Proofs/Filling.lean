import Elementwise.Proofs.Filing
import Elementwise.Proofs.Nesting

/-!
# Instructions that stay in their block

Writing an instruction of a block that does not end it adds instructions that neither open nor
close anything and name no merge block; it makes no labels and claims none. This holds in every
state, also if instructions are refused. Where writing fails, the program is malformed, an
instruction of it is absent, or it has a value without a type.
-/
namespace Elementwise.Spirv
open IR Gen Relation

variable {s t u : Generator} {c : Prop} {cause : Cause} {domain : Domain} {op : Opcode}
  {e : Failure} {target : Section} {args : List Value} {operands : List UInt32}
  {r : Except IR.Panic α}

/-! ## What is appended -/

/-- A state and the state after instructions were appended to the function section, with the
labels that were made for blocks that are never reached. A merge that is named was claimed. -/
structure Generator.Appends (s : Generator) (made : List UInt32) (out : List Instruction)
    (t : Generator) : Prop where
  written : t.written = s.written ++ out
  labels : t.body.labels = s.body.labels
  merges : t.body.merges = (mergeIds out).reverse ++ s.body.merges
  distinct : s.body.merges.Nodup → t.body.merges.Nodup
  unreachable : t.body.unreachable = s.body.unreachable ++ made
  current : t.assembly.current = s.assembly.current
  finished : t.assembly.finished = s.assembly.finished
  fresh : ∃ ids, firstIds t.assembly.allocated = firstIds s.assembly.allocated ++ ids ∧
    made.Sublist ids

namespace Generator

/-- Nothing is written and the body stays as it is. -/
theorem Appends.of_body (hwritten : t.written = s.written) (hbody : t.body.labels = s.body.labels ∧
      t.body.merges = s.body.merges ∧ t.body.unreachable = s.body.unreachable)
    (hcurrent : t.assembly.current = s.assembly.current)
    (hfinished : t.assembly.finished = s.assembly.finished)
    (hallocated : s.assembly.allocated ≤ t.assembly.allocated) : s.Appends [] [] t where
  written := by simp [hwritten]
  labels := hbody.1
  merges := by simp [hbody.2.1]
  distinct h := hbody.2.1 ▸ h
  unreachable := by simp [hbody.2.2]
  current := hcurrent
  finished := hfinished
  fresh := by
    obtain ⟨n, hn⟩ := Nat.exists_eq_add_of_le hallocated
    exact ⟨_, hn ▸ firstIds_add s.assembly.allocated n, List.nil_sublist _⟩

protected theorem Appends.refl (s : Generator) : s.Appends [] [] s :=
  .of_body rfl ⟨rfl, rfl, rfl⟩ rfl rfl (Nat.le_refl _)

protected theorem Appends.trans {made made' : List UInt32} {out out' : List Instruction}
    (h : s.Appends made out t) (h' : t.Appends made' out' u) :
    s.Appends (made ++ made') (out ++ out') u where
  written := by rw [h'.written, h.written, List.append_assoc]
  labels := h'.labels.trans h.labels
  merges := by simp [h'.merges, h.merges]
  distinct hs := h'.distinct (h.distinct hs)
  unreachable := by rw [h'.unreachable, h.unreachable, List.append_assoc]
  current := h'.current.trans h.current
  finished := h'.finished.trans h.finished
  fresh := by
    obtain ⟨ids, hids, hsub⟩ := h.fresh
    obtain ⟨ids', hids', hsub'⟩ := h'.fresh
    exact ⟨ids ++ ids', by rw [hids', hids, List.append_assoc], hsub.append hsub'⟩

/-- Only instructions for the function section go there. -/
theorem written_put_other (s : Generator) (i : Instruction) (htarget : target ≠ .functions) :
    (s.put target i).written = s.written := by
  rcases s.put_cases target i with h | h
  · rw [h]
    cases target <;> first | rfl | exact absurd rfl htarget
  · rw [written, h.code, written]

/-- An instruction goes to the function section, or nothing does. -/
theorem written_put_cases (s : Generator) (target : Section) (i : Instruction) :
    (s.put target i).written = s.written ∨ (s.put target i).written = s.written ++ [i] := by
  rcases s.put_cases target i with h | h
  · rw [h]
    cases target <;> simp [add, Assembly.append, written]
  · exact Or.inl (by rw [written, h.code, written])

/-- Only instructions are appended that neither open nor close anything and name no merge. -/
def Fills (s t : Generator) : Prop :=
  ∃ out, s.Appends [] out t ∧ ∀ i ∈ out, i.opcode ∉ structuralOps

namespace Fills

theorem of_appends (h : s.Appends [] [] t) : s.Fills t := ⟨[], h, by simp⟩

protected theorem refl (s : Generator) : s.Fills s := of_appends (.refl s)

protected theorem trans (h : s.Fills t) (h' : t.Fills u) : s.Fills u := by
  obtain ⟨out, hout, hplain⟩ := h
  obtain ⟨out', hout', hplain'⟩ := h'
  refine ⟨out ++ out', hout.trans hout', fun i hi => ?_⟩
  rcases List.mem_append.1 hi with hi | hi
  · exact hplain i hi
  · exact hplain' i hi

theorem put (s : Generator) (target : Section) {i : Instruction} (hop : i.opcode ∉ structuralOps) :
    s.Fills (s.put target i) := by
  have hnone : mergeIds [i] = [] := mergeIds_plain (by simpa using hop)
  have hsame : s.Appends [] [] (s.put target i) ∨ s.Appends [] [i] (s.put target i) := by
    rcases s.written_put_cases target i with hwritten | hwritten
    · exact Or.inl (.of_body hwritten ⟨rfl, rfl, rfl⟩ (s.put_current _ _) (s.put_finished _ _)
        (Nat.le_of_eq (s.put_allocated _ _).symm))
    · refine Or.inr ⟨hwritten, rfl, ?_, id, ?_, s.put_current _ _, s.put_finished _ _, [], ?_, ?_⟩
      · rw [hnone]
        rfl
      · simp [Generator.put]
      · simp
      · exact List.Sublist.refl _
  rcases hsame with h | h
  · exact of_appends h
  · exact ⟨[i], h, by simpa using hop⟩

theorem alloc (s : Generator) : s.Fills s.alloc :=
  of_appends (.of_body rfl ⟨rfl, rfl, rfl⟩ rfl rfl (Nat.le_succ _))

/-- What is known of values does not matter here. -/
theorem withValues (s : Generator) (values : List (Value × UInt32)) :
    s.Fills { s with body := { s.body with values := values } } :=
  of_appends (.of_body rfl ⟨rfl, rfl, rfl⟩ rfl rfl (Nat.le_refl _))

end Fills

end Generator

theorem Files.fills (h : Files s t) : s.Fills t := by
  have hrecord : ∀ (s : Generator) (n : Interned), s.Fills { s with interned := n } := fun s n =>
    .of_appends (.of_body rfl ⟨rfl, rfl, rfl⟩ rfl rfl (Nat.le_refl _))
  have hplace : ∀ (s : Generator) (target : Section) (i : Instruction), target ≠ .functions →
      s.Fills (s.put target i) := by
    intro s target i htarget
    exact .of_appends (.of_body (s.written_put_other i htarget) ⟨rfl, rfl, rfl⟩ (s.put_current _ _)
      (s.put_finished _ _) (Nat.le_of_eq (s.put_allocated _ _).symm))
  cases h with
  | report t => exact hrecord s _
  | require c => exact .of_appends (.of_body rfl ⟨rfl, rfl, rfl⟩ rfl rfl (Nat.le_refl _))
  | declare hnew htyped =>
    refine (Generator.Fills.alloc s).trans ?_
    exact (hplace s.alloc .types _ (by decide)).trans (hrecord _ _)
  | struct i => exact (Generator.Fills.alloc s).trans (hplace s.alloc .types i (by decide))
  | decorate i => exact hplace s .decorations i (by decide)
  | stride id => exact hrecord s _

theorem fills_of_files (h : ReflTransGen Files s t) : s.Fills t := by
  induction h with
  | refl => exact .refl s
  | tail _ hstep ih => exact ih.trans hstep.fills

/-! ## Runs -/

/-- A failure that is due to the program: it is malformed, an instruction of it is absent, or
there is a gap, where something that has to be looked up is not there. -/
def Failure.Expected (hole gap : Prop) : Failure → Prop
  | .diagnostic d => d.kind = .structural ∨ (d.cause = .absentInstr ∧ hole)
  | .panic _ => gap

theorem Failure.Structural.expected {hole gap : Prop} (h : e.Structural) : e.Expected hole gap := by
  cases e with
  | diagnostic d => exact Or.inl h
  | panic p => exact h.elim

/-- What holds after a run that succeeds; a run that fails does so because of the program. -/
def Gen.Yields {α : Type} (hole gap : Prop) (x : Gen α) (s : Generator)
    (post : α → Generator → Prop) : Prop :=
  match x s with
  | .ok a t => post a t
  | .error e _ => e.Expected hole gap

namespace Gen

variable {α β : Type} {hole gap : Prop} {x : Gen α} {post : α → Generator → Prop}

namespace Yields

theorem of_ok {a : α} (h : x s = .ok a t) (hpost : post a t) : Yields hole gap x s post := by
  unfold Yields
  rw [h]
  exact hpost

theorem of_error (h : x s = .error e t) (he : e.Expected hole gap) : Yields hole gap x s post := by
  unfold Yields
  rw [h]
  exact he

theorem ok {a : α} (h : Yields hole gap x s post) (hx : x s = .ok a t) : post a t := by
  unfold Yields at h
  rwa [hx] at h

theorem error (h : Yields hole gap x s post) (hx : x s = .error e t) : e.Expected hole gap := by
  unfold Yields at h
  rwa [hx] at h

theorem of_eq {y : Gen α} (h : x s = y t) (hy : Yields hole gap y t post) :
    Yields hole gap x s post := by
  unfold Yields at hy ⊢
  rwa [h]

theorem bind {f : α → Gen β} {post' : β → Generator → Prop} (hx : Yields hole gap x s post)
    (hf : ∀ a t, post a t → Yields hole gap (f a) t post') : Yields hole gap (x >>= f) s post' := by
  cases hrun : x s with
  | ok a u =>
    have hbind : (x >>= f) s = f a u := by
      simp only [Bind.bind, EStateM.bind, hrun]
    have hrest := hf a u (hx.ok hrun)
    unfold Yields at hrest ⊢
    rwa [hbind]
  | error e u =>
    have hbind : (x >>= f) s = .error e u := by
      simp only [Bind.bind, EStateM.bind, hrun]
    exact of_error hbind (hx.error hrun)

theorem mono {post' : α → Generator → Prop} (h : Yields hole gap x s post)
    (himp : ∀ a t, post a t → post' a t) : Yields hole gap x s post' := by
  cases hrun : x s with
  | ok a u => exact of_ok hrun (himp a u (h.ok hrun))
  | error e u => exact of_error hrun (h.error hrun)

theorem getBind {f : Generator → Gen α} (h : Yields hole gap (f s) s post) :
    Yields hole gap (get >>= f) s post := h

theorem orPanic (h : ∀ f, r = .error f → gap) :
    Yields hole gap (orPanic r) s fun a t => r = .ok a ∧ s = t := by
  cases r with
  | ok a => exact of_ok rfl ⟨rfl, rfl⟩
  | error f => exact of_error rfl (h f rfl)

theorem located {function block : Text} (h : Yields hole gap x s post) :
    Yields hole gap (located function block x) s post := by
  cases hrun : x s with
  | ok a u => exact of_ok (located_ok.2 hrun) (h.ok hrun)
  | error e u =>
    have he := h.error hrun
    unfold Yields
    cases e with
    | panic p =>
      simp only [Gen.located, hrun]
      exact he
    | diagnostic d =>
      simp only [Gen.located, hrun]
      split <;> exact he

end Yields

/-- A run in any state only fills the block. -/
def Fill (hole gap : Prop) (x : Gen α) : Prop := ∀ s, Yields hole gap x s fun _ t => s.Fills t

namespace Fill

theorem pure (a : α) : Fill hole gap (pure a) := fun s => .of_ok rfl (.refl s)

theorem panic {f : IR.Panic} (h : gap) : Fill hole gap (throw (.panic f) : Gen α) :=
  fun _ => .of_error rfl h

theorem bind {f : α → Gen β} (hx : Fill hole gap x) (hf : ∀ a, Fill hole gap (f a)) :
    Fill hole gap (x >>= f) :=
  fun s => (hx s).bind fun a t ht => (hf a t).mono fun _ _ hu => ht.trans hu

theorem getBind {f : Generator → Gen α} (h : ∀ s, Fill hole gap (f s)) :
    Fill hole gap (get >>= f) := fun s => .getBind (h s s)

theorem ite [Decidable c] {y : Gen α} (hx : Fill hole gap x) (hy : Fill hole gap y) :
    Fill hole gap (if c then x else y) := by
  split
  · exact hx
  · exact hy

theorem located {function block : Text} (h : Fill hole gap x) :
    Fill hole gap (located function block x) := fun s => (h s).located

theorem forIn {entries : List α} {body : α → PUnit → Gen (ForInStep PUnit)}
    (h : ∀ x, Fill hole gap (body x ⟨⟩)) : Fill hole gap (forIn entries PUnit.unit body) := by
  induction entries with
  | nil =>
    rw [List.forIn_nil]
    exact pure _
  | cons x rest ih =>
    rw [List.forIn_cons]
    refine bind (h x) fun r => ?_
    cases r with
    | done u => exact pure u
    | yield u => exact ih

theorem asks (h : ∀ s, Asks x s) : Fill hole gap x := by
  intro s
  cases hrun : x s with
  | ok a u => exact .of_ok hrun (fills_of_files ((h s).ok hrun))
  | error e u => exact .of_error hrun ((h s).structural hrun).expected

theorem orPanic (h : ∀ f, r = .error f → gap) : Fill hole gap (orPanic r) :=
  fun s => (Yields.orPanic h).mono fun _ _ ht => ht.2 ▸ .refl s

theorem emit (hop : op ∉ structuralOps) : Fill hole gap (build (.emit op operands)) :=
  fun s => .of_ok (a := ()) (emit_ok.2 rfl) (.put s _ hop)

theorem emitNew {operands : UInt32 → List UInt32} (hop : op ∉ structuralOps) :
    Fill hole gap (build (.emitNew op operands)) :=
  fun s => .of_ok (emitNew_ok.2 ⟨rfl, rfl⟩) ((Generator.Fills.alloc s).trans (.put s.alloc _ hop))

theorem emitTo (hop : op ∉ structuralOps) : Fill hole gap (build (.emitTo target op operands)) :=
  fun s => .of_ok (a := ()) (emitTo_ok.2 rfl) (.put s _ hop)

end Fill

end Gen

/-! ## Instructions -/

/-- A value has a type, or there is a gap. -/
def TypedOr (gap : Prop) (program : Program) (v : Value) : Prop :=
  ∀ f, program.typeOf v = .error f → gap

/-- An instruction is there, or there is a hole. What it reads has types and what it calls has all
its parameters, or there is a gap. -/
structure Excused (hole gap : Prop) (program : Program) (id : InstrId) (slot : Option Instr) :
    Prop where
  found : program.instr? id = slot
  absent : slot = none → hole
  operand : ∀ i ∈ slot, ∀ v ∈ i.operands, v ≠ .missing → TypedOr gap program v
  callee : ∀ f args g, slot = some (.call (some f) args) → program.func? f = some g →
    none ∈ g.params → gap

section Typing

variable {hole gap : Prop} {program : Program} {id : InstrId}

theorem Excused.typedOr {i : Instr} (h : Excused hole gap program id (some i))
    (hmissing : ¬ i.hasMissingOperand) : ∀ v ∈ i.operands, TypedOr gap program v := by
  intro v hv
  refine h.operand i rfl v hv fun heq => hmissing ?_
  simpa [Instr.hasMissingOperand] using heq ▸ hv

theorem typedOr_binary {op : BinaryOp} {l r : Value}
    (hi : program.instr? id = some (.binary op domain l r)) (hl : TypedOr gap program l) :
    TypedOr gap program (.result id) := by
  intro f hf
  cases ht : program.typeOf l with
  | ok t => simp [Program.typeOf_binary hi ht] at hf
  | error f' => exact hl f' ht

theorem typedOr_negate {x : Value} (hi : program.instr? id = some (.negate domain x))
    (hx : TypedOr gap program x) : TypedOr gap program (.result id) := by
  intro f hf
  cases ht : program.typeOf x with
  | ok t => simp [Program.typeOf_negate hi ht] at hf
  | error f' => exact hx f' ht

end Typing

namespace Place

variable {hole gap : Prop} {p : Place} {α : Type} {id : InstrId}

theorem fill_fail (h : cause.kind = .structural) :
    Fill hole gap (p.fail cause : Gen α) := fun _ => .of_error rfl (Or.inl h)

/-- A check before a run. -/
theorem yields_guard [Decidable c] {x : Gen α} {post : α → Generator → Prop}
    (hcause : cause.kind = .structural) (hx : ¬ c → Yields hole gap x s post) :
    Yields hole gap (if c then (do p.fail cause; x) else x) s post := by
  by_cases hc : c
  · simp only [hc, if_true]
    exact .of_error rfl (Or.inl hcause)
  · simpa only [hc, if_false] using hx hc

theorem fill_guard [Decidable c] {x : Gen α} (hcause : cause.kind = .structural)
    (hx : ¬ c → Fill hole gap x) : Fill hole gap (if c then (do p.fail cause; x) else x) :=
  fun s => yields_guard hcause fun hc => hx hc s

theorem fill_typeOf {v : Value} (hv : TypedOr gap p.frame.program v) :
    Fill hole gap (p.typeOf v) := .orPanic hv

theorem fill_typeId (t : Ty) : Fill hole gap (p.run (typeId t)) :=
  .located (.asks fun _ => asks_typeId t)

theorem fill_define (id : InstrId) (word : UInt32) : Fill hole gap (define id word) :=
  fun s => .of_ok (a := ()) (modifyBody_ok.2 rfl) (.withValues s _)

theorem fill_operand (v : Value) : Fill hole gap (p.operand v) := by
  have hgiven : Fill hole gap (p.given v) := by
    refine .getBind fun s => ?_
    cases List.lookup v s.body.values with
    | some id => exact .pure id
    | none => exact fill_fail rfl
  cases v with
  | missing => exact fill_fail rfl
  | constant c => exact .located (.asks fun _ => asks_constantId c)
  | param _ | result _ => exact hgiven

theorem fill_checkDomain {first : Option Ty} {operands : List Value}
    (h : ∀ v ∈ operands, TypedOr gap p.frame.program v) :
    Fill hole gap (p.checkDomain domain first operands) := by
  induction operands generalizing first with
  | nil => exact .pure ()
  | cons v rest ih =>
    obtain ⟨hv, hrest⟩ := List.forall_mem_cons.1 h
    refine .bind (fill_typeOf hv) fun t => fill_guard rfl fun _ => ?_
    cases first with
    | none => exact ih hrest
    | some t₁ => exact fill_guard rfl fun _ => ih hrest

theorem fill_emitUnary (hop : op.IsUnary) (x : Value)
    (hid : TypedOr gap p.frame.program (.result id)) : Fill hole gap (p.emitUnary id op x) := by
  refine .bind (fill_typeOf hid) fun t => .bind (fill_typeId t) fun type => ?_
  refine .bind (fill_operand x) fun a => ?_
  exact .bind (.emitNew hop.plain) fun word => fill_define id word

theorem fill_emitBinary (hop : op.IsBinary) (left right : Value)
    (hid : TypedOr gap p.frame.program (.result id)) :
    Fill hole gap (p.emitBinary id op left right) := by
  refine .bind (fill_typeOf hid) fun t => .bind (fill_typeId t) fun type => ?_
  refine .bind (fill_operand left) fun a => .bind (fill_operand right) fun b => ?_
  exact .bind (.emitNew hop.plain) fun word => fill_define id word

theorem fill_emitConvert {x : Value} {source targetDomain : Domain} {target : Ty}
    (hid : TypedOr gap p.frame.program (.result id)) (hx : TypedOr gap p.frame.program x) :
    Fill hole gap (p.emitConvert id x source target targetDomain) := by
  refine fill_guard rfl fun _ => .bind (fill_typeOf hx) fun t => ?_
  refine .bind (.asks fun _ => asks_normalize t) fun declaredSource => ?_
  refine .bind (.asks fun _ => asks_normalize target) fun declaredTarget => ?_
  cases hop : convertOpcode? declaredSource declaredTarget source targetDomain with
  | none => exact fill_fail rfl
  | some op =>
    refine .ite (.bind (fill_operand x) fun a => fill_define id a) ?_
    exact fill_emitUnary (isUnary_of_conversion (conversion_iff.2 hop)) x hid

theorem fill_emitLoad (id : InstrId) {pointer : Value}
    (hpointer : TypedOr gap p.frame.program pointer) : Fill hole gap (p.emitLoad id pointer) := by
  refine .bind (fill_typeOf hpointer) fun t => ?_
  cases t with
  | pointer elem space =>
    refine .bind (fill_typeId elem) fun type => .bind (fill_operand pointer) fun a => ?_
    exact .bind (.emitNew (by decide)) fun word => fill_define id word
  | _ => exact fill_fail rfl

theorem fill_emitStore {value pointer : Value} (hvalue : TypedOr gap p.frame.program value)
    (hpointer : TypedOr gap p.frame.program pointer) :
    Fill hole gap (p.emitStore value pointer) := by
  refine .bind (fill_typeOf hpointer) fun t => ?_
  cases t with
  | pointer elem space =>
    refine .bind (fill_typeOf hvalue) fun t => fill_guard rfl fun _ => ?_
    refine .bind (fill_operand pointer) fun a => .bind (fill_operand value) fun b => ?_
    exact .emit (by decide)
  | _ => exact fill_fail rfl

theorem fill_emitElementPtr (id : InstrId) {base index : Value}
    (hbase : TypedOr gap p.frame.program base) (hindex : TypedOr gap p.frame.program index) :
    Fill hole gap (p.emitElementPtr id base index) := by
  refine .bind (fill_typeOf hbase) fun t => ?_
  cases t with
  | pointer elem space =>
    refine fill_guard rfl fun _ => .bind (fill_typeOf hindex) fun t => fill_guard rfl fun _ => ?_
    refine .bind (.located (.asks fun _ => asks_stridedPointerId elem space)) fun type => ?_
    refine .bind (fill_operand base) fun a => .bind (fill_operand index) fun b => ?_
    exact .bind (.emitNew (by decide)) fun word => fill_define id word
  | _ => exact fill_fail rfl

theorem fill_arguments {callee : Text} {index : Nat} {params : List (Option Param)}
    (hargs : ∀ v ∈ args, TypedOr gap p.frame.program v) (hparams : none ∈ params → gap) :
    Fill hole gap (p.arguments callee index args params) := by
  induction args generalizing index params with
  | nil => exact .pure []
  | cons arg args ih =>
    obtain ⟨harg, hrest⟩ := List.forall_mem_cons.1 hargs
    cases params with
    | nil => exact .pure []
    | cons param params =>
      cases param with
      | none => exact .panic (hparams List.mem_cons_self)
      | some q =>
        refine .bind (fill_typeOf harg) fun t => fill_guard rfl fun _ => ?_
        refine .bind (fill_operand arg) fun id => ?_
        exact .bind (ih hrest fun h => hparams (List.mem_cons_of_mem _ h)) fun ids => .pure _

theorem fill_emitCall (id : InstrId) {callee : Option FuncId}
    (hargs : ∀ v ∈ args, TypedOr gap p.frame.program v)
    (hcallee : ∀ f g, callee = some f → p.frame.program.func? f = some g → none ∈ g.params → gap) :
    Fill hole gap (p.emitCall id callee args) := by
  unfold emitCall
  cases hfound : callee.bind fun f => (p.frame.program.func? f).map fun g => (f, g) with
  | none => exact fill_fail rfl
  | some found =>
    obtain ⟨f, g⟩ := found
    refine .getBind fun s => ?_
    cases List.lookup (some f) s.functions with
    | none => exact fill_fail rfl
    | some function =>
      have hparams : none ∈ g.params → gap := by
        obtain ⟨f', rfl, hg⟩ := Option.bind_eq_some_iff.1 hfound
        obtain ⟨g', hg', heq⟩ := Option.map_eq_some_iff.1 hg
        obtain ⟨rfl, rfl⟩ := Prod.mk.inj heq
        exact hcallee f' g' rfl hg'
      refine fill_guard rfl fun _ => .bind (fill_arguments hargs hparams) fun ids => ?_
      refine .bind (fill_typeId _) fun type => ?_
      exact .bind (.emitNew (by decide)) fun word => fill_define id word

/-- An instruction that does not end its block. -/
theorem fill_emitInstr {i : Instr} (h : Excused hole gap p.frame.program id (some i))
    (hi : i.isTerminator = false) : Fill hole gap (p.emitInstr id (some i)) := by
  refine fill_guard rfl fun hmissing => ?_
  have hops := h.typedOr hmissing
  cases i with
  | localVar name elem => exact .pure ()
  | binary op domain l r =>
    have hid := typedOr_binary h.found (hops l (by simp [Instr.operands]))
    refine .bind (fill_checkDomain hops) fun _ => ?_
    cases hop : binaryOpcode? op domain with
    | none => exact fill_fail rfl
    | some opcode =>
      exact fill_emitBinary (isBinary_of_arithmetic (mem_arithmeticTable.2 hop)) l r hid
  | compare pred domain l r =>
    have hid : TypedOr gap p.frame.program (.result id) := by
      intro f hf
      simp [Program.typeOf_compare h.found] at hf
    refine .bind (fill_checkDomain hops) fun _ => ?_
    cases hop : compareOpcode? pred domain with
    | none => exact fill_fail rfl
    | some opcode =>
      exact fill_emitBinary (isBinary_of_comparison (mem_comparisonTable.2 hop)) l r hid
  | negate domain x =>
    have hid := typedOr_negate h.found (hops x (by simp [Instr.operands]))
    refine .bind (fill_checkDomain hops) fun _ => ?_
    exact fill_emitUnary (isUnary_negate domain) x hid
  | convert x source type target =>
    refine fill_emitConvert ?_ (hops x (by simp [Instr.operands]))
    intro f hf
    simp [Program.typeOf_convert h.found] at hf
  | load pointer => exact fill_emitLoad id (hops pointer (by simp [Instr.operands]))
  | store value pointer =>
    exact fill_emitStore (hops value (by simp [Instr.operands]))
      (hops pointer (by simp [Instr.operands]))
  | elementPtr base index =>
    exact fill_emitElementPtr id (hops base (by simp [Instr.operands]))
      (hops index (by simp [Instr.operands]))
  | call callee args =>
    refine fill_emitCall id hops fun f g hf hg => ?_
    exact h.callee f args g (by rw [hf]) hg
  | branch target => cases hi
  | condBranch cond t f merge => cases hi
  | ret value => cases hi

theorem fill_hoist (id : InstrId) (slot : Option Instr) : Fill hole gap (p.hoist id slot) := by
  unfold hoist
  split
  · refine .bind (fill_typeId _) fun type => .bind (.emitNew (by decide)) fun word => ?_
    refine .bind (fill_define id word) fun _ => .ite (.emitTo (by decide)) (.pure ())
  · exact .pure ()

theorem fill_hoistAll (instrs : List (InstrId × Option Instr)) :
    Fill hole gap (p.hoistAll instrs) := by
  induction instrs with
  | nil => exact .pure ()
  | cons entry rest ih => exact .bind (fill_hoist entry.1 entry.2) fun _ => ih

end Place

end Elementwise.Spirv
