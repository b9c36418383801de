import Elementwise.IR.File
import Elementwise.Proofs.PackedValues
import Elementwise.Proofs.Reload
import Mathlib.Tactic.MkIffOfInductiveProp

/-!
# The MessagePack form of a program loses nothing

What is written of a wire module is read back as the same module, whatever follows, as long as its
texts and lists have sizes that a header can say. So two programs have the same bytes exactly if
they have the same wire form.

A record is read field by field. A field that is left out is empty, and the record that is read into
is empty there as well.
-/
namespace Elementwise.IR.Wire

/-! ## Sizes -/

/-- The text is shorter than the largest size of a header. -/
def ShortText (t : Text) : Prop := t.bytes.length < 2 ^ 32

instance : DecidablePred ShortText := fun t => Nat.decLt t.bytes.length (2 ^ 32)

/-- The list is shorter than the largest size of a header, and its items are short. -/
def ShortList {α : Type} (short : α → Prop) (xs : List α) : Prop :=
  xs.length < 2 ^ 32 ∧ ∀ x ∈ xs, short x

instance {α : Type} {short : α → Prop} [DecidablePred short] : DecidablePred (ShortList short) :=
  fun xs => inferInstanceAs (Decidable (xs.length < 2 ^ 32 ∧ ∀ x ∈ xs, short x))

@[mk_iff]
structure Instr.Short (i : Instr) : Prop where
  result : ShortText i.result
  op : ShortText i.op
  domain : ShortText i.domain
  pred : ShortText i.pred
  type : ShortText i.type
  toDomain : ShortText i.toDomain
  callee : ShortText i.callee
  args : ShortList ShortText i.args
  targets : ShortList ShortText i.targets

instance : DecidablePred Instr.Short := fun i => decidable_of_iff' _ (Instr.short_iff i)

@[mk_iff]
structure Loop.Short (l : Loop) : Prop where
  merge : ShortText l.merge
  continue_ : ShortText l.continue_

instance : DecidablePred Loop.Short := fun l => decidable_of_iff' _ (Loop.short_iff l)

@[mk_iff]
structure Block.Short (b : Block) : Prop where
  name : ShortText b.name
  loop : ∀ l ∈ b.loop, l.Short
  instrs : ShortList Instr.Short b.instrs

instance : DecidablePred Block.Short := fun b => decidable_of_iff' _ (Block.short_iff b)

@[mk_iff]
structure Param.Short (p : Param) : Prop where
  name : ShortText p.name
  type : ShortText p.type

instance : DecidablePred Param.Short := fun p => decidable_of_iff' _ (Param.short_iff p)

@[mk_iff]
structure Func.Short (f : Func) : Prop where
  name : ShortText f.name
  params : ShortList Param.Short f.params
  result : ShortText f.result
  blocks : ShortList Block.Short f.blocks

instance : DecidablePred Func.Short := fun f => decidable_of_iff' _ (Func.short_iff f)

/-- All texts and lists of the module are shorter than the largest size of a header. -/
@[mk_iff]
structure Module.Short (m : Module) : Prop where
  name : ShortText m.name
  functions : ShortList Func.Short m.functions

instance : DecidablePred Module.Short := fun m => decidable_of_iff' _ (Module.short_iff m)

end Elementwise.IR.Wire

namespace Elementwise.Msgpack
open IR IR.Wire

/-! ## What is written has sizes -/

variable {m : Wire.Module}

section Sizes

/-- A field that is there has a name and a value of sizes that a header can say. -/
def FieldSized (f : Option (String × Value)) : Prop :=
  ∀ e ∈ f, ShortText e.1 ∧ e.2.Sized

variable {name : String} {t : Text} {v : Value} {α : Type} {write : α → Value} {xs : List α}

theorem sized_ofText (h : ShortText t) : (Value.ofText t).Sized := .text h

theorem fieldSized_field (hname : ShortText name) (h : v.Sized) : FieldSized (field name v) := by
  rintro e ⟨⟩
  exact ⟨hname, h⟩

theorem fieldSized_optionalText (hname : ShortText name) (h : ShortText t) :
    FieldSized (optionalText name t) := by
  unfold optionalText
  split_ifs
  · rintro e ⟨⟩
  · exact fieldSized_field hname (sized_ofText h)

theorem sized_array {short : α → Prop} (h : ShortList short xs)
    (hwrite : ∀ x, short x → (write x).Sized) : (Value.array (xs.map write)).Sized := by
  refine .array ?_ fun v hv => ?_
  · rw [List.length_map]
    exact h.1
  · obtain ⟨x, hx, rfl⟩ := List.mem_map.1 hv
    exact hwrite x (h.2 x hx)

theorem sized_list {short : α → Prop} (h : ShortList short xs)
    (hwrite : ∀ x, short x → (write x).Sized) : (Value.list (xs.map write)).Sized := by
  unfold Value.list
  split_ifs
  · exact .nil
  · exact sized_array h hwrite

theorem fieldSized_optionalList {short : α → Prop} (hname : ShortText name)
    (h : ShortList short xs) (hwrite : ∀ x, short x → (write x).Sized) :
    FieldSized (optionalList name (xs.map write)) := by
  unfold optionalList
  split_ifs
  · rintro e ⟨⟩
  · exact fieldSized_field hname (sized_array h hwrite)

theorem sized_record {fields : List (Option (String × Value))} (hlength : fields.length < 2 ^ 32)
    (h : ∀ f ∈ fields, FieldSized f) : (Value.record fields).Sized := by
  have hentry : ∀ e ∈ (fields.filterMap (·)).map
      fun (e : String × Value) => (Value.ofText e.1, e.2), e.1.Sized ∧ e.2.Sized := by
    intro e he
    obtain ⟨f, hf, rfl⟩ := List.mem_map.1 he
    obtain ⟨slot, hslot, hmem⟩ := List.mem_filterMap.1 hf
    obtain ⟨hname, hvalue⟩ := h slot hslot f hmem
    exact ⟨sized_ofText hname, hvalue⟩
  refine .map ?_ (fun e he => (hentry e he).1) fun e he => (hentry e he).2
  rw [List.length_map]
  exact Nat.lt_of_le_of_lt (List.length_filterMap_le _ _) hlength

theorem sized_ofInstr {i : Wire.Instr} (h : i.Short) : (ofInstr i).Sized := by
  refine sized_record (by simp) ?_
  simp only [List.forall_mem_cons]
  exact ⟨fieldSized_optionalText (by decide) h.result,
    fieldSized_field (by decide) (sized_ofText h.op),
    fieldSized_optionalText (by decide) h.domain, fieldSized_optionalText (by decide) h.pred,
    fieldSized_optionalText (by decide) h.type, fieldSized_optionalText (by decide) h.toDomain,
    fieldSized_optionalText (by decide) h.callee,
    fieldSized_optionalList (by decide) h.args fun _ => sized_ofText,
    fieldSized_optionalList (by decide) h.targets fun _ => sized_ofText, by simp⟩

theorem sized_ofLoop {l : Wire.Loop} (h : l.Short) : (ofLoop l).Sized := by
  refine sized_record (by simp) ?_
  simp only [List.forall_mem_cons]
  exact ⟨fieldSized_field (by decide) (sized_ofText h.merge),
    fieldSized_field (by decide) (sized_ofText h.continue_), by simp⟩

theorem sized_ofBlock {b : Wire.Block} (h : b.Short) : (ofBlock b).Sized := by
  refine sized_record (by simp) ?_
  simp only [List.forall_mem_cons]
  refine ⟨fieldSized_field (by decide) (sized_ofText h.name), ?_,
    fieldSized_field (by decide) (sized_list h.instrs fun _ => sized_ofInstr), by simp⟩
  intro e he
  obtain ⟨l, hl, rfl⟩ := Option.map_eq_some_iff.1 he
  exact ⟨show ShortText "loop" by decide, sized_ofLoop (h.loop l hl)⟩

theorem sized_ofParam {p : Wire.Param} (h : p.Short) : (ofParam p).Sized := by
  refine sized_record (by simp) ?_
  simp only [List.forall_mem_cons]
  exact ⟨fieldSized_field (by decide) (sized_ofText h.name),
    fieldSized_field (by decide) (sized_ofText h.type), by simp⟩

theorem sized_ofFunc {f : Wire.Func} (h : f.Short) : (ofFunc f).Sized := by
  refine sized_record (by simp) ?_
  simp only [List.forall_mem_cons]
  exact ⟨fieldSized_field (by decide) (sized_ofText h.name),
    fieldSized_optionalList (by decide) h.params fun _ => sized_ofParam,
    fieldSized_optionalText (by decide) h.result,
    fieldSized_field (by decide) (sized_list h.blocks fun _ => sized_ofBlock), by simp⟩

theorem sized_ofModule (h : m.Short) : (ofModule m).Sized := by
  refine sized_record (by simp) ?_
  simp only [List.forall_mem_cons]
  exact ⟨fieldSized_field (by decide) (sized_ofText h.name),
    fieldSized_field (by decide) (sized_list h.functions fun _ => sized_ofFunc), by simp⟩

end Sizes

/-! ## Records and lists are read back -/

/-- The list as it is read, with nothing set aside. -/
def Slots.of {α : Type} (xs : List α) : Slots α := ⟨xs.length, xs⟩

theorem Slots.items_of {α : Type} (xs : List α) : (Slots.of xs).items = xs := List.take_length

namespace Reader

variable {α β : Type} {r : Reader α} {x y : α} {name : String} {step : α → Value → Option α}

theorem over?_record_some (hstep : List.lookup (name : Text) r.fields = some step) {v : Value}
    (h : step x v = some y) (rest : List (Option (String × Value))) :
    r.over? x (.record (field name v :: rest)) = r.over? y (.record rest) := by
  have hname : toText? (.ofText name) = some (name : Text) := rfl
  change r.entries? x ((Value.ofText name, v) :: _) = _
  simp only [entries?, hname, hstep, h]
  rfl

/-- A text that is left out is empty, as it is in the record that is read into. -/
theorem over?_record_optionalText (hstep : List.lookup (name : Text) r.fields = some step)
    {t : Text} (h : step x (.ofText t) = some y) (hempty : t = "" → x = y)
    (rest : List (Option (String × Value))) :
    r.over? x (.record (optionalText name t :: rest)) = r.over? y (.record rest) := by
  unfold optionalText
  split_ifs with ht
  · have hnil : t = "" := congrArg Text.mk (List.isEmpty_iff.1 ht)
    rw [hempty hnil]
    rfl
  · exact over?_record_some hstep h rest

theorem over?_record_optionalList (hstep : List.lookup (name : Text) r.fields = some step)
    {items : List Value} (h : step x (.array items) = some y) (hempty : items = [] → x = y)
    (rest : List (Option (String × Value))) :
    r.over? x (.record (optionalList name items :: rest)) = r.over? y (.record rest) := by
  unfold optionalList
  split_ifs with hitems
  · rw [hempty (List.isEmpty_iff.1 hitems)]
    rfl
  · exact over?_record_some hstep h rest

variable {write : β → Value} {read : β → α}

theorem items?_map (h : ∀ b, r.over? r.empty (write b) = some (read b)) (xs : List β) :
    r.items? [] (xs.map write) = some (xs.map read) := by
  induction xs with
  | nil => rfl
  | cons b rest ih =>
    simp only [List.map_cons, items?, List.head?_nil, Option.getD_none, List.tail_nil, h, ih,
      Option.map_some]

theorem list?_array (h : ∀ b, r.over? r.empty (write b) = some (read b)) (xs : List β) :
    r.list? {} (.array (xs.map write)) = some (.of (xs.map read)) := by
  rw [list?, items?_map h, Slots.of, List.length_map, List.length_map]
  rfl

theorem list?_list (h : ∀ b, r.over? r.empty (write b) = some (read b)) (xs : List β) :
    r.list? {} (.list (xs.map write)) = some (.of (xs.map read)) := by
  cases xs with
  | nil => rfl
  | cons b rest => exact list?_array h (b :: rest)

end Reader

theorem toTexts?_array (ts : List Text) :
    toTexts? [] (.array (ts.map .ofText)) = some ts := by
  have hall : ∀ ts : List Text, (ts.map Value.ofText).mapM toText? = some ts := by
    intro ts
    induction ts with
    | nil => rfl
    | cons t rest ih => simp [ih, toText?, Value.ofText]
  exact hall ts

/-! ## The wire form is read back -/

open Reader

theorem over?_ofInstr (i : Wire.Instr) : instrReader.over? {} (ofInstr i) = some i := by
  obtain ⟨result, op, domain, pred, type, toDomain, callee, args, targets⟩ := i
  have hargs : ∀ ts : List Text, ts.map Value.ofText = [] → ts = [] :=
    fun _ => List.map_eq_nil_iff.1
  dsimp only [ofInstr]
  rw [over?_record_optionalText (y := { result }) rfl rfl (fun h => by rw [h]),
    over?_record_some (y := { result, op }) rfl rfl,
    over?_record_optionalText (y := { result, op, domain }) rfl rfl (fun h => by rw [h]),
    over?_record_optionalText (y := { result, op, domain, pred }) rfl rfl (fun h => by rw [h]),
    over?_record_optionalText (y := { result, op, domain, pred, type }) rfl rfl
      (fun h => by rw [h]),
    over?_record_optionalText (y := { result, op, domain, pred, type, toDomain }) rfl rfl
      (fun h => by rw [h]),
    over?_record_optionalText (y := { result, op, domain, pred, type, toDomain, callee }) rfl rfl
      (fun h => by rw [h]),
    over?_record_optionalList (y := { result, op, domain, pred, type, toDomain, callee, args }) rfl
      (by dsimp only; rw [toTexts?_array]; rfl) (fun h => by rw [hargs args h]),
    over?_record_optionalList
      (y := { result, op, domain, pred, type, toDomain, callee, args, targets }) rfl
      (by dsimp only; rw [toTexts?_array]; rfl) (fun h => by rw [hargs targets h])]
  rfl

theorem over?_ofLoop (l : Wire.Loop) : loopReader.over? {} (ofLoop l) = some l := by
  obtain ⟨merge, continue_⟩ := l
  dsimp only [ofLoop]
  rw [over?_record_some (y := { merge }) rfl rfl,
    over?_record_some (y := { merge, continue_ }) rfl rfl]
  rfl

theorem over?_ofParam (p : Wire.Param) : paramReader.over? {} (ofParam p) = some p := by
  obtain ⟨name, type⟩ := p
  dsimp only [ofParam]
  rw [over?_record_some (y := { name }) rfl rfl, over?_record_some (y := { name, type }) rfl rfl]
  rfl

/-- The block as it is read. -/
def BlockDraft.of (b : Wire.Block) : BlockDraft := ⟨b.name, b.loop, .of b.instrs⟩

theorem BlockDraft.finish_of (b : Wire.Block) : (BlockDraft.of b).finish = b := by
  rw [finish, of, Slots.items_of]

/-- The function as it is read. -/
def FuncDraft.of (f : Wire.Func) : FuncDraft :=
  ⟨f.name, .of f.params, f.result, .of (f.blocks.map .of)⟩

theorem FuncDraft.finish_of (f : Wire.Func) : (FuncDraft.of f).finish = f := by
  have hblocks : (f.blocks.map BlockDraft.of).map BlockDraft.finish = f.blocks := by
    simp [Function.comp_def, BlockDraft.finish_of]
  rw [finish, of, Slots.items_of, Slots.items_of, hblocks]

/-- The module as it is read. -/
def ModuleDraft.of (m : Wire.Module) : ModuleDraft := ⟨m.name, .of (m.functions.map .of)⟩

theorem ModuleDraft.finish_of (m : Wire.Module) : (ModuleDraft.of m).finish = m := by
  have hfunctions : (m.functions.map FuncDraft.of).map FuncDraft.finish = m.functions := by
    simp [Function.comp_def, FuncDraft.finish_of]
  rw [finish, of, Slots.items_of, hfunctions]

theorem toLoop?_ofLoop (l : Wire.Loop) : toLoop? none (ofLoop l) = some (some l) := by
  change (loopReader.over? {} (ofLoop l)).map some = _
  rw [over?_ofLoop]
  rfl

theorem over?_ofBlock (b : Wire.Block) : blockReader.over? {} (ofBlock b) = some (.of b) := by
  obtain ⟨name, loop, instrs⟩ := b
  have hinstrs : instrReader.list? {} (.list (instrs.map ofInstr)) = some (.of instrs) := by
    rw [list?_list over?_ofInstr, List.map_id']
  have hloop : ∀ rest,
      blockReader.over? { name } (.record ((loop.map fun l => ("loop", ofLoop l)) :: rest)) =
        blockReader.over? { name, loop } (.record rest) := by
    intro rest
    cases loop with
    | none => rfl
    | some l => exact over?_record_some rfl (by dsimp only; rw [toLoop?_ofLoop]; rfl) rest
  dsimp only [ofBlock]
  rw [over?_record_some (y := { name }) rfl rfl, hloop,
    over?_record_some (y := { name, loop, instrs := .of instrs }) rfl
      (by dsimp only; rw [hinstrs]; rfl)]
  rfl

theorem over?_ofFunc (f : Wire.Func) : funcReader.over? {} (ofFunc f) = some (.of f) := by
  obtain ⟨name, params, result, blocks⟩ := f
  have hparams : paramReader.list? {} (.array (params.map ofParam)) = some (.of params) := by
    rw [list?_array over?_ofParam, List.map_id']
  dsimp only [ofFunc]
  rw [over?_record_some (y := { name }) rfl rfl,
    over?_record_optionalList (y := { name, params := .of params }) rfl
      (by dsimp only; rw [hparams]; rfl) (fun h => by rw [List.map_eq_nil_iff.1 h]; rfl),
    over?_record_optionalText (y := { name, params := .of params, result }) rfl rfl
      (fun h => by rw [h]),
    over?_record_some
      (y := { name, params := .of params, result, blocks := .of (blocks.map .of) }) rfl
      (by dsimp only; rw [list?_list over?_ofBlock]; rfl)]
  rfl

theorem over?_ofModule (m : Wire.Module) : moduleReader.over? {} (ofModule m) = some (.of m) := by
  obtain ⟨name, functions⟩ := m
  dsimp only [ofModule]
  rw [over?_record_some (y := { name }) rfl rfl,
    over?_record_some (y := { name, functions := .of (functions.map .of) }) rfl
      (by dsimp only; rw [list?_list over?_ofFunc]; rfl)]
  rfl

theorem readModule?_writeModule (h : m.Short) (rest : List UInt8) :
    readModule? (writeModule m ++ rest) = some m := by
  rw [readModule?, writeModule, read?_write (sized_ofModule h), Option.bind_some]
  change (moduleReader.over? {} (ofModule m)).map ModuleDraft.finish = _
  rw [over?_ofModule, Option.map_some, ModuleDraft.finish_of]

/-- Modules with the same bytes are the same. -/
theorem writeModule_injective {m' : Wire.Module} (h : m.Short) (h' : m'.Short)
    (hbytes : writeModule m = writeModule m') : m = m' := by
  have hread := readModule?_writeModule h []
  rw [hbytes, readModule?_writeModule h'] at hread
  exact (Option.some.inj hread).symm

end Elementwise.Msgpack

namespace Elementwise.IR
open Msgpack

/-- The wire form of a program, if it has one, is short. -/
def Program.ShortForm (p : Program) : Prop := ∀ w, p.encode = .ok w → w.Short

theorem Program.msgpack_eq_iff {p q : Program} (hp : p.ShortForm) (hq : q.ShortForm) :
    p.msgpack = q.msgpack ↔ p.encode = q.encode := by
  constructor
  · intro h
    unfold msgpack at h
    cases hw : p.encode with
    | error e =>
      cases hw' : q.encode with
      | error e' =>
        rw [hw, hw'] at h
        cases h
        rfl
      | ok w' =>
        rw [hw, hw'] at h
        cases h
    | ok w =>
      cases hw' : q.encode with
      | error e' =>
        rw [hw, hw'] at h
        cases h
      | ok w' =>
        rw [hw, hw'] at h
        exact congrArg _ (writeModule_injective (hp w hw) (hq w' hw') (Except.ok.inj h))
  · intro h
    rw [msgpack, msgpack, h]

/-- The bytes of a program, with any bytes after them, are read from a file as the wire form of the
program, and programs have the same bytes exactly if they have the same wire form. -/
theorem Program.read_msgpack {p : Program} {w : Wire.Module} (hw : p.encode = .ok w)
    (hshort : w.Short) :
    ∃ bytes, p.msgpack = .ok bytes ∧
      (∀ path rest, Text.Case.lowerText (Path.extension path) ∈ [".msgpack", ".mp"] →
        (∃ format, FileFormat.ofExtension? (Text.Case.lowerText (Path.extension path)) =
            some format ∧ format.read? (bytes ++ rest) = some w) ∧
        Program.ofContent path (bytes ++ rest) =
          w.decode.mapError (ProgramFileError.decode path)) ∧
      ∀ q : Program, q.ShortForm → (p.msgpack = q.msgpack ↔ p.encode = q.encode) := by
  have hbytes : p.msgpack = .ok (writeModule w) := by
    rw [msgpack, hw]
    rfl
  have hp : p.ShortForm := fun w' hw' => Except.ok.inj (hw.symm.trans hw') ▸ hshort
  refine ⟨writeModule w, hbytes, fun path rest hpath => ?_, fun q hq => msgpack_eq_iff hp hq⟩
  have hread : FileFormat.read? .msgpack (writeModule w ++ rest) = some w :=
    readModule?_writeModule hshort rest
  have hformat : FileFormat.ofExtension? (Text.Case.lowerText (Path.extension path)) =
      some .msgpack := by
    rw [List.mem_pair] at hpath
    rcases hpath with heq | heq <;> rw [heq] <;> rfl
  refine ⟨⟨.msgpack, hformat, hread⟩, ?_⟩
  simp only [ofContent, hformat, hread]
  cases w.decode <;> rfl

/-- The copying kernel is read from a file with an extension in capitals. -/
theorem Program.read_msgpack_copied : ∃ bytes, copied.msgpack = .ok bytes ∧
    Program.ofContent "copy.MP" (bytes ++ [0xc1]) = .ok copied := by
  have hencode : copied.encode = .ok (copying "0" "1") := by decide +kernel
  obtain ⟨bytes, hbytes, hread, -⟩ := Program.read_msgpack hencode (by decide +kernel)
  refine ⟨bytes, hbytes, (hread "copy.MP" [0xc1] (by decide +kernel)).2.trans ?_⟩
  have hdecode : (copying "0" "1").decode = .ok copied := by decide +kernel
  rw [hdecode]
  rfl

end Elementwise.IR
