import Elementwise.IR.Wire.Decode
import Elementwise.Proofs.Relabeling

/-!
# Reading back what was written

The wire form refers to values, blocks and functions by name. Where the names in force in each
function are distinct, every name leads back to what it stands for, so reading the wire form of a
program gives the program in its settled form.
-/
namespace Elementwise.IR
open Text.Numeral Wire

/-! ## Programs whose names can be told apart -/

/-- A parameter, or a result of a type other than void. -/
def Program.written (p : Program) : Value → Bool
  | .result id => decide (p.typeOf (.result id) ≠ .ok .void)
  | _ => true

structure Func.Legible (p : Program) (f : Func) (id : FuncId) : Prop where
  /-- Local variables have names. -/
  locals : ∀ x ∈ f.entries id, ∀ name elem, x.2 = some (.localVar name elem) → name.isEmpty = false
  /-- Operands are not void. -/
  operands : ∀ x ∈ f.entries id, ∀ i ∈ x.2, ∀ v ∈ i.operands, p.typeOf v ≠ .ok .void
  /-- Names of parameters and results are distinct. -/
  values : ∀ n, Naming.ofFunc f id = .ok n → (((f.values id).filter p.written).map n.value).Nodup
  /-- Names of blocks are distinct. -/
  blocks : ∀ n, Naming.ofFunc f id = .ok n → ((f.body id).map fun b => n.block (some b.1)).Nodup

def Program.Legible (p : Program) : Prop := ∀ e ∈ p.functions, e.2.Legible p e.1

theorem Func.Scoped.legible {p : Program} {f : Func} {id : FuncId} (h : f.Scoped p id)
    (hlocals : ∀ x ∈ f.entries id,
      x.2.all fun | .localVar name _ => !name.isEmpty | _ => true)
    (hoperands : ∀ x ∈ f.entries id, ∀ i ∈ x.2, ∀ v ∈ i.operands, p.typeOf v ≠ .ok .void)
    (hvalues : (((f.values id).filter p.written).map (f.naming id).value).Nodup)
    (hblocks : ((f.body id).map fun b => (f.naming id).block (some b.1)).Nodup) :
    f.Legible p id where
  locals x hx name elem hi := by simpa [hi] using hlocals x hx
  operands := hoperands
  values n hn := by
    obtain rfl := Except.ok.inj (h.ofFunc_eq.symm.trans hn)
    exact hvalues
  blocks n hn := by
    obtain rfl := Except.ok.inj (h.ofFunc_eq.symm.trans hn)
    exact hblocks

/-! ## Instructions -/

theorem Wire.domain_text {d : Domain} (h : d.code < 3) : Wire.domain d.text = .ok d := by
  rw [Wire.domain, Domain.parse?_text h]

theorem Wire.predicate_text {pred : Predicate} (h : pred.code < 6) :
    Wire.predicate pred.text = .ok pred := by
  rw [Wire.predicate, Predicate.parse?_text h]

variable {t : Ty} {index k : Nat} {seen : List Text} {ws : List Wire.Func} {b : BlockId × Block}
  {es : List (FuncId × Func)}

theorem Ty.wireText_whole (h : t.whole) : t.wireText = .ok t.text := by
  cases t with
  | missing => cases h
  | _ => rfl

theorem Wire.type_text (h : t.whole) : Wire.type t.text = .ok t := by
  rw [Wire.type, Ty.parse_text h]

theorem exists_mapM_eq_ok {ε α β : Type} {xs : List α} {f : α → Except ε β}
    (h : ∀ x ∈ xs, ∃ y, f x = .ok y) : ∃ ys, xs.mapM f = .ok ys := by
  induction xs with
  | nil => exact ⟨[], rfl⟩
  | cons x xs ih =>
    obtain ⟨⟨y, hy⟩, hxs⟩ := List.forall_mem_cons.1 h
    obtain ⟨ys, hys⟩ := ih hxs
    exact ⟨y :: ys, mapM_cons_eq_ok.2 ⟨y, ys, hy, hys, rfl⟩⟩

theorem map_of_mapM_eq_ok {ε α β γ : Type} {xs : List α} {f : α → Except ε β} {ys : List β}
    {g : α → γ} {g' : β → γ} (h : ∀ x ∈ xs, ∀ y, f x = .ok y → g' y = g x)
    (hys : xs.mapM f = .ok ys) : ys.map g' = xs.map g := by
  induction xs generalizing ys with
  | nil =>
    cases hys
    rfl
  | cons x xs ih =>
    obtain ⟨hx, hxs⟩ := List.forall_mem_cons.1 h
    obtain ⟨y, ys', hy, hys', rfl⟩ := mapM_cons_eq_ok.1 hys
    rw [List.map_cons, List.map_cons, hx y hy, ih hxs hys']

section

variable {p : Program} {n : Naming} {r : Relabeling} {f : Func} {id : FuncId} {i : Instr}
  {s : Scope} {w : Wire.Instr}

theorem decodeInstr_encode (hw : i.encode p n = .ok w) (hformed : i.Formed p.Lists (f.Holds id))
    (hvalues : ∀ v ∈ i.operands, s.value (n.operand v) = .ok (r.value v))
    (hblocks : ∀ b ∈ f.body id, s.target (n.block (some b.1)) = .ok (r.block b.1))
    (hcallees : ∀ g ∈ p.functions, calleeName p (some g.1) = .ok g.2.name ∧
      s.funcs.findIdx? (· == g.2.name) = some (r.func g.1).index)
    {result : Text} (hlocal : ∀ name elem, i = .localVar name elem → result = name) :
    decodeInstr s { w with result := result } = .ok (r.instr i) := by
  have hone : ∀ x, i.operands = [x] → s.value (n.operand x) = .ok (r.value x) :=
    fun x h => hvalues x (by simp [h])
  have htwo : ∀ x y, i.operands = [x, y] →
      s.value (n.operand x) = .ok (r.value x) ∧ s.value (n.operand y) = .ok (r.value y) :=
    fun x y h => ⟨hvalues x (by simp [h]), hvalues y (by simp [h])⟩
  cases i with
  | binary op d x y =>
    cases hw
    simp only [decodeInstr, BinaryOp.parse?_text hformed.1, Scope.two, htwo x y rfl,
      domain_text hformed.2]
    rfl
  | compare pred d x y =>
    cases hw
    simp only [decodeInstr, Text.string?_ofString, Scope.two, htwo x y rfl,
      domain_text hformed.2, predicate_text hformed.1]
    rfl
  | negate d x =>
    cases hw
    simp only [decodeInstr, Text.string?_ofString, Scope.one, hone x rfl, domain_text hformed]
    rfl
  | convert x source type target =>
    obtain ⟨hsource, htype, htarget⟩ := hformed
    rw [Instr.encode, Ty.wireText_whole htype] at hw
    cases hw
    simp only [decodeInstr, Text.string?_ofString, Scope.one, hone x rfl, domain_text hsource,
      domain_text htarget, type_text htype]
    rfl
  | load pointer =>
    cases hw
    simp only [decodeInstr, Text.string?_ofString, Scope.one, hone pointer rfl]
    rfl
  | store x y | elementPtr x y =>
    cases hw
    simp only [decodeInstr, Text.string?_ofString, Scope.two, htwo x y rfl]
    rfl
  | localVar name elem =>
    rw [Instr.encode, Ty.wireText_whole hformed] at hw
    cases hw
    simp only [decodeInstr, Text.string?_ofString, type_text hformed, hlocal name elem rfl]
    rfl
  | call callee args =>
    obtain ⟨g, hg, rfl⟩ := hformed
    obtain ⟨hname, hindex⟩ := hcallees g hg
    rw [Instr.encode, hname] at hw
    cases hw
    have hargs : (args.map n.operand).mapM s.value = .ok (args.map r.value) := by
      rw [mapM_eq_ok_iff, List.forall₂_map_left_iff, List.forall₂_map_right_iff]
      exact List.forall₂_same.2 hvalues
    simp only [decodeInstr, Text.string?_ofString, decodeCall, hindex, hargs]
    rfl
  | branch target =>
    obtain ⟨b, hb, rfl⟩ := hformed
    cases hw
    simp only [decodeInstr, Text.string?_ofString, decodeBranch, hblocks b hb]
    rfl
  | condBranch cond t e merge =>
    obtain ⟨⟨b, hb, rfl⟩, ⟨b', hb', rfl⟩, hmerge⟩ := hformed
    cases hw
    simp only [decodeInstr, Text.string?_ofString, decodeCondBranch, Scope.one, hone cond rfl]
    rcases hmerge with rfl | ⟨m, hm, rfl⟩
    · change (do
        let t ← s.target (n.block (some b.1))
        let f ← s.target (n.block (some b'.1))
        return Instr.condBranch (r.value cond) (some t) (some f) none) = _
      rw [hblocks b hb, hblocks b' hb']
      rfl
    · change (do
        let t ← s.target (n.block (some b.1))
        let f ← s.target (n.block (some b'.1))
        let m ← s.target (n.block (some m.1))
        return Instr.condBranch (r.value cond) (some t) (some f) (some m)) = _
      rw [hblocks b hb, hblocks b' hb', hblocks m hm]
      rfl
  | ret x =>
    cases x with
    | missing =>
      cases hw
      simp only [decodeInstr, Text.string?_ofString]
      rfl
    | _ =>
      cases hw
      simp only [decodeInstr, Text.string?_ofString, Scope.one, hone _ rfl]
      rfl

end

/-! ## Reading step by step -/

theorem decodeInstrs_cons_eq_ok {id : BlockId} {block : Text} {s s' : Scope} {w : Wire.Instr}
    {rest : List Wire.Instr} {is : List (Option Instr)} :
    decodeInstrs id block s index (w :: rest) = .ok (is, s') ↔
      ∃ i is', decodeInstr s w = .ok i ∧ some i :: is' = is ∧
        ((w.result.isEmpty = true ∧ decodeInstrs id block s (index + 1) rest = .ok (is', s')) ∨
          (w.result.isEmpty = false ∧ i.isValue = true ∧ List.lookup w.result s.values = none ∧
            decodeInstrs id block
              { s with values := (w.result, .result ⟨id, index⟩) :: s.values } (index + 1) rest =
                .ok (is', s'))) := by
  rw [decodeInstrs]
  cases decodeInstr s w with
  | error fault => simp
  | ok i =>
    dsimp only
    cases hempty : w.result.isEmpty with
    | true => simp [bind_eq_ok, pure_eq_ok, -bind_pure_comp, and_comm]
    | false =>
      cases hvalue : i.isValue with
      | false => simp [hvalue]
      | true =>
        cases hlookup : List.lookup w.result s.values with
        | some v => simp
        | none => simp [bind_eq_ok, pure_eq_ok, -bind_pure_comp, hvalue, and_comm]

theorem decodeBlocks_cons_eq_ok {s : Scope} {w : Wire.Block} {rest : List Wire.Block}
    {bs : List Block} :
    decodeBlocks s index (w :: rest) = .ok bs ↔
      ∃ loop instrs s' blocks,
        ((w.loop = none ∧ loop = none) ∨
          ∃ l l', w.loop = some l ∧ decodeLoop s l = .ok l' ∧ loop = some l') ∧
        decodeInstrs ⟨s.func, index⟩ w.name s 0 w.instrs = .ok (instrs, s') ∧
        decodeBlocks s' (index + 1) rest = .ok blocks ∧ ⟨w.name, loop, instrs⟩ :: blocks = bs := by
  rw [decodeBlocks]
  cases w.loop with
  | none => simp [bind_eq_ok, pure_eq_ok, -bind_pure_comp]
  | some l =>
    cases hloop : decodeLoop s l <;>
      simp [hloop, Except.map, bind_eq_ok, pure_eq_ok, -bind_pure_comp]

theorem decodeParams_cons_eq_ok {func : Text} {w : Wire.Param} {rest : List Wire.Param}
    {qs : List Param} :
    decodeParams func (w :: rest) = .ok qs ↔ ∃ t qs', Ty.parse w.type = .ok t ∧
      decodeParams func rest = .ok qs' ∧ ⟨w.name, t⟩ :: qs' = qs := by
  rw [decodeParams]
  cases Ty.parse w.type with
  | error fault => simp
  | ok t => cases decodeParams func rest <;> simp [Except.map]

theorem decodeSignatures_cons_eq_ok {w : Wire.Func} {rest : List Wire.Func}
    {sigs : List (List Param × Ty)} :
    decodeSignatures seen (w :: rest) = .ok sigs ↔ w.name ∉ seen ∧ ∃ result params sigs',
      Ty.parse w.result = .ok result ∧ decodeParams w.name w.params = .ok params ∧
      decodeSignatures (w.name :: seen) rest = .ok sigs' ∧ (params, result) :: sigs' = sigs := by
  rw [decodeSignatures]
  by_cases hseen : w.name ∈ seen
  · simp [hseen]
  · cases Ty.parse w.result <;> simp [hseen, bind_eq_ok, pure_eq_ok, -bind_pure_comp]

theorem decodeFuncs_cons_eq_ok {funcs : List Text} {w : Wire.Func} {params : List Param}
    {result : Ty} {rest : List (Wire.Func × List Param × Ty)} {fs : List Func} :
    decodeFuncs funcs index ((w, params, result) :: rest) = .ok fs ↔ ∃ blocks fs',
      decodeBody funcs ⟨index⟩ params w = .ok blocks ∧
      decodeFuncs funcs (index + 1) rest = .ok fs' ∧
      ⟨w.name, params.map some, result, blocks, (List.range blocks.length).map some⟩ :: fs' =
        fs := by
  rw [decodeFuncs]
  cases decodeBody funcs ⟨index⟩ params w <;> simp [bind_eq_ok, pure_eq_ok, -bind_pure_comp]

theorem firstDuplicate?_eq_none {names : List Text} :
    firstDuplicate? seen names = none ↔ names.Nodup ∧ ∀ name ∈ names, name ∉ seen := by
  induction names generalizing seen with
  | nil => simp [firstDuplicate?]
  | cons name rest ih =>
    rw [firstDuplicate?]
    by_cases hseen : name ∈ seen
    · simp [hseen]
    · simp only [List.contains_iff_mem, hseen, if_false, ih, List.nodup_cons, List.mem_cons,
        forall_eq_or_imp, not_or]
      constructor
      · rintro ⟨hnodup, hrest⟩
        exact ⟨⟨fun hmem => (hrest name hmem).1 rfl, hnodup⟩, not_false, fun x hx => (hrest x hx).2⟩
      · rintro ⟨⟨hname, hnodup⟩, -, hrest⟩
        exact ⟨hnodup, fun x hx => ⟨fun heq => hname (heq ▸ hx), hrest x hx⟩⟩

/-! ## Operands -/

theorem Wire.Scope.value_percent (s : Scope) (name : Text) :
    s.value (("%" : Text) ++ name) =
      match List.lookup name s.values with
      | some v => .ok v
      | none => .error (.undefinedValue (("%" : Text) ++ name)) := rfl

theorem withoutPercent_percent (name : Text) : withoutPercent (("%" : Text) ++ name) = name := rfl

theorem lookup_map_of_nodup {α β γ : Type} [BEq β] [LawfulBEq β] {f : α → β} {g : α → γ}
    {xs : List α} (h : (xs.map f).Nodup) {x : α} (hx : x ∈ xs) :
    List.lookup (f x) (xs.map fun y => (f y, g y)) = some (g x) := by
  induction xs with
  | nil => cases hx
  | cons y ys ih =>
    obtain ⟨hy, hys⟩ := List.nodup_cons.1 h
    rw [List.map_cons, List.lookup_cons]
    rcases List.mem_cons.1 hx with rfl | hx
    · rw [beq_self_eq_true]
    · have hne : f x ≠ f y := fun heq => hy (heq ▸ List.mem_map_of_mem hx)
      rw [beq_eq_false_iff_ne.2 hne]
      exact ih hys hx

theorem drop_eq_cons {α : Type} {l xs : List α} {x : α} (h : l.drop k = x :: xs) :
    l[k]? = some x ∧ l.drop (k + 1) = xs := by
  rw [← List.head?_drop, ← List.tail_drop, h]
  exact ⟨rfl, rfl⟩

/-- The text begins with one of the letters that types and truth values begin with. -/
def BeginsWithLetter (s : String) : Prop :=
  ∃ first rest, s.toList = first :: rest ∧ first ∈ "vbifpt".toList

theorem BeginsWithLetter.append {s : String} (h : BeginsWithLetter s) (t : String) :
    BeginsWithLetter (s ++ t) := by
  obtain ⟨first, rest, hs, hfirst⟩ := h
  exact ⟨first, rest ++ t.toList, by rw [String.toList_append, hs]; rfl, hfirst⟩

theorem Ty.beginsWithLetter_text (h : t.whole) : BeginsWithLetter t.text := by
  cases t with
  | missing => cases h
  | void => exact ⟨'v', _, rfl, by decide⟩
  | bool => exact ⟨'b', _, rfl, by decide⟩
  | int w => exact ⟨'i', (decimal w.toNat).toList, by simp [Ty.text], by decide⟩
  | float w => exact ⟨'f', (decimal w.toNat).toList, by simp [Ty.text], by decide⟩
  | pointer elem space => exact ⟨'p', _, toList_text_pointer elem space, by decide⟩

theorem Constant.beginsWithLetter_wireText {c : Constant} (h : c.type.whole) :
    BeginsWithLetter c.wireText := by
  obtain ⟨type, bits⟩ := c
  have hhex : BeginsWithLetter (type.text ++ " 0x" ++ hex bits.toNat) :=
    ((Ty.beginsWithLetter_text h).append _).append _
  have hlit : ∀ literal : String, BeginsWithLetter (type.text ++ " " ++ literal) :=
    fun _ => ((Ty.beginsWithLetter_text h).append _).append _
  cases type with
  | missing => cases h
  | bool =>
    dsimp only [wireText, text]
    split
    · exact ⟨'f', _, rfl, by decide⟩
    · exact ⟨'t', _, rfl, by decide⟩
  | int w => exact hlit _
  | float w =>
    dsimp only [wireText, text]
    split_ifs
    · exact hlit _
    · exact hlit _
    · exact hhex
    · exact hhex
  | _ => exact hhex

/-- The text of a constant of a whole type is not taken for the name of a value. -/
theorem Constant.bytes_wireText {c : Constant} (h : c.type.whole) :
    ∃ first rest, (Text.ofString c.wireText).bytes = first :: rest ∧ first ≠ 0x25 := by
  obtain ⟨first, rest, htext, hfirst⟩ := beginsWithLetter_wireText h
  have hall : "vbifpt".toList.all fun c =>
      String.utf8EncodeChar c ≠ [] ∧ (String.utf8EncodeChar c).head? ≠ some 0x25 := by
    decide +kernel
  obtain ⟨hnil, hhead⟩ := List.all_iff_forall_prop.1 hall first hfirst
  obtain ⟨b, bs, hb⟩ := List.exists_cons_of_ne_nil hnil
  rw [hb, List.head?_cons] at hhead
  refine ⟨b, bs ++ rest.flatMap String.utf8EncodeChar, ?_, fun heq => hhead (congrArg some heq)⟩
  rw [Text.ofString, Text.Utf8.bytes, htext, List.flatMap_cons, hb]
  rfl

theorem findIdx?_map_of_nodup {α β : Type} [BEq β] [LawfulBEq β] {f : α → β} {xs : List α}
    (h : (xs.map f).Nodup) {x : α} (hx : xs[k]? = some x) :
    (xs.map f).findIdx? (· == f x) = some k := by
  obtain ⟨hk, rfl⟩ := List.getElem?_eq_some_iff.1 hx
  rw [List.findIdx?_eq_some_iff_getElem]
  refine ⟨by simpa using hk, by simp, fun j hj => ?_⟩
  rw [Bool.not_eq_true, beq_eq_false_iff_ne]
  intro heq
  have hk' : k < (xs.map f).length := by rwa [List.length_map]
  have hj' : j < (xs.map f).length := Nat.lt_trans hj hk'
  have hat : (xs.map f)[j] = (xs.map f)[k] := by simpa using heq
  exact absurd (h.getElem_inj_iff.1 hat) (Nat.ne_of_lt hj)

/-- What names stand for while the body of a function is read, given the values known so far. -/
def Program.scope (p : Program) (constant : Constant → Constant) (e : FuncId × Func)
    (known : List Value) : Scope where
  func := (p.places constant).func e.1
  funcs := p.functions.map fun g => g.2.name
  blocks := (e.2.body e.1).map fun b => (e.2.naming e.1).block (some b.1)
  values := (known.filter p.written).map fun v =>
    (withoutPercent ((e.2.naming e.1).value v), (p.places constant).value v)

theorem Func.Scoped.naming_block {p : Program} {f : Func} {id : FuncId} (h : f.Scoped p id)
    (hb : (f.body id)[k]? = some b) : (f.naming id).block (some b.1) = filled "bb" k b.2.name := by
  have hkey : b.1 ∈ (f.naming id).blocks.map Prod.fst :=
    List.mem_map.2 ⟨(b.1, filled "bb" k b.2.name),
      List.mem_reverse.2 (mem_mapIdx_iff.2 ⟨k, b, hb, rfl⟩), rfl⟩
  obtain ⟨text, hlookup, hmem⟩ := exists_lookup hkey
  obtain ⟨j, b', hb', heq⟩ := mem_mapIdx_iff.1 (List.mem_reverse.1 hmem)
  obtain ⟨hid, rfl⟩ := Prod.mk.inj heq
  have hplace := idxOf_map_fst h.once hb'
  rw [hid, idxOf_map_fst h.once hb] at hplace
  obtain rfl := hplace
  obtain rfl := Option.some.inj (hb.symm.trans hb')
  rw [Naming.block, Option.bind_some, hlookup, Option.getD_some]

namespace Program.Scoped

variable {p : Program} {σ : Constant → Constant} {e : FuncId × Func} {v : Value}
variable {known : List Value} {x : InstrId × Option Instr} {i : Instr}

theorem scope_callee (h : p.Scoped) {g : FuncId × Func} (hg : g ∈ p.functions) :
    calleeName p (some g.1) = .ok g.2.name ∧
      (p.scope σ e known).funcs.findIdx? (· == g.2.name) =
        some ((p.places σ).func g.1).index := by
  obtain ⟨k, hk⟩ := List.mem_iff_getElem?.1 hg
  constructor
  · rw [calleeName, Option.bind_some, func?_of_mem_functions hg]
  · rw [scope, findIdx?_map_of_nodup h.names hk, h.places_func hk]

section

variable (h : p.Scoped) (he : e ∈ p.functions)
include h he

theorem exists_percent (hv : v ∈ e.2.values e.1) :
    ∃ name, name.isEmpty = false ∧ (e.2.naming e.1).value v = ("%" : Text) ++ name ∧
      (e.2.naming e.1).operand v = ("%" : Text) ++ name := by
  obtain ⟨text, hshows, htext⟩ := h.exists_name he hv
  cases v with
  | missing => cases hshows
  | constant c => cases hshows
  | param id =>
    obtain ⟨q, -, rfl⟩ := hshows
    exact ⟨_, isEmpty_filled (by decide) _ _, htext _, htext _⟩
  | result id =>
    obtain ⟨i, name, -, rfl, hname, -⟩ := hshows
    exact ⟨name, hname, htext _, htext _⟩

theorem isEmpty_name (hv : v ∈ e.2.values e.1) :
    (withoutPercent ((e.2.naming e.1).value v)).isEmpty = false := by
  obtain ⟨name, hempty, hvalue, -⟩ := h.exists_percent he hv
  rwa [hvalue, withoutPercent_percent]

theorem nodup_names (hl : e.2.Legible p e.1) :
    (((e.2.values e.1).filter p.written).map fun v =>
      withoutPercent ((e.2.naming e.1).value v)).Nodup := by
  have hnodup := hl.values _ (h.functions e he).ofFunc_eq
  have hpercent : ((e.2.values e.1).filter p.written).map (e.2.naming e.1).value =
      (((e.2.values e.1).filter p.written).map fun v =>
        withoutPercent ((e.2.naming e.1).value v)).map fun name => ("%" : Text) ++ name := by
    rw [List.map_map]
    refine List.map_congr_left fun v hv => ?_
    obtain ⟨name, -, hvalue, -⟩ := h.exists_percent he (List.mem_of_mem_filter hv)
    rw [Function.comp_apply, hvalue, withoutPercent_percent]
  rw [hpercent] at hnodup
  exact hnodup.of_map _

theorem scope_block (hl : e.2.Legible p e.1) (hb : b ∈ e.2.body e.1) :
    (p.scope σ e known).block ((e.2.naming e.1).block (some b.1)) =
      some ((p.places σ).block b.1) := by
  obtain ⟨k, hk⟩ := List.mem_iff_getElem?.1 hb
  have hindex := findIdx?_map_of_nodup (hl.blocks _ (h.functions e he).ofFunc_eq) hk
  rw [Scope.block, scope, hindex, h.places_block he hk]
  rfl

theorem scope_target (hl : e.2.Legible p e.1) (hb : b ∈ e.2.body e.1) :
    (p.scope σ e known).target ((e.2.naming e.1).block (some b.1)) =
      .ok ((p.places σ).block b.1) := by
  rw [Scope.target, h.scope_block he hl hb]

/-- An operand is read back from its text. -/
theorem scope_value (hl : e.2.Legible p e.1)
    (hconstant : ∀ c ∈ p.constants, Constant.parse c.wireText = .ok (σ c))
    (hknown : known <:+ e.2.values e.1)
    (hv : v ∈ known ∨ ∃ c ∈ p.constants, v = .constant c ∧ c.type.whole)
    (hvoid : p.typeOf v ≠ .ok .void) :
    (p.scope σ e known).value ((e.2.naming e.1).operand v) =
      .ok ((p.places σ).value v) := by
  rcases hv with hv | ⟨c, hc, rfl, hwhole⟩
  · obtain ⟨name, -, hvalue, hoperand⟩ := h.exists_percent he (hknown.subset hv)
    have hnodup := (h.nodup_names he hl).sublist ((hknown.sublist.filter p.written).map _)
    have hwritten : p.written v := by
      unfold written
      split
      · exact decide_eq_true hvoid
      · rfl
    have hlookup := lookup_map_of_nodup (g := (p.places σ).value) hnodup
      (List.mem_filter.2 ⟨hv, hwritten⟩)
    rw [hvalue, withoutPercent_percent] at hlookup
    rw [hoperand, Scope.value_percent, scope, hlookup]
  · obtain ⟨first, rest, hbytes, hfirst⟩ := c.bytes_wireText hwhole
    have hparse := hconstant c hc
    change (p.scope σ e known).value (Text.ofString c.wireText) = _
    unfold Scope.value
    split
    · rename_i name hpercent
      exact absurd (List.cons.inj (hbytes.symm.trans hpercent)).1 hfirst
    · rw [hparse]
      rfl

theorem naming_param {q : ParamId × Param} (hq : (e.2.signature e.1)[k]? = some q) :
    withoutPercent ((e.2.naming e.1).value (.param q.1)) = filled "arg" k q.2.name := by
  have hmem := List.mem_of_getElem? hq
  obtain ⟨text, ⟨q', hparam, rfl⟩, htext⟩ :=
    h.exists_name he (Func.mem_values.2 (.inl ⟨q, hmem, rfl⟩))
  obtain rfl := Option.some.inj ((param?_of_mem_signature he hmem).symm.trans hparam)
  have hvalue : (e.2.naming e.1).value (.param q.1) =
      ("%" : Text) ++ filled "arg" q.1.index q.2.name := htext Constant.text
  rw [hvalue, withoutPercent_percent, ((h.functions e he).signature_getElem? hq).1]

/-- Parameters are in scope from the start. -/
theorem scope_params :
    (((e.2.signature e.1).mapIdx fun k q => q.2.settled k).mapIdx fun k q =>
      (q.name, Value.param ⟨(p.places σ).func e.1, k⟩)).reverse =
        (p.scope σ e (e.2.paramValues e.1)).values := by
  have hwritten : (e.2.paramValues e.1).filter p.written = e.2.paramValues e.1 := by
    refine List.filter_eq_self.2 fun v hv => ?_
    rw [Func.paramValues, List.mem_reverse, List.mem_map] at hv
    obtain ⟨q, -, rfl⟩ := hv
    rfl
  rw [scope]
  dsimp only
  rw [hwritten, Func.paramValues, List.map_reverse, List.map_map, List.mapIdx_mapIdx]
  congr 1
  apply List.ext_getElem?
  intro k
  rw [List.getElem?_mapIdx, List.getElem?_map]
  cases hq : (e.2.signature e.1)[k]? with
  | none => rfl
  | some q =>
    have hname := h.naming_param he hq
    have hid := ((h.functions e he).signature_getElem? hq).1
    simp only [Option.map_some, Function.comp_apply, hname]
    simp [Param.settled, Relabeling.value, Relabeling.paramId, hid]

end

/-! ## Bodies -/

theorem exists_encode {n : Naming} {f : Func} {id : FuncId}
    (hformed : i.Formed p.Lists (f.Holds id)) : ∃ w, i.encode p n = .ok w := by
  cases i with
  | convert x source type target =>
    rw [Instr.encode, Ty.wireText_whole hformed.2.1]
    exact ⟨_, rfl⟩
  | localVar name elem =>
    rw [Instr.encode, Ty.wireText_whole hformed]
    exact ⟨_, rfl⟩
  | call callee args =>
    obtain ⟨g, hg, rfl⟩ := hformed
    rw [Instr.encode, calleeName, Option.bind_some, func?_of_mem_functions hg]
    exact ⟨_, rfl⟩
  | ret x => cases x <;> exact ⟨_, rfl⟩
  | _ => exact ⟨_, rfl⟩

theorem suffix_foldl_addResult (xs : List (InstrId × Option Instr)) (known : List Value) :
    known <:+ xs.foldl addResult known := by
  induction xs generalizing known with
  | nil => exact List.suffix_rfl
  | cons x xs ih =>
    refine List.IsSuffix.trans ?_ (ih _)
    unfold addResult
    split
    · exact List.suffix_cons _ _
    · exact List.suffix_rfl

theorem scope_addResult (σ : Constant → Constant) (e : FuncId × Func) (known : List Value)
    (hi : x.2 = some i) :
    p.scope σ e (addResult known x) =
      if i.isValue && p.written (.result x.1) then
        { p.scope σ e known with
          values := (withoutPercent ((e.2.naming e.1).value (.result x.1)),
            .result ((p.places σ).instrId x.1)) :: (p.scope σ e known).values }
      else p.scope σ e known := by
  rw [addResult, hi, Option.any_some]
  by_cases hvalue : i.isValue
  · by_cases hwritten : p.written (.result x.1)
    · simp [hvalue, hwritten, scope, Relabeling.value]
    · simp [hvalue, hwritten, scope]
  · simp [hvalue]

section

variable (h : p.Scoped) (he : e ∈ p.functions)
include h he

theorem hasResult_eq (hx : x ∈ e.2.entries e.1)
    (hi : x.2 = some i) : p.hasResult x.1 i = .ok (i.isValue && p.written (.result x.1)) := by
  rw [hasResult]
  by_cases hvalue : i.isValue
  · have hv : Value.result x.1 ∈ e.2.values e.1 :=
      Func.mem_values.2 (.inr ⟨x, hx, i, hi, hvalue, rfl⟩)
    obtain ⟨t, ht⟩ := h.exists_typeOf he hv
    by_cases hvoid : t = .void <;> simp [hvalue, written, ht, Except.map, hvoid]
  · simp [hvalue]

/-- An instruction is written with its result exactly if that is a value of a type other than
void. -/
theorem encodeInstr_eq (hx : x ∈ e.2.entries e.1) :
    ∃ i w, x.2 = some i ∧ i.encode p (e.2.naming e.1) = .ok w ∧
      encodeInstr p (e.2.naming e.1) x =
        .ok { w with
          result := if i.isValue && p.written (.result x.1) then
            withoutPercent ((e.2.naming e.1).value (.result x.1)) else "" } := by
  obtain ⟨i, hi, -⟩ := (h.functions e he).scope.operands hx
  obtain ⟨w, hw⟩ := exists_encode ((h.functions e he).formed x hx i hi)
  refine ⟨i, w, hi, hw, ?_⟩
  have hresult := h.hasResult_eq he hx hi
  rw [encodeInstr, hi]
  dsimp only
  rw [hresult, hw]
  rfl

/-- A result is not called as anything known before it. -/
theorem scope_fresh (hl : e.2.Legible p e.1)
    (hknown : addResult known x <:+ e.2.values e.1) (hi : x.2 = some i) (hvalue : i.isValue)
    (hwritten : p.written (.result x.1)) :
    List.lookup (withoutPercent ((e.2.naming e.1).value (.result x.1)))
      (p.scope σ e known).values = none := by
  rw [addResult, hi, Option.any_some, hvalue, if_pos rfl] at hknown
  have hnodup := (h.nodup_names he hl).sublist ((hknown.sublist.filter p.written).map _)
  rw [List.filter_cons_of_pos hwritten, List.map_cons, List.nodup_cons] at hnodup
  rw [List.lookup_eq_none_iff]
  intro entry hentry
  obtain ⟨v, hv, rfl⟩ := List.mem_map.1 hentry
  rw [bne_iff_ne]
  intro heq
  exact hnodup.1 (List.mem_map.2 ⟨v, hv, heq.symm⟩)

/-- A local variable is called what it was called. -/
theorem name_localVar (hl : e.2.Legible p e.1)
    (hx : x ∈ e.2.entries e.1) {name : Text} {elem : Ty} (hi : x.2 = some (.localVar name elem)) :
    p.written (.result x.1) ∧
      withoutPercent ((e.2.naming e.1).value (.result x.1)) = name := by
  have hat := (instr?_of_mem_entries he hx).trans hi
  have hv : Value.result x.1 ∈ e.2.values e.1 :=
    Func.mem_values.2 (.inr ⟨x, hx, _, hi, rfl, rfl⟩)
  constructor
  · simp [written, typeOf_localVar hat]
  · obtain ⟨text, ⟨i, label, hinstr, rfl, -, hlabel⟩, htext⟩ := h.exists_name he hv
    obtain rfl := Option.some.inj (hinstr.symm.trans hat)
    have hvalue : (e.2.naming e.1).value (.result x.1) = ("%" : Text) ++ label :=
      htext Constant.text
    rw [hvalue, withoutPercent_percent, hlabel name elem rfl (hl.locals x hx name elem hi)]

variable (hl : e.2.Legible p e.1)
  (hconstant : ∀ c ∈ p.constants, Constant.parse c.wireText = .ok (σ c))
include hl hconstant

theorem decodeInstr_encoded (hknown : known <:+ e.2.values e.1) (hx : x ∈ e.2.entries e.1)
    (hi : x.2 = some i) (hops : ∀ v ∈ i.operands, v ∈ known ∨ v.WholeConstant) {w : Wire.Instr}
    (hw : i.encode p (e.2.naming e.1) = .ok w) :
    decodeInstr (p.scope σ e known)
        { w with
          result := if i.isValue && p.written (.result x.1) then
            withoutPercent ((e.2.naming e.1).value (.result x.1)) else "" } =
      .ok ((p.places σ).instr i) := by
  refine decodeInstr_encode hw ((h.functions e he).formed x hx i hi) ?_
    (fun b hb => h.scope_target he hl hb) (fun g hg => h.scope_callee hg) ?_
  · intro v hv
    refine h.scope_value he hl hconstant hknown ((hops v hv).imp_right ?_)
      (hl.operands x hx i hi v hv)
    rintro ⟨c, rfl, hwhole⟩
    exact ⟨c, mem_constants he hx hi hv, rfl, hwhole⟩
  · rintro name elem rfl
    obtain ⟨hwritten, hname⟩ := h.name_localVar he hl hx hi
    rw [hwritten, hname]
    rfl

/-- The instructions of a block are read back, and what they name is known to those that
follow. -/
theorem decodeInstrs_encoded {xs : List (InstrId × Option Instr)} {ws : List Wire.Instr}
    {b : BlockId} {name : Text} (hxs : ∀ x ∈ xs, x ∈ e.2.entries e.1)
    (hids : xs.map Prod.fst = (List.range' index xs.length).map (InstrId.mk b))
    (hws : xs.mapM (encodeInstr p (e.2.naming e.1)) = .ok ws) (hscope : InScope known xs)
    (hknown : xs.foldl addResult known <:+ e.2.values e.1) :
    decodeInstrs ((p.places σ).block b) name (p.scope σ e known) index ws =
      .ok (xs.map fun x => x.2.map (p.places σ).instr,
        p.scope σ e (xs.foldl addResult known)) := by
  induction xs generalizing ws known index with
  | nil =>
    cases hws
    rfl
  | cons x xs ih =>
    obtain ⟨hx, hxs⟩ := List.forall_mem_cons.1 hxs
    obtain ⟨⟨i, hi, hops⟩, hrest⟩ := hscope
    obtain ⟨i', w, hi', hw, hencode⟩ := h.encodeInstr_eq he hx
    obtain rfl := Option.some.inj (hi.symm.trans hi')
    obtain ⟨w', ws', hw', htail, rfl⟩ := mapM_cons_eq_ok.1 hws
    obtain rfl := Except.ok.inj (hencode.symm.trans hw')
    obtain ⟨hid, hids⟩ : x.1 = ⟨b, index⟩ ∧ _ := by simpa [List.range'_succ] using hids
    have hsub : known <:+ e.2.values e.1 :=
      (suffix_foldl_addResult (x :: xs) known).trans hknown
    have hdecode := h.decodeInstr_encoded he hl hconstant hsub hx hi hops hw
    have hnext := ih hxs hids htail hrest hknown
    rw [scope_addResult σ e known hi] at hnext
    refine decodeInstrs_cons_eq_ok.2 ⟨_, _, hdecode, by rw [List.map_cons, hi]; rfl, ?_⟩
    by_cases hnamed : (i.isValue && p.written (.result x.1)) = true
    · obtain ⟨hvalue, hwritten⟩ := Bool.and_eq_true_iff.1 hnamed
      have hlatest : addResult known x <:+ e.2.values e.1 :=
        (suffix_foldl_addResult xs (addResult known x)).trans hknown
      rw [if_pos hnamed] at hnext
      refine .inr ⟨?_, ?_, ?_, ?_⟩
      · rw [if_pos hnamed]
        exact h.isEmpty_name he (Func.mem_values.2 (.inr ⟨x, hx, i, hi, hvalue, rfl⟩))
      · rw [← hvalue]
        cases i <;> rfl
      · rw [if_pos hnamed]
        exact h.scope_fresh he hl hlatest hi hvalue hwritten
      · rw [if_pos hnamed]
        rw [hid, Relabeling.instrId] at hnext
        rwa [hid]
    · rw [if_neg hnamed] at hnext
      refine .inl ⟨?_, hnext⟩
      rw [if_neg hnamed]
      rfl

/-- The blocks of a body are read back in their order. -/
theorem decodeBlocks_encoded {bs : List (BlockId × Block)} {ws : List Wire.Block}
    (hbs : (e.2.body e.1).drop k = bs)
    (hws : bs.mapM (fun b => encodeBlock p (e.2.naming e.1) (some b)) = .ok ws)
    (hscope : InScope known (bs.flatMap fun b => b.2.instrIds b.1))
    (hknown : (bs.flatMap fun b => b.2.instrIds b.1).foldl addResult known <:+ e.2.values e.1) :
    decodeBlocks (p.scope σ e known) k ws =
      .ok (bs.mapIdx fun j b => b.2.settled (p.places σ) (k + j)) := by
  induction bs generalizing ws known k with
  | nil =>
    cases hws
    rfl
  | cons b bs ih =>
    obtain ⟨hb, hbs⟩ := drop_eq_cons hbs
    have hmem := List.mem_of_getElem? hb
    rw [List.flatMap_cons, List.foldl_append] at hknown
    obtain ⟨hscope, hrest⟩ := inScope_append.1 hscope
    obtain ⟨w, ws', hw, htail, rfl⟩ := mapM_cons_eq_ok.1 hws
    obtain ⟨instrs, hinstrs, hw⟩ := bind_eq_ok.1 hw
    obtain rfl := Except.ok.inj hw
    have hids : (b.2.instrIds b.1).map Prod.fst =
        (List.range' 0 (b.2.instrIds b.1).length).map (InstrId.mk b.1) := by
      apply List.ext_getElem <;> simp [Block.instrIds]
    have hdecode : decodeInstrs ((p.places σ).block b.1)
        ((e.2.naming e.1).block (some b.1)) (p.scope σ e known) 0 instrs = _ :=
      h.decodeInstrs_encoded he hl hconstant (fun x hx => List.mem_flatMap.2 ⟨b, hmem, hx⟩) hids
        hinstrs hscope ((suffix_foldl_addResult _ _).trans hknown)
    have hnext := ih hbs htail hrest hknown
    rw [h.places_block he hb] at hdecode
    have hname := (h.functions e he).naming_block hb
    have hmapIdx : (b :: bs).mapIdx (fun j b => b.2.settled (p.places σ) (k + j)) =
        b.2.settled (p.places σ) k ::
          bs.mapIdx fun j b => b.2.settled (p.places σ) (k + 1 + j) := by
      simp [List.mapIdx_cons, Nat.add_assoc, Nat.add_comm 1]
    rw [hmapIdx]
    refine decodeBlocks_cons_eq_ok.2 ⟨b.2.loop.map (p.places σ).loop, _, _, _, ?_, hdecode,
      hnext, ?_⟩
    · cases hloop : b.2.loop with
      | none => exact .inl ⟨rfl, rfl⟩
      | some l =>
        obtain ⟨⟨m, hm, hmerge⟩, ⟨c, hc, hcontinue⟩⟩ := (h.functions e he).loops b hmem l hloop
        refine .inr ⟨_, _, rfl, ?_, rfl⟩
        rw [decodeLoop]
        dsimp only
        rw [hmerge, hcontinue, h.scope_block he hl hm]
        dsimp only
        rw [h.scope_block he hl hc, Relabeling.loop, hmerge, hcontinue]
        rfl
    · have hsnd : (b.2.instrIds b.1).map (fun x => x.2.map (p.places σ).instr) =
          b.2.instrs.map (Option.map (p.places σ).instr) := by
        apply List.ext_getElem <;> simp [Block.instrIds]
      rw [hname, hsnd, Block.settled]

theorem decodeBody_encoded {w : Wire.Func}
    (hblocks : (e.2.body e.1).mapM (fun b => encodeBlock p (e.2.naming e.1) (some b)) =
      .ok w.blocks) :
    decodeBody (p.functions.map fun g => g.2.name) ((p.places σ).func e.1)
        ((e.2.signature e.1).mapIdx fun k q => q.2.settled k) w =
      .ok ((e.2.body e.1).mapIdx fun k b => b.2.settled (p.places σ) k) := by
  have hf := h.functions e he
  have hnames : w.blocks.map Wire.Block.name =
      (e.2.body e.1).map fun b => (e.2.naming e.1).block (some b.1) := by
    refine map_of_mapM_eq_ok (fun b _ w hw => ?_) hblocks
    obtain ⟨instrs, -, hw⟩ := bind_eq_ok.1 hw
    rw [← Except.ok.inj hw]
  have hduplicate : firstDuplicate? [] (w.blocks.map Wire.Block.name) = none := by
    rw [firstDuplicate?_eq_none, hnames]
    exact ⟨hl.blocks _ hf.ofFunc_eq, by simp⟩
  have hdecode := h.decodeBlocks_encoded he hl hconstant List.drop_zero hblocks hf.scope
    List.suffix_rfl
  have hvalues : (((e.2.signature e.1).mapIdx fun k q => q.2.settled k).mapIdx fun k q =>
      (q.name, Value.param ⟨(p.places σ).func e.1, k⟩)).reverse =
        (p.scope σ e (e.2.paramValues e.1)).values := h.scope_params he
  rw [decodeBody]
  dsimp only
  rw [hduplicate, hvalues, hnames]
  simp only [Nat.zero_add] at hdecode
  exact hdecode

end

/-- The wire form of a function. -/
theorem encodeFunc_eq (h : p.Scoped) (he : e ∈ p.functions) :
    ∃ blocks, (e.2.body e.1).mapM (fun b => encodeBlock p (e.2.naming e.1) (some b)) =
        .ok blocks ∧
      encodeFunc p (some e) = .ok
        { name := e.2.name
          params := (e.2.signature e.1).mapIdx fun k q =>
            ⟨filled "arg" k q.2.name, q.2.type.text⟩
          result := if e.2.resultType = .void then "" else e.2.result.text
          blocks := blocks } := by
  have hf := h.functions e he
  have hblock : ∀ b ∈ e.2.body e.1, ∃ w, encodeBlock p (e.2.naming e.1) (some b) = .ok w := by
    intro b hb
    obtain ⟨instrs, hinstrs⟩ : ∃ ws,
        (b.2.instrIds b.1).mapM (encodeInstr p (e.2.naming e.1)) = .ok ws := by
      refine exists_mapM_eq_ok fun x hx => ?_
      obtain ⟨i, w, -, -, hencode⟩ := h.encodeInstr_eq he (List.mem_flatMap.2 ⟨b, hb, hx⟩)
      exact ⟨_, hencode⟩
    exact ⟨_, bind_eq_ok.2 ⟨instrs, hinstrs, rfl⟩⟩
  obtain ⟨blocks, hblocks⟩ := exists_mapM_eq_ok hblock
  have hparams : (e.2.paramIds e.1).mapM (encodeParam (e.2.naming e.1)) =
      .ok ((e.2.signature e.1).mapIdx fun k q => ⟨filled "arg" k q.2.name, q.2.type.text⟩) := by
    rw [hf.params, List.mapM_map]
    refine mapM_eq_ok_iff.2 (List.forall₂_iff_get.2 ⟨by simp, fun k hk _ => ?_⟩)
    refine bind_eq_ok.2 ⟨_, Ty.wireText_whole (hf.paramTypes _ (List.get_mem _ ⟨k, hk⟩)), ?_⟩
    simp only [List.get_eq_getElem, List.getElem_mapIdx,
      ← h.naming_param he (List.getElem?_eq_getElem hk)]
    rfl
  refine ⟨blocks, hblocks, ?_⟩
  rw [encodeFunc, hf.ofFunc_eq]
  refine bind_eq_ok.2 ⟨_, rfl, bind_eq_ok.2 ⟨_, hparams, bind_eq_ok.2 ⟨blocks, ?_, rfl⟩⟩⟩
  rwa [hf.blocks, List.mapM_map]

theorem decodeParams_written (func : Text) {qs : List (ParamId × Param)}
    (hqs : ∀ q ∈ qs, q.2.type.whole) (k : Nat) :
    decodeParams func (qs.mapIdx fun j q => ⟨filled "arg" (k + j) q.2.name, q.2.type.text⟩) =
      .ok (qs.mapIdx fun j q => q.2.settled (k + j)) := by
  induction qs generalizing k with
  | nil => rfl
  | cons q qs ih =>
    obtain ⟨hq, hqs⟩ := List.forall_mem_cons.1 hqs
    have hrest := ih hqs (k + 1)
    simp only [Nat.add_assoc, Nat.add_comm 1] at hrest
    rw [List.mapIdx_cons, List.mapIdx_cons]
    exact decodeParams_cons_eq_ok.2 ⟨_, _, Ty.parse_text hq, hrest, rfl⟩

/-- An empty result stands for void. -/
theorem parse_result {f : Func} (h : f.resultType.whole) :
    Ty.parse (if f.resultType = .void then "" else f.result.text) = .ok f.resultType := by
  by_cases hvoid : f.resultType = .void
  · rw [if_pos hvoid, hvoid]
    exact Ty.parse_empty
  · have hresult : f.result = f.resultType := by
      unfold Func.resultType Ty.orVoid at hvoid ⊢
      split at hvoid
      · exact absurd rfl hvoid
      · rfl
    rw [if_neg hvoid, hresult, Ty.parse_text h]

theorem decodeSignatures_encoded (h : p.Scoped) (hes : ∀ e ∈ es, e ∈ p.functions)
    (hws : es.mapM (fun e => encodeFunc p (some e)) = .ok ws)
    (hnames : (es.map fun e => e.2.name).Nodup) (hseen : ∀ e ∈ es, e.2.name ∉ seen) :
    decodeSignatures seen ws = .ok (es.map fun e =>
      ((e.2.signature e.1).mapIdx fun k q => q.2.settled k, e.2.resultType)) := by
  induction es generalizing ws seen with
  | nil =>
    cases hws
    rfl
  | cons e es ih =>
    obtain ⟨he, hes⟩ := List.forall_mem_cons.1 hes
    obtain ⟨hname, hseen⟩ := List.forall_mem_cons.1 hseen
    rw [List.map_cons, List.nodup_cons] at hnames
    obtain ⟨w, ws', hw, htail, rfl⟩ := mapM_cons_eq_ok.1 hws
    obtain ⟨blocks, -, hencode⟩ := h.encodeFunc_eq he
    obtain rfl := Except.ok.inj (hencode.symm.trans hw)
    have hf := h.functions e he
    have hparams := decodeParams_written e.2.name hf.paramTypes 0
    simp only [Nat.zero_add] at hparams
    refine decodeSignatures_cons_eq_ok.2 ⟨hname, _, _, _, parse_result hf.result, hparams,
      ih hes htail hnames.2 ?_, rfl⟩
    intro e' he'
    rw [List.mem_cons, not_or]
    exact ⟨fun heq => hnames.1 (List.mem_map.2 ⟨e', he', heq⟩), hseen e' he'⟩

theorem decodeFuncs_encoded (h : p.Scoped) (hl : p.Legible)
    (hconstant : ∀ c ∈ p.constants, Constant.parse c.wireText = .ok (σ c))
    (hes : p.functions.drop index = es)
    (hws : es.mapM (fun e => encodeFunc p (some e)) = .ok ws) :
    decodeFuncs (p.functions.map fun e => e.2.name) index (ws.zip (es.map fun e =>
        ((e.2.signature e.1).mapIdx fun k q => q.2.settled k, e.2.resultType))) =
      .ok (es.map fun e => e.2.settled (p.places σ) e.1) := by
  induction es generalizing ws index with
  | nil =>
    cases hws
    rfl
  | cons e es ih =>
    obtain ⟨hat, hes⟩ := drop_eq_cons hes
    have he := List.mem_of_getElem? hat
    have hplace : (p.places σ).func e.1 = ⟨index⟩ := h.places_func hat
    obtain ⟨w, ws', hw, htail, rfl⟩ := mapM_cons_eq_ok.1 hws
    obtain ⟨blocks, hblocks, hencode⟩ := h.encodeFunc_eq he
    obtain rfl := Except.ok.inj (hencode.symm.trans hw)
    refine decodeFuncs_cons_eq_ok.2
      ⟨(e.2.body e.1).mapIdx fun k b => b.2.settled (p.places σ) k, _, ?_, ih hes htail, ?_⟩
    · rw [← hplace]
      exact h.decodeBody_encoded he (hl e he) hconstant hblocks
    · have hparams : ((e.2.signature e.1).mapIdx fun k q => q.2.settled k).map some =
          (e.2.signature e.1).mapIdx fun k q => some (q.2.settled k) := by
        apply List.ext_getElem <;> simp
      rw [List.map_cons, Func.settled, List.length_mapIdx, hparams]

/-- Reading what was written gives the settled form. -/
theorem decode_encoded (h : p.Scoped) (hl : p.Legible)
    (hconstant : ∀ c ∈ p.constants, Constant.parse c.wireText = .ok (σ c)) :
    ∃ w, p.encode = .ok w ∧ w.decode = .ok (p.settled σ) := by
  obtain ⟨ws, hws⟩ : ∃ ws, p.functions.mapM (fun e => encodeFunc p (some e)) = .ok ws := by
    refine exists_mapM_eq_ok fun e he => ?_
    obtain ⟨blocks, -, hencode⟩ := h.encodeFunc_eq he
    exact ⟨_, hencode⟩
  have hencode : p.encode = .ok ⟨p.name, ws⟩ := by
    refine bind_eq_ok.2 ⟨ws, ?_, rfl⟩
    rwa [h.listed, List.mapM_map]
  have hnames : ws.map Wire.Func.name = p.functions.map fun e => e.2.name := by
    refine map_of_mapM_eq_ok (fun e he w hw => ?_) hws
    obtain ⟨blocks, -, hencode⟩ := h.encodeFunc_eq he
    rw [← Except.ok.inj (hencode.symm.trans hw)]
  have hsignatures := h.decodeSignatures_encoded (fun _ he => he) hws h.names
    (fun _ _ => List.not_mem_nil)
  have hfuncs := h.decodeFuncs_encoded hl hconstant List.drop_zero hws
  rw [← hnames] at hfuncs
  refine ⟨_, hencode, bind_eq_ok.2 ⟨_, hsignatures, bind_eq_ok.2 ⟨_, hfuncs, ?_⟩⟩⟩
  rw [settled, List.length_map]
  rfl

theorem exists_instrLine (h : p.Scoped) (he : e ∈ p.functions) (hx : x ∈ e.2.entries e.1) :
    ∃ line, instrLine p (e.2.naming e.1) x = .ok line := by
  obtain ⟨i, hi, -⟩ := (h.functions e he).scope.operands hx
  obtain ⟨body, hbody⟩ : ∃ body, i.listing p (e.2.naming e.1) = .ok body := by
    have hformed := (h.functions e he).formed x hx i hi
    cases i with
    | call callee args =>
      obtain ⟨g, hg, rfl⟩ := hformed
      rw [Instr.listing, calleeName, Option.bind_some, func?_of_mem_functions hg]
      exact ⟨_, rfl⟩
    | ret x => cases x <;> exact ⟨_, rfl⟩
    | _ => exact ⟨_, rfl⟩
  rw [instrLine, hi]
  exact ⟨_, bind_eq_ok.2 ⟨_, h.hasResult_eq he hx hi, bind_eq_ok.2 ⟨body, hbody, rfl⟩⟩⟩

theorem exists_listing (h : p.Scoped) : ∃ text, p.listing = .ok text := by
  have hblock : ∀ e ∈ p.functions, ∀ b ∈ e.2.body e.1,
      ∃ text, blockListing p (e.2.naming e.1) (some b) = .ok text := by
    intro e he b hb
    obtain ⟨lines, hlines⟩ := exists_mapM_eq_ok fun x hx =>
      h.exists_instrLine he (x := x) (List.mem_flatMap.2 ⟨b, hb, hx⟩)
    exact ⟨_, bind_eq_ok.2 ⟨lines, hlines, rfl⟩⟩
  have hfunc : ∀ e ∈ p.functions, ∃ text, funcListing p (some e) = .ok text := by
    intro e he
    obtain ⟨blocks, hblocks⟩ := exists_mapM_eq_ok (hblock e he)
    refine ⟨_, bind_eq_ok.2 ⟨_, (h.functions e he).ofFunc_eq, bind_eq_ok.2 ⟨blocks, ?_, rfl⟩⟩⟩
    rwa [(h.functions e he).blocks, List.mapM_map]
  obtain ⟨funcs, hfuncs⟩ := exists_mapM_eq_ok hfunc
  refine ⟨_, bind_eq_ok.2 ⟨funcs, ?_, rfl⟩⟩
  rwa [h.listed, List.mapM_map]

end Program.Scoped

/-- Writing a program and reading it back gives the program in its settled form, which is written
and listed as the program was. -/
theorem decode_encode {p : Program} (hscoped : p.Scoped) (hlegible : p.Legible)
    (hconstants : ∀ c ∈ p.constants, Constant.parse c.wireText = .ok c) :
    ∃ w text, p.encode = .ok w ∧ w.decode = .ok (p.settled id) ∧
      (p.settled id).encode = .ok w ∧ p.listing = .ok text ∧
      (p.settled id).listing = .ok text := by
  obtain ⟨w, hencode, hdecode⟩ := hscoped.decode_encoded hlegible hconstants
  obtain ⟨text, hlisting⟩ := hscoped.exists_listing
  refine ⟨w, text, hencode, hdecode, ?_, hlisting, ?_⟩
  · exact (hscoped.encode_settled (fun _ _ => rfl) fun _ _ => rfl).trans hencode
  · exact (hscoped.listing_settled (fun _ _ => rfl) fun _ _ => rfl).trans hlisting

/-- Halves the elements above ten until they are small. Functions and blocks are not stored in
listing order, a block is not listed, and names are left out. -/
def scrambled : Program where
  name := "scrambled"
  funcs := [
    { name := "half"
      params := [some ⟨"n", .int 32⟩]
      result := .int 32
      blocks := [
        ⟨"", none, [
          some (.binary .div .signed (.param ⟨⟨0⟩, 0⟩) (.constant (.ofWord 2))),
          some (.ret (.result ⟨⟨⟨0⟩, 0⟩, 0⟩))]⟩]
      order := [some 0] },
    { name := "kernel"
      params := [some ⟨"", .pointer (.int 32) .buffer⟩]
      result := .missing
      blocks := [
        ⟨"done", none, [some (.ret .missing)]⟩,
        ⟨"unused", none, []⟩,
        ⟨"", some ⟨some ⟨⟨1⟩, 0⟩, some ⟨⟨1⟩, 3⟩⟩, [
          some (.localVar "seen" (.int 32)),
          some (.load (.param ⟨⟨1⟩, 0⟩)),
          some (.store (.result ⟨⟨⟨1⟩, 2⟩, 1⟩) (.result ⟨⟨⟨1⟩, 2⟩, 0⟩)),
          some (.compare .lt .signed (.constant (.ofWord 10)) (.result ⟨⟨⟨1⟩, 2⟩, 1⟩)),
          some (.condBranch (.result ⟨⟨⟨1⟩, 2⟩, 3⟩) (some ⟨⟨1⟩, 3⟩) (some ⟨⟨1⟩, 0⟩) none)]⟩,
        ⟨"again", none, [
          some (.call (some ⟨0⟩) [.result ⟨⟨⟨1⟩, 2⟩, 1⟩]),
          some (.store (.result ⟨⟨⟨1⟩, 3⟩, 0⟩) (.param ⟨⟨1⟩, 0⟩)),
          some (.branch (some ⟨⟨1⟩, 2⟩))]⟩]
      order := [some 2, some 3, some 0] }]
  order := [some 1, some 0]

theorem scoped_scrambled : scrambled.Scoped where
  listed := by decide
  names := by decide
  functions e he :=
    { params := by revert e; decide
      blocks := by revert e; decide
      once := by revert e; decide
      paramTypes := by revert e; decide
      result := by revert e; decide
      loops := by
        unfold Func.Holds
        revert e
        decide
      formed := by revert e; decide
      scope := by revert e; decide }

theorem legible_scrambled : scrambled.Legible := by
  intro e he
  refine (scoped_scrambled.functions e he).legible ?_ ?_ ?_ ?_ <;> revert e <;> decide

theorem decode_encode_scrambled : ∃ w text, scrambled.encode = .ok w ∧
    w.decode = .ok (scrambled.settled id) ∧ (scrambled.settled id).encode = .ok w ∧
      scrambled.listing = .ok text ∧ (scrambled.settled id).listing = .ok text := by
  refine decode_encode scoped_scrambled legible_scrambled ?_
  have hconstants : scrambled.constants = [.ofWord 10, .ofWord 2] := by decide
  rw [hconstants]
  decide +kernel

end Elementwise.IR
