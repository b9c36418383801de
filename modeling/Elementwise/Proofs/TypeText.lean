import Elementwise.IR.Constant
import Elementwise.IR.Operator
import Mathlib.Data.Bool.AllAny
import Mathlib.Data.List.Nodup
import Mathlib.Data.List.TakeWhile

/-!
# The texts of types and codes

Codes are read back from the names in their tables, and numbers from their digits. Blanks may stand
around a type and around each part of it, a width may begin with zeros, and nothing at all is void.
Reading accepts exactly what is spelled this way; the parts of a pointer are found at its first
comma, and its brackets are the outermost ones. Every type has a spelling of its own.
-/
namespace Elementwise
open Text.Blank Text.Names Text.Numeral Text.Utf8

/-! ## ASCII -/

variable {t : Ty} {base : Nat} {c : Char} {s : Space} {cs : List Char}

theorem decode_ascii (h : ∀ c ∈ cs, c.toNat < 128) :
    decode (cs.flatMap String.utf8EncodeChar) = cs.map .char := by
  induction cs with
  | nil => rfl
  | cons c rest ih =>
    obtain ⟨hc, hrest⟩ := List.forall_mem_cons.1 h
    have hval : c.val ≤ 127 := by
      rw [UInt32.le_iff_toNat_le]
      exact Nat.le_of_lt_succ hc
    have hbyte : c.val.toUInt8.toNat = c.toNat := by
      rw [UInt32.toNat_toUInt8]
      exact Nat.mod_eq_of_lt (by change c.toNat < 2 ^ 8; omega)
    have hsmall : c.val.toUInt8 < 0x80 := by
      rw [UInt8.lt_iff_toNat_lt, hbyte]
      exact hc
    have hlead : ∀ bytes, leading? c.val.toUInt8 bytes = some (c, 0) := by
      intro bytes
      unfold leading?
      rw [if_pos hsmall, hbyte, Char.ofNat_toNat]
    rw [List.flatMap_cons, String.utf8EncodeChar_eq_singleton (Char.utf8Size_eq_one_iff.2 hval),
      List.singleton_append, decode, decodeFrom, hlead]
    exact congrArg (Piece.char c :: ·) (ih hrest)

theorem Text.pieces_ofString {s : String} (h : ∀ c ∈ s.toList, c.toNat < 128) :
    (Text.ofString s).pieces = s.toList.map .char := decode_ascii h

theorem Text.ofPieces_map_char (s : String) : Text.ofPieces (s.toList.map .char) = s := by
  rw [Text.ofPieces, List.flatMap_map]
  rfl

theorem Text.isEmpty_ofString {s : String} (h : s ≠ "") : (Text.ofString s).isEmpty = false := by
  rw [Text.isEmpty, List.isEmpty_eq_false_iff]
  intro hbytes
  exact h (Text.ofString_inj (congrArg Text.mk hbytes))

/-! ## Numerals -/

/-- The number that digits of a base make when they are appended to another. -/
def appendDigits (base n : Nat) (cs : List Char) : Nat :=
  cs.foldl (fun n c => n * base + (digitValue? c).getD 0) n

theorem le_appendDigits (hbase : 0 < base) (cs : List Char) (n : Nat) :
    n ≤ appendDigits base n cs := by
  induction cs generalizing n with
  | nil => exact Nat.le_refl n
  | cons c rest ih =>
    have hle : n ≤ n * base := Nat.le_mul_of_pos_right n hbase
    exact Nat.le_trans (by omega) (ih (n * base + (digitValue? c).getD 0))

/-- Digits are read for the number that they make, if it keeps to the limit. -/
theorem readDigits_eq_ok_iff {limit value n : Nat} (hbase : 0 < base) (hvalue : value ≤ limit) :
    readDigits base limit value cs = .ok n ↔
      (∀ c ∈ cs, ∃ d < base, digitValue? c = some d) ∧ appendDigits base value cs = n ∧
        n ≤ limit := by
  induction cs generalizing value with
  | nil =>
    simp only [readDigits, appendDigits, List.foldl_nil, Except.ok.injEq, List.not_mem_nil,
      false_implies, implies_true, true_and]
    exact ⟨fun h => ⟨h, h ▸ hvalue⟩, And.left⟩
  | cons c rest ih =>
    have hcons : appendDigits base value (c :: rest) =
        appendDigits base (value * base + (digitValue? c).getD 0) rest := rfl
    rw [readDigits, List.forall_mem_cons, hcons]
    cases hd : digitValue? c with
    | none => simp
    | some d =>
      dsimp only [Option.getD_some]
      split_ifs with hlarge hlimit
      · simp [Nat.not_lt.2 hlarge]
      · -- what follows makes the number no smaller
        have hle := le_appendDigits hbase rest (value * base + d)
        rw [false_iff]
        omega
      · rw [ih (Nat.le_of_not_lt hlimit)]
        simp [Nat.lt_of_not_le hlarge]

theorem readNatural_eq_ok_iff {limit n : Nat} (hbase : 0 < base) :
    readNatural base limit cs = .ok n ↔ cs ≠ [] ∧
      (∀ c ∈ cs, ∃ d < base, digitValue? c = some d) ∧ appendDigits base 0 cs = n ∧ n ≤ limit := by
  rw [readNatural, ← readDigits_eq_ok_iff hbase (Nat.zero_le limit)]
  cases cs <;> simp

theorem digitValue?_digitChar {d : Nat} (h : d < 16) : digitValue? (Nat.digitChar d) = some d := by
  have hall : ∀ d < 16, digitValue? (Nat.digitChar d) = some d := by decide
  exact hall d h

theorem toDigits_facts (hbase : 1 < base) (hle : base ≤ 16) (n : Nat) :
    (∀ c ∈ Nat.toDigits base n, ∃ d < base, c = Nat.digitChar d) ∧
      appendDigits base 0 (Nat.toDigits base n) = n := by
  induction n using Nat.strongRecOn with
  | ind n ih =>
    by_cases hn : n < base
    · have hvalue := digitValue?_digitChar (Nat.lt_of_lt_of_le hn hle)
      rw [Nat.toDigits_of_lt_base hn]
      exact ⟨List.forall_mem_singleton.2 ⟨n, hn, rfl⟩, by simp [appendDigits, hvalue]⟩
    · have hmod : n % base < base := Nat.mod_lt _ (by omega)
      have hvalue := digitValue?_digitChar (Nat.lt_of_lt_of_le hmod hle)
      obtain ⟨hdigits, hquotient⟩ := ih (n / base) (Nat.div_lt_self (by omega) hbase)
      rw [Nat.toDigits_of_base_le hbase (Nat.le_of_not_lt hn)]
      refine ⟨List.forall_mem_append.2 ⟨hdigits, List.forall_mem_singleton.2 ⟨_, hmod, rfl⟩⟩, ?_⟩
      unfold appendDigits at hquotient ⊢
      rw [List.foldl_append, hquotient, List.foldl_cons, List.foldl_nil, hvalue]
      exact Nat.div_add_mod' n base

/-- A number is read back from its digits, where the limit allows it. -/
theorem readNatural_toDigits {limit n : Nat} (hbase : 1 < base) (hle : base ≤ 16) (hn : n ≤ limit) :
    readNatural base limit (Nat.toDigits base n) = .ok n := by
  obtain ⟨hdigits, hvalue⟩ := toDigits_facts hbase hle n
  refine (readNatural_eq_ok_iff (by omega)).2 ⟨Nat.toDigits_ne_nil, fun c hc => ?_, hvalue, hn⟩
  obtain ⟨d, hd, rfl⟩ := hdigits c hc
  exact ⟨d, hd, digitValue?_digitChar (by omega)⟩

theorem digitValue?_lt_iff {d : Nat} :
    d < 10 ∧ digitValue? c = some d ↔ c.isDigit ∧ d = c.toNat - '0'.toNat := by
  rw [Char.isDigit_iff_toNat, digitValue?]
  simp only [Bool.and_eq_true, decide_eq_true_eq]
  split_ifs <;> grind

theorem isDigit_iff : c.isDigit ↔ ∃ d < 10, digitValue? c = some d := by
  simp only [digitValue?_lt_iff, exists_and_left, exists_eq, and_true]

/-! ## Codes -/

/-- A code is read back from its name, where the names of its table differ. -/
theorem codeOf?_nameOf {table : List String} (hnodup : table.Nodup) (kind : String) {code : UInt8}
    (h : code.toNat < table.length) : codeOf? table (nameOf table kind code) = some code := by
  have hname : nameOf table kind code = table[code.toNat] := by
    rw [nameOf, List.getElem?_eq_getElem h, Option.getD_some]
  have hfind : table.findIdx? (Text.ofString · == Text.ofString table[code.toNat]) =
      some code.toNat := by
    rw [List.findIdx?_eq_some_iff_getElem]
    refine ⟨h, by simp, fun j hj => ?_⟩
    rw [Bool.not_eq_true, beq_eq_false_iff_ne]
    intro heq
    exact absurd ((hnodup.getElem_inj_iff).1 (Text.ofString_inj heq)) (Nat.ne_of_lt hj)
  rw [hname, codeOf?, hfind]
  simp

namespace IR

theorem Space.parse?_text (h : s.code < 4) : Space.parse? s.text = some s := by
  rw [Space.parse?, Space.text, codeOf?_nameOf (by decide) _ (UInt8.lt_iff_toNat_lt.1 h)]
  rfl

theorem Domain.parse?_text {d : Domain} (h : d.code < 3) : Domain.parse? d.text = some d := by
  rw [Domain.parse?, Domain.text, codeOf?_nameOf (by decide) _ (UInt8.lt_iff_toNat_lt.1 h)]
  rfl

theorem BinaryOp.parse?_text {op : BinaryOp} (h : op.code < 5) :
    BinaryOp.parse? op.text = some op := by
  rw [BinaryOp.parse?, BinaryOp.text, codeOf?_nameOf (by decide) _ (UInt8.lt_iff_toNat_lt.1 h)]
  rfl

theorem Predicate.parse?_text {pred : Predicate} (h : pred.code < 6) :
    Predicate.parse? pred.text = some pred := by
  rw [Predicate.parse?, Predicate.text, codeOf?_nameOf (by decide) _ (UInt8.lt_iff_toNat_lt.1 h)]
  rfl

/-! ## Blanks -/

section Blanks

variable {before ps after : List Piece}

/-- Blanks around a text are no part of it. -/
theorem trim_padded (hbefore : ∀ p ∈ before, isBlankPiece p)
    (hafter : ∀ p ∈ after, isBlankPiece p) : trim (before ++ ps ++ after) = trim ps := by
  have hright : ∀ qs, trimRight (qs ++ after) = trimRight qs := by
    intro qs
    rw [trimRight, List.reverse_append, List.dropWhile_append_of_pos]
    · rfl
    · simpa using hafter
  have hleft : trimLeft (before ++ ps ++ after) = trimLeft (ps ++ after) := by
    rw [trimLeft, List.append_assoc, List.dropWhile_append_of_pos hbefore]
    rfl
  rw [trim, hleft, trimLeft, List.dropWhile_append]
  split_ifs with hempty
  · rw [List.dropWhile_eq_nil_iff.2 hafter, trim, trimLeft, List.isEmpty_iff.1 hempty]
  · exact hright _

theorem exists_padding (ps : List Piece) : ∃ before after, (∀ p ∈ before, isBlankPiece p) ∧
    (∀ p ∈ after, isBlankPiece p) ∧ ps = before ++ trim ps ++ after := by
  refine ⟨ps.takeWhile isBlankPiece, ((trimLeft ps).reverse.takeWhile isBlankPiece).reverse,
    fun p hp => List.mem_takeWhile_imp hp, fun p hp => ?_, ?_⟩
  · exact List.mem_takeWhile_imp (List.mem_reverse.1 hp)
  · rw [trim, trimRight, List.append_assoc, ← List.reverse_append, List.takeWhile_append_dropWhile,
      List.reverse_reverse]
    exact List.takeWhile_append_dropWhile.symm

theorem trim_eq_self (hfirst : ∀ p ∈ ps.head?, isBlankPiece p = false)
    (hlast : ∀ p ∈ ps.getLast?, isBlankPiece p = false) : trim ps = ps := by
  have hleft : trimLeft ps = ps := by
    cases ps with
    | nil => rfl
    | cons p rest => exact List.dropWhile_cons_of_neg (by simp [hfirst p rfl])
  rw [trim, hleft]
  rcases ps.eq_nil_or_concat' with rfl | ⟨front, last, rfl⟩
  · rfl
  · rw [trimRight, List.reverse_append, List.reverse_singleton, List.singleton_append,
      List.dropWhile_cons_of_neg (by simp [hlast last (by simp)])]
    simp

end Blanks

/-! ## Types -/

/-- No part of the type is unspecified, and its pointers lead into known spaces. -/
def Ty.whole : Ty → Bool
  | .missing => false
  | .void | .bool | .int _ | .float _ => true
  | .pointer elem space => elem.whole && space.code < 4

theorem Space.text_mem (h : s.code < 4) : s.text ∈ Space.names := by
  have hlt : s.code.toNat < Space.names.length := UInt8.lt_iff_toNat_lt.1 h
  rw [Space.text, nameOf, List.getElem?_eq_getElem hlt, Option.getD_some]
  exact List.getElem_mem hlt

theorem Space.name_facts (h : s.code < 4) : (∀ c ∈ s.text.toList, c.toNat < 128) ∧
    trim (s.text.toList.map .char) = s.text.toList.map .char ∧
    .char ',' ∉ s.text.toList.map Piece.char := by
  have hall : ∀ name ∈ Space.names, name.toList.all (·.toNat < 128) ∧
      trim (name.toList.map .char) = name.toList.map .char ∧
      .char ',' ∉ name.toList.map Piece.char := by decide +kernel
  obtain ⟨hascii, hrest⟩ := hall _ (Space.text_mem h)
  exact ⟨List.all_iff_forall_prop.1 hascii, hrest⟩

theorem Space.eq_text {name : Text} (h : Space.parse? name = some s) :
    s.code < 4 ∧ name = s.text := by
  obtain ⟨code, hcode, rfl⟩ := Option.map_eq_some_iff.1 h
  obtain ⟨k, hk, rfl⟩ := Option.map_eq_some_iff.1 hcode
  obtain ⟨hlt, hname, -⟩ := List.findIdx?_eq_some_iff_getElem.1 hk
  have hk4 : k < 4 := hlt
  have hcode : k.toUInt8.toNat = k := by simp; omega
  refine ⟨UInt8.lt_iff_toNat_lt.2 (hcode.symm ▸ hk4), ?_⟩
  rw [Space.text, nameOf, hcode, List.getElem?_eq_getElem hlt, Option.getD_some]
  exact (beq_iff_eq.1 hname).symm

namespace Ty

/-- Decimal digits that stand for a width. -/
def IsWidth (cs : List Char) (w : UInt32) : Prop :=
  cs ≠ [] ∧ (∀ c ∈ cs, c.isDigit) ∧ Nat.ofDigitChars 10 cs 0 = w.toNat

theorem ofDigitChars_eq (h : ∀ c ∈ cs, c.isDigit) (n : Nat) :
    Nat.ofDigitChars 10 cs n = appendDigits 10 n cs := by
  rw [Nat.ofDigitChars_eq_foldl, appendDigits]
  refine List.foldl_ext _ _ _ fun n c hc => ?_
  rw [(digitValue?_lt_iff.2 ⟨h c hc, rfl⟩).2, Option.getD_some, Nat.mul_comm]

theorem width?_eq_some_iff {w : UInt32} : width? cs = some w ↔ IsWidth cs w := by
  have hread : ∀ n, readNatural 10 (UInt32.size - 1) cs = .ok n ↔
      cs ≠ [] ∧ (∀ c ∈ cs, c.isDigit) ∧ Nat.ofDigitChars 10 cs 0 = n ∧ n ≤ UInt32.size - 1 := by
    intro n
    rw [readNatural_eq_ok_iff (by decide)]
    simp only [← isDigit_iff]
    refine and_congr_right fun _ => and_congr_right fun hdigits => ?_
    rw [ofDigitChars_eq hdigits]
  unfold width? IsWidth
  constructor
  · intro h
    split at h
    · rename_i n hn
      obtain ⟨hne, hdigits, hvalue, hle⟩ := (hread n).1 hn
      cases h
      refine ⟨hne, hdigits, hvalue.trans ?_⟩
      exact (UInt32.toNat_ofNat_of_lt' (Nat.lt_of_le_pred (by decide) hle)).symm
    · cases h
  · rintro ⟨hne, hdigits, hvalue⟩
    rw [(hread w.toNat).2 ⟨hne, hdigits, hvalue, Nat.le_pred_of_lt w.toNat_lt⟩]
    simp

theorem map_shown (cs : List Char) : (cs.map Piece.char).map Piece.shown = cs := by
  rw [List.map_map]
  exact List.map_id cs

/-- The pieces are a text of the type. -/
inductive Spells : List Piece → Ty → Prop
  | empty : Spells [] .void
  | void : Spells ("void".toList.map .char) .void
  | bool : Spells ("bool".toList.map .char) .bool
  | int {cs : List Char} {w : UInt32} (h : IsWidth cs w) :
      Spells (.char 'i' :: cs.map .char) (.int w)
  | float {cs : List Char} {w : UInt32} (h : IsWidth cs w) :
      Spells (.char 'f' :: cs.map .char) (.float w)
  | pointer {name elem : List Piece} {space : Space} {t : Ty} (hspace : space.code < 4)
      (hname : Text.ofPieces (trim name) = space.text) (hcomma : .char ',' ∉ name)
      (helem : Spells elem t) :
      Spells ("ptr<".toList.map .char ++ (name ++ .char ',' :: elem) ++ [.char '>'])
        (.pointer t space)
  | padded {before ps after : List Piece} {t : Ty} (hbefore : ∀ p ∈ before, isBlankPiece p)
      (hafter : ∀ p ∈ after, isBlankPiece p) (h : Spells ps t) : Spells (before ++ ps ++ after) t

variable {ps : List Piece}

theorem pointerBody?_eq_some_iff {body : List Piece} :
    pointerBody? ps = some body ↔ ps = "ptr<".toList.map .char ++ body ++ [.char '>'] := by
  constructor
  · intro h
    unfold pointerBody? at h
    split at h
    · split_ifs at h with hlast
      cases h
      rw [List.append_assoc, List.dropLast_append_getLast? _ (beq_iff_eq.1 hlast)]
      rfl
    · cases h
  · rintro rfl
    simp [pointerBody?]

theorem cut_eq_some_iff {before after : List Piece} :
    cut c ps = some (before, after) ↔ ps = before ++ .char c :: after ∧ .char c ∉ before := by
  induction ps generalizing before with
  | nil => simp [cut]
  | cons p rest ih =>
    rw [cut]
    by_cases hp : p = .char c
    · subst hp
      cases before <;> simp +contextual
    · cases before with
      | nil => simp [hp]
      | cons q front =>
        have hne : Piece.char c ≠ p := Ne.symm hp
        simp only [beq_eq_false_iff_ne.2 hp, Bool.false_eq_true, if_false, Option.map_eq_some_iff,
          Prod.exists, Prod.mk.injEq, List.cons.injEq, List.cons_append, List.mem_cons]
        grind

/-- ASCII characters are shown for themselves only. -/
theorem eq_map_char (h : ps.map Piece.shown = cs) (hcs : ∀ c ∈ cs, c.toNat < 128) :
    ps = cs.map .char := by
  subst h
  rw [List.map_map]
  refine (List.map_id ps).symm.trans (List.map_congr_left fun p hp => ?_)
  cases p with
  | char c => rfl
  | stray b =>
    have hlt : (Char.ofNat 0xfffd).toNat < 128 := hcs _ (List.mem_map_of_mem hp)
    exact absurd hlt (by decide)

/-! ## Reading -/

theorem isBlank_of_isDigit (h : c.isDigit) : isBlank c = false := by
  obtain ⟨hlow, hhigh⟩ := Char.isDigit_iff_toNat.1 h
  change 48 ≤ c.toNat at hlow
  change c.toNat ≤ 57 at hhigh
  simp only [isBlank, Bool.or_eq_false_iff, Bool.and_eq_false_iff, decide_eq_false_iff_not,
    beq_eq_false_iff_ne]
  omega

theorem parsePieces_scalar (cs : List Char) (hcs : ∀ c ∈ cs, isBlank c = false)
    (hbody : pointerBody? (cs.map .char) = none) (hscalar : scalar? cs = some t) :
    parsePieces (cs.map .char) = .ok t := by
  have htrim : trim (cs.map .char) = cs.map .char := by
    refine trim_eq_self (fun p hp => ?_) fun p hp => ?_
    · obtain ⟨c, hc, rfl⟩ := List.mem_map.1 (List.mem_of_mem_head? hp)
      exact hcs c hc
    · obtain ⟨c, hc, rfl⟩ := List.mem_map.1 (List.mem_of_getLast? hp)
      exact hcs c hc
  have hne : cs ≠ [] ∧ cs ≠ "void".toList ∧ cs ≠ "bool".toList := by
    refine ⟨?_, ?_, ?_⟩ <;>
    · rintro rfl
      cases hscalar
  rw [parsePieces, htrim, map_shown]
  simp only [List.isEmpty_eq_false_iff.2 hne.1, beq_eq_false_iff_ne.2 hne.2.1,
    beq_eq_false_iff_ne.2 hne.2.2, Bool.or_self, Bool.false_eq_true, if_false]
  split
  · rename_i hsome
    rw [hbody] at hsome
    cases hsome
  · rw [hscalar]

theorem parsePieces_pointer {name elem : List Piece} {space : Space}
    (hps : trim ps = "ptr<".toList.map .char ++ (name ++ .char ',' :: elem) ++ [.char '>'])
    (hcomma : .char ',' ∉ name) (hspace : Space.parse? (.ofPieces (trim name)) = some space)
    (helem : parsePieces elem = .ok t) : parsePieces ps = .ok (.pointer t space) := by
  have hbody := pointerBody?_eq_some_iff.2 hps
  have hcut : cut ',' (name ++ .char ',' :: elem) = some (name, elem) :=
    cut_eq_some_iff.2 ⟨rfl, hcomma⟩
  have hne : (trim ps).map Piece.shown ≠ [] ∧ (trim ps).map Piece.shown ≠ "void".toList ∧
      (trim ps).map Piece.shown ≠ "bool".toList := by
    rw [hps]
    refine ⟨?_, ?_, ?_⟩ <;>
    · intro heq
      cases heq
  rw [parsePieces]
  simp only [List.isEmpty_eq_false_iff.2 hne.1, beq_eq_false_iff_ne.2 hne.2.1,
    beq_eq_false_iff_ne.2 hne.2.2, Bool.or_self, Bool.false_eq_true, if_false]
  split
  · rename_i body' hbody'
    cases hbody.symm.trans hbody'
    split
    · rename_i hnone
      cases hcut.symm.trans hnone
    · rename_i hcut'
      cases hcut.symm.trans hcut'
      rw [hspace, helem]
      rfl
  · rename_i hnone
    cases hbody.symm.trans hnone

theorem Spells.parsePieces_eq (h : Spells ps t) : parsePieces ps = .ok t := by
  induction h with
  | empty => rw [parsePieces]; rfl
  | void => rw [parsePieces]; rfl
  | bool => rw [parsePieces]; rfl
  | @int cs w h =>
    refine parsePieces_scalar ('i' :: cs) ?_ rfl ?_
    · exact List.forall_mem_cons.2 ⟨by decide, fun c hc => isBlank_of_isDigit (h.2.1 c hc)⟩
    · rw [scalar?, width?_eq_some_iff.2 h]
      rfl
  | @float cs w h =>
    refine parsePieces_scalar ('f' :: cs) ?_ rfl ?_
    · exact List.forall_mem_cons.2 ⟨by decide, fun c hc => isBlank_of_isDigit (h.2.1 c hc)⟩
    · rw [scalar?, width?_eq_some_iff.2 h]
      rfl
  | @pointer name elem space t hspace hname hcomma _ ih =>
    refine parsePieces_pointer (trim_eq_self ?_ ?_) hcomma ?_ ih
    · rintro _ ⟨⟩
      decide
    · rw [List.getLast?_concat]
      rintro _ ⟨⟩
      decide
    · rw [hname, Space.parse?_text hspace]
  | padded hbefore hafter h ih =>
    rw [parsePieces, trim_padded hbefore hafter]
    rw [parsePieces] at ih
    exact ih

theorem IsWidth.ascii {w : UInt32} (h : IsWidth cs w) : ∀ c ∈ cs, c.toNat < 128 := by
  intro c hc
  have hle : c.toNat ≤ 57 := (Char.isDigit_iff_toNat.1 (h.2.1 c hc)).2
  omega

theorem spells_of_scalar? (h : scalar? (ps.map Piece.shown) = some t) : Spells ps t := by
  unfold scalar? at h
  split at h
  · rename_i hshown
    obtain ⟨w, hw, rfl⟩ := Option.map_eq_some_iff.1 h
    rw [width?_eq_some_iff] at hw
    rw [eq_map_char hshown (List.forall_mem_cons.2 ⟨by decide, hw.ascii⟩)]
    exact .int hw
  · rename_i hshown
    obtain ⟨w, hw, rfl⟩ := Option.map_eq_some_iff.1 h
    rw [width?_eq_some_iff] at hw
    rw [eq_map_char hshown (List.forall_mem_cons.2 ⟨by decide, hw.ascii⟩)]
    exact .float hw
  · cases h

theorem spells_of_parsePieces (h : parsePieces ps = .ok t) : Spells ps t := by
  have hpadded : ∀ {qs core u}, trim qs = core → Spells core u → Spells qs u := by
    rintro qs _ u rfl hu
    obtain ⟨before, after, hbefore, hafter, hqs⟩ := exists_padding qs
    rw [hqs]
    exact .padded hbefore hafter hu
  fun_induction parsePieces ps generalizing t with
  | case1 =>
    rename_i hvoid
    cases h
    rcases Bool.or_eq_true_iff.1 hvoid with hempty | hvoid
    · exact hpadded (List.map_eq_nil_iff.1 (List.isEmpty_iff.1 hempty)) .empty
    · have hascii : ∀ c ∈ "void".toList, c.toNat < 128 := List.all_iff_forall_prop.1 (by decide)
      exact hpadded (eq_map_char (beq_iff_eq.1 hvoid) hascii) .void
  | case2 =>
    rename_i hbool
    cases h
    have hascii : ∀ c ∈ "bool".toList, c.toNat < 128 := List.all_iff_forall_prop.1 (by decide)
    exact hpadded (eq_map_char (beq_iff_eq.1 hbool) hascii) .bool
  | case3 => cases h
  | case4 => cases h
  | case5 =>
    rename_i body hbody name elem hcut _ space hspace ih
    obtain ⟨hcode, hname⟩ := Space.eq_text hspace
    obtain ⟨rfl, hcomma⟩ := cut_eq_some_iff.1 hcut
    cases helem : parsePieces elem with
    | error e =>
      rw [helem] at h
      cases h
    | ok u =>
      rw [helem] at h
      cases h
      exact hpadded (pointerBody?_eq_some_iff.1 hbody) (.pointer hcode hname hcomma (ih helem))
  | case6 =>
    rename_i hscalar
    cases h
    exact hpadded rfl (spells_of_scalar? hscalar)
  | case7 => cases h

/-! ## Texts -/

theorem toList_text_pointer (elem : Ty) (space : Space) :
    (Ty.pointer elem space).text.toList =
      'p' :: 't' :: 'r' :: '<' ::
        (space.text.toList ++ ',' :: ' ' :: (elem.text.toList ++ ['>'])) := by
  simp [Ty.text]

theorem isWidth_toDigits (w : UInt32) : IsWidth (Nat.toDigits 10 w.toNat) w :=
  ⟨Nat.toDigits_ne_nil, fun _ => Nat.isDigit_of_mem_toDigits (by decide) (by decide),
    Nat.ofDigitChars_toDigits (by decide) (by decide)⟩

/-- The text of a type is one of its spellings. -/
theorem spells_text (h : t.whole) :
    (∀ c ∈ t.text.toList, c.toNat < 128) ∧ Spells (t.text.toList.map .char) t := by
  induction t with
  | missing => cases h
  | void => exact ⟨List.all_iff_forall_prop.1 (by decide +kernel), .void⟩
  | bool => exact ⟨List.all_iff_forall_prop.1 (by decide +kernel), .bool⟩
  | int w =>
    have htext : (Ty.int w).text.toList = 'i' :: Nat.toDigits 10 w.toNat := by
      simp [Ty.text, decimal]
    rw [htext]
    have hw := isWidth_toDigits w
    exact ⟨List.forall_mem_cons.2 ⟨by decide, hw.ascii⟩, .int hw⟩
  | float w =>
    have htext : (Ty.float w).text.toList = 'f' :: Nat.toDigits 10 w.toNat := by
      simp [Ty.text, decimal]
    rw [htext]
    have hw := isWidth_toDigits w
    exact ⟨List.forall_mem_cons.2 ⟨by decide, hw.ascii⟩, .float hw⟩
  | pointer elem space ih =>
    simp only [whole, Bool.and_eq_true, decide_eq_true_eq] at h
    obtain ⟨hascii, htrim, hcomma⟩ := Space.name_facts h.2
    obtain ⟨helem, hspells⟩ := ih h.1
    have hblank : ∀ p ∈ [Piece.char ' '], isBlankPiece p := by decide
    have hpadded := Spells.padded hblank (List.forall_mem_nil _) hspells
    have hname : Text.ofPieces (trim (space.text.toList.map .char)) = space.text := by
      rw [htrim, Text.ofPieces_map_char]
    rw [toList_text_pointer]
    constructor
    · simp only [List.forall_mem_cons, List.forall_mem_append]
      exact ⟨by decide, by decide, by decide, by decide, hascii, by decide, by decide, helem,
        by decide, List.forall_mem_nil _⟩
    · simpa using Spells.pointer h.2 hname hcomma hpadded

/-- The empty text stands for void. -/
theorem parse_empty : parse (Text.ofString "") = .ok .void := by
  rw [parse, parsePieces]
  rfl

/-- A type is read back from its text. -/
theorem parse_text (h : t.whole) : parse t.text = .ok t := by
  obtain ⟨hascii, hspells⟩ := spells_text h
  rw [parse, Text.pieces_ofString hascii]
  exact hspells.parsePieces_eq

theorem Spells.whole (h : Spells ps t) : t.whole := by
  induction h with
  | pointer hspace _ _ _ ih => simp [Ty.whole, ih, hspace]
  | padded _ _ _ ih => exact ih
  | _ => rfl

/-- Every type that is built from the named spaces is read back from its text. What is read is
spelled by the text, and is read again from the text of its own; a text that spells nothing is
refused. Where a text begins with `ptr<` and ends with `>` there is a part between the two. -/
theorem parse_reads_spellings : (∀ t : Ty, t.whole → parse t.text = .ok t) ∧
    (∀ (s : Text) (t : Ty), parse s = .ok t ↔ Spells s.pieces t) ∧
    (∀ (s : Text) (t : Ty), parse s = .ok t → t.whole ∧ parse t.text = .ok t) ∧
    (∀ s : Text, (∀ t, ¬ Spells s.pieces t) → ∃ e, parse s = .error e) ∧
    ∀ ps : List Piece, "ptr<".toList.map .char <+: ps → [.char '>'] <:+ ps →
      ∃ body, ps = "ptr<".toList.map .char ++ body ++ [.char '>'] ∧ pointerBody? ps = some body := by
  have hread : ∀ (s : Text) (t : Ty), parse s = .ok t ↔ Spells s.pieces t :=
    fun s t => ⟨spells_of_parsePieces, Spells.parsePieces_eq⟩
  refine ⟨fun t => parse_text, hread, fun s t h => ?_, fun s hnone => ?_, ?_⟩
  · have hwhole := ((hread s t).1 h).whole
    exact ⟨hwhole, parse_text hwhole⟩
  · cases h : parse s with
    | ok t => exact absurd ((hread s t).1 h) (hnone t)
    | error e => exact ⟨e, rfl⟩
  · rintro ps ⟨rest, rfl⟩ ⟨front, hfront⟩
    rcases rest.eq_nil_or_concat' with rfl | ⟨body, last, rfl⟩
    · have hlast := congrArg List.getLast? hfront
      rw [List.getLast?_concat, List.append_nil] at hlast
      cases hlast
    · rw [← List.append_assoc] at hfront ⊢
      cases (List.append_inj' hfront rfl).2
      exact ⟨body, rfl, pointerBody?_eq_some_iff.2 rfl⟩

theorem parse_reads_spellings_padded :
    Spells (Text.ofString " ptr<buffer ,i007>").pieces (.pointer (.int 7) .buffer) ∧
      parse (Text.ofString " ptr<buffer ,i007>") = .ok (.pointer (.int 7) .buffer) := by
  have hpieces : (Text.ofString " ptr<buffer ,i007>").pieces = [.char ' '] ++
      ("ptr<".toList.map .char ++ ("buffer ".toList.map .char ++
        .char ',' :: .char 'i' :: "007".toList.map .char) ++ [.char '>']) ++ [] := by decide
  have hspells : Spells (Text.ofString " ptr<buffer ,i007>").pieces (.pointer (.int 7) .buffer) := by
    rw [hpieces]
    exact .padded (by decide) (by decide) (.pointer (by decide) (by decide +kernel) (by decide)
      (.int ⟨by decide, List.all_eq_true.1 (by decide), by decide⟩))
  exact ⟨hspells, (parse_reads_spellings.2.1 _ _).2 hspells⟩

end Ty

end IR

end Elementwise
