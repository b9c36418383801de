import Elementwise.Proofs.TypeText
import Mathlib.Algebra.Group.Nat.Defs
import Mathlib.Algebra.Ring.Int.Defs

/-!
# The texts of constants

A constant is written as the text of its type, a blank and a literal. None of these holds a blank
of its own, so the parts are found again: an integer as the number of its width that the bits stand
for, any other bits in hexadecimal. An integer is reduced to its width when it is read, so what
is read does not depend on whether the number was written with or without a sign.
-/
namespace Elementwise.IR
open Text.Blank Text.Numeral Text.Utf8

/-! ## Literals -/

/-- The characters have no need of several bytes and are not blanks. -/
def IsLiteral (cs : List Char) : Prop := cs ≠ [] ∧ ∀ c ∈ cs, c.toNat < 128 ∧ isBlank c = false

theorem isLiteral_toDigits {base : Nat} (hbase : 1 < base) (hle : base ≤ 16) (n : Nat) :
    IsLiteral (Nat.toDigits base n) := by
  refine ⟨Nat.toDigits_ne_nil, fun c hc => ?_⟩
  obtain ⟨d, hd, rfl⟩ := (toDigits_facts hbase hle n).1 c hc
  have hall : ∀ d < 16, (Nat.digitChar d).toNat < 128 ∧ isBlank (Nat.digitChar d) = false := by
    decide
  exact hall d (Nat.lt_of_lt_of_le hd hle)

theorem IsLiteral.cons {c : Char} {cs : List Char} (hc : c.toNat < 128 ∧ isBlank c = false)
    (h : IsLiteral cs) : IsLiteral (c :: cs) :=
  ⟨List.cons_ne_nil c cs, List.forall_mem_cons.2 ⟨hc, h.2⟩⟩

theorem IsLiteral.trim_eq {cs : List Char} (h : IsLiteral cs) :
    trim (cs.map .char) = cs.map .char := by
  refine trim_eq_self (fun p hp => ?_) fun p hp => ?_
  · obtain ⟨c, hc, rfl⟩ := List.mem_map.1 (List.mem_of_mem_head? hp)
    exact (h.2 c hc).2
  · obtain ⟨c, hc, rfl⟩ := List.mem_map.1 (List.mem_of_getLast? hp)
    exact (h.2 c hc).2

namespace Constant

/-- A type and a literal with a blank between them are found again. -/
theorem parse_spaced {s : String} {t : Ty} (lit : List Char)
    (hs : s.toList = t.text.toList ++ ' ' :: lit) (ht : t.whole) (htext : IsLiteral t.text.toList)
    (hlit : IsLiteral lit) : parse s = parseLiteral s t (lit.map .char) := by
  have hpieces : (Text.ofString s).pieces =
      t.text.toList.map .char ++ .char ' ' :: lit.map .char := by
    rw [Text.pieces_ofString, hs, List.map_append, List.map_cons]
    rw [hs]
    exact List.forall_mem_append.2 ⟨fun c hc => (htext.2 c hc).1,
      List.forall_mem_cons.2 ⟨by decide, fun c hc => (hlit.2 c hc).1⟩⟩
  have htrim : trim (t.text.toList.map .char ++ .char ' ' :: lit.map .char) =
      t.text.toList.map .char ++ .char ' ' :: lit.map .char := by
    refine trim_eq_self (fun p hp => ?_) fun p hp => ?_
    · rw [List.head?_append_of_ne_nil _ (by simpa using htext.1)] at hp
      obtain ⟨c, hc, rfl⟩ := List.mem_map.1 (List.mem_of_mem_head? hp)
      exact (htext.2 c hc).2
    · rw [List.append_cons, List.getLast?_append_of_ne_nil _ (by simpa using hlit.1)] at hp
      obtain ⟨c, hc, rfl⟩ := List.mem_map.1 (List.mem_of_getLast? hp)
      exact (hlit.2 c hc).2
  have hcut : cut ' ' (t.text.toList.map .char ++ .char ' ' :: lit.map .char) =
      some (t.text.toList.map .char, lit.map .char) := by
    refine Ty.cut_eq_some_iff.2 ⟨rfl, fun hmem => ?_⟩
    obtain ⟨c, hc, hblank⟩ := List.mem_map.1 hmem
    cases hblank
    exact absurd (htext.2 ' ' hc).2 (by decide)
  rw [parse, hpieces, htrim, hcut]
  dsimp only
  rw [(Ty.spells_text ht).2.parsePieces_eq, hlit.trim_eq]

/-! ## Integers -/

section Integers

variable {n : Int}

theorem notMem_signedDecimal : 'x' ∉ (signedDecimal n).toList := by
  have hdigits : ∀ k, 'x' ∉ Nat.toDigits 10 k := fun k hk =>
    absurd (Nat.isDigit_of_mem_toDigits (by decide) (by decide) hk) (by decide)
  cases n <;> simp [signedDecimal, decimal, hdigits]

theorem isLiteral_signedDecimal : IsLiteral (signedDecimal n).toList := by
  have hdigits := isLiteral_toDigits (by decide : 1 < 10) (by decide)
  cases n with
  | ofNat k => simpa [signedDecimal, decimal] using hdigits k
  | negSucc k => simpa [signedDecimal, decimal] using (hdigits (k + 1)).cons (c := '-') (by decide)

/-- A number is read as one with a sign if it is one, and else as one without. -/
theorem parseInt_signedDecimal (source : Text) (w : UInt32) (hlow : -2 ^ 63 ≤ n)
    (hhigh : n < 2 ^ 64) :
    parseInt source w ((signedDecimal n).toList.map .char) = .ok (ofInt w n) := by
  have hread : ∀ {limit k : Nat}, k ≤ limit → readNatural 10 limit (Nat.toDigits 10 k) = .ok k :=
    fun hk => readNatural_toDigits (by decide) (by decide) hk
  rw [parseInt, Ty.map_shown]
  cases n with
  | negSucc k =>
    have hk : k + 1 ≤ maxSigned + 1 := by simp only [maxSigned, UInt64.size]; omega
    have hlist : (signedDecimal (.negSucc k)).toList = '-' :: Nat.toDigits 10 (k + 1) := by
      simp [signedDecimal, decimal]
    rw [hlist, readInteger, hread hk]
    rfl
  | ofNat k =>
    have hlist : (signedDecimal (.ofNat k)).toList = Nat.toDigits 10 k := by
      simp [signedDecimal, decimal]
    have hsign : readInteger (Nat.toDigits 10 k) =
        (readNatural 10 maxSigned (Nat.toDigits 10 k)).map Int.ofNat := by
      have hdigits : ∀ c ∈ Nat.toDigits 10 k, c.isDigit := fun c =>
        Nat.isDigit_of_mem_toDigits (by decide) (by decide)
      unfold readInteger
      split
      · rename_i heq
        exact absurd (hdigits '-' (by simp [heq])) (by decide)
      · rename_i heq
        exact absurd (hdigits '+' (by simp [heq])) (by decide)
      · rfl
    rw [hlist, hsign]
    by_cases hk : k ≤ maxSigned
    · rw [hread hk]
      rfl
    · have hrange : k ≤ maxUnsigned := by
        rw [Int.ofNat_eq_natCast] at hhigh
        simp only [maxUnsigned, UInt64.size]
        omega
      cases hfail : readNatural 10 maxSigned (Nat.toDigits 10 k) with
      | error e =>
        dsimp only [Except.map]
        rw [hread hrange]
        rfl
      | ok m =>
        obtain ⟨-, -, hvalue, hm⟩ := (readNatural_eq_ok_iff (by decide)).1 hfail
        rw [(toDigits_facts (by decide) (by decide) k).2] at hvalue
        exact absurd (hvalue ▸ hm) hk

theorem isLiteral_number {t : Ty} (h : t.isInt || t.isFloat) :
    t.whole ∧ IsLiteral t.text.toList := by
  cases t with
  | int w | float w =>
    refine ⟨rfl, ?_⟩
    simpa [Ty.text, decimal] using
      (isLiteral_toDigits (by decide : 1 < 10) (by decide) w.toNat).cons (by decide)
  | _ => cases h

theorem parse_int (w : UInt32) (hlow : -2 ^ 63 ≤ n) (hhigh : n < 2 ^ 64) :
    parse ((Ty.int w).text ++ " " ++ signedDecimal n : String) = .ok (ofInt w n) := by
  obtain ⟨hwhole, htext⟩ := isLiteral_number (t := .int w) rfl
  rw [parse_spaced (signedDecimal n).toList (by simp) hwhole htext isLiteral_signedDecimal]
  unfold parseLiteral
  split
  · rename_i digits heq
    have hmem : Piece.char 'x' ∈ (signedDecimal n).toList.map Piece.char := by simp [heq]
    obtain ⟨c, hc, hx⟩ := List.mem_map.1 hmem
    cases hx
    exact absurd hc notMem_signedDecimal
  · exact parseInt_signedDecimal _ w hlow hhigh

end Integers

theorem signedValue_eq (w : UInt32) (bits : UInt64) : signedValue w bits =
    Int.bmod bits.toNat (2 ^ if w.toNat = 0 then 64 else min w.toNat 64) := by
  have h64 : (64 : UInt32).toNat = 64 := rfl
  have h0 : (0 : UInt32).toNat = 0 := rfl
  simp only [signedValue, Bool.and_eq_true, decide_eq_true_eq, UInt32.lt_iff_toNat_lt, h0, h64]
  split_ifs with hw hzero hzero
  · omega
  · rw [Nat.min_eq_left (by omega)]
    rfl
  · rfl
  · have hsize : UInt64.size = 2 ^ 64 := rfl
    rw [Nat.min_eq_right (by omega), hsize]

theorem signedValue_bounds (w : UInt32) (bits : UInt64) :
    -2 ^ 63 ≤ signedValue w bits ∧ signedValue w bits < 2 ^ 64 := by
  rw [signedValue_eq]
  have hle : 2 ^ (if w.toNat = 0 then 64 else min w.toNat 64) ≤ 2 ^ 64 :=
    Nat.pow_le_pow_right (by decide) (by split_ifs <;> omega)
  have hpos : 0 < 2 ^ (if w.toNat = 0 then 64 else min w.toNat 64) := Nat.two_pow_pos _
  generalize 2 ^ (if w.toNat = 0 then 64 else min w.toNat 64) = m at hle hpos
  have hlow := Int.le_bmod (x := bits.toNat) hpos
  have hhigh := Int.bmod_lt (x := bits.toNat) hpos
  omega

/-- The bits of an integer are what it leaves when divided by the number of patterns. -/
theorem ofInt_bits (w : UInt32) (n : Int) : (ofInt w n).bits.toNat = n % 2 ^ min w.toNat 64 := by
  have hpos : 0 < 2 ^ min w.toNat 64 := Nat.two_pow_pos _
  have hle : 2 ^ min w.toNat 64 ≤ 2 ^ 64 :=
    Nat.pow_le_pow_right (by decide) (Nat.min_le_right _ _)
  have hcast : ((2 ^ min w.toNat 64 : Nat) : Int) = 2 ^ min w.toNat 64 := by push_cast; rfl
  change ((n % (2 ^ min w.toNat 64 : Nat)).toNat.toUInt64.toNat : Int) = _
  rw [← hcast]
  generalize 2 ^ min w.toNat 64 = m at hpos hle
  have hlow := Int.emod_nonneg n (Int.natCast_ne_zero.2 (Nat.ne_of_gt hpos))
  have hhigh := Int.emod_lt_of_pos n (Int.natCast_pos.2 hpos)
  rw [UInt64.toNat_ofNat_of_lt' (by change _ < 2 ^ 64; omega), Int.toNat_of_nonneg hlow]

/-- Bits that keep to the width are found again from the number that they stand for. -/
theorem ofInt_signedValue {w : UInt32} {bits : UInt64}
    (h : w.toNat < 64 → bits.toNat < 2 ^ w.toNat) :
    ofInt w (signedValue w bits) = ⟨.int w, bits⟩ := by
  have hlt : bits.toNat < 2 ^ min w.toNat 64 := by
    rcases Nat.lt_or_ge w.toNat 64 with hw | hw
    · rw [Nat.min_eq_left (Nat.le_of_lt hw)]
      exact h hw
    · rw [Nat.min_eq_right hw]
      exact bits.toNat_lt
  have hmod : ((ofInt w (signedValue w bits)).bits.toNat : Int) = bits.toNat := by
    rw [ofInt_bits, signedValue_eq]
    split_ifs with hzero
    · rw [hzero] at hlt ⊢
      have hbits : bits.toNat = 0 := Nat.lt_one_iff.1 hlt
      rw [hbits]
      rfl
    · have hcast : (2 : Int) ^ min w.toNat 64 = (2 ^ min w.toNat 64 : Nat) := by push_cast; rfl
      rw [hcast, Int.bmod_emod, ← Int.natCast_emod, Nat.mod_eq_of_lt hlt]
  exact congrArg (Constant.mk (.int w)) (UInt64.toNat_inj.1 (Int.ofNat_inj.1 hmod))

/-- The wire form says all of the constant: the bits of a truth value or an integer keep to its
width, and those of a float are not read as a value. -/
def Carried (c : Constant) : Prop :=
  match c.type with
  | .bool => c.bits.toNat ≤ 1
  | .int w => w.toNat < 64 → c.bits.toNat < 2 ^ w.toNat
  | .float w => w ≠ 32 ∧ w ≠ 64
  | _ => False

/-- What is written for a constant is read as the constant, and any integer that has a pattern of
64 bits is read as its remainder at the width. -/
theorem parse_wireText : (∀ c : Constant, c.Carried → parse c.wireText = .ok c) ∧
    ∀ (w : UInt32) (n : Int), -2 ^ 63 ≤ n → n < 2 ^ 64 → ∃ bits : UInt64,
      parse ((Ty.int w).text ++ " " ++ signedDecimal n : String) = .ok ⟨.int w, bits⟩ ∧
        bits.toNat = n % 2 ^ min w.toNat 64 := by
  refine ⟨fun c hc => ?_, fun w n hlow hhigh => ⟨_, parse_int w hlow hhigh, ?_⟩⟩
  · obtain ⟨t, bits⟩ := c
    cases t with
    | bool =>
      rcases Nat.le_one_iff_eq_zero_or_eq_one.1 hc with hbits | hbits
      · cases (UInt64.toNat_inj (b := 0)).1 hbits
        decide +kernel
      · cases (UInt64.toNat_inj (b := 1)).1 hbits
        decide +kernel
    | int w =>
      obtain ⟨hlow, hhigh⟩ := signedValue_bounds w bits
      exact (parse_int w hlow hhigh).trans (congrArg _ (ofInt_signedValue hc))
    | float w =>
      have hw : ¬ (w == 32 || w == 64) := by simpa [Carried] using hc
      obtain ⟨hwhole, htext⟩ := isLiteral_number (t := .float w) rfl
      have hdigits := isLiteral_toDigits (by decide : 1 < 16) (by decide) bits.toNat
      have hlit := (hdigits.cons (c := 'x') (by decide)).cons (c := '0') (by decide)
      have hread : readNatural 16 maxUnsigned (Nat.toDigits 16 bits.toNat) = .ok bits.toNat :=
        readNatural_toDigits (by decide) (by decide) (Nat.le_pred_of_lt bits.toNat_lt)
      rw [wireText]
      dsimp only
      rw [if_neg hw, parse_spaced _ (by simp [hex]) hwhole htext hlit, List.map_cons,
        List.map_cons, parseLiteral, parseBits, Ty.map_shown, hread]
      simp
    | missing | void | pointer => cases hc
  · exact ofInt_bits w n

/-- The least and the largest number of eight bits, and a number that only fits without a sign. -/
theorem parse_wireText_extremes :
    parse (wireText ⟨.int 8, 128⟩) = .ok ⟨.int 8, 128⟩ ∧
      parse (wireText ⟨.float 16, 0x7e00⟩) = .ok ⟨.float 16, 0x7e00⟩ ∧
      ∃ bits : UInt64, parse ((Ty.int 8).text ++ " " ++ signedDecimal (2 ^ 64 - 1) : String) =
        .ok ⟨.int 8, bits⟩ ∧ bits.toNat = ((2 ^ 64 - 1 : Int)) % 2 ^ min (UInt32.toNat 8) 64 :=
  ⟨parse_wireText.1 _ fun _ => by decide, parse_wireText.1 _ ⟨by decide, by decide⟩,
    parse_wireText.2 8 (2 ^ 64 - 1) (by decide) (by decide)⟩

end Constant
end Elementwise.IR
