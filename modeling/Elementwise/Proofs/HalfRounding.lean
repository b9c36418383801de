import Elementwise.Ieee.Format
import Mathlib.Algebra.Order.Field.Power
import Mathlib.Algebra.Order.Ring.Rat
import Mathlib.Order.Monotone.Basic
import Mathlib.Tactic.Linarith
import Mathlib.Tactic.Positivity
import Mathlib.Tactic.NormNum
import Mathlib.Tactic.Ring

/-!
# Narrowing to half precision

The value of a pattern is read off its bits, in units of the least positive value; the infinite
pattern counts as the power of two that follows the largest finite value. A pattern between the
middles to its neighbours is the nearest one, and cutting off a significand leads there, whether the
bits are lost below the subnormal numbers, among them or above.
-/
namespace Elementwise.Ieee

/-- What the pattern of a magnitude stands for, in units of the least positive value. -/
def Format.units (f : Format) (p : Nat) : Nat :=
  if p < 2 ^ f.fractionBits then p
  else (2 ^ f.fractionBits + p % 2 ^ f.fractionBits) * 2 ^ (p / 2 ^ f.fractionBits - 1)

def Format.magnitude (f : Format) (p : Nat) : ℚ := f.units p * 2 ^ f.leastExponent

def Format.negative (f : Format) (bits : Nat) : Bool := bits / f.signBit % 2 == 1

/-- The rational that a pattern stands for, if it is a number. -/
def value? (f : Format) (bits : Nat) : Option ℚ :=
  let x := f.magnitude (bits % f.signBit)
  if bits % f.signBit ≤ f.infinity then some (if f.negative bits then -x else x) else none

example : value? .half 0x7c00 = some 65536 := by decide +kernel

/-- A pattern of the given sign whose value is nearest to a rational. Of two values that are equally
near, it has the one that is further from zero. -/
structure RoundsAway (f : Format) (negative : Bool) (x : ℚ) (p : Nat) : Prop where
  sign : f.negative p = negative
  near : ∃ v, value? f p = some v ∧ ∀ q w, value? f q = some w →
    |v - x| < |w - x| ∨ |v - x| = |w - x| ∧ |w| ≤ |v|

/-! ## Patterns and their values -/

section Units

variable (f : Format) {p : Nat}

theorem Format.units_of_lt (h : p < 2 ^ f.fractionBits) : f.units p = p := if_pos h

/-- The rule for an exponent also holds where the next one starts. -/
theorem Format.units_normal {u : Nat} (k : Nat) (hu : u ≤ 2 ^ f.fractionBits) :
    f.units ((k + 1) * 2 ^ f.fractionBits + u) = (2 ^ f.fractionBits + u) * 2 ^ k := by
  have hpos : 0 < 2 ^ f.fractionBits := by positivity
  unfold units
  generalize 2 ^ f.fractionBits = b at *
  have hge : ¬ (k + 1) * b + u < b := by
    rw [Nat.succ_mul]
    omega
  rw [if_neg hge]
  obtain hlt | rfl := Nat.lt_or_eq_of_le hu
  · rw [Nat.mul_add_mod_self_right, Nat.mod_eq_of_lt hlt, Nat.add_comm (_ * b),
      Nat.add_mul_div_right _ _ hpos, Nat.div_eq_of_lt hlt, Nat.zero_add, Nat.add_sub_cancel]
  · have hnext : (k + 1) * u + u = (k + 2) * u := by ring
    rw [hnext, Nat.mul_mod_left, Nat.mul_div_cancel _ hpos]
    simp only [Nat.add_one_sub_one, pow_succ]
    ring

theorem Format.units_of_le (h : p ≤ 2 * 2 ^ f.fractionBits) : f.units p = p := by
  obtain hlt | hle := Nat.lt_or_ge p (2 ^ f.fractionBits)
  · exact f.units_of_lt hlt
  · have hnormal := f.units_normal (u := p - 2 ^ f.fractionBits) 0 (by omega)
    rw [Nat.zero_add, Nat.one_mul, pow_zero, Nat.mul_one, Nat.add_sub_cancel' hle] at hnormal
    exact hnormal

/-- Patterns are ordered as the values are. -/
theorem Format.units_strictMono : StrictMono f.units := by
  refine strictMono_nat_of_lt_succ fun p => ?_
  have hpos : 0 < 2 ^ f.fractionBits := by positivity
  obtain hlt | hle := Nat.lt_or_ge p (2 ^ f.fractionBits)
  · rw [f.units_of_lt hlt, f.units_of_le (by omega)]
    exact p.lt_succ_self
  · obtain ⟨k, hk⟩ := Nat.exists_eq_succ_of_ne_zero (Nat.div_pos hle hpos).ne'
    have hu := Nat.mod_lt p hpos
    have hp : (k + 1) * 2 ^ f.fractionBits + p % 2 ^ f.fractionBits = p := by
      rw [← Nat.succ_eq_add_one, ← hk, Nat.div_add_mod']
    rw [← hp, Nat.add_assoc, f.units_normal k hu.le, f.units_normal k hu]
    exact Nat.mul_lt_mul_of_pos_right (by omega) (by positivity)

theorem Format.magnitude_strictMono : StrictMono f.magnitude := by
  intro p q h
  have hunits : (f.units p : ℚ) < f.units q := by exact_mod_cast f.units_strictMono h
  exact mul_lt_mul_of_pos_right hunits (by positivity)

theorem Format.magnitude_nonneg (p : Nat) : 0 ≤ f.magnitude p := by
  unfold magnitude
  positivity

theorem Format.magnitude_zero : f.magnitude 0 = 0 := by
  rw [magnitude, f.units_of_lt (by positivity), Nat.cast_zero, zero_mul]

theorem value?_zero : value? f 0 = some 0 := by
  simp [value?, f.magnitude_zero]

theorem Format.infinity_lt_signBit : f.infinity < f.signBit := by
  have htop : f.topField < 2 ^ f.exponentBits := Nat.sub_lt (Nat.two_pow_pos _) Nat.one_pos
  rw [infinity, signBit, Nat.pow_eq, Nat.pow_eq, pow_add, Nat.mul_comm]
  exact Nat.mul_lt_mul_of_pos_left htop (by positivity)

variable {f}

theorem value?_eq_some {bits : Nat} {v : ℚ} :
    value? f bits = some v ↔ bits % f.signBit ≤ f.infinity ∧
      v = if f.negative bits then -f.magnitude (bits % f.signBit)
        else f.magnitude (bits % f.signBit) := by
  rw [value?, Option.ite_none_right_eq_some, Option.some.injEq, eq_comm]

theorem signed_parts (negative : Bool) (hp : p < f.signBit) :
    f.negative (signed f negative p) = negative ∧ signed f negative p % f.signBit = p := by
  have hpos : 0 < f.signBit := Nat.two_pow_pos _
  cases negative <;> simp [Format.negative, signed, Nat.add_div_left _ hpos, Nat.div_eq_of_lt hp,
    Nat.mod_eq_of_lt hp]

end Units

/-! ## The nearest pattern -/

section Nearest

variable {f : Format} {v w x : ℚ} {p : Nat}

/-- The larger of two numbers is as near from their middle on. -/
theorem abs_sub_le_abs_sub_iff (h : w < v) : |v - x| ≤ |w - x| ↔ v + w ≤ 2 * x := by
  have hsq : (w - x) ^ 2 - (v - x) ^ 2 = (v - w) * (2 * x - (v + w)) := by ring
  rw [← sq_le_sq, ← sub_nonneg, hsq, mul_nonneg_iff_of_pos_left (sub_pos.2 h), sub_nonneg]

theorem abs_sub_lt_abs_sub_iff (h : w < v) : |w - x| < |v - x| ↔ 2 * x < v + w := by
  rw [← not_le, abs_sub_le_abs_sub_iff h, not_le]

/-- A number that is nearest to a larger one is not smaller. -/
theorem RoundsAway.mono {b c : Bool} {y : ℚ} {q : Nat} (hp : RoundsAway f b x p)
    (hq : RoundsAway f c y q) (hxy : x ≤ y) :
    ∃ v w, value? f p = some v ∧ value? f q = some w ∧ v ≤ w := by
  obtain ⟨v, hv, hnear⟩ := hp.near
  obtain ⟨w, hw, hnear'⟩ := hq.near
  have hle : ∀ {q w}, value? f q = some w → |v - x| ≤ |w - x| := fun hw =>
    (hnear _ _ hw).elim le_of_lt fun h => h.1.le
  refine ⟨v, w, hv, hw, ?_⟩
  by_contra! hlt
  have hx : v + w ≤ 2 * x := (abs_sub_le_abs_sub_iff hlt).1 (hle hw)
  rcases hnear' p v hv with h | ⟨htie, hfar⟩
  · linarith [(abs_sub_lt_abs_sub_iff hlt).1 h]
  rcases abs_eq_abs.1 htie with h | h
  · linarith
  -- `x` and `y` are both the middle, and neither of the two is nearer to zero: then that is zero
  obtain rfl : x = y := by linarith
  rcases hnear q w hw with hnearer | ⟨-, hfar'⟩
  · exact absurd htie hnearer.ne'
  rcases abs_eq_abs.1 (le_antisymm hfar hfar') with heq | heq
  · exact hlt.ne' heq
  obtain rfl : x = 0 := by linarith
  have hzero := hle (value?_zero f)
  rw [sub_zero, sub_zero, abs_zero, abs_nonpos_iff] at hzero
  linarith

/-- The pattern lies between the middles to its neighbours. -/
structure Format.Brackets (f : Format) (x : ℚ) (p : Nat) : Prop where
  le : p ≤ f.infinity
  below : ∀ q < p, f.magnitude p + f.magnitude q ≤ 2 * x
  above : ∀ q ≤ f.infinity, p < q → 2 * x < f.magnitude q + f.magnitude p

/-- From the middle between two neighbours on the upper one is nearest. -/
theorem Format.brackets_step {gap rest : ℚ} {bit : Nat} (hp : p < f.infinity) (hrest : 0 ≤ rest)
    (hlt : rest < gap) (hnext : f.magnitude (p + 1) = f.magnitude p + 2 * gap)
    (hx : x = f.magnitude p + bit * gap + rest) (hbit : bit = 0 ∨ bit = 1) :
    f.Brackets x (p + bit) := by
  have hmono := f.magnitude_strictMono
  obtain rfl | rfl := hbit
  · rw [Nat.cast_zero, zero_mul, add_zero] at hx
    refine ⟨hp.le, fun q hq => ?_, fun q _ hq => ?_⟩
    · have hbelow := hmono hq
      rw [Nat.add_zero] at hbelow ⊢
      linarith
    · have habove : f.magnitude (p + 1) ≤ f.magnitude q := hmono.monotone hq
      rw [Nat.add_zero]
      linarith
  · rw [Nat.cast_one, one_mul] at hx
    refine ⟨hp, fun q hq => ?_, fun q _ hq => ?_⟩
    · have hbelow : f.magnitude q ≤ f.magnitude p := hmono.monotone (Nat.le_of_lt_succ hq)
      linarith
    · linarith [hmono hq]

/-- What overflows becomes infinite. -/
theorem Format.brackets_infinity (h : f.magnitude f.infinity ≤ x) : f.Brackets x f.infinity := by
  refine ⟨Nat.le_refl _, fun q hq => ?_, fun q hle hq => absurd hle (Nat.not_le_of_lt hq)⟩
  have hbelow := f.magnitude_strictMono hq
  linarith

/-- Whatever lies between the middles is rounded to the pattern. -/
theorem Format.Brackets.roundsAway (h : f.Brackets x p) (hx : 0 ≤ x) (negative : Bool) :
    RoundsAway f negative (if negative then -x else x) (signed f negative p) := by
  obtain ⟨hsign, hmod⟩ := signed_parts negative (h.le.trans_lt f.infinity_lt_signBit)
  refine ⟨hsign, _, value?_eq_some.2 ⟨hmod.symm ▸ h.le, rfl⟩, fun q w hw => ?_⟩
  obtain ⟨hq, rfl⟩ := value?_eq_some.1 hw
  rw [hsign, hmod]
  generalize q % f.signBit = r at hq
  have hnear : |f.magnitude p - x| < |f.magnitude r - x| ∨
      |f.magnitude p - x| = |f.magnitude r - x| ∧ f.magnitude r ≤ f.magnitude p := by
    obtain hlt | rfl | hlt := Nat.lt_trichotomy r p
    · have hmag := f.magnitude_strictMono hlt
      have hbelow := (abs_sub_le_abs_sub_iff hmag).2 (h.below r hlt)
      exact hbelow.lt_or_eq.imp_right fun heq => ⟨heq, hmag.le⟩
    · exact .inr ⟨rfl, le_rfl⟩
    · exact .inl ((abs_sub_lt_abs_sub_iff (f.magnitude_strictMono hlt)).2 (h.above r hq hlt))
  have habs : ∀ (b : Bool) {a : ℚ}, 0 ≤ a → |if b then -a else a| = a := by
    intro b a ha
    cases b <;> simp [ha]
  have hdistance : |(if negative then -f.magnitude p else f.magnitude p) -
      (if negative then -x else x)| = |f.magnitude p - x| := by
    cases negative <;> simp [neg_add_eq_sub, abs_sub_comm]
  have hapart := abs_abs_sub_abs_le (if f.negative q then -f.magnitude r else f.magnitude r)
    (if negative then -x else x)
  rw [habs _ (f.magnitude_nonneg r), habs _ hx] at hapart
  rw [hdistance, habs _ (f.magnitude_nonneg r), habs _ (f.magnitude_nonneg p)]
  rcases hnear with hlt | ⟨heq, hle⟩
  · exact .inl (hlt.trans_le hapart)
  · exact (heq.trans_le hapart).lt_or_eq.imp_right fun h => ⟨h, hle⟩

end Nearest

/-! ## Half precision -/

/-- A significand is cut off and rounded by the first bit that is lost. -/
theorem brackets_shift {p q : Nat} (significand exponent lost scale : Nat)
    (hscale : scale + 125 = lost + 1 + exponent)
    (hq : Format.single.units q = significand * 2 ^ exponent)
    (hp : Format.half.units p = significand / 2 ^ (lost + 1) * 2 ^ scale)
    (hnext : Format.half.units (p + 1) = (significand / 2 ^ (lost + 1) + 1) * 2 ^ scale)
    (hlt : p < Format.half.infinity) :
    Format.half.Brackets (Format.single.magnitude q) (p + significand / 2 ^ lost % 2) := by
  -- what the last bit of the significand stands for
  obtain ⟨u, hu⟩ : ∃ u : ℚ, u = 2 ^ exponent * 2 ^ Format.single.leastExponent := ⟨_, rfl⟩
  have hpos : 0 < u := hu ▸ by positivity
  have hmagnitude : ∀ {r c : ℕ}, Format.half.units r = c * 2 ^ scale →
      Format.half.magnitude r = c * (2 * (2 ^ lost * u)) := by
    intro r c hr
    have hleast : (2 : ℚ) ^ Format.half.leastExponent =
        2 ^ 125 * 2 ^ Format.single.leastExponent := by decide +kernel
    have hpow := congrArg ((2 : ℚ) ^ ·) hscale
    simp only [pow_add _ scale, pow_add _ (lost + 1), pow_succ _ lost] at hpow
    rw [Format.magnitude, hr, hleast, hu, Nat.cast_mul, Nat.cast_pow, Nat.cast_two, mul_assoc,
      ← mul_assoc (_ ^ scale), hpow]
    ring
  have hsplit : (2 * (significand / 2 ^ (lost + 1)) + significand / 2 ^ lost % 2) * 2 ^ lost +
      significand % 2 ^ lost = significand := by
    rw [pow_succ, ← Nat.div_div_eq_div_mul, Nat.div_add_mod, Nat.div_add_mod']
  have hrest : ((significand % 2 ^ lost : ℕ) : ℚ) < 2 ^ lost := by
    exact_mod_cast Nat.mod_lt _ (Nat.two_pow_pos lost)
  refine Format.brackets_step hlt (by positivity) (mul_lt_mul_of_pos_right hrest hpos) ?_ ?_
    (Nat.mod_two_eq_zero_or_one _)
  · rw [hmagnitude hp, hmagnitude hnext]
    push_cast
    ring
  · have hx := congrArg (fun n : ℕ => (n : ℚ) * u) hsplit
    rw [Format.magnitude, hq, hmagnitude hp]
    push_cast at hx ⊢
    rw [mul_assoc, ← hu, ← hx]
    ring

theorem brackets_halfPattern {field fraction : Nat} (hfraction : fraction < 2 ^ 23)
    (hnan : field = 255 → fraction = 0) :
    Format.half.Brackets (Format.single.magnitude (field * 2 ^ 23 + fraction))
      (halfPattern field fraction) := by
  have hnormal : ∀ {k}, field = k + 1 → Format.single.units (field * 2 ^ 23 + fraction) =
      (2 ^ 23 + fraction) * 2 ^ k := by
    rintro k rfl
    exact Format.single.units_normal k hfraction.le
  have hmono := Format.single.magnitude_strictMono
  by_cases hbig : 143 ≤ field
  · have hpattern : halfPattern field fraction = Format.half.infinity := by
      by_cases hinf : field = 255
      · rw [hinf, hnan hinf]
        rfl
      · rw [halfPattern, if_neg (by simpa using hinf), if_pos hbig]
        rfl
    have hoverflow : Format.half.magnitude Format.half.infinity =
        Format.single.magnitude (143 * 2 ^ 23) := by decide +kernel
    rw [hpattern]
    exact Format.brackets_infinity (hoverflow.trans_le (hmono.monotone (by omega)))
  have hfield : field ≠ 255 := by omega
  simp only [halfPattern, beq_iff_eq, if_neg hfield, if_neg hbig, Nat.pow_eq]
  split_ifs with htiny hsmall
  · have hmiddle : Format.half.magnitude (0 + 1) =
        Format.half.magnitude 0 + 2 * Format.single.magnitude (102 * 2 ^ 23) := by decide +kernel
    have htiny' : field * 2 ^ 23 + fraction < 102 * 2 ^ 23 := by omega
    refine Format.brackets_step (by decide) (Format.single.magnitude_nonneg _) (hmono htiny') hmiddle
      ?_ (.inl rfl)
    rw [Format.magnitude_zero, Nat.cast_zero, zero_mul, zero_add, zero_add]
  · obtain ⟨lost, hlost⟩ : ∃ lost, 126 - field = lost + 1 := ⟨125 - field, by omega⟩
    have hcut : (2 ^ 23 + fraction) / 2 ^ (lost + 1) < 2 ^ 10 := by
      have hpow : 2 ^ 14 ≤ 2 ^ (lost + 1) := Nat.pow_le_pow_right Nat.two_pos (by omega)
      rw [Nat.div_lt_iff_lt_mul (by positivity)]
      omega
    rw [hlost, Nat.add_sub_cancel]
    refine brackets_shift _ (field - 1) lost 0 (by omega) (hnormal (by omega)) ?_ ?_ ?_
    · rw [pow_zero, Nat.mul_one]
      exact Format.half.units_of_lt hcut
    · rw [pow_zero, Nat.mul_one]
      exact Format.half.units_of_le (Nat.le_trans hcut (by decide))
    · exact Nat.lt_trans hcut (by decide)
  · obtain ⟨k, rfl⟩ : ∃ k, field = k + 113 := ⟨field - 113, by omega⟩
    have hcut : (2 ^ 23 + fraction) / 2 ^ 13 = 2 ^ 10 + fraction / 2 ^ 13 := by omega
    have hbit : fraction / 2 ^ 12 % 2 = (2 ^ 23 + fraction) / 2 ^ 12 % 2 := by omega
    have hu : fraction / 2 ^ 13 < 2 ^ 10 := by omega
    have hinfinity : Format.half.infinity = 31 * 2 ^ 10 := rfl
    have hshift := brackets_shift (p := (k + 1) * 2 ^ 10 + fraction / 2 ^ 13) _ (k + 112) 12 k
      (by omega) (hnormal rfl)
      (by rw [hcut]; exact Format.half.units_normal k hu.le)
      (by rw [hcut, Nat.add_assoc, Nat.add_assoc]; exact Format.half.units_normal k hu) (by omega)
    rwa [← hbit] at hshift

theorem halfPattern_lt {field fraction : Nat} (hfraction : fraction < 2 ^ 23) :
    halfPattern field fraction < 2 ^ 15 := by
  by_cases hnan : field = 255 → fraction = 0
  · exact (brackets_halfPattern hfraction hnan).le.trans_lt (by decide)
  · push Not at hnan
    simp [halfPattern, hnan]

theorem halfBits_toNat (bits : UInt32) :
    (halfBits bits).toNat = signed .half (Format.single.negative bits.toNat)
      (halfPattern (bits.toNat / 2 ^ 23 % 2 ^ 8) (bits.toNat % 2 ^ 23)) := by
  have hbits := bits.toNat_lt
  have hlt : halfPattern (bits.toNat / 2 ^ 23 % 2 ^ 8) (bits.toNat % 2 ^ 23) < 2 ^ 15 :=
    halfPattern_lt (Nat.mod_lt _ (by decide))
  have hhalf : (halfBits bits).toNat = (bits.toNat / 2 ^ 31 * 2 ^ 15 +
      halfPattern (bits.toNat / 2 ^ 23 % 2 ^ 8) (bits.toNat % 2 ^ 23)) % 2 ^ 16 := rfl
  have hsign : Format.single.signBit = 2 ^ 31 := rfl
  have hsign' : Format.half.signBit = 2 ^ 15 := rfl
  rw [hhalf, Format.negative, hsign]
  generalize halfPattern _ _ = p at *
  obtain h | h : bits.toNat / 2 ^ 31 = 0 ∨ bits.toNat / 2 ^ 31 = 1 := by omega
  · rw [h]
    exact (Nat.mod_eq_of_lt (by omega)).trans (Nat.zero_add p)
  · rw [h]
    exact (Nat.mod_eq_of_lt (by omega)).trans (by rw [signed, hsign']; rfl)

theorem single_fields (bits : Nat) : bits % Format.single.signBit =
    bits / 2 ^ 23 % 2 ^ 8 * 2 ^ 23 + bits % 2 ^ 23 := by
  change bits % 2 ^ 31 = _
  omega

theorem roundsAway_of_value? {bits : UInt32} {x : ℚ} (h : value? .single bits.toNat = some x) :
    RoundsAway .half (Format.single.negative bits.toNat) x (halfBits bits).toNat := by
  obtain ⟨hle, rfl⟩ := value?_eq_some.1 h
  have hinfinity : Format.single.infinity = 255 * 2 ^ 23 := rfl
  rw [single_fields] at hle ⊢
  rw [halfBits_toNat]
  refine (brackets_halfPattern (Nat.mod_lt _ (by decide)) ?_).roundsAway
    (Format.single.magnitude_nonneg _) _
  omega

/-- Narrowing to half precision keeps the sign and gives the nearest number, ties going away from
zero. So it is monotone, from the infinities to the numbers that become zero. -/
theorem halfBits_roundsAway :
    (∀ bits : UInt32, match value? .single bits.toNat with
      | none => (halfBits bits).toNat = signed .half (Format.single.negative bits.toNat) 0x7e00
      | some x => RoundsAway .half (Format.single.negative bits.toNat) x (halfBits bits).toNat) ∧
    (∀ bits : UInt32, bits.toNat % Format.single.signBit = Format.single.infinity →
      (halfBits bits).toNat = signed .half (Format.single.negative bits.toNat) 0x7c00) ∧
    ∀ (bits bits' : UInt32) (x y : ℚ), value? .single bits.toNat = some x →
      value? .single bits'.toNat = some y → x ≤ y →
        ∃ v w, value? .half (halfBits bits).toNat = some v ∧
          value? .half (halfBits bits').toNat = some w ∧ v ≤ w := by
  have hinfinity : Format.single.infinity = 255 * 2 ^ 23 := rfl
  refine ⟨fun bits => ?_, fun bits h => ?_, fun bits bits' x y hx hy hxy => ?_⟩
  · split
    next h =>
      have hnan : ¬ bits.toNat % Format.single.signBit ≤ Format.single.infinity := by
        simpa [value?] using h
      rw [single_fields] at hnan
      have hfield : bits.toNat / 2 ^ 23 % 2 ^ 8 = 255 := by omega
      have hfraction : bits.toNat % 2 ^ 23 ≠ 0 := by omega
      rw [halfBits_toNat, hfield, halfPattern, if_pos (beq_self_eq_true 255),
        if_neg (by simpa using hfraction)]
    next x h => exact roundsAway_of_value? h
  · rw [single_fields] at h
    have hfield : bits.toNat / 2 ^ 23 % 2 ^ 8 = 255 := by omega
    have hfraction : bits.toNat % 2 ^ 23 = 0 := by omega
    rw [halfBits_toNat, hfield, hfraction]
    rfl
  · exact (roundsAway_of_value? hx).mono (roundsAway_of_value? hy) hxy

/-- The last number that does not overflow, and the tie after it. -/
theorem halfBits_roundsAway_overflowing : (halfBits 0x477fefff).toNat = 0x7bff ∧
    (halfBits 0x477ff000).toNat = 0x7c00 ∧ ∃ v w, value? .half 0x7bff = some v ∧
      value? .half 0x7c00 = some w ∧ v ≤ w :=
  ⟨rfl, rfl, halfBits_roundsAway.2.2 0x477fefff 0x477ff000 (16773119 / 256) 65520
    (by decide +kernel) (by decide +kernel) (by norm_num)⟩

end Elementwise.Ieee
