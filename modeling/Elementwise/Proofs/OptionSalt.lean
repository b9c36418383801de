import Elementwise.Cache
import Mathlib.Data.List.Basic

/-!
# Options are told apart by their text

Six fields stand between bars and none is escaped. The first four hold no bar, and neither does the
last, so the entry point is what stands between the fourth bar and the last one, whatever it holds.
-/
namespace Elementwise.Cache
open Text.Numeral

section Separators

variable {α : Type} {sep : α} {xs ys tail tail' : List α}

/-- What stands before the first separator is found again. -/
theorem append_cons_inj_left (hx : sep ∉ xs) (hy : sep ∉ ys)
    (h : xs ++ sep :: tail = ys ++ sep :: tail') : xs = ys ∧ tail = tail' := by
  rcases List.append_eq_append_iff.1 h with ⟨_ | ⟨a, more⟩, rfl, heq⟩ | ⟨_ | ⟨a, more⟩, rfl, heq⟩
  · simpa using heq
  · cases heq
    simp at hy
  · simpa [eq_comm] using heq
  · cases heq
    simp at hx

/-- So is what stands after the last one. -/
theorem append_cons_inj_right (hx : sep ∉ tail) (hy : sep ∉ tail')
    (h : xs ++ sep :: tail = ys ++ sep :: tail') : xs = ys ∧ tail = tail' := by
  have hreverse : tail.reverse ++ sep :: xs.reverse = tail'.reverse ++ sep :: ys.reverse := by
    simpa using congrArg List.reverse h
  obtain ⟨htail, hfront⟩ := append_cons_inj_left (by simpa using hx) (by simpa using hy) hreverse
  exact ⟨List.reverse_inj.1 hfront, List.reverse_inj.1 htail⟩

end Separators

theorem isDigit_of_mem_decimal {n : Nat} {c : Char} (h : c ∈ (decimal n).toList) : c.isDigit := by
  rw [decimal, String.toList_ofList] at h
  exact Nat.isDigit_of_mem_toDigits (by decide) (by decide) h

theorem notMem_decimal {c : Char} (h : c.isDigit = false) (n : Nat) : c ∉ (decimal n).toList :=
  fun hc => Bool.false_ne_true (h.symm.trans (isDigit_of_mem_decimal hc))

theorem decimal_inj {m n : Nat} (h : decimal m = decimal n) : m = n := by
  have hdigits := congrArg (Nat.ofDigitChars 10 · 0) (String.ofList_inj.1 h)
  simpa [Nat.ofDigitChars_toDigits] using hdigits

/-- The numbers of capabilities, with blanks between them. -/
def numbersText (cs : List UInt32) : String := " ".intercalate (cs.map fun c => decimal c.toNat)

theorem mem_numbersText {cs : List UInt32} {c : Char} (h : c ∈ (numbersText cs).toList) :
    c = ' ' ∨ c.isDigit := by
  unfold numbersText at h
  induction cs with
  | nil => cases h
  | cons x rest ih =>
    cases rest with
    | nil => exact Or.inr (isDigit_of_mem_decimal (by simpa using h))
    | cons y rest =>
      simp only [List.map_cons, String.intercalate_cons_cons, String.toList_append,
        List.mem_append] at h ih
      rcases h with (h | h) | h
      · exact Or.inr (isDigit_of_mem_decimal h)
      · exact Or.inl (by simpa using h)
      · exact ih h

/-- The numbers are found again between the blanks. -/
theorem numbersText_inj {cs cs' : List UInt32} (h : numbersText cs = numbersText cs') :
    cs = cs' := by
  have hsplit : ∀ c cs, (numbersText (c :: cs)).toList.splitOn ' ' =
      (c :: cs).map fun c => (decimal c.toNat).toList := by
    intro c cs
    rw [numbersText, String.toList_intercalate, List.map_map]
    refine List.splitOn_intercalate ' ' ?_ (by simp)
    simp only [List.mem_map, Function.comp_apply, forall_exists_index, and_imp]
    rintro _ c _ rfl
    exact notMem_decimal (by decide) _
  have hne : ∀ c cs, numbersText (c :: cs) ≠ numbersText [] := by
    intro c cs heq
    have hparts := hsplit c cs
    rw [heq] at hparts
    have hdigits : (decimal c.toNat).toList = [] := (List.cons.inj hparts).1.symm
    simp [decimal] at hdigits
  match cs, cs' with
  | [], [] => rfl
  | [], c :: rest => exact absurd h.symm (hne c rest)
  | c :: rest, [] => exact absurd h (hne c rest)
  | c :: rest, c' :: rest' =>
    have hparts := hsplit c rest
    rw [h, hsplit c' rest'] at hparts
    refine List.map_injective_iff.2 (fun a b hab => ?_) hparts.symm
    exact UInt32.toNat_inj.1 (decimal_inj (String.toList_inj.1 hab))

theorem version_text_inj {v v' : Spirv.Version} (h : v.text = v'.text) : v = v' := by
  have hdot : ∀ n, '.' ∉ (decimal n).toList := notMem_decimal (by decide)
  have hlist := congrArg String.toList h
  simp only [Spirv.Version.text, String.toList_append, List.append_assoc] at hlist
  obtain ⟨hmajor, hminor⟩ := append_cons_inj_left (hdot _) (hdot _) hlist
  obtain ⟨major, minor⟩ := v
  obtain ⟨major', minor'⟩ := v'
  cases UInt8.toNat_inj.1 (decimal_inj (String.toList_inj.1 hmajor))
  cases UInt8.toNat_inj.1 (decimal_inj (String.toList_inj.1 hminor))
  rfl

theorem truthText_inj {a b : Bool} (h : truthText a = truthText b) : a = b := by
  revert a b
  decide

/-- Characters before the bar have no bar among their bytes. -/
theorem bar_notMem {s : String} (h : ∀ c ∈ s.toList, c.toNat < 124) :
    124 ∉ (Text.ofString s).bytes := by
  intro hmem
  obtain ⟨c, hc, hbyte⟩ := List.mem_flatMap.1 hmem
  have hsmall : c.val.toNat < 124 := h c hc
  have hval : c.val ≤ 127 :=
    UInt32.le_iff_toNat_le.2 (Nat.le_trans (Nat.le_of_lt hsmall) (by decide))
  rw [String.utf8EncodeChar_eq_singleton (Char.utf8Size_eq_one_iff.2 hval),
    List.mem_singleton] at hbyte
  have hnat := congrArg UInt8.toNat hbyte
  rw [UInt32.toNat_toUInt8, Nat.mod_eq_of_lt (Nat.lt_trans hsmall (by decide))] at hnat
  exact absurd hnat.symm (Nat.ne_of_lt hsmall)

theorem isDigit_toNat_lt {c : Char} (h : c.isDigit) : c.toNat < 124 :=
  Nat.lt_of_le_of_lt (Char.isDigit_iff_toNat.1 h).2 (by decide)

theorem bar_notMem_version (v : Spirv.Version) : 124 ∉ (Text.ofString v.text).bytes := by
  refine bar_notMem fun c hc => ?_
  simp only [Spirv.Version.text, String.toList_append, List.mem_append] at hc
  rcases hc with (hc | hc) | hc
  · exact isDigit_toNat_lt (isDigit_of_mem_decimal hc)
  · obtain rfl : c = '.' := by simpa using hc
    decide
  · exact isDigit_toNat_lt (isDigit_of_mem_decimal hc)

theorem bar_notMem_numbers (cs : List UInt32) :
    124 ∉ (Text.ofString ("[" ++ numbersText cs ++ "]")).bytes := by
  refine bar_notMem fun c hc => ?_
  simp only [String.toList_append, List.mem_append] at hc
  rcases hc with (hc | hc) | hc
  · obtain rfl : c = '[' := by simpa using hc
    decide
  · rcases mem_numbersText hc with rfl | hdigit
    · decide
    · exact isDigit_toNat_lt hdigit
  · obtain rfl : c = ']' := by simpa using hc
    decide

/-- The bytes that options are salted with are those of no other options. -/
theorem optionsText_eq_iff (o o' : Spirv.Options) :
    (optionsText o).bytes = (optionsText o').bytes ↔ o = o' := by
  refine ⟨fun hfields => ?_, fun h => congrArg _ (congrArg _ h)⟩
  have hbar : (Text.ofString "|").bytes = [124] := by decide +kernel
  have htruth : ∀ b, 124 ∉ (Text.ofString (truthText b)).bytes := by decide +kernel
  simp only [optionsText, Text.joined, Text.concat, List.intersperse, List.flatMap_cons, hbar,
    List.singleton_append, List.flatMap_nil, List.append_nil] at hfields
  obtain ⟨h₁, hfields⟩ := append_cons_inj_left (bar_notMem_version _) (bar_notMem_version _) hfields
  obtain ⟨h₂, hfields⟩ := append_cons_inj_left (htruth _) (htruth _) hfields
  obtain ⟨h₃, hfields⟩ := append_cons_inj_left (htruth _) (htruth _) hfields
  obtain ⟨h₄, hfields⟩ := append_cons_inj_left (htruth _) (htruth _) hfields
  obtain ⟨h₅, h₆⟩ := append_cons_inj_right (bar_notMem_numbers _) (bar_notMem_numbers _) hfields
  have hstring : ∀ {s t : String}, (Text.ofString s).bytes = (Text.ofString t).bytes → s = t :=
    fun h => Text.ofString_inj (congrArg Text.mk h)
  have hbrackets := congrArg String.toList (hstring h₆)
  simp only [String.toList_append, List.append_assoc] at hbrackets
  have hcapabilities := List.append_cancel_right (List.append_cancel_left hbrackets)
  have hentry : o.entryPoint = o'.entryPoint := congrArg Text.mk h₅
  cases o
  cases o'
  dsimp only at hentry
  cases version_text_inj (hstring h₁)
  cases truthText_inj (hstring h₂)
  cases truthText_inj (hstring h₃)
  cases truthText_inj (hstring h₄)
  cases hentry
  cases numbersText_inj (String.toList_inj.1 hcapabilities)
  rfl

end Elementwise.Cache
