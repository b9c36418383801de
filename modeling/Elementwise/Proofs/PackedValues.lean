import Elementwise.Msgpack.Value
import Mathlib.Algebra.Group.Nat.Defs
import Mathlib.Data.List.Basic

/-!
# MessagePack values are read back

A value whose sizes and numbers have headers is read back from what is written of it, and the bytes
after it are left. The header says the size in one byte or in the least of the wider forms, so the
reader knows where each part ends.

The reader takes steps of fuel. A value takes fewer steps than twice its bytes, since every part of
it has a byte of its own.
-/
namespace Elementwise.Msgpack

/-! ## Numbers -/

theorem length_bigEndian (count n : Nat) : (bigEndian count n).length = count := by
  induction count generalizing n with
  | zero => rfl
  | succ count ih => simp [bigEndian, ih]

theorem ofBigEndian_bigEndian {count n : Nat} (h : n < 256 ^ count) :
    ofBigEndian (bigEndian count n) = n := by
  induction count generalizing n with
  | zero =>
    obtain rfl : n = 0 := by omega
    rfl
  | succ count ih =>
    have hfront : n / 256 < 256 ^ count := by
      rw [Nat.pow_succ, Nat.mul_comm] at h
      exact Nat.div_lt_of_lt_mul h
    have hlast : (n % 256).toUInt8.toNat = n % 256 := by simp
    have hsnoc : ∀ (bytes : List UInt8) (b : UInt8),
        ofBigEndian (bytes ++ [b]) = ofBigEndian bytes * 256 + b.toNat := by simp [ofBigEndian]
    rw [bigEndian, hsnoc, ih hfront, hlast]
    omega

theorem split?_append {front : List UInt8} {count : Nat} (h : front.length = count)
    (rest : List UInt8) : split? count (front ++ rest) = some (front, rest) := by
  subst h
  simp [split?]

theorem split?_bigEndian (width n : Nat) (rest : List UInt8) :
    split? width (bigEndian width n ++ rest) = some (bigEndian width n, rest) :=
  split?_append (length_bigEndian width n) rest

theorem sized_bigEndian {width n : Nat} (h : n < 256 ^ width) (header : Nat → Header)
    (rest : List UInt8) :
    sized width header (bigEndian width n ++ rest) = some (header n, rest) := by
  simp [sized, split?_bigEndian, ofBigEndian_bigEndian h]

/-! ## Headers -/

variable {v : Value} {bytes : List UInt8} {wide : List (Nat × UInt8)}

/-- A size below the widest form is written in one byte, or in the least form that holds it. -/
theorem sizeHeader_cases (fixed : UInt8) (limit : Nat) {size : Nat}
    (h : ∃ w ∈ wide, size < 256 ^ w.1) :
    (size < limit ∧ sizeHeader fixed limit wide size = [fixed + size.toUInt8]) ∨
      ∃ w ∈ wide, size < 256 ^ w.1 ∧
        sizeHeader fixed limit wide size = w.2 :: bigEndian w.1 size := by
  unfold sizeHeader
  split_ifs with hlimit
  · exact Or.inl ⟨hlimit, rfl⟩
  · generalize hfind : wide.find? _ = found
    cases found with
    | none =>
      obtain ⟨w, hw, hsize⟩ := h
      exact absurd (decide_eq_true hsize) (List.find?_eq_none.1 hfind w hw)
    | some w =>
      have hsize := List.find?_some hfind
      exact Or.inr ⟨w, List.mem_of_find?_eq_some hfind, of_decide_eq_true hsize, rfl⟩

theorem toNat_add_toUInt8 {fixed : UInt8} {size : Nat} (h : fixed.toNat + size < 256) :
    (fixed + size.toUInt8).toNat = fixed.toNat + size := by
  have hsize : size.toUInt8.toNat = size := by
    rw [Nat.toUInt8_eq, UInt8.toNat_ofNat']
    omega
  rw [UInt8.toNat_add, hsize]
  omega

/-- A kind of value with a size is told by its header, if the one byte and the wider forms are. -/
theorem readHeader?_sizeHeader {fixed : UInt8} {limit n : Nat} {header : Nat → Header}
    (rest : List UInt8)
    (hfixed : n < limit → readHeader? ((fixed + n.toUInt8) :: rest) = some (header n, rest))
    (hwide : ∀ w ∈ wide, ∀ bytes, readHeader? (w.2 :: bytes) = sized w.1 header bytes)
    (h : ∃ w ∈ wide, n < 256 ^ w.1) :
    readHeader? (sizeHeader fixed limit wide n ++ rest) = some (header n, rest) := by
  rcases sizeHeader_cases fixed limit h with ⟨hn, heq⟩ | ⟨w, hw, hn, heq⟩
  · rw [heq]
    exact hfixed hn
  · rw [heq, List.cons_append, hwide w hw, sized_bigEndian hn]

section Headers

variable {n : Nat} (rest : List UInt8)

theorem readHeader?_text (h : n < 2 ^ 32) :
    readHeader? (textHeader n ++ rest) = some (.text n, rest) := by
  refine readHeader?_sizeHeader rest (fun hn => ?_) (by simp [readHeader?]) ⟨(4, 0xdb), by simp, h⟩
  have hcode : (0xa0 + n.toUInt8).toNat = 0xa0 + n :=
    toNat_add_toUInt8 (show 0xa0 + n < 256 by omega)
  dsimp only [readHeader?]
  rw [hcode, if_neg (by omega), if_neg (by omega), if_neg (by omega), if_pos (by omega),
    Nat.add_sub_cancel_left]

theorem readHeader?_array (h : n < 2 ^ 32) :
    readHeader? (arrayHeader n ++ rest) = some (.array n, rest) := by
  refine readHeader?_sizeHeader rest (fun hn => ?_) (by simp [readHeader?]) ⟨(4, 0xdd), by simp, h⟩
  have hcode : (0x90 + n.toUInt8).toNat = 0x90 + n :=
    toNat_add_toUInt8 (show 0x90 + n < 256 by omega)
  dsimp only [readHeader?]
  rw [hcode, if_neg (by omega), if_neg (by omega), if_pos (by omega), Nat.add_sub_cancel_left]

theorem readHeader?_map (h : n < 2 ^ 32) :
    readHeader? (mapHeader n ++ rest) = some (.map n, rest) := by
  refine readHeader?_sizeHeader rest (fun hn => ?_) (by simp [readHeader?]) ⟨(4, 0xdf), by simp, h⟩
  have hcode : (0x80 + n.toUInt8).toNat = 0x80 + n :=
    toNat_add_toUInt8 (show 0x80 + n < 256 by omega)
  dsimp only [readHeader?]
  rw [hcode, if_neg (by omega), if_pos (by omega), Nat.add_sub_cancel_left]

theorem readHeader?_binary (h : n < 2 ^ 32) :
    readHeader? (binaryHeader n ++ rest) = some (.binary n, rest) :=
  readHeader?_sizeHeader rest (fun hn => absurd hn (Nat.not_lt_zero n)) (by simp [readHeader?])
    ⟨(4, 0xc6), by simp, h⟩

/-- Five sizes have a code of their own. -/
theorem readHeader?_extension (h : n < 2 ^ 32) :
    readHeader? (extensionHeader n ++ rest) = some (.extension n, rest) := by
  unfold extensionHeader
  split
  · rfl
  · rfl
  · rfl
  · rfl
  · rfl
  · exact readHeader?_sizeHeader rest (fun hn => absurd hn (Nat.not_lt_zero n))
      (by simp [readHeader?]) ⟨(4, 0xc9), by simp, h⟩

end Headers

/-! ## Values -/

/-- The value has only sizes and numbers that a header can say. -/
inductive Value.Sized : Value → Prop
  | nil : Sized .nil
  | bool (b : Bool) : Sized (.bool b)
  | unsigned {n : Nat} (h : n < 2 ^ 64) : Sized (.unsigned n)
  | signed {width pattern : Nat} (hwidth : width ∈ [1, 2, 4, 8]) (h : pattern < 256 ^ width) :
      Sized (.signed width pattern)
  | float {width pattern : Nat} (hwidth : width ∈ [4, 8]) (h : pattern < 256 ^ width) :
      Sized (.float width pattern)
  | text {bytes : List UInt8} (h : bytes.length < 2 ^ 32) : Sized (.text bytes)
  | binary {bytes : List UInt8} (h : bytes.length < 2 ^ 32) : Sized (.binary bytes)
  | array {items : List Value} (h : items.length < 2 ^ 32) (hitems : ∀ v ∈ items, Sized v) :
      Sized (.array items)
  | map {entries : List (Value × Value)} (h : entries.length < 2 ^ 32)
      (hkeys : ∀ e ∈ entries, Sized e.1) (hvalues : ∀ e ∈ entries, Sized e.2) : Sized (.map entries)
  | extension {tag : UInt8} {bytes : List UInt8} (h : bytes.length < 2 ^ 32) :
      Sized (.extension tag bytes)

open Value

/-- Some fuel is enough to read what is written, whatever follows. -/
def Reads (fuel : Nat) (v : Value) : Prop :=
  ∀ rest, readWithin fuel (v.write ++ rest) = some (v, rest)

section Scalars

variable (fuel : Nat)

theorem reads_unsigned {n : Nat} (h : n < 2 ^ 64) : Reads (fuel + 1) (.unsigned n) := by
  intro rest
  have hwide : ∀ w ∈ [(1, (0xcc : UInt8)), (2, 0xcd), (4, 0xce), (8, 0xcf)], ∀ bytes,
      readHeader? (w.2 :: bytes) = some (.unsigned w.1, bytes) := by simp [readHeader?]
  have hbound : ∃ w ∈ [(1, (0xcc : UInt8)), (2, 0xcd), (4, 0xce), (8, 0xcf)], n < 256 ^ w.1 :=
    ⟨(8, 0xcf), by simp, h⟩
  rw [write, unsignedHeader]
  rcases sizeHeader_cases 0 128 hbound with ⟨hn, heq⟩ | ⟨w, hw, hn, heq⟩
  · have hcode : (0 + n.toUInt8).toNat = 0 + n := toNat_add_toUInt8 (show 0 + n < 256 by omega)
    have hheader : readHeader? ((0 + n.toUInt8) :: rest) = some (.done (.unsigned n), rest) := by
      dsimp only [readHeader?]
      rw [hcode, if_pos (by omega), Nat.zero_add]
    rw [heq, List.singleton_append, readWithin, hheader]
  · rw [heq, List.cons_append, readWithin, hwide w hw]
    simp [split?_bigEndian, ofBigEndian_bigEndian hn]

theorem reads_signed {width pattern : Nat} (hwidth : width ∈ [1, 2, 4, 8])
    (h : pattern < 256 ^ width) : Reads (fuel + 1) (.signed width pattern) := by
  intro rest
  have hcode : ∀ w ∈ [1, 2, 4, 8], ∀ bytes,
      readHeader? (numberCode 0xd0 w :: bytes) = some (.signed w, bytes) := by
    simp [readHeader?, numberCode]
  rw [write, List.cons_append, readWithin, hcode width hwidth]
  simp [split?_bigEndian, ofBigEndian_bigEndian h]

theorem reads_float {width pattern : Nat} (hwidth : width ∈ [4, 8])
    (h : pattern < 256 ^ width) : Reads (fuel + 1) (.float width pattern) := by
  intro rest
  have hcode : ∀ w ∈ [4, 8], ∀ bytes,
      readHeader? ((if w == 4 then 0xca else 0xcb) :: bytes) = some (.float w, bytes) := by
    simp [readHeader?]
  rw [write, List.cons_append, readWithin, hcode width hwidth]
  simp [split?_bigEndian, ofBigEndian_bigEndian h]

theorem reads_text (h : bytes.length < 2 ^ 32) : Reads (fuel + 1) (.text bytes) := by
  intro rest
  rw [write, List.append_assoc, readWithin, readHeader?_text _ h]
  simp [split?_append]

theorem reads_binary (h : bytes.length < 2 ^ 32) : Reads (fuel + 1) (.binary bytes) := by
  intro rest
  rw [write, List.append_assoc, readWithin, readHeader?_binary _ h]
  simp [split?_append]

theorem reads_extension {tag : UInt8} (h : bytes.length < 2 ^ 32) :
    Reads (fuel + 1) (.extension tag bytes) := by
  intro rest
  rw [write, List.append_assoc, readWithin, readHeader?_extension _ h]
  dsimp only
  rw [split?_append (List.length_cons)]

end Scalars

theorem length_pos_of_readHeader? {header : Header}
    (h : ∀ more, readHeader? (bytes ++ more) = some (header, more)) : 0 < bytes.length := by
  refine List.length_pos_iff.2 fun hnil => ?_
  have hempty := h []
  rw [hnil] at hempty
  cases hempty

theorem length_arrayHeader_pos {n : Nat} (h : n < 2 ^ 32) : 0 < (arrayHeader n).length :=
  length_pos_of_readHeader? fun more => readHeader?_array more h

theorem length_mapHeader_pos {n : Nat} (h : n < 2 ^ 32) : 0 < (mapHeader n).length :=
  length_pos_of_readHeader? fun more => readHeader?_map more h

theorem Reads.length_pos {fuel : Nat} (h : Reads (fuel + 1) v) : 0 < v.write.length := by
  refine List.length_pos_iff.2 fun hnil => ?_
  have hempty := h []
  rw [hnil] at hempty
  cases hempty

theorem length_write_pos (h : v.Sized) : 0 < v.write.length := by
  cases h with
  | nil | bool | signed | float => simp [write]
  | unsigned h => exact (reads_unsigned 0 h).length_pos
  | text h => exact (reads_text 0 h).length_pos
  | binary h => exact (reads_binary 0 h).length_pos
  | extension h => exact (reads_extension 0 h).length_pos
  | array h =>
    have hheader := length_arrayHeader_pos h
    rw [write, List.length_append]
    omega
  | map h =>
    have hheader := length_mapHeader_pos h
    rw [write, List.length_append]
    omega

/-- The three readers at once, by induction on the fuel: a value needs fewer steps than twice its
bytes, items and entries need twice their bytes. -/
theorem reads_of_length_le (fuel : Nat) :
    (∀ v : Value, v.Sized → 2 * v.write.length ≤ fuel + 1 → Reads fuel v) ∧
    (∀ items : List Value, (∀ v ∈ items, v.Sized) → 2 * (writeItems items).length ≤ fuel →
      ∀ rest, readItems fuel items.length (writeItems items ++ rest) = some (items, rest)) ∧
    (∀ entries : List (Value × Value), (∀ e ∈ entries, e.1.Sized) → (∀ e ∈ entries, e.2.Sized) →
      2 * (writeEntries entries).length ≤ fuel →
      ∀ rest, readEntries fuel entries.length (writeEntries entries ++ rest) =
        some (entries, rest)) := by
  induction fuel with
  | zero =>
    refine ⟨fun v hv hlength => ?_, fun items hitems hlength rest => ?_,
      fun entries hkeys _ hlength rest => ?_⟩
    · have hpos := length_write_pos hv
      omega
    · cases items with
      | nil => rfl
      | cons v more =>
        have hpos := length_write_pos (hitems v List.mem_cons_self)
        rw [writeItems, List.length_append] at hlength
        omega
    · cases entries with
      | nil => rfl
      | cons e more =>
        have hpos := length_write_pos (hkeys e List.mem_cons_self)
        rw [writeEntries, List.length_append] at hlength
        omega
  | succ fuel ih =>
    obtain ⟨ihValue, ihItems, ihEntries⟩ := ih
    refine ⟨fun v hv hlength => ?_, fun items hitems hlength rest => ?_,
      fun entries hkeys hvalues hlength rest => ?_⟩
    · cases hv with
      | nil => exact fun rest => rfl
      | bool b => cases b <;> exact fun rest => rfl
      | unsigned h => exact reads_unsigned fuel h
      | signed hwidth h => exact reads_signed fuel hwidth h
      | float hwidth h => exact reads_float fuel hwidth h
      | text h => exact reads_text fuel h
      | binary h => exact reads_binary fuel h
      | extension h => exact reads_extension fuel h
      | array h hitems =>
        intro rest
        have hheader := length_arrayHeader_pos h
        rw [write, List.length_append] at hlength
        rw [write, List.append_assoc, readWithin, readHeader?_array _ h]
        dsimp only
        rw [ihItems _ hitems (by omega), Option.map_some]
      | map h hkeys hvalues =>
        intro rest
        have hheader := length_mapHeader_pos h
        rw [write, List.length_append] at hlength
        rw [write, List.append_assoc, readWithin, readHeader?_map _ h]
        dsimp only
        rw [ihEntries _ hkeys hvalues (by omega), Option.map_some]
    · cases items with
      | nil => rfl
      | cons v more =>
        obtain ⟨hv, hmore⟩ := List.forall_mem_cons.1 hitems
        have hpos := length_write_pos hv
        rw [writeItems, List.length_append] at hlength
        rw [writeItems, List.append_assoc, List.length_cons, readItems,
          ihValue v hv (by omega)]
        dsimp only
        rw [ihItems more hmore (by omega), Option.map_some]
    · cases entries with
      | nil => rfl
      | cons e more =>
        obtain ⟨key, value⟩ := e
        obtain ⟨hkey, hmoreKeys⟩ := List.forall_mem_cons.1 hkeys
        obtain ⟨hvalue, hmoreValues⟩ := List.forall_mem_cons.1 hvalues
        have hpos : 0 < key.write.length := length_write_pos hkey
        rw [writeEntries, List.length_append, List.length_append] at hlength
        rw [writeEntries, List.append_assoc, List.append_assoc, List.length_cons, readEntries,
          ihValue key hkey (by omega)]
        dsimp only
        rw [ihValue value hvalue (by omega)]
        dsimp only
        rw [ihEntries more hmoreKeys hmoreValues (by omega), Option.map_some]

/-- Every value of these sizes is read back, and what follows it is left. -/
theorem read?_write (h : v.Sized) (rest : List UInt8) :
    read? (v.write ++ rest) = some (v, rest) := by
  refine (reads_of_length_le _).1 v h ?_ rest
  rw [List.length_append]
  omega

end Elementwise.Msgpack
