import Elementwise.Spirv.Verification

/-!
# Written instructions are read back

The head word of an instruction gives back its length and its opcode, and a text without zero
bytes gives back its bytes. So the words of a list of instructions are read instruction by
instruction: the reader stops only where an instruction does not have the shape of its opcode.

What the reader makes of a single instruction, apart from its offset, is a property of the
instruction: the id that it defines and the ids that it reads.
-/
namespace Elementwise.Spirv

variable {i : Instruction} {instrs : List Instruction}

namespace Instruction

theorem head_toNat (h : i.fits) :
    i.head.toNat = (i.operands.length + 1) * 65536 + i.opcode.code.toNat := by
  have hl : i.operands.length + 1 < 65536 := by simpa [fits] using h
  have hc : i.opcode.code.toNat < 2 ^ 16 := UInt16.toNat_lt _
  have hor := Nat.shiftLeft_add_eq_or_of_lt hc (i.operands.length + 1)
  have hs : (i.operands.length + 1).toUInt32.toNat = i.operands.length + 1 :=
    UInt32.toNat_ofNat_of_lt' (by simp only [UInt32.size]; omega)
  have h16 : UInt32.toNat 16 % 32 = 16 := rfl
  simp only [head, UInt32.toNat_or, UInt32.toNat_shiftLeft, UInt16.toNat_toUInt32, hs, h16]
  rw [Nat.mod_eq_of_lt (by rw [Nat.shiftLeft_eq]; omega), ← hor, Nat.shiftLeft_eq]

theorem head_count (h : i.fits) : (i.head >>> 16).toNat = i.operands.length + 1 := by
  have hc : i.opcode.code.toNat < 65536 := UInt16.toNat_lt _
  have h16 : UInt32.toNat 16 % 32 = 16 := rfl
  rw [UInt32.toNat_shiftRight, h16, Nat.shiftRight_eq_div_pow, head_toNat h]
  omega

theorem head_opcode (h : i.fits) : i.head.toUInt16 = i.opcode.code := by
  have hc : i.opcode.code.toNat < 65536 := UInt16.toNat_lt _
  apply UInt16.toNat_inj.1
  rw [UInt32.toNat_toUInt16, head_toNat h]
  omega

end Instruction

/-! ## Texts -/

theorem wordBytes_wordOfBytes (a b c d : UInt8) :
    wordBytes (wordOfBytes a b c d) = [a, b, c, d] := by
  simp only [wordBytes, wordOfBytes, List.cons.injEq, and_true]
  refine ⟨?_, ?_, ?_, ?_⟩
  all_goals
    apply UInt8.toBitVec_inj.1
    apply BitVec.eq_of_getLsbD_eq
    intro k hk
    simp
  all_goals grind

theorem readText_textWords {bytes : List UInt8} (h : 0 ∉ bytes) (rest : List UInt32) :
    readText (textWords bytes ++ rest) = (bytes, rest) := by
  fun_induction textWords bytes with
  | case1 a b c d bs ih =>
    simp only [List.mem_cons, not_or] at h
    obtain ⟨ha, hb, hc, hd, hbs⟩ := h
    simp [readText, wordBytes_wordOfBytes, ih hbs, ha, hb, hc, hd]
  | case2 a b c =>
    simp only [List.mem_cons, not_or] at h
    simp [readText, wordBytes_wordOfBytes, Ne.symm h.1, Ne.symm h.2.1, Ne.symm h.2.2.1]
  | case3 a b =>
    simp only [List.mem_cons, not_or] at h
    simp [readText, wordBytes_wordOfBytes, Ne.symm h.1, Ne.symm h.2.1]
  | case4 a =>
    simp only [List.mem_cons, not_or] at h
    simp [readText, wordBytes_wordOfBytes, Ne.symm h.1]
  | case5 => simp [readText, wordBytes]

theorem textWords_ne_nil (bytes : List UInt8) : textWords bytes ≠ [] := by
  fun_cases textWords bytes <;> simp

/-! ## Single instructions -/

namespace Instruction

/-- The instruction as it is read at an offset. -/
def readAt (offset : Nat) (i : Instruction) : Except ShapeError Decoded :=
  decodeInstr offset i.opcode i.operands

/-- Whether the operands have the shape of the opcode. -/
def shaped (i : Instruction) : Bool := (i.readAt 0).isOk

/-- The id that an instruction defines. -/
def result? (i : Instruction) : Option UInt32 :=
  match i.readAt 0 with
  | .ok d => d.result
  | .error _ => none

/-- The ids that an instruction reads, its result type first. -/
def reads (i : Instruction) : List UInt32 :=
  match i.readAt 0 with
  | .ok d => d.ids
  | .error _ => []

theorem readAt_eq (offset : Nat) (i : Instruction) :
    i.readAt offset = (i.readAt 0).map fun d => { d with offset } := by
  simp only [readAt, decodeInstr]
  cases i.opcode.shape? with
  | none => rfl
  | some shape =>
    simp only [bind, Except.bind]
    cases readOptional shape.hasResultType (.missingResultType shape.name) i.operands with
    | error e => rfl
    | ok type =>
      dsimp only
      cases readOptional shape.hasResult (.missingResult shape.name) type.2 with
      | error e => rfl
      | ok result =>
        dsimp only
        cases readOperands shape.name shape.operands result.2 <;> rfl

end Instruction

/-- The instruction that was read. -/
def Decoded.instruction (d : Decoded) : Instruction := ⟨d.opcode, d.words⟩

@[simp] theorem Decoded.instruction_opcode (d : Decoded) : d.instruction.opcode = d.opcode := rfl

@[simp] theorem Decoded.instruction_operands (d : Decoded) : d.instruction.operands = d.words := rfl

namespace Instruction

/-- Reading keeps the opcode and all words, and fixes section, result and reads. -/
structure ReadAs (i : Instruction) (offset : Nat) (d : Decoded) : Prop where
  instruction : d.instruction = i
  offset : d.offset = offset
  result : d.result = i.result?
  ids : d.ids = i.reads
  home : i.home? = some d.home

theorem readAs_of_readAt {offset : Nat} {d : Decoded} (h : i.readAt offset = .ok d) :
    i.ReadAs offset d := by
  rw [readAt_eq] at h
  cases h0 : i.readAt 0 with
  | error e => rw [h0] at h; cases h
  | ok d0 =>
    rw [h0] at h
    cases h
    have hfields : d0.opcode = i.opcode ∧ d0.words = i.operands ∧
        i.opcode.shape? = some d0.shape := by
      simp only [readAt, decodeInstr] at h0
      cases hs : i.opcode.shape? with
      | none => rw [hs] at h0; cases h0
      | some shape =>
        rw [hs] at h0
        simp only [bind, Except.bind] at h0
        split at h0
        · cases h0
        split at h0
        · cases h0
        split at h0
        · cases h0
        cases h0
        exact ⟨rfl, rfl, rfl⟩
    obtain ⟨hop, hwords, hshape⟩ := hfields
    constructor
    · simp only [Decoded.instruction, hop, hwords]
    · rfl
    · simp only [result?, h0]
    · simp only [reads, h0]
      rfl
    · simp only [Decoded.home, hop, hwords, home?, Opcode.home?, hshape]
      split <;> rfl

theorem shaped_iff (offset : Nat) : i.shaped = true ↔ ∃ d, i.readAt offset = .ok d := by
  rw [shaped, readAt_eq offset]
  cases i.readAt 0 with
  | error e => simp [Except.isOk, Except.toBool, Except.map]
  | ok d => simp [Except.isOk, Except.toBool, Except.map]

end Instruction

/-- The ids that instructions define, in order. -/
def resultIds (instrs : List Instruction) : List UInt32 := instrs.filterMap Instruction.result?

@[simp] theorem resultIds_nil : resultIds [] = [] := rfl

@[simp] theorem resultIds_append (is js : List Instruction) :
    resultIds (is ++ js) = resultIds is ++ resultIds js := List.filterMap_append

theorem resultIds_cons (i : Instruction) (is : List Instruction) :
    resultIds (i :: is) = i.result?.toList ++ resultIds is := by
  cases h : i.result? <;> simp [resultIds, h]

theorem mem_resultIds {id : UInt32} :
    id ∈ resultIds instrs ↔ ∃ i ∈ instrs, i.result? = some id := List.mem_filterMap

/-- Where results are unique, an id is the result of one instruction. -/
theorem eq_of_result (hnodup : (resultIds instrs).Nodup) {j : Instruction} (hi : i ∈ instrs)
    (hj : j ∈ instrs) {id : UInt32} (hid : i.result? = some id) (hjd : j.result? = some id) :
    i = j := by
  induction instrs with
  | nil => cases hi
  | cons k rest ih =>
    rw [resultIds_cons] at hnodup
    obtain ⟨-, hrest, hdisjoint⟩ := List.nodup_append.1 hnodup
    have hnot : ∀ l ∈ rest, k.result? = some id → l.result? ≠ some id := by
      intro l hl hk hlid
      exact hdisjoint id (by simp [hk]) id (mem_resultIds.2 ⟨l, hl, hlid⟩) rfl
    rcases List.mem_cons.1 hi with hik | hi' <;> rcases List.mem_cons.1 hj with hjk | hj'
    · rw [hik, hjk]
    · exact absurd hjd (hnot j hj' (hik ▸ hid))
    · exact absurd hid (hnot i hi' (hjk ▸ hjd))
    · exact ih hrest hi' hj'

/-! ## Lists of instructions -/

/-- Instructions as they are read one after the other, up to the first that has no shape. -/
def readAll (offset : Nat) : List Instruction → List Decoded × Option ReadError
  | [] => ([], none)
  | i :: rest =>
    match i.readAt offset with
    | .error e => ([], some (.badInstr offset e))
    | .ok d =>
      let (more, failure) := readAll (offset + i.words.length) rest
      (d :: more, failure)

theorem readInstrs_flatMap_words (offset : Nat) (h : ∀ i ∈ instrs, i.fits) :
    readInstrs offset (instrs.flatMap Instruction.words) = readAll offset instrs := by
  induction instrs generalizing offset with
  | nil => simp [readInstrs, readAll]
  | cons i rest ih =>
    have hi : i.fits := h i List.mem_cons_self
    have hrest := fun off => ih off fun j hj => h j (List.mem_cons_of_mem i hj)
    have htake : (i.operands ++ rest.flatMap Instruction.words).take (i.operands.length + 1 - 1) =
        i.operands := by simp
    have hdrop : (i.operands ++ rest.flatMap Instruction.words).drop (i.operands.length + 1 - 1) =
        rest.flatMap Instruction.words := by simp
    rw [List.flatMap_cons, Instruction.words, List.cons_append, readInstrs]
    simp only [Instruction.head_count hi, Instruction.head_opcode hi, htake, hdrop, hrest,
      readAll, Instruction.readAt]
    rw [if_neg (by omega)]
    cases decodeInstr offset i.opcode i.operands with
    | error e => rfl
    | ok d => simp [Instruction.words]

/-- Where reading comes to the end, every instruction was read as it stands. -/
inductive ReadList : Nat → List Instruction → List Decoded → Prop
  | nil (offset : Nat) : ReadList offset [] []
  | cons {offset : Nat} {i : Instruction} {d : Decoded} {is : List Instruction}
      {ds : List Decoded} (head : i.ReadAs offset d) (shaped : i.shaped)
      (tail : ReadList (offset + i.words.length) is ds) : ReadList offset (i :: is) (d :: ds)

theorem readList_of_readAll {offset : Nat} {is : List Instruction} {ds : List Decoded}
    (h : readAll offset is = (ds, none)) : ReadList offset is ds := by
  induction is generalizing offset ds with
  | nil =>
    cases h
    exact .nil offset
  | cons i rest ih =>
    simp only [readAll] at h
    cases hi : i.readAt offset with
    | error e => rw [hi] at h; cases h
    | ok d =>
      rw [hi] at h
      obtain ⟨rfl, hfail⟩ := Prod.mk.inj h
      exact .cons (Instruction.readAs_of_readAt hi) ((Instruction.shaped_iff offset).2 ⟨d, hi⟩)
        (ih (Prod.ext rfl hfail))

theorem exists_readAll {is : List Instruction} (h : ∀ i ∈ is, i.shaped) (offset : Nat) :
    ∃ ds, readAll offset is = (ds, none) := by
  induction is generalizing offset with
  | nil => exact ⟨[], rfl⟩
  | cons i rest ih =>
    obtain ⟨d, hd⟩ := (Instruction.shaped_iff offset).1 (h i List.mem_cons_self)
    obtain ⟨ds, hds⟩ := ih (fun j hj => h j (List.mem_cons_of_mem i hj)) (offset + i.words.length)
    exact ⟨d :: ds, by simp [readAll, hd, hds]⟩

namespace ReadList

variable {offset : Nat} {is : List Instruction} {ds : List Decoded}

theorem map_instruction (h : ReadList offset is ds) : ds.map Decoded.instruction = is := by
  induction h with
  | nil => rfl
  | cons head _ _ ih => rw [List.map_cons, head.instruction, ih]

theorem shaped (h : ReadList offset is ds) : ∀ i ∈ is, i.shaped := by
  induction h with
  | nil => simp
  | cons _ head _ ih => exact List.forall_mem_cons.2 ⟨head, ih⟩

theorem filterMap_result (h : ReadList offset is ds) :
    ds.filterMap Decoded.result = resultIds is := by
  induction h with
  | nil => rfl
  | cons head _ _ ih =>
    rw [resultIds_cons, ← ih, ← head.result]
    simp only [List.filterMap_cons]
    split <;> simp_all

theorem getElem? (h : ReadList offset is ds) {k : Nat} (hi : is[k]? = some i) :
    ∃ off d, ds[k]? = some d ∧ i.ReadAs off d := by
  induction h generalizing k with
  | nil => cases hi
  | @cons off j d _ _ head _ _ ih =>
    cases k with
    | zero =>
      cases hi
      exact ⟨off, d, rfl, head⟩
    | succ k => exact ih hi

theorem of_getElem? (h : ReadList offset is ds) {k : Nat} {d : Decoded} (hd : ds[k]? = some d) :
    ∃ i, is[k]? = some i ∧ i.ReadAs d.offset d := by
  induction h generalizing k with
  | nil => cases hd
  | @cons off i e _ _ head _ _ ih =>
    cases k with
    | zero =>
      cases hd
      exact ⟨i, rfl, head.offset ▸ head⟩
    | succ k => exact ih hd

end ReadList

end Elementwise.Spirv
