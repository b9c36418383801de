import Elementwise.Proofs.Profile

/-!
# Literal text among words

Text ends with a zero byte and is padded to a whole word, so that it tells its own length: it is
read back whatever words follow it, and an instruction that holds text among its operands is read
with the text, the ids after it and nothing else.
-/
namespace Elementwise.Spirv

theorem length_textWords (bytes : List UInt8) :
    (textWords bytes).length = bytes.length / 4 + 1 := by
  fun_induction textWords bytes with
  | case1 a b c d bs ih =>
    simp only [List.length_cons, ih]
    omega
  | case2 | case3 | case4 | case5 => simp

/-- The words after the head of an instruction are read as these operands, wherever it stands. -/
def ReadsAs (op : Opcode) (words : List UInt32) (operands : List Operand) : Prop :=
  ∀ offset, (decodeInstr offset op words).map Decoded.operands = .ok operands

theorem readsAs_of_shape {op : Opcode} {shape : Shape} {ws : List UInt32} {operands : List Operand}
    (hs : op.shape? = some shape) (ht : shape.hasResultType = false)
    (hr : shape.hasResult = false)
    (ho : readOperands shape.name shape.operands ws = .ok operands) : ReadsAs op ws operands :=
  fun offset => congrArg (Except.map Decoded.operands)
    (readAt_of_shape op offset none none hs ht hr ho)

/-- Text without zero bytes takes a word for every four bytes and one more, is read back whatever
follows, and is read as such in extensions, names, names of members and entry points. -/
theorem text_selfDelimiting {bytes : List UInt8} (h : 0 ∉ bytes) :
    (textWords bytes).length = bytes.length / 4 + 1 ∧
    (∀ rest, readText (textWords bytes ++ rest) = (bytes, rest)) ∧
    ReadsAs .extension (textWords bytes) [.text bytes] ∧
    (∀ id, ReadsAs .name (id :: textWords bytes) [.id id, .text bytes]) ∧
    (∀ id member, ReadsAs .memberName (id :: member :: textWords bytes)
      [.id id, .literal member, .text bytes]) ∧
    ∀ model function interfaces,
      ReadsAs .entryPoint (model :: function :: textWords bytes ++ interfaces)
        (.literal model :: .id function :: .text bytes :: interfaces.map .id) := by
  refine ⟨length_textWords bytes, readText_textWords h,
    readsAs_of_shape rfl rfl rfl (readOperands_lastText _ h), fun id => ?_,
    fun id member => ?_, fun model function interfaces => ?_⟩
  · exact readsAs_of_shape rfl rfl rfl (by rw [readOperands, readOperands_lastText _ h]; rfl)
  · exact readsAs_of_shape rfl rfl rfl
      (by rw [readOperands, readOperands, readOperands_lastText _ h]; rfl)
  · exact readsAs_of_shape rfl rfl rfl (readOperands_entryPoint model function h interfaces)

/-- Text of four bytes takes a second word for the zero byte, and ids may follow it. -/
theorem text_selfDelimiting_main :
    (textWords (Text.Utf8.bytes "main")).length = 2 ∧
      ReadsAs .entryPoint (5 :: 4 :: textWords (Text.Utf8.bytes "main") ++ [2, 3])
        [.literal 5, .id 4, .text (Text.Utf8.bytes "main"), .id 2, .id 3] := by
  obtain ⟨hlength, -, -, -, -, hentry⟩ :=
    text_selfDelimiting (show 0 ∉ Text.Utf8.bytes "main" by decide)
  exact ⟨hlength, hentry 5 4 [2, 3]⟩

end Elementwise.Spirv
