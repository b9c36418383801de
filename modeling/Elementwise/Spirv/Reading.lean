import Elementwise.Spirv.Instruction
import Elementwise.Spirv.Version

/-!
# Reading binaries

Reading stops at the first instruction that cannot be read; what stands before it is kept.
-/
namespace Elementwise.Spirv
open Text.Numeral

def magicNumber : UInt32 := 0x07230203

def headerSize : Nat := 5

structure Header where
  version : Version
  generator : UInt32
  bound : UInt32
  schema : UInt32
  deriving DecidableEq, Repr

inductive Operand where
  | id (word : UInt32)
  | literal (word : UInt32)
  | text (bytes : List UInt8)
  deriving DecidableEq, Repr

/-- An instruction that was read, with the offset of its first word. -/
structure Decoded where
  offset : Nat
  opcode : Opcode
  shape : Shape
  words : List UInt32
  resultType : Option UInt32
  result : Option UInt32
  operands : List Operand
  deriving DecidableEq, Repr

inductive ShapeError where
  | unknownOpcode (op : Opcode)
  | missingResultType (name : String)
  | missingResult (name : String)
  | missingOperand (name : String)
  | missingText (name : String)
  | trailing (name : String) (count : Nat)
  deriving DecidableEq, Repr

def ShapeError.message : ShapeError → String
  | .unknownOpcode op => "unknown opcode " ++ decimal op.code.toNat
  | .missingResultType name => name ++ ": missing result type"
  | .missingResult name => name ++ ": missing result id"
  | .missingOperand name => name ++ ": missing operand"
  | .missingText name => name ++ ": missing string operand"
  | .trailing name count => name ++ ": " ++ decimal count ++ " trailing words"

inductive ReadError where
  | tooShort (count : Nat)
  | badMagic (word : UInt32)
  | wordCount (count offset : Nat)
  | badInstr (offset : Nat) (cause : ShapeError)
  deriving DecidableEq, Repr

def ReadError.message : ReadError → String
  | .tooShort count =>
    "module has " ++ decimal count ++ " words, header needs " ++ decimal headerSize
  | .badMagic w => "invalid SPIR-V magic: 0x" ++ upperHexPadded 8 w.toNat
  | .wordCount count offset =>
    "invalid word count " ++ decimal count ++ " at offset " ++ decimal offset
  | .badInstr offset e => "offset " ++ decimal offset ++ ": " ++ e.message

/-- The header, and the words after it. -/
def readHeader : List UInt32 → Except ReadError (Header × List UInt32)
  | magic :: version :: generator :: bound :: schema :: rest =>
    if magic = magicNumber then .ok (⟨.ofWord version, generator, bound, schema⟩, rest)
    else .error (.badMagic magic)
  | words => .error (.tooShort words.length)

/-- Reads one word for an optional part of an instruction. -/
def readOptional (wanted : Bool) (missing : ShapeError) (words : List UInt32) :
    Except ShapeError (Option UInt32 × List UInt32) :=
  if wanted then
    match words with
    | w :: rest => .ok (some w, rest)
    | [] => .error missing
  else .ok (none, words)

def readOperands (name : String) : List OperandKind → List UInt32 →
    Except ShapeError (List Operand)
  | [], [] => .ok []
  | [], words => .error (.trailing name words.length)
  | .id :: kinds, w :: rest => (readOperands name kinds rest).map (.id w :: ·)
  | .literal :: kinds, w :: rest => (readOperands name kinds rest).map (.literal w :: ·)
  | .id :: _, [] => .error (.missingOperand name)
  | .literal :: _, [] => .error (.missingOperand name)
  | .text :: _, [] => .error (.missingText name)
  | .text :: kinds, words =>
    let (bytes, rest) := readText words
    (readOperands name kinds rest).map (.text bytes :: ·)
  | .ids :: kinds, words => (readOperands name kinds []).map (words.map .id ++ ·)
  | .literals :: kinds, words => (readOperands name kinds []).map (words.map .literal ++ ·)

def decodeInstr (offset : Nat) (op : Opcode) (words : List UInt32) :
    Except ShapeError Decoded := do
  match op.shape? with
  | none => throw (.unknownOpcode op)
  | some shape =>
    let (resultType, rest) ← readOptional shape.hasResultType (.missingResultType shape.name) words
    let (result, rest) ← readOptional shape.hasResult (.missingResult shape.name) rest
    let operands ← readOperands shape.name shape.operands rest
    return ⟨offset, op, shape, words, resultType, result, operands⟩

/-- The instructions from an offset on, and the error that ended the reading, if any. -/
def readInstrs (offset : Nat) (words : List UInt32) : List Decoded × Option ReadError :=
  match words with
  | [] => ([], none)
  | head :: rest =>
    let count := (head >>> 16).toNat
    let operands := rest.take (count - 1)
    if count = 0 ∨ operands.length < count - 1 then ([], some (.wordCount count offset))
    else
      match decodeInstr offset ⟨head.toUInt16⟩ operands with
      | .error e => ([], some (.badInstr offset e))
      | .ok d =>
        let (more, failure) := readInstrs (offset + count) (rest.drop (count - 1))
        (d :: more, failure)
termination_by words.length
decreasing_by
  simp only [List.length_drop, List.length_cons]
  omega

/-- A binary as far as it can be read. -/
structure Contents where
  header : Header
  instrs : List Decoded
  failure : Option ReadError
  deriving DecidableEq, Repr

def readModule (words : List UInt32) : Except ReadError Contents :=
  (readHeader words).map fun (header, rest) =>
    let (instrs, failure) := readInstrs headerSize rest
    ⟨header, instrs, failure⟩

/-- The ids that an instruction reads, its result type first. -/
def Decoded.ids (d : Decoded) : List UInt32 :=
  d.resultType.toList ++ d.operands.filterMap fun
    | .id w => some w
    | _ => none

def Decoded.home (d : Decoded) : Section := (d.opcode.home? d.words).getD d.shape.home

/-- Why the header of a file cannot be read. -/
inductive FileHeaderError where
  | tooSmall
  | unreadable (cause : ReadError)
  deriving DecidableEq, Repr

def FileHeaderError.message : FileHeaderError → String
  | .tooSmall => "file too small"
  | .unreadable e => e.message

/-- The header of a binary given as bytes. Only the bytes of the header are looked at. -/
def readFileHeader (bytes : List UInt8) : Except FileHeaderError Header :=
  let front := bytes.take (4 * headerSize)
  if front.length < 4 * headerSize then .error .tooSmall
  else
    match readHeader (groupWords front) with
    | .ok (header, _) => .ok header
    | .error e => .error (.unreadable e)

end Elementwise.Spirv
