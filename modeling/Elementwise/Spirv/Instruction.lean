import Elementwise.Spirv.Opcode

/-!
# Words and instructions

An instruction is a head word, with the number of words in its upper half and the opcode in its
lower, and its operand words.
-/
namespace Elementwise.Spirv
open Text.Numeral

/-- The four bytes of a word, lowest first. -/
def wordBytes (w : UInt32) : List UInt8 :=
  [w.toUInt8, (w >>> 8).toUInt8, (w >>> 16).toUInt8, (w >>> 24).toUInt8]

def wordOfBytes (a b c d : UInt8) : UInt32 :=
  a.toUInt32 ||| (b.toUInt32 <<< 8) ||| (c.toUInt32 <<< 16) ||| (d.toUInt32 <<< 24)

def bytesOfWords (words : List UInt32) : List UInt8 := words.flatMap wordBytes

/-- The words of a text. The last one holds at least one zero byte. -/
def textWords : List UInt8 → List UInt32
  | a :: b :: c :: d :: rest => wordOfBytes a b c d :: textWords rest
  | [a, b, c] => [wordOfBytes a b c 0]
  | [a, b] => [wordOfBytes a b 0 0]
  | [a] => [wordOfBytes a 0 0 0]
  | [] => [0]

/-- Reads a text and returns it with the words after it. A text that is not ended takes all. -/
def readText : List UInt32 → List UInt8 × List UInt32
  | [] => ([], [])
  | w :: rest =>
    let bytes := wordBytes w
    if bytes.contains 0 then (bytes.takeWhile (· != 0), rest)
    else
      let (more, tail) := readText rest
      (bytes ++ more, tail)

/-- The error of a binary that is not made of whole words. -/
def raggedMessage (length : Nat) : String :=
  "SPIR-V binary length " ++ decimal length ++ " is not a multiple of 4"

def groupWords : List UInt8 → List UInt32
  | a :: b :: c :: d :: rest => wordOfBytes a b c d :: groupWords rest
  | _ => []

/-- The words of a binary, if it is made of whole words. -/
def wordsOfBytes? (bytes : List UInt8) : Option (List UInt32) :=
  if bytes.length % 4 = 0 then some (groupWords bytes) else none

structure Instruction where
  opcode : Opcode
  operands : List UInt32
  deriving DecidableEq, Repr

namespace Instruction

/-- The number of words has to fit the upper half of the head word. -/
def fits (i : Instruction) : Bool := i.operands.length + 1 < UInt16.size

def head (i : Instruction) : UInt32 :=
  ((i.operands.length + 1).toUInt32 <<< 16) ||| i.opcode.code.toUInt32

def words (i : Instruction) : List UInt32 := i.head :: i.operands

def home? (i : Instruction) : Option Section := i.opcode.home? i.operands

end Instruction

end Elementwise.Spirv
