import Elementwise.Text.Numeral
import Elementwise.Text.Printable
import Elementwise.Text.Utf8

/-!
# Quoted text

Messages show foreign text between double quotes, and what is not printable as escapes.
-/
namespace Elementwise.Text.Quoted
open Numeral Printable Utf8

def hexEscape (mark : Char) (width n : Nat) : List Char :=
  '\\' :: mark :: (hexPadded width n).toList

/-- The escape of a character that is neither printable nor a quote or backslash. -/
def controlEscape (c : Char) : List Char :=
  let n := c.toNat
  if n == 7 then ['\\', 'a']
  else if n == 8 then ['\\', 'b']
  else if n == 12 then ['\\', 'f']
  else if n == 10 then ['\\', 'n']
  else if n == 13 then ['\\', 'r']
  else if n == 9 then ['\\', 't']
  else if n == 11 then ['\\', 'v']
  else if n < 0x20 || n == 0x7f then hexEscape 'x' 2 n
  else if n < 0x10000 then hexEscape 'u' 4 n
  else hexEscape 'U' 8 n

def escapeChar (delimiter c : Char) : List Char :=
  if c == delimiter || c == '\\' then ['\\', c]
  else if isPrintable c then [c]
  else controlEscape c

def escapePiece (delimiter : Char) : Piece → List Char
  | .char c => escapeChar delimiter c
  | .stray b => hexEscape 'x' 2 b.toNat

def surround (delimiter : Char) (body : List Char) : String :=
  String.ofList (delimiter :: (body ++ [delimiter]))

def quote (s : String) : String := surround '"' (s.toList.flatMap (escapeChar '"'))

/-- Quotes bytes that need not be well-formed text: stray bytes are escaped. -/
def quoteBytes (bytes : List UInt8) : String :=
  surround '"' ((decode bytes).flatMap (escapePiece '"'))

def singleQuote : Char := Char.ofNat 39

/-- A single character between single quotes. -/
def quoteChar (c : Char) : String := surround singleQuote (escapeChar singleQuote c)

/-- The report of a numeral that could not be read, which is given as it is quoted. -/
def readingMessage (reading : Reading) (quoted : String) (fault : Fault) : String :=
  reading.name ++ ": parsing " ++ quoted ++ ": " ++ fault.message

end Elementwise.Text.Quoted
