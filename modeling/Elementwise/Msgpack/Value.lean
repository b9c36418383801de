/-!
# MessagePack

Values are written with the shortest header for their size; every well-formed header is read.
-/
namespace Elementwise.Msgpack

inductive Value where
  | nil
  | bool (b : Bool)
  | unsigned (n : Nat)
  /-- A negative number, as the two's complement pattern of its width in bytes. -/
  | signed (width pattern : Nat)
  /-- A float, as its pattern of the given width in bytes. -/
  | float (width pattern : Nat)
  | text (bytes : List UInt8)
  | binary (bytes : List UInt8)
  | array (items : List Value)
  | map (entries : List (Value × Value))
  | extension (tag : UInt8) (bytes : List UInt8)
  deriving Repr, Inhabited

/-- The last `count` bytes of a number, most significant first. -/
def bigEndian : Nat → Nat → List UInt8
  | 0, _ => []
  | count + 1, n => bigEndian count (n / 256) ++ [(n % 256).toUInt8]

def ofBigEndian (bytes : List UInt8) : Nat := bytes.foldl (fun n b => n * 256 + b.toNat) 0

/-- A header of one byte where the size is below `limit`, else the least of the wider ones. -/
def sizeHeader (fixed : UInt8) (limit : Nat) (wide : List (Nat × UInt8)) (size : Nat) :
    List UInt8 :=
  if size < limit then [fixed + size.toUInt8]
  else
    match wide.find? fun (width, _) => size < Nat.pow 256 width with
    | some (width, code) => code :: bigEndian width size
    | none => []

def textHeader : Nat → List UInt8 := sizeHeader 0xa0 32 [(1, 0xd9), (2, 0xda), (4, 0xdb)]
def binaryHeader : Nat → List UInt8 := sizeHeader 0 0 [(1, 0xc4), (2, 0xc5), (4, 0xc6)]
def arrayHeader : Nat → List UInt8 := sizeHeader 0x90 16 [(2, 0xdc), (4, 0xdd)]
def mapHeader : Nat → List UInt8 := sizeHeader 0x80 16 [(2, 0xde), (4, 0xdf)]
def unsignedHeader : Nat → List UInt8 :=
  sizeHeader 0 128 [(1, 0xcc), (2, 0xcd), (4, 0xce), (8, 0xcf)]

/-- The code of a fixed-width number. -/
def numberCode (base : UInt8) : Nat → UInt8
  | 1 => base
  | 2 => base + 1
  | 4 => base + 2
  | _ => base + 3

def extensionHeader (size : Nat) : List UInt8 :=
  match size with
  | 1 => [0xd4]
  | 2 => [0xd5]
  | 4 => [0xd6]
  | 8 => [0xd7]
  | 16 => [0xd8]
  | n => sizeHeader 0 0 [(1, 0xc7), (2, 0xc8), (4, 0xc9)] n

namespace Value

mutual

def write : Value → List UInt8
  | .nil => [0xc0]
  | .bool b => [if b then 0xc3 else 0xc2]
  | .unsigned n => unsignedHeader n
  | .signed width pattern => numberCode 0xd0 width :: bigEndian width pattern
  | .float width pattern => (if width == 4 then 0xca else 0xcb) :: bigEndian width pattern
  | .text bytes => textHeader bytes.length ++ bytes
  | .binary bytes => binaryHeader bytes.length ++ bytes
  | .array items => arrayHeader items.length ++ writeItems items
  | .map entries => mapHeader entries.length ++ writeEntries entries
  | .extension tag bytes => extensionHeader bytes.length ++ tag :: bytes

def writeItems : List Value → List UInt8
  | [] => []
  | v :: rest => v.write ++ writeItems rest

def writeEntries : List (Value × Value) → List UInt8
  | [] => []
  | (k, v) :: rest => k.write ++ (v.write ++ writeEntries rest)

end

end Value

/-- What the first byte of a value says about the rest of it. -/
inductive Header where
  | done (v : Value)
  /-- A number of the given width in bytes. -/
  | unsigned (width : Nat)
  | signed (width : Nat)
  | float (width : Nat)
  | text (size : Nat)
  | binary (size : Nat)
  | array (size : Nat)
  | map (size : Nat)
  | extension (size : Nat)

/-- Splits off exactly `count` bytes. -/
def split? (count : Nat) (bytes : List UInt8) : Option (List UInt8 × List UInt8) :=
  if count ≤ bytes.length then some (bytes.take count, bytes.drop count) else none

/-- A size of `width` bytes in front of the rest. -/
def sized (width : Nat) (header : Nat → Header) (bytes : List UInt8) :
    Option (Header × List UInt8) :=
  (split? width bytes).map fun (size, rest) => (header (ofBigEndian size), rest)

def readHeader? : List UInt8 → Option (Header × List UInt8)
  | [] => none
  | code :: rest =>
    let c := code.toNat
    if c < 0x80 then some (.done (.unsigned c), rest)
    else if c < 0x90 then some (.map (c - 0x80), rest)
    else if c < 0xa0 then some (.array (c - 0x90), rest)
    else if c < 0xc0 then some (.text (c - 0xa0), rest)
    else if 0xe0 ≤ c then some (.done (.signed 1 c), rest)
    else
      match c with
      | 0xc0 => some (.done .nil, rest)
      | 0xc2 => some (.done (.bool false), rest)
      | 0xc3 => some (.done (.bool true), rest)
      | 0xc4 => sized 1 .binary rest
      | 0xc5 => sized 2 .binary rest
      | 0xc6 => sized 4 .binary rest
      | 0xc7 => sized 1 .extension rest
      | 0xc8 => sized 2 .extension rest
      | 0xc9 => sized 4 .extension rest
      | 0xca => some (.float 4, rest)
      | 0xcb => some (.float 8, rest)
      | 0xcc => some (.unsigned 1, rest)
      | 0xcd => some (.unsigned 2, rest)
      | 0xce => some (.unsigned 4, rest)
      | 0xcf => some (.unsigned 8, rest)
      | 0xd0 => some (.signed 1, rest)
      | 0xd1 => some (.signed 2, rest)
      | 0xd2 => some (.signed 4, rest)
      | 0xd3 => some (.signed 8, rest)
      | 0xd4 => some (.extension 1, rest)
      | 0xd5 => some (.extension 2, rest)
      | 0xd6 => some (.extension 4, rest)
      | 0xd7 => some (.extension 8, rest)
      | 0xd8 => some (.extension 16, rest)
      | 0xd9 => sized 1 .text rest
      | 0xda => sized 2 .text rest
      | 0xdb => sized 4 .text rest
      | 0xdc => sized 2 .array rest
      | 0xdd => sized 4 .array rest
      | 0xde => sized 2 .map rest
      | 0xdf => sized 4 .map rest
      | _ => none

mutual

/-- Reads one value; every call takes a step of the fuel. -/
def readWithin : Nat → List UInt8 → Option (Value × List UInt8)
  | 0, _ => none
  | fuel + 1, bytes =>
    match readHeader? bytes with
    | none => none
    | some (header, rest) =>
      match header with
      | .done v => some (v, rest)
      | .unsigned w => (split? w rest).map fun (n, tail) => (.unsigned (ofBigEndian n), tail)
      | .signed w => (split? w rest).map fun (n, tail) => (.signed w (ofBigEndian n), tail)
      | .float w => (split? w rest).map fun (n, tail) => (.float w (ofBigEndian n), tail)
      | .text n => (split? n rest).map fun (b, tail) => (.text b, tail)
      | .binary n => (split? n rest).map fun (b, tail) => (.binary b, tail)
      | .array n => (readItems fuel n rest).map fun (vs, tail) => (.array vs, tail)
      | .map n => (readEntries fuel n rest).map fun (es, tail) => (.map es, tail)
      | .extension n =>
        match split? (n + 1) rest with
        | some (tag :: b, tail) => some (.extension tag b, tail)
        | _ => none

def readItems : Nat → Nat → List UInt8 → Option (List Value × List UInt8)
  | _, 0, bytes => some ([], bytes)
  | 0, _, _ => none
  | fuel + 1, count + 1, bytes =>
    match readWithin fuel bytes with
    | none => none
    | some (v, rest) => (readItems fuel count rest).map fun (vs, tail) => (v :: vs, tail)

def readEntries : Nat → Nat → List UInt8 → Option (List (Value × Value) × List UInt8)
  | _, 0, bytes => some ([], bytes)
  | 0, _, _ => none
  | fuel + 1, count + 1, bytes =>
    match readWithin fuel bytes with
    | none => none
    | some (k, rest) =>
      match readWithin fuel rest with
      | none => none
      | some (v, rest') =>
        (readEntries fuel count rest').map fun (es, tail) => ((k, v) :: es, tail)

end

/-- The first value of the bytes, and the bytes after it. -/
def read? (bytes : List UInt8) : Option (Value × List UInt8) :=
  readWithin (2 * bytes.length + 2) bytes

end Elementwise.Msgpack
