import Concordance.Wire.Reader

/-!
# Fields of a byte stream

A `Field` is one value of a stream together with the way it is written; a `FieldKind` says how one
is read. A stream is its fields one behind another: the `Writer` that puts them there keeps checksum
and count of what it has written, as the `Reader` does of what it has accepted.
-/

namespace Concordance.Wire

/-- A value of a stream and the way it is written. -/
inductive Field where
  /-- A number in a fixed count of little-endian bytes. -/
  | fixed (width value : Nat)
  | varint (value : Nat)
  | signed (value : Int)
  /-- A text behind its length in bytes. -/
  | text (value : String)
  /-- Bytes behind their length. -/
  | bytes (value : List UInt8)
  /-- Bytes alone. -/
  | raw (value : List UInt8)
  /-- Numbers of 32 bits as count and gaps. -/
  | ascending (values : List Nat)
  deriving DecidableEq, Repr

/-- A way to read a field. -/
inductive FieldKind where
  | fixed (width : Nat)
  | varint
  | signed
  | text
  | bytes
  | raw (length : Nat)
  | ascending
  deriving DecidableEq, Repr

namespace Field

def encode : Field → List UInt8
  | fixed width value => littleEndian width value
  | varint value => Varint.encode value
  | signed value => Varint.encode (Varint.zigzag value)
  | text value => encodeText value
  | bytes value => lengthPrefixed value
  | raw value => value
  | ascending values => encodeAscending values

/-- The way to read a field back. -/
def kind : Field → FieldKind
  | fixed width _ => .fixed width
  | varint _ => .varint
  | signed _ => .signed
  | text _ => .text
  | bytes _ => .bytes
  | raw value => .raw value.length
  | ascending _ => .ascending

end Field

/-- The state of writing: the bytes so far, with their checksum state and their count. -/
structure Writer where
  written : List UInt8 := []
  state : UInt32 := Checksum.start
  position : Nat := 0
  deriving DecidableEq, Repr

namespace Writer

def write (w : Writer) (bytes : List UInt8) : Writer :=
  ⟨w.written ++ bytes, Checksum.advance w.state bytes, w.position + bytes.length⟩

def writeVarint (w : Writer) (value : Nat) : Writer := w.write (Varint.encode value)

/-- Writes a byte string behind its length. -/
def writeBytes (w : Writer) (bytes : List UInt8) : Writer :=
  (w.writeVarint bytes.length).write bytes

/-- Writes a field, piece by piece. -/
def put (w : Writer) : Field → Writer
  | .fixed width value => w.write (littleEndian width value)
  | .varint value => w.writeVarint value
  | .signed value => w.writeVarint (Varint.zigzag value)
  | .text value => w.writeBytes (textBytes value)
  | .bytes value => w.writeBytes value
  | .raw value => w.write value
  | .ascending values => (gaps 0 values).foldl writeVarint (w.writeVarint values.length)

/-- Writes fields one behind another. -/
def putAll (w : Writer) (fields : List Field) : Writer := fields.foldl put w

/-- The bytes written, closed by their checksum. -/
def finish (w : Writer) : List UInt8 :=
  w.written ++ littleEndian 4 (Checksum.finish w.state).toNat

end Writer

namespace Field

/-- The positions behind each field, for a stream that is at a position. -/
def ends (position : Nat) (fields : List Field) : List Nat :=
  ((fields.scanl Writer.put { position }).tail).map (·.position)

/-- A checksummed stream of fields. -/
def encodeAll (fields : List Field) : List UInt8 := (Writer.putAll {} fields).finish

end Field

namespace FieldKind

def read : FieldKind → Read Field
  | fixed width => .fixed width <$> Read.fixed width
  | varint => .varint <$> Read.varint
  | signed => .signed <$> Read.signed
  | text => .text <$> Read.text
  | bytes => .bytes <$> Read.bytes
  | raw length => .raw <$> Read.raw length
  | ascending => .ascending <$> Read.ascending

/-- Reads fields one behind another. -/
def readAll : List FieldKind → Read (List Field)
  | [] => pure []
  | kind :: rest => do return (← kind.read) :: (← readAll rest)

/-- Reads the fields of a stream, and whether the checksum behind them is right. -/
def readStream (kinds : List FieldKind) : Read (List Field × Bool) := do
  let fields ← readAll kinds
  return (fields, ← Read.checksum)

end FieldKind

end Concordance.Wire
