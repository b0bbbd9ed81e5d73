/-
What a relation is keyed by: one column type, or a list of them for a composite key. A key type decides the domain that
probe keys must come from, how keys are turned into bytes, and the tag by which two relations recognise that they encode
keys the same way.
-/
import EquiJoin.Column.Type
import EquiJoin.Hash.Xxh3
import EquiJoin.Text.Record

namespace EquiJoin

/-- the values that a key ranges over; equal bytes of different domains never match -/
inductive KeyDomain where
  | signed
  | unsigned
  | float
  | bytes
  | row
  deriving DecidableEq, Repr

def KeyDomain.name : KeyDomain → String
  | signed => "Signed"
  | unsigned => "Unsigned"
  | float => "Float"
  | bytes => "Bytes"
  | row => "Row"

/-- how keys are turned into bytes -/
inductive KeyKind where
  | numeric
  | stringLike
  | composite
  deriving DecidableEq, Repr

def KeyKind.name : KeyKind → String
  | numeric => "Numeric"
  | stringLike => "StringLike"
  | composite => "Composite"

namespace ColumnType

/-- the domain of a column's values -/
def domain : ColumnType → KeyDomain
  | int8 | int16 | int32 | int64 | date32 | date64 => .signed
  | uint8 | uint16 | uint32 | uint64 => .unsigned
  | float32 | float64 => .float
  | utf8 | largeUtf8 | binary | largeBinary => .bytes

def kind (t : ColumnType) : KeyKind := if t.isNumeric then .numeric else .stringLike

/-- the mark of an encoding: columns of one domain share it, but dates keep their units apart, and texts are not byte
strings -/
def encodingMark : ColumnType → UInt8
  | int8 | int16 | int32 | int64 => 1
  | uint8 | uint16 | uint32 | uint64 => 2
  | float32 | float64 => 3
  | date32 => 4
  | date64 => 5
  | utf8 | largeUtf8 => 6
  | binary | largeBinary => 7

end ColumnType

namespace DataType

def domain? (t : DataType) : Option KeyDomain := t.column?.map ColumnType.domain

def kind? (t : DataType) : Option KeyKind := t.column?.map ColumnType.kind

def encodingMark (t : DataType) : UInt8 := (t.column?.map ColumnType.encodingMark).getD 0

end DataType

/-- what a relation is keyed by -/
inductive KeyType where
  | single (t : DataType)
  | composite (ts : List DataType)
  deriving DecidableEq, Repr

namespace KeyType

def shownTypes (ts : List DataType) : String := Text.list (ts.map DataType.name)

def shown : KeyType → String
  | single t => Text.wrapped "Single" t.name
  | composite ts => Text.wrapped "Composite" (shownTypes ts)

/-- the domain of probe keys, if there is one -/
def domain? : KeyType → Option KeyDomain
  | single t => t.domain?
  | composite _ => some .row

def columns : KeyType → Nat
  | single _ => 1
  | composite ts => ts.length

/-- the tag of a composite encoding has its highest bit set -/
def compositeBit : UInt64 := 0x8000000000000000

/-- the tag of the encoding; a composite tag depends on every column, in order -/
def layoutTag : KeyType → UInt64
  | single t => t.encodingMark.toUInt64
  | composite ts => Hash.bytes (ts.map DataType.encodingMark) ||| compositeBit

end KeyType

end EquiJoin
