/-
Keys. A key is a value that builds or probes a relation. Inside the table it is bytes: a number becomes eight bytes
that depend on its value only (integers are widened, both zeros become one and every NaN becomes one), a text, a byte
string or an encoded row stays what it is. A null key has a domain and no bytes, and matches nothing.
-/
import EquiJoin.Error
import EquiJoin.Hash.Scalar
import EquiJoin.Key.Type
import EquiJoin.Row.Basic

namespace EquiJoin

/-- the bytes of a key, and how they are hashed -/
inductive KeyBytes where
  /-- eight bytes, hashed as a word -/
  | scalar (word : UInt64)
  /-- any number of bytes, hashed by content -/
  | slice (bytes : Bytes)
  deriving DecidableEq, Repr

namespace KeyBytes

def bytes : KeyBytes → Bytes
  | scalar w => LittleEndian.encode 8 w.toNat
  | slice bs => bs

/-- the hash of a key whose caller brings none -/
def hash : KeyBytes → UInt64
  | scalar w => Hash.scalar w
  | slice bs => Hash.bytes bs

def isScalar : KeyBytes → Bool
  | scalar _ => true
  | slice _ => false

end KeyBytes

/-- a value that builds or probes a relation -/
inductive Key where
  /-- no value, of some domain -/
  | null (domain : KeyDomain)
  | int8 (v : Int8)
  | int16 (v : Int16)
  | int32 (v : Int32)
  | int64 (v : Int64)
  | uint8 (v : UInt8)
  | uint16 (v : UInt16)
  | uint32 (v : UInt32)
  | uint64 (v : UInt64)
  | float32 (v : Binary32)
  | float64 (v : Binary64)
  | text (s : String)
  | bytes (bs : Bytes)
  | row (r : Row)
  deriving DecidableEq, Repr

namespace Key

def domain : Key → KeyDomain
  | null d => d
  | int8 _ | int16 _ | int32 _ | int64 _ => .signed
  | uint8 _ | uint16 _ | uint32 _ | uint64 _ => .unsigned
  | float32 _ | float64 _ => .float
  | text _ | bytes _ => .bytes
  | row _ => .row

/-- the bytes of a key, none for a null key -/
def bytes? : Key → Option KeyBytes
  | null _ => none
  | int8 v => some (.scalar v.toInt64.toUInt64)
  | int16 v => some (.scalar v.toInt64.toUInt64)
  | int32 v => some (.scalar v.toInt64.toUInt64)
  | int64 v => some (.scalar v.toUInt64)
  | uint8 v => some (.scalar v.toUInt64)
  | uint16 v => some (.scalar v.toUInt64)
  | uint32 v => some (.scalar v.toUInt64)
  | uint64 v => some (.scalar v)
  | float32 v => some (.scalar v.widen.canonical.bits)
  | float64 v => some (.scalar v.canonical.bits)
  | text s => some (.slice s.toUTF8.toList)
  | bytes bs => some (.slice bs)
  | row r => if r.hasNull then none else some (.slice r.bytes)

/-- a cell of a column as a key -/
def ofCell : (t : ColumnType) → t.Value → Key
  | .int8, v => int8 v
  | .int16, v => int16 v
  | .int32, v => int32 v
  | .int64, v => int64 v
  | .uint8, v => uint8 v
  | .uint16, v => uint16 v
  | .uint32, v => uint32 v
  | .uint64, v => uint64 v
  | .float32, v => float32 v
  | .float64, v => float64 v
  | .date32, v => int32 v
  | .date64, v => int64 v
  | .utf8, v => text v
  | .largeUtf8, v => text v
  | .binary, v => bytes v
  | .largeBinary, v => bytes v

/-- a cell of a column, null or not, as a key -/
def ofCell? (t : ColumnType) : Option t.Value → Key
  | none => null t.domain
  | some v => ofCell t v

@[simp] theorem domain_ofCell (t : ColumnType) (v : t.Value) : (ofCell t v).domain = t.domain := by
  cases t <;> rfl

end Key

namespace KeyType

/-- the kind of a key type, or why it cannot be one; of several unfit components the first is named -/
def kind (k : KeyType) : Except Error KeyKind :=
  match k with
  | single t =>
    match t.kind? with
    | some kind => .ok kind
    | none => .error (.notAKey t)
  | composite ts =>
    if ts.isEmpty then .error .emptyComposite
    else
      match ts.find? fun t => t.kind?.isNone with
      | some t => .error (.notAComponent t)
      | none => .ok .composite

end KeyType

end EquiJoin
