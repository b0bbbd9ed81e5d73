/-
Types of columns. Sixteen of them can be stored and joined on; a column of any other type is known by its name only.
`ColumnType.Value` is the type of the non-null cells of a column, so a chunk of a column type is well typed by
construction.
-/
import EquiJoin.LittleEndian
import EquiJoin.Binary64

namespace EquiJoin

/-- the column types that can be stored and joined on -/
inductive ColumnType where
  | int8 | int16 | int32 | int64
  | uint8 | uint16 | uint32 | uint64
  | float32 | float64
  | date32 | date64
  | utf8 | largeUtf8
  | binary | largeBinary
  deriving DecidableEq, Repr

namespace ColumnType

/-- a cell that is not null: dates are counts of days or of milliseconds -/
@[reducible] def Value : ColumnType → Type
  | int8 => Int8
  | int16 => Int16
  | int32 => Int32
  | int64 => Int64
  | uint8 => UInt8
  | uint16 => UInt16
  | uint32 => UInt32
  | uint64 => UInt64
  | float32 => Binary32
  | float64 => Binary64
  | date32 => Int32
  | date64 => Int64
  | utf8 => String
  | largeUtf8 => String
  | binary => Bytes
  | largeBinary => Bytes

instance Value.decidableEq : (t : ColumnType) → DecidableEq t.Value
  | int8 => inferInstanceAs (DecidableEq Int8)
  | int16 => inferInstanceAs (DecidableEq Int16)
  | int32 | date32 => inferInstanceAs (DecidableEq Int32)
  | int64 | date64 => inferInstanceAs (DecidableEq Int64)
  | uint8 => inferInstanceAs (DecidableEq UInt8)
  | uint16 => inferInstanceAs (DecidableEq UInt16)
  | uint32 => inferInstanceAs (DecidableEq UInt32)
  | uint64 => inferInstanceAs (DecidableEq UInt64)
  | float32 => inferInstanceAs (DecidableEq Binary32)
  | float64 => inferInstanceAs (DecidableEq Binary64)
  | utf8 | largeUtf8 => inferInstanceAs (DecidableEq String)
  | binary | largeBinary => inferInstanceAs (DecidableEq Bytes)

def name : ColumnType → String
  | int8 => "Int8"
  | int16 => "Int16"
  | int32 => "Int32"
  | int64 => "Int64"
  | uint8 => "UInt8"
  | uint16 => "UInt16"
  | uint32 => "UInt32"
  | uint64 => "UInt64"
  | float32 => "Float32"
  | float64 => "Float64"
  | date32 => "Date32"
  | date64 => "Date64"
  | utf8 => "Utf8"
  | largeUtf8 => "LargeUtf8"
  | binary => "Binary"
  | largeBinary => "LargeBinary"

/-- every column type, numbers first -/
def all : List ColumnType :=
  [int8, int16, int32, int64, uint8, uint16, uint32, uint64, float32, float64, date32, date64,
    utf8, largeUtf8, binary, largeBinary]

/-- numbers and dates take eight bytes in a key, texts and byte strings as many as they have -/
def isNumeric : ColumnType → Bool
  | utf8 | largeUtf8 | binary | largeBinary => false
  | _ => true

theorem mem_all (t : ColumnType) : t ∈ all := by cases t <;> decide

theorem name_injective {s t : ColumnType} (h : s.name = t.name) : s = t := by
  revert h
  cases s <;> cases t <;> decide

end ColumnType

/-- the type of an array: a column type, or another one by its name -/
inductive DataType where
  | column (t : ColumnType)
  | other (name : String)
  deriving DecidableEq, Repr

namespace DataType

def name : DataType → String
  | column t => t.name
  | other n => n

/-- the type of this name; a name that belongs to no column type is another type's -/
def ofName (n : String) : DataType :=
  match ColumnType.all.find? fun t => t.name == n with
  | some t => column t
  | none => other n

def column? : DataType → Option ColumnType
  | column t => some t
  | other _ => none

end DataType

end EquiJoin
