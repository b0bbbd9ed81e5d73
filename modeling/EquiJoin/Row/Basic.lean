/-
Encoded rows. A row of `n` fields is one byte string:

    null bits (n / 8 bytes, rounded up) | field 0 | field 1 | …

A number takes its eight key bytes, a text or byte string a 32-bit length and its bytes, and a null field sets its bit
and takes no bytes. Rows with equal values in the same columns are equal byte strings, so a row is itself a key, and a
row with a null field is a null key.
-/
import EquiJoin.Column.Type
import EquiJoin.Text.Record

namespace EquiJoin

/-- a row under construction -/
structure Row where
  /-- how many fields the row has room for -/
  fields : Nat
  /-- how many of them are written -/
  written : Nat
  nullBits : Bytes
  /-- the written fields that are not null -/
  body : Bytes
  deriving DecidableEq, Repr

namespace Row

/-- bytes of the null bits -/
def nullBytes (fields : Nat) : Nat := (fields + 7) / 8

def new (fields : Nat) : Row := ⟨fields, 0, List.replicate (nullBytes fields) 0, []⟩

def bytes (r : Row) : Bytes := r.nullBits ++ r.body

def isComplete (r : Row) : Bool := r.written = r.fields

def hasNull (r : Row) : Bool := r.nullBits.any (· ≠ 0)

/-- the bit of a field in its byte of the null bits -/
def bit (field : Nat) : UInt8 := 1 <<< UInt8.ofNat (field % 8)

def isNullAt (r : Row) (field : Nat) : Bool :=
  field < r.fields && (r.nullBits[field / 8]?.getD 0) &&& bit field ≠ 0

/-- bytes of every complete row without nulls, if the column types fix them -/
def fixedSize? (ts : List DataType) : Option Nat :=
  if ts.all fun t => t.column?.any ColumnType.isNumeric then some (nullBytes ts.length + 8 * ts.length) else none

def shown (r : Row) : String :=
  Text.record "UnsafeRow" [("num_fields", toString r.fields), ("written", toString r.written),
    ("data", Text.list (r.bytes.map fun b => toString b.toNat))]

end Row

end EquiJoin
