/-
What a reader sees of an array, and when two readers agree. Cells of the four common column types are read as plain
values, integers widened; any other cell is only named by its type. Two readings agree if they are equal cell by cell,
except that numbers may be a little apart and one NaN is as good as another.
-/
import EquiJoin.Column.Chunk
import EquiJoin.Decimal

namespace EquiJoin

namespace Binary64

/-- the signed value of a finite number, in units of 2^-1074 -/
def value (x : Binary64) : Int := if x.negative then -x.magnitude else x.magnitude

def isFinite (x : Binary64) : Bool := x.exponent ≠ 2047

/-- the distance between two finite numbers, rounded as a subtraction rounds it -/
def distance (x y : Binary64) : Binary64 := ofRatio false (x.value - y.value).natAbs unit

/-- how far apart two numbers may be that still agree -/
def tolerance : Binary64 := Decimal.nearest false ⟨1, -10⟩

/-- less than the tolerance apart, or both NaN; an infinity agrees with nothing -/
def agrees (x y : Binary64) : Bool :=
  (x.isNaN && y.isNaN) || (x.isFinite && y.isFinite && (distance x y).magnitude < tolerance.magnitude)

end Binary64

/-- one cell as it is read -/
inductive Observed where
  | null
  | integer (i : Int64)
  | real (x : Binary64)
  | text (s : String)
  deriving DecidableEq, Repr

namespace Observed

/-- what is read in place of a cell of this type -/
def unread (typeName : String) : Observed := text ("<unsupported: " ++ typeName ++ ">")

/-- a cell of a column -/
def ofCell : (t : ColumnType) → Option t.Value → Observed
  | _, none => null
  | .int32, some v => integer v.toInt64
  | .int64, some v => integer v
  | .float64, some v => real v
  | .utf8, some v => text v
  | t, some _ => unread t.name

/-- the cells of an array, in order -/
def ofChunk : Chunk → List Observed
  | .column t cells => cells.toList.map (ofCell t)
  | .other n cells =>
    cells.toList.map fun cell => if Chunk.marksNulls n && cell = .null then null else unread n

def agrees : Observed → Observed → Bool
  | real x, real y => x.agrees y
  | a, b => a = b

/-- as many cells on both sides, and each agrees with its partner -/
def agreeAll (actual expected : List Observed) : Bool :=
  actual.length == expected.length && (actual.zip expected).all fun p => p.1.agrees p.2

end Observed

end EquiJoin
