/-
Chunks: one column's cells in one batch of rows. A cell is a value or null. Arrays of other types keep their cells in a
loose form; nothing but their length, their null count and their cells is ever asked of them.
-/
import EquiJoin.Column.Type

namespace EquiJoin

/-- a cell of an array that is no column chunk -/
inductive LooseCell where
  | null
  | flag (b : Bool)
  | number (i : Int)
  | text (s : String)
  deriving DecidableEq, Repr

/-- one array of cells -/
inductive Chunk where
  | column (type : ColumnType) (cells : Array (Option type.Value))
  | other (name : String) (cells : Array LooseCell)
  deriving DecidableEq

namespace Chunk

def dataType : Chunk → DataType
  | column t _ => .column t
  | other n _ => .other n

def size : Chunk → Nat
  | column _ cells => cells.size
  | other _ cells => cells.size

/-- an array of the type that has only nulls keeps no record of them: its cells do not count as null -/
def marksNulls (name : String) : Bool := name ≠ "Null"

/-- whether the cell at `i` is null; false past the end -/
def isNull (c : Chunk) (i : Nat) : Bool :=
  match c with
  | column _ cells => cells[i]?.any Option.isNone
  | other n cells => marksNulls n && cells[i]? = some .null

def nullCount : Chunk → Nat
  | column _ cells => cells.countP Option.isNone
  | other n cells => if marksNulls n then cells.countP (· = .null) else 0

/-- the rows from `start` on, `length` of them, if the chunk has them all -/
def slice? (c : Chunk) (start length : Nat) : Option Chunk :=
  if start + length ≤ c.size then
    match c with
    | column t cells => some (column t (cells.extract start (start + length)))
    | other n cells => some (other n (cells.extract start (start + length)))
  else none

end Chunk

end EquiJoin
