/-
Columns: the chunks of one column in arrival order. The type is fixed when the column is made, and only chunks of this
type are taken in. A location names a chunk and a row in it; asking for a cell at a location that the column does not
store has no answer (`none`).
-/
import EquiJoin.Column.Chunk
import EquiJoin.Row.Write

namespace EquiJoin

/-- the chunks of one column -/
structure Column where
  type : ColumnType
  chunks : Array (Array (Option type.Value))
  deriving DecidableEq

namespace Column

def empty (t : ColumnType) : Column := ⟨t, #[]⟩

/-- a column for this type of data, if it can be stored -/
def ofType (t : DataType) : Except Error Column :=
  match t with
  | .column t => .ok (empty t)
  | .other _ => .error (.noColumn t)

def isNumeric (c : Column) : Bool := c.type.isNumeric

/-- store a chunk under the next chunk index -/
def append (c : Column) (chunk : Chunk) : Except Error Column :=
  match chunk with
  | .column t cells =>
    if h : t = c.type then .ok { c with chunks := c.chunks.push (h ▸ cells) }
    else .error (.wrongChunk (.column t) c.type)
  | .other n _ => .error (.wrongChunk (.other n) c.type)

/-- the chunk of this index -/
def chunk? (c : Column) (i : Nat) : Option Chunk := c.chunks[i]?.map (Chunk.column c.type)

/-- the cell at a location: the outer option says whether it is stored, the inner one whether it is null -/
def cell? (c : Column) (l : Location) : Option (Option c.type.Value) :=
  match c.chunks[l.chunk.toNat]? with
  | none => none
  | some cells => cells[l.row.toNat]?

/-- whether the column stores a row at a location -/
def contains (c : Column) (l : Location) : Bool := (c.cell? l).isSome

def isNull? (c : Column) (l : Location) : Option Bool := (c.cell? l).map Option.isNone

/-- all chunks, oldest first; refused until there is one -/
def toChunks (c : Column) : Except Error (List Chunk) :=
  if c.chunks.isEmpty then .error (.noChunks c.type) else .ok (c.chunks.toList.map (Chunk.column c.type))

/-- append the cell at a location to a row -/
def appendTo (c : Column) (l : Location) : Row.Act Unit :=
  match c.cell? l with
  | none => throw .fault
  | some cell => Row.append (Key.ofCell? c.type cell)

def shown (c : Column) : String :=
  let counts := [("data_type", c.type.name), ("num_chunks", toString c.chunks.size)]
  if c.isNumeric then Text.wrapped "Numeric" (Text.wrapped c.type.name (Text.record "PrimitiveColumn" counts))
  else Text.wrapped "StringLike" (Text.wrapped c.type.name (Text.record "ByteColumn" counts))

end Column

end EquiJoin
