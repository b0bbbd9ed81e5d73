/-
Payload columns. They take chunks of their own, one for each key chunk if the caller keeps them in step, and are read
back at the locations that probes find.
-/
import EquiJoin.Relation.Basic

namespace EquiJoin.Relation

def payloadColumn (r : Relation) (index : Nat) : Except Error Column :=
  match r.columns[index]? with
  | some c => .ok c
  | none => .error (.payloadColumn index r.columns.size)

/-- store a chunk in a payload column -/
def appendPayload (index : Nat) (chunk : Chunk) : Act Unit := do
  let column ← Action.query fun r => r.payloadColumn index
  let column ← Action.query fun _ => column.append chunk
  modify fun r => { r with columns := r.columns.setIfInBounds index column }

/-- all chunks of a payload column -/
def payloadChunks (r : Relation) (index : Nat) : Except Error (List Chunk) := do
  (← r.payloadColumn index).toChunks

/-- the cells of a column at these locations, in the order given; refused at the first location that is not stored -/
def gather (c : Column) (index : Nat) : List Location → Except Error (List (Option c.type.Value))
  | [] => .ok []
  | l :: ls =>
    match c.cell? l with
    | none => .error (.payloadLocation l index)
    | some cell => do return cell :: (← gather c index ls)

/-- one array with the cells of a payload column at these locations -/
def materialize (r : Relation) (index : Nat) (locations : List Location) : Except Error Chunk := do
  let column ← r.payloadColumn index
  let _ ← column.toChunks
  let cells ← gather column index locations
  return .column column.type cells.toArray

/-- append the cell of every column at a location, until a column does not store it -/
def encodeCells (l : Location) : List Column → Row.Act Unit
  | [] => pure ()
  | c :: cs => do
    if !c.contains l then Action.refuse (.rowLocation l)
    c.appendTo l
    encodeCells l cs

/-- write the payload of one build row over whatever the row held -/
def encodePayload (r : Relation) (l : Location) : Row.Act Unit := do
  let out ← get
  if out.fields ≠ r.columns.size then Action.refuse (.payloadFields out.fields r.columns.size)
  Row.reset
  encodeCells l r.columns.toList

end EquiJoin.Relation
