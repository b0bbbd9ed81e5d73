/-
Encoding the rows of a fixed set of columns of equal length. `encode` resets the row it writes to, so what the row held
before does not matter.

* `run_encode_over`: over any row of as many fields, a row is written as over a new one;
* `preserves_encode`: and what is left is a row of as many fields.
-/
import EquiJoin.Column.Basic

namespace EquiJoin

/-- columns of one chunk each, row by row -/
structure RowEncoder where
  columns : List Column
  rows : Nat

namespace RowEncoder

/-- the columns of these arrays, all of them as long as the first -/
def columnsOf (rows : Nat) : List Chunk → Except Error (List Column)
  | [] => .ok []
  | chunk :: chunks => do
    if chunk.size ≠ rows then throw (.columnLengths chunk.size rows)
    let column ← Column.ofType chunk.dataType
    let column ← column.append chunk
    return column :: (← columnsOf rows chunks)

def ofChunks (chunks : List Chunk) : Except Error RowEncoder := do
  let rows := (chunks.head?.map Chunk.size).getD 0
  return ⟨← columnsOf rows chunks, rows⟩

def fields (e : RowEncoder) : Nat := e.columns.length

def newRow (e : RowEncoder) : Row := Row.new e.fields

/-- the place of a row; row numbers are kept in 32 bits -/
def location (row : Nat) : Location := ⟨0, UInt32.ofNat row⟩

/-- whether a row has a null cell; columns after the first null are not looked at -/
def hasNullAt (l : Location) : List Column → Option Bool
  | [] => some false
  | c :: cs =>
    match c.isNull? l with
    | none => none
    | some true => some true
    | some false => hasNullAt l cs

def hasNull? (e : RowEncoder) (row : Nat) : Option Bool := hasNullAt (location row) e.columns

/-- write one row over whatever the row held -/
def encode (e : RowEncoder) (row : Nat) : Row.Act Unit := do
  let out ← get
  if out.fields ≠ e.fields then Action.refuse (.encoderFields out.fields e.fields)
  if e.rows ≤ row then Action.refuse (.encoderRow row e.rows)
  Row.reset
  e.columns.forM fun c => c.appendTo (location row)

variable {e : RowEncoder} {out : Row}

theorem preserves_appendTo {n : Nat} (columns : List Column) (l : Location) :
    Action.Preserves (Row.Spans n) (columns.forM fun c => c.appendTo l) := by
  induction columns with
  | nil => exact (Action.inert_pure ()).preserves
  | cons column columns ih =>
    have hcell : Action.Preserves (Row.Spans n) (column.appendTo l) := by
      unfold Column.appendTo
      split
      · exact (Action.inert_throw _).preserves
      · exact Row.preserves_append _
    exact hcell.bind fun _ => ih

/-- a row behind the last is refused, any other is written as over a new row -/
theorem run_encode_over (h : out.Spans e.fields) (row : Nat) : (e.encode row).run out =
    if e.rows ≤ row then .error (.refused (.encoderRow row e.rows)) out
    else (e.columns.forM fun c => c.appendTo (location row)).run e.newRow := by
  have hget : (MonadState.get : Row.Act Row).run out = .ok out out := rfl
  rw [encode, Action.run_bind_of_ok hget, if_neg (not_not_intro h.fields)]
  split
  · rfl
  · exact Action.run_bind_of_ok h.run_reset

theorem preserves_encode (row : Nat) : Action.Preserves (Row.Spans e.fields) (e.encode row) := by
  intro out h
  have hrun := run_encode_over h row
  by_cases hrow : e.rows ≤ row
  · rw [if_pos hrow] at hrun
    rwa [Action.after_of_error hrun]
  · rw [if_neg hrow] at hrun
    have hafter : (e.encode row).after out =
        Action.after (e.columns.forM fun c => c.appendTo (location row)) e.newRow := by
      rw [Action.after, hrun, Action.after]
    rw [hafter]
    exact preserves_appendTo _ _ _ (Row.spans_new _)

def shown (e : RowEncoder) : String :=
  Text.record "RowEncoder" [("columns", Text.list (e.columns.map Column.shown)), ("num_rows", toString e.rows)]

end RowEncoder

end EquiJoin
