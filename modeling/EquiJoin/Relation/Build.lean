/-
Building. One call appends one chunk of keys, row by row under the next chunk index. A row with a null key is noted
among the null rows; every other row is stored in the table under the bytes of its key, with the hash that the caller
gave for it or else the key's own.

A chunk is measured before its first row is recorded: `demand` adds up what its rows will take, asking of every key
whether it can be stored at all, and the table is asked for room for all of them at once.

Here every row of several key columns is encoded once, into a row of its own. `Relation.Builder` encodes all of them
over one row, twice, and counts numbers instead of adding up what each of them takes.

* `keyOver_eq`: over any row of as many fields, a key is the same, and what is left is a row of as many fields.
-/
import EquiJoin.Relation.Basic
import EquiJoin.Row.Encoder

namespace EquiJoin.Relation

/-- the key of one row, or why there is none; inside, `none` is a null key -/
abbrev RowKey := Except (Stop Error) (Option KeyBytes)

/-- the keys of a single key column, row by row -/
def keysOf : Chunk → List RowKey
  | .column t cells => cells.toList.map fun cell => .ok (Key.ofCell? t cell).bytes?
  | .other n cells => cells.toList.map fun _ => .error (.refused (.notAKey (.other n)))

/-- the key of one row of several key columns; a row with a null cell has a null key -/
def encodedKey (e : RowEncoder) (row : Nat) : RowKey :=
  match e.hasNull? row with
  | none => .error .fault
  | some true => .ok none
  | some false =>
    match (e.encode row).run e.newRow with
    | .ok _ out => .ok (some (.slice out.bytes))
    | .error s _ => .error s

/-- the same key, encoded over a row that is at hand -/
def keyOver (e : RowEncoder) (row : Nat) : Row.Act (Option KeyBytes) :=
  match e.hasNull? row with
  | none => throw .fault
  | some true => pure none
  | some false => do
    e.encode row
    let out ← getThe Row
    return some (.slice out.bytes)

/-- what the row at hand held makes no difference, and it can be encoded over again -/
theorem keyOver_eq {e : RowEncoder} {out : Row} (h : out.Spans e.fields) (row : Nat) :
    (keyOver e row).answer out = encodedKey e row ∧ ((keyOver e row).after out).Spans e.fields := by
  have hspans := RowEncoder.preserves_encode row out h
  rw [keyOver, encodedKey]
  cases e.hasNull? row with
  | none => exact ⟨rfl, h⟩
  | some null =>
    cases null with
    | true => exact ⟨rfl, h⟩
    | false =>
      have hover := RowEncoder.run_encode_over h row
      have hnew : (e.encode row).run e.newRow = _ := RowEncoder.run_encode_over (Row.spans_new e.fields) row
      by_cases hrow : e.rows ≤ row
      · rw [if_pos hrow] at hover hnew
        rw [Action.answer_of_error (Action.run_bind_of_error hover),
          Action.after_of_error (Action.run_bind_of_error hover), hnew]
        exact ⟨rfl, h⟩
      · rw [if_neg hrow] at hover hnew
        rw [← hover] at hnew
        rw [hnew]
        cases hrun : (e.encode row).run out with
        | ok u out' =>
          rw [Action.after_of_ok hrun] at hspans
          rw [Action.answer_bind_of_ok hrun, Action.after_bind_of_ok hrun]
          exact ⟨rfl, hspans⟩
        | error s out' =>
          rw [Action.after_of_error hrun] at hspans
          rw [Action.answer_of_error (Action.run_bind_of_error hrun), Action.after_bind_of_error hrun]
          exact ⟨rfl, hspans⟩

def encodedKeys (e : RowEncoder) : List RowKey := (List.range e.rows).map (encodedKey e)

/-- entries and bytes that the rows of a chunk will take -/
def demand (t : Table) : List RowKey → Except (Stop Error) (Nat × Nat)
  | [] => .ok (0, 0)
  | .error s :: _ => .error s
  | .ok none :: rows => demand t rows
  | .ok (some key) :: rows =>
    match t.entryBytes key.bytes.length Location.width with
    | .error e => .error (.refused (.table e))
    | .ok size => do
      let (entries, bytes) ← demand t rows
      return (entries + 1, cappedAdd size bytes)

/-- entries and bytes that so many numbers will take; each of them takes as much as the others -/
def countedDemand (t : Table) (entries : Nat) : Except (Stop Error) (Nat × Nat) :=
  match t.entryBytes 8 Location.width with
  | .error e => .error (.refused (.table e))
  | .ok size => .ok (entries, cappedMul entries size)

/-- whether the table has room for all rows of a chunk -/
def reserve (t : Table) (rows : List RowKey) : Except (Stop Error) Unit := do
  let (entries, bytes) ← demand t rows
  match t.ensureRoom entries bytes with
  | .error e => throw (.refused (.table e))
  | .ok () => return ()

/-- ask the relation's own table whether a chunk can be stored -/
def reserveRows (rows : List RowKey) : Act Unit := fun r =>
  match r.table with
  | .owned t =>
    match reserve t rows with
    | .error s => .error s r
    | .ok () => .ok () r
  | .imported _ => .error (.refused .importedTable) r
  | .absent => .error (.refused .builtWithoutTable) r

/-- note a row with a null key -/
def noteNull (l : Location) : Act Unit :=
  modify fun r => { r with nullSeen := true, nullRows := r.nullRows.push l }

/-- record one row, with the caller's hash if there is one -/
def recordRow (l : Location) (hash : Option UInt64) : RowKey → Act Unit
  | .error s => throw s
  | .ok none => noteNull l
  | .ok (some key) => onTable (Table.insertLocation (hash.getD key.hash) key.bytes l)

/-- the place of row `i` of a chunk; row numbers are kept in 32 bits -/
def rowLocation (chunk : UInt32) (i : Nat) : Location := ⟨chunk, UInt32.ofNat i⟩

/-- record rows from number `i` on -/
def recordRows (chunk : UInt32) (hashes : Option (Array UInt64)) : Nat → List RowKey → Act Unit
  | _, [] => pure ()
  | i, row :: rows => do
    recordRow (rowLocation chunk i) (hashes.bind fun h => h[i]?) row
    recordRows chunk hashes (i + 1) rows

/-- the next chunk index; the last one that 32 bits hold has none after it -/
def nextChunk : Act Unit := fun r =>
  if r.chunks.toNat + 1 < 1 <<< 32 then .ok () { r with chunks := r.chunks + 1 } else .error .fault r

/-- record the rows of a chunk under the next index -/
def recordChunk (rows : List RowKey) (hashes : Option (Array UInt64)) : Act Unit := do
  let chunk ← Action.query fun r => .ok r.chunks
  recordRows chunk hashes 0 rows
  nextChunk

/-- append a chunk, row by row -/
def appendRows (rows : List RowKey) (hashes : Option (Array UInt64)) : Act Unit := do
  reserveRows rows
  recordChunk rows hashes

/-- the caller's hashes, if any, must be one for each row -/
def checkHashes (hashes : Option (Array UInt64)) (rows : Nat) : Act Unit :=
  match hashes with
  | some h => if h.size ≠ rows then Action.refuse (.hashCount h.size rows) else pure ()
  | none => pure ()

/-- whether a chunk has the type of a single key -/
def checkKeyChunk (chunk : Chunk) (r : Relation) : Except Error Unit :=
  match r.keyType with
  | .composite _ => .error .compositeRelation
  | .single t => if chunk.dataType ≠ t then .error (.keyChunkType chunk.dataType t) else .ok ()

/-- whether chunks have the types of a composite key -/
def checkKeyChunks (chunks : List Chunk) (r : Relation) : Except Error Unit :=
  match r.keyType with
  | .single _ => .error .singleRelation
  | .composite ts =>
    if chunks.map Chunk.dataType ≠ ts then .error (.keyChunkColumns (chunks.map Chunk.dataType) ts) else .ok ()

/-- append one chunk of a single key; with hashes of the caller, probes must bring theirs too -/
def appendKeys (chunk : Chunk) (hashes : Option (Array UInt64)) : Act Unit := do
  checkHashes hashes chunk.size
  Action.query (checkKeyChunk chunk)
  appendRows (keysOf chunk) hashes

/-- append one chunk of a composite key, one array for each key column -/
def appendKeyRows (chunks : List Chunk) (hashes : Option (Array UInt64)) : Act Unit := do
  checkHashes hashes ((chunks.head?.map Chunk.size).getD 0)
  Action.query (checkKeyChunks chunks)
  let encoder ← Action.query fun _ => RowEncoder.ofChunks chunks
  appendRows (encodedKeys encoder) hashes

end EquiJoin.Relation
