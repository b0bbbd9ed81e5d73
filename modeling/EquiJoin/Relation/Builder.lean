/-
Builders. `Relation.Build` says what a chunk of keys does to a relation: it measures the chunk key by key, and it
encodes every row of several key columns into a row of its own. A builder has less at hand. It measures a chunk of
numbers by counting them, and it keeps one row and encodes all composite keys over it, each of them once to measure the
chunk and once more to record it.
-/
import EquiJoin.Relation.Build

namespace EquiJoin

/-- a relation, and the row that composite keys are encoded over -/
structure Builder where
  relation : Relation
  row : Row

namespace Builder

/-- an action on a builder -/
abbrev Act (α : Type) := Action Error Builder α

/-- fields of the row: one for each column of a composite key -/
def width : KeyType → Nat
  | .single _ => 0
  | .composite ts => ts.length

/-- the builder of a relation, with a new row -/
def ofRelation (r : Relation) : Builder := ⟨r, Row.new (width r.keyType)⟩

def onRelation {α : Type} (act : Relation.Act α) : Act α := fun b =>
  match act.run b.relation with
  | .ok a r => .ok a { b with relation := r }
  | .error s r => .error s { b with relation := r }

def onRow {α : Type} (act : Row.Act α) : Act α := fun b =>
  match act.run b.row with
  | .ok a row => .ok a { b with row }
  | .error s row => .error s { b with row }

/-! ## Measuring -/

/-- the relation's own table -/
def ownTable : Act Table :=
  onRelation <| Action.query fun r =>
    match r.table with
    | .owned t => .ok t
    | .imported _ => .error .importedTable
    | .absent => .error .builtWithoutTable

/-- measure a chunk and ask the table for room for it -/
def reserve (measure : Table → Act (Nat × Nat)) : Act Unit := do
  let t ← ownTable
  let (entries, bytes) ← measure t
  match t.ensureRoom entries bytes with
  | .error e => Action.refuse (.table e)
  | .ok () => pure ()

/-- entries and bytes that a chunk of a single key will take: numbers are counted, other keys measured one by one -/
def demandOf (chunk : Chunk) (t : Table) : KeyKind → Except (Stop Error) (Nat × Nat)
  | .numeric => Relation.countedDemand t (chunk.size - chunk.nullCount)
  | _ => Relation.demand t (Relation.keysOf chunk)

/-- entries and bytes that these rows of several key columns will take, each encoded over the row -/
def demandOver (t : Table) (e : RowEncoder) : List Nat → Row.Act (Nat × Nat)
  | [] => pure (0, 0)
  | i :: rows => do
    match ← Relation.keyOver e i with
    | none => demandOver t e rows
    | some key =>
      match t.entryBytes key.bytes.length Location.width with
      | .error err => Action.refuse (.table err)
      | .ok size => do
        let (entries, bytes) ← demandOver t e rows
        return (entries + 1, cappedAdd size bytes)

/-! ## Recording -/

/-- record one row of several key columns, encoded over the row once more -/
def recordRow (e : RowEncoder) (l : Location) (hash : Option UInt64) (i : Nat) : Act Unit := do
  let key ← onRow (Relation.keyOver e i)
  onRelation (Relation.recordRow l hash (.ok key))

def recordRows (e : RowEncoder) (chunk : UInt32) (hashes : Option (Array UInt64)) : List Nat → Act Unit
  | [] => pure ()
  | i :: rows => do
    recordRow e (Relation.rowLocation chunk i) (hashes.bind fun h => h[i]?) i
    recordRows e chunk hashes rows

/-! ## Appending -/

/-- append one chunk of a single key -/
def appendKeys (chunk : Chunk) (hashes : Option (Array UInt64)) : Act Unit := do
  onRelation (Relation.checkHashes hashes chunk.size)
  onRelation (Action.query (Relation.checkKeyChunk chunk))
  reserve fun t => do
    let kind ← onRelation (Action.query fun r => .ok r.kind)
    Action.ofExcept (demandOf chunk t kind)
  onRelation (Relation.recordChunk (Relation.keysOf chunk) hashes)

/-- append one chunk of a composite key, one array for each key column -/
def appendKeyRows (chunks : List Chunk) (hashes : Option (Array UInt64)) : Act Unit := do
  onRelation (Relation.checkHashes hashes ((chunks.head?.map Chunk.size).getD 0))
  onRelation (Action.query (Relation.checkKeyChunks chunks))
  let encoder ← onRelation (Action.query fun _ => RowEncoder.ofChunks chunks)
  reserve fun t => onRow (demandOver t encoder (List.range encoder.rows))
  let chunk ← onRelation (Action.query fun r => .ok r.chunks)
  recordRows encoder chunk hashes (List.range encoder.rows)
  onRelation Relation.nextChunk

end Builder

end EquiJoin
