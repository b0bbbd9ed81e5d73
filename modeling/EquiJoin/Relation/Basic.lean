/-
Hash relations: the build and probe side of an equality join. A relation is keyed by one column or by several, stores
the location of every build row whose key is not null in a join table, keeps the rows with a null key apart, and
carries any number of payload columns beside.

The table behind a relation is absent, owned, or imported from another builder. Only an owned table can be built on;
an imported one can be probed and handed on.
-/
import EquiJoin.Column.Basic
import EquiJoin.Table.Basic

namespace EquiJoin

/-- the table behind a relation -/
inductive Backing where
  | absent
  | owned (t : Table)
  | imported (v : View)

namespace Backing

def view? : Backing → Option View
  | absent => none
  | owned t => some t.view
  | imported v => some v

def stats? : Backing → Option Stats
  | absent => none
  | owned t => some t.stats
  | imported v => some v.stats

def name : Backing → String
  | absent => "none"
  | owned _ => "owned"
  | imported _ => "imported"

def isImported : Backing → Bool
  | imported _ => true
  | _ => false

end Backing

structure Relation where
  keyType : KeyType
  kind : KeyKind
  /-- the domain that probe keys must come from -/
  domain : KeyDomain
  config : Config
  table : Backing
  columns : Array Column
  /-- key chunks appended so far, also the index that the next one gets -/
  chunks : UInt32
  /-- whether any row had a null key -/
  nullSeen : Bool
  /-- the rows with a null key -/
  nullRows : Array Location

namespace Relation

/-- an action on a relation -/
abbrev Act (α : Type) := Action Error Relation α

/-- the key size that a relation pins its table to: for composite keys the configured one or else the width that the
columns fix; single keys are never pinned -/
def pinnedSize (k : KeyType) (c : Config) : Option UInt64 :=
  match k with
  | .single _ => none
  | .composite ts => c.keySize.or ((Row.fixedSize? ts).map UInt64.ofNat)

def resolve (k : KeyType) (c : Config) : Config := { c with keySize := pinnedSize k c }

/-- the domain of a key type; every key type of a kind has one -/
def domainOf (k : KeyType) : KeyDomain := k.domain?.getD .row

/-- a relation without a table: it takes payload chunks and handovers, but no keys and no probes -/
def detached (k : KeyType) (columns : List Column) : Except Error Relation := do
  let kind ← k.kind
  return {
    keyType := k
    kind
    domain := domainOf k
    config := resolve k {}
    table := .absent
    columns := columns.toArray
    chunks := 0
    nullSeen := false
    nullRows := #[] }

/-- a relation with a table of its own -/
def new (k : KeyType) (columns : List Column) (c : Config) : Except (Stop Error) Relation :=
  match detached k columns with
  | .error e => .error (.refused e)
  | .ok r =>
    match Table.create (resolve k c) with
    | .error s => .error (s.map .table)
    | .ok t => .ok { r with config := resolve k c, table := .owned (t.withTag k.layoutTag) }

/-- rows with a null key form one group; this says whether it is empty -/
def hasNullKeys (r : Relation) : Bool := r.nullSeen

def nullCount (r : Relation) : Nat := r.nullRows.size

/-- the table of a relation that is probed -/
def view (r : Relation) : Except Error View :=
  match r.table.view? with
  | some v => .ok v
  | none => .error .probedWithoutTable

def stats (r : Relation) : Except Error Stats :=
  match r.table.stats? with
  | some s => .ok s
  | none => .error .probedWithoutTable

def shown (r : Relation) : String :=
  Text.record "HashRelation" [("key_type", r.keyType.shown), ("num_arrays", toString r.chunks.toNat),
    ("payload_columns", toString r.columns.size), ("null_rows", toString r.nullCount),
    ("imported", Text.flag r.table.isImported), ("stats", Text.optional (r.table.stats?.map Stats.shown))]

/-- let go of the table; an owned one is given up, an imported one stays with its owner -/
def release : Act Unit := modify fun r => { r with table := .absent }

/-- an action on the table, which must be the relation's own -/
def onTable {α : Type} (act : Table.Act α) : Act α := fun r =>
  match r.table with
  | .owned t =>
    let r := { r with table := .absent }
    match act.run t with
    | .ok a t => .ok a { r with table := .owned t }
    | .error s t => .error (s.map .table) { r with table := .owned t }
  | .imported _ => .error (.refused .importedTable) r
  | .absent => .error (.refused .builtWithoutTable) r

/-- double the slot array -/
def growTable : Act Unit := onTable Table.grow

end Relation

end EquiJoin
