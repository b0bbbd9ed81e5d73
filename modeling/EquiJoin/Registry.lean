/-
Makers by type. A registry maps types of data to makers of something; the latest maker registered for a type is the one
used. There is one registry of makers of columns and one of makers of relations, and the default ones know every column
type. A single key goes to the maker of its type. A composite key needs no maker of its own, only a default column for
every component, because its keys are encoded row by row.
-/
import EquiJoin.Relation.Basic

namespace EquiJoin

/-- makers of type `α`, by type of data -/
structure Registry (α : Type) where
  entries : List (DataType × α)

namespace Registry

variable {α : Type}

def empty : Registry α := ⟨[]⟩

def find? (r : Registry α) (t : DataType) : Option α := (r.entries.find? fun e => e.1 == t).map Prod.snd

def supports (r : Registry α) (t : DataType) : Bool := (r.find? t).isSome

/-- use this maker for the type from now on -/
def register (r : Registry α) (t : DataType) (maker : α) : Registry α := ⟨(t, maker) :: r.entries⟩

/-- the registry that has this maker for every column type -/
def uniform (maker : α) : Registry α := ⟨ColumnType.all.map fun t => (.column t, maker)⟩

theorem find?_register_self (r : Registry α) (t : DataType) (maker : α) :
    (r.register t maker).find? t = some maker := by
  simp [find?, register]

theorem find?_register_of_ne (r : Registry α) {t u : DataType} (h : t ≠ u) (maker : α) :
    (r.register t maker).find? u = r.find? u := by
  simp [find?, register, h]

end Registry

/-- makes a column for a type of data -/
abbrev ColumnMaker := DataType → Except Error Column

/-- makes a relation from its key, its payload columns and its configuration -/
abbrev RelationMaker := KeyType → List Column → Config → Except (Stop Error) Relation

abbrev ColumnRegistry := Registry ColumnMaker

abbrev RelationRegistry := Registry RelationMaker

namespace ColumnRegistry

def default : ColumnRegistry := Registry.uniform Column.ofType

def make (r : ColumnRegistry) (t : DataType) : Except Error Column :=
  match r.find? t with
  | some maker => maker t
  | none => .error (.noColumn t)

def makeAll (r : ColumnRegistry) : List DataType → Except Error (List Column)
  | [] => .ok []
  | t :: ts => do
    let c ← r.make t
    return c :: (← makeAll r ts)

end ColumnRegistry

namespace RelationRegistry

def default : RelationRegistry := Registry.uniform Relation.new

def make (r : RelationRegistry) (k : KeyType) (columns : List Column) (c : Config) : Except (Stop Error) Relation :=
  match k with
  | .single t =>
    match r.find? t with
    | some maker => maker k columns c
    | none => .error (.refused (.noRelation t))
  | .composite ts =>
    match ts.find? fun t => !ColumnRegistry.default.supports t with
    | some t => .error (.refused (.noComponentColumn t))
    | none => Relation.new k columns c

end RelationRegistry

/-- whether the default registry makes relations that are keyed by this type -/
def DataType.isSupportedKey (t : DataType) : Bool := t.kind?.isSome && RelationRegistry.default.supports t

end EquiJoin
