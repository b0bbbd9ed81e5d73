/-
Handing a relation's table over. A receiver takes a table whose keys were encoded as its own and are pinned to the same
width; it then gives up its own table and describes the new one in its configuration.
-/
import EquiJoin.Relation.Basic

namespace EquiJoin.Relation

/-- the regions of the table, at these places -/
def exportTable (r : Relation) (p : Placement) : Except Error (List Extent) :=
  match r.table.view? with
  | some v => .ok (v.extents p)
  | none => .error .nothingToExport

/-- whether a relation can use a table -/
def accepts (r : Relation) (v : View) : Except Error Unit :=
  if v.tag ≠ r.keyType.layoutTag then .error (.foreignTag v.tag r.keyType r.keyType.layoutTag)
  else if v.keySize? ≠ r.config.keySize.map UInt64.toNat then
    .error (.foreignKeySize v.keySize? (r.config.keySize.map UInt64.toNat))
  else .ok ()

/-- the configuration after an import: what the control block says, and the rest as it was -/
def configAfter (c : Config) (v : View) : Config :=
  { c with
    initialCapacity := v.header.capacity
    maxBytes := v.header.maxBytes
    keySize := v.keySize?.map UInt64.ofNat }

/-- use the table behind these handles -/
def importTable (handles : List Extent) : Act Unit := do
  let view ← Action.ofExcept ((View.attach handles).mapError (Stop.map Error.table))
  Action.query fun r => r.accepts view
  release
  modify fun r => { r with config := configAfter r.config view, table := .imported view }

end EquiJoin.Relation
