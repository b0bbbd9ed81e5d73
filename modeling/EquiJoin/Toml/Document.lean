/-
A document under construction: the tables finished so far and the table that the last header opened. Keys go to the open
table; the next header puts it into its place.
-/
import EquiJoin.Toml.Value

namespace EquiJoin.Toml

structure Document where
  /-- the tables finished so far -/
  root : Entries
  /-- where the open table belongs; the empty path is the root -/
  path : List String
  /-- whether the open table is one of several under a double-bracket header -/
  isItem : Bool
  /-- the open table -/
  current : Entries

namespace Document

def start : Document := ⟨[], [], false, []⟩

/-- a key and its value in the open table -/
def put (d : Document) (path : List String) (k : String) (v : Value) : Option Document :=
  (d.current.put path k v).map fun current => { d with current }

/-- put the open table into its place -/
def close (d : Document) : Option Entries :=
  match d.path.getLast? with
  | none => some d.current
  | some k =>
    let insert (_ : Form) (es : Entries) : Option (Unit × Entries) :=
      match d.isItem, es.find? k with
      | true, none => some ((), es.set k (.tables [d.current]))
      | true, some (.tables items) => some ((), es.set k (.tables (items ++ [d.current])))
      | true, some _ => none
      | false, none => some ((), es.set k (.table .header d.current))
      | false, some _ => none
    (Entries.descend false insert d.path.dropLast .header d.root).map Prod.snd

/-- open the table of a header; a table that was only implied so far is continued -/
def openTable (d : Document) (path : List String) : Option Document := do
  let root ← d.close
  let k ← path.getLast?
  let take (_ : Form) (es : Entries) : Option (Entries × Entries) :=
    match es.find? k with
    | none => some ([], es)
    | some (.table .implied sub) => some (sub, es.erase k)
    | some _ => none
  let (current, root) ← Entries.descend false take path.dropLast .header root
  return ⟨root, path, false, current⟩

/-- open one more table under a double-bracket header -/
def openItem (d : Document) (path : List String) : Option Document := do
  let root ← d.close
  let k ← path.getLast?
  let look (_ : Form) (es : Entries) : Option (Unit × Entries) :=
    match es.find? k with
    | none => some ((), es)
    | some (.tables _) => some ((), es)
    | some _ => none
  let (_, root) ← Entries.descend false look path.dropLast .header root
  return ⟨root, path, true, []⟩

end Document

end EquiJoin.Toml
