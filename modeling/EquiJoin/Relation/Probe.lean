/-
Probing. A probe key must come from the relation's domain; a null key misses without looking. Whoever built the table
with hashes of their own probes with them too.
-/
import EquiJoin.Relation.Basic

namespace EquiJoin.Relation

/-- the bytes that a probe key looks for, none for a null key -/
def probeBytes (r : Relation) (key : Key) : Except Error (Option KeyBytes) :=
  if key.domain ≠ r.domain then .error (.probeDomain key.domain r.keyType) else .ok key.bytes?

/-- ask the table about a key; `miss` is the answer for a null key -/
def probe {α : Type} (r : Relation) (key : Key) (miss : α) (ask : View → KeyBytes → Option α) :
    Except (Stop Error) α :=
  match r.view with
  | .error e => .error (.refused e)
  | .ok v =>
    match r.probeBytes key with
    | .error e => .error (.refused e)
    | .ok none => .ok miss
    | .ok (some bytes) =>
      match ask v bytes with
      | none => .error .fault
      | some a => .ok a

/-- append the locations of the rows stored under a key, in the order they were appended; the flag says whether there
were any -/
def get (r : Relation) (key : Key) (hash : Option UInt64) (out : List Location) :
    Except (Stop Error) (Bool × List Location) :=
  r.probe key (false, out) fun v bytes => v.lookup? (hash.getD bytes.hash) bytes.bytes out

/-- whether any row is stored under a key -/
def contains (r : Relation) (key : Key) (hash : Option UInt64) : Except (Stop Error) Bool :=
  r.probe key false fun v bytes => v.exists? (hash.getD bytes.hash) bytes.bytes

end EquiJoin.Relation
