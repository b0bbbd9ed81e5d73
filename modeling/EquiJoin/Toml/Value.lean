/-
TOML documents as trees. A table remembers how it came about, because that decides what may still be added to it: a
table with a header of its own is closed to dotted keys, a table that only lies on the way of some header can still
get a header, a table made by dotted keys cannot, and a table written in braces is complete.
-/
import EquiJoin.Binary64

namespace EquiJoin.Toml

/-- how a table came about -/
inductive Form where
  /-- the root, or a table with a header of its own -/
  | header
  /-- a table on the way to the header of another -/
  | implied
  /-- a table made by dotted keys -/
  | dotted
  /-- a table in braces -/
  | inline
  deriving DecidableEq, Repr

/-- a value of a document -/
inductive Value where
  | string (s : String)
  | integer (i : Int)
  | float (x : Binary64)
  | boolean (b : Bool)
  /-- a date, a time, or both -/
  | moment
  | array (items : List Value)
  | table (form : Form) (entries : List (String × Value))
  /-- the tables under one double-bracket header, in order -/
  | tables (items : List (List (String × Value)))

/-- the keys of a table with their values -/
abbrev Entries := List (String × Value)

namespace Entries

def find? (es : Entries) (k : String) : Option Value := es.lookup k

/-- set a key, in its old place if it had one -/
def set (es : Entries) (k : String) (v : Value) : Entries :=
  if (es.find? k).isSome then es.map fun e => if e.1 == k then (k, v) else e else es ++ [(k, v)]

def erase (es : Entries) (k : String) : Entries := es.filter fun e => e.1 != k

/-- change the table at the end of a path. Tables that are missing on the way are made, dotted or implied; dotted keys
do not lead into a table with a header, nothing leads into a table in braces, and a path through tables under double
brackets leads into the last of them. -/
def descend {α : Type} (byDots : Bool) (act : Form → Entries → Option (α × Entries)) :
    List String → Form → Entries → Option (α × Entries)
  | [], form, es => act form es
  | k :: path, _, es =>
    match es.find? k with
    | none =>
      let form := if byDots then Form.dotted else Form.implied
      (descend byDots act path form []).map fun (a, sub) => (a, es.set k (.table form sub))
    | some (.table form sub) =>
      if form = .inline ∨ (byDots ∧ form = .header) then none
      else (descend byDots act path form sub).map fun (a, sub) => (a, es.set k (.table form sub))
    | some (.tables items) =>
      match items.getLast? with
      | none => none
      | some last =>
        (descend byDots act path .header last).map fun (a, last) =>
          (a, es.set k (.tables (items.dropLast ++ [last])))
    | some _ => none

/-- add a key with a value under a dotted path; each key is set once, and dotted keys only ever extend tables that
dotted keys made -/
def put (es : Entries) (path : List String) (k : String) (v : Value) : Option Entries :=
  let add (form : Form) (es : Entries) : Option (Unit × Entries) :=
    if (form = .dotted) = (path = []) then none
    else if (es.find? k).isSome then none
    else some ((), es.set k v)
  (descend true add path .header es).map Prod.snd

end Entries

end EquiJoin.Toml
