/-
Small relations and the checks made on them. A fixture is sized so that a few dozen rows already make it grow.
-/
import EquiJoin.Relation.Build
import EquiJoin.Relation.Probe
import EquiJoin.Text.Lowercase

namespace EquiJoin.Fixture

/-- small enough that growth and the byte budget are soon reached -/
def config : Config := { initialCapacity := 16, initialBytes := 1024, maxBytes := 1048576 }

/-- append chunks of one key column, oldest first -/
def appendAll (chunks : List (Array (Option Int32))) : Relation.Act Unit :=
  chunks.forM fun cells => Relation.appendKeys (.column .int32 cells) none

/-- a relation without payload columns, keyed by the 32-bit integers of these chunks -/
def ofInt32Chunks (chunks : List (Array (Option Int32))) : Except (Stop Error) Relation :=
  match Relation.new (.single (.column .int32)) [] config with
  | .error s => .error s
  | .ok r =>
    match (appendAll chunks).run r with
    | .ok _ r => .ok r
    | .error s _ => .error s

/-- the locations of a key, none before them -/
def probe (r : Relation) (key : Key) : Except (Stop Error) (List Location) := (r.get key none []).map Prod.snd

/-- the word stands somewhere in the text -/
def occurs (word : List Char) : List Char → Bool
  | [] => word.isEmpty
  | c :: cs => word.isPrefixOf (c :: cs) || occurs word cs

/-- the call was refused in words that hold one of the keywords, whatever the case of letters -/
def refusedWith {α : Type} (outcome : Except Error α) (keywords : List String) : Bool :=
  match outcome with
  | .ok _ => false
  | .error e =>
    let message := Text.lowercase e.message
    keywords.any fun k => occurs (Text.lowercase k).toList message.toList

end EquiJoin.Fixture
