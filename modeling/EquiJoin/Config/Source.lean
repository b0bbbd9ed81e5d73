/-
Configurations from TOML. Every field is optional, keys that mean nothing here are ignored, sizes are integers that are
not negative, and the load factor may be written as an integer. The configuration must then pass its own check.
-/
import EquiJoin.Config
import EquiJoin.Toml.Parse

namespace EquiJoin.Config

/-- a field of the document, or what the configuration had -/
def field {α : Type} (es : Toml.Entries) (name : String) (read : Toml.Value → Option α) (default : α) : Option α :=
  match es.find? name with
  | none => some default
  | some v => read v

def readSize : Toml.Value → Option UInt64
  | .integer i => if 0 ≤ i then some (UInt64.ofNat i.toNat) else none
  | _ => none

def readFactor : Toml.Value → Option Binary64
  | .float x => some x
  | .integer i => some (Binary64.ofInt i)
  | _ => none

/-- the fields of a root table -/
def ofEntries (es : Toml.Entries) : Option Config := do
  let d : Config := {}
  return {
    initialCapacity := ← field es "initial_capacity" readSize d.initialCapacity
    maxBytes := ← field es "max_bytes" readSize d.maxBytes
    initialBytes := ← field es "initial_bytes" readSize d.initialBytes
    keySize := ← field es "key_size" (fun v => (readSize v).map some) d.keySize
    loadFactor := ← field es "load_factor" readFactor d.loadFactor }

/-- the configuration that a document describes -/
def ofToml (source : String) : Except ConfigFault Config :=
  match (Toml.parse source).bind ofEntries with
  | none => .error .unreadable
  | some c =>
    match c.check with
    | .error f => .error f
    | .ok () => .ok c

end EquiJoin.Config
