/-
Read-only access to a built table: its control block, its slots and the used part of its overflow region. A view
serves its owner and every receiver of a handover alike, so its memory may come from anywhere; `Table.Chain` says why
reading it ends and stays inside the overflow region. What a view does trust is that the slot array has a slot for
every masked hash. Where it has none, the probe has no answer at all (`none` below), which is not the same as a miss.
-/
import EquiJoin.Location
import EquiJoin.Table.Chain

namespace EquiJoin

/-- the size of a table and of what it holds -/
structure Stats where
  capacity : Nat
  entries : Nat
  bytesUsed : Nat
  maxBytes : Nat
  deriving DecidableEq, Repr

def Stats.shown (s : Stats) : String :=
  Text.record "ArenaStats" [("capacity", toString s.capacity), ("num_entries", toString s.entries),
    ("bytes_used", toString s.bytesUsed), ("max_bytes", toString s.maxBytes)]

/-- a built table, as its readers see it -/
structure View where
  header : Header
  slots : Array Slot
  /-- the used part of the overflow region -/
  bytes : Region

namespace View

def keySize? (v : View) : Option Nat := v.header.keySize?

def tag (v : View) : UInt64 := v.header.tag

def stats (v : View) : Stats :=
  ⟨v.header.capacity.toNat, v.header.entries.toNat, v.header.cursor.toNat, v.header.maxBytes.toNat⟩

/-- the walk over the payloads stored under a key; a key of another width than the pinned one has none -/
def matches? (v : View) (hash : UInt64) (key : Bytes) : Option Matches :=
  if v.keySize?.any (· ≠ key.length) then some ⟨v.bytes, hash, key, allOnes⟩
  else v.slots[Slot.index v.header.mask hash]?.map fun slot => ⟨v.bytes, hash, key, slot.head⟩

/-- append the locations stored under a key; the flag says whether there were any. A payload that is no location does
not count. -/
def lookup? (v : View) (hash : UInt64) (key : Bytes) (out : List Location) : Option (Bool × List Location) :=
  (v.matches? hash key).map fun m =>
    let found := m.toList.filterMap Location.decode?
    (!found.isEmpty, out ++ found)

/-- whether anything at all is stored under a key -/
def exists? (v : View) (hash : UInt64) (key : Bytes) : Option Bool :=
  (v.matches? hash key).map fun m => m.next?.1.isSome

end View

end EquiJoin
