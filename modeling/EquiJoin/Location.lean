/-
Build-side rows are named by location: the chunk that a row arrived in and its place in that chunk. A location is stored
as two 32-bit little-endian words, and locations are ordered by chunk first.
-/
import EquiJoin.LittleEndian
import EquiJoin.Text.Record

namespace EquiJoin

/-- one build-side row -/
structure Location where
  /-- the index of the chunk -/
  chunk : UInt32
  /-- the index of the row in its chunk -/
  row : UInt32
  deriving DecidableEq, Repr, Inhabited

namespace Location

/-- bytes of a stored location -/
def width : Nat := 8

def encode (l : Location) : Bytes :=
  LittleEndian.encode 4 l.chunk.toNat ++ LittleEndian.encode 4 l.row.toNat

/-- a location is exactly eight bytes; any other string is none -/
def decode? (bs : Bytes) : Option Location :=
  if bs.length = width then
    some ⟨UInt32.ofNat (LittleEndian.decode (bs.take 4)), UInt32.ofNat (LittleEndian.decode (bs.drop 4))⟩
  else none

/-- lexicographic: chunk, then row -/
def le (a b : Location) : Bool := a.chunk < b.chunk || (a.chunk == b.chunk && a.row ≤ b.row)

def text (l : Location) : String := s!"({l.chunk.toNat}, {l.row.toNat})"

def shown (l : Location) : String :=
  Text.record "RowLocation" [("array_id", toString l.chunk.toNat), ("id", toString l.row.toNat)]

theorem length_encode (l : Location) : l.encode.length = width := by
  simp [encode, width]

theorem decode?_encode (l : Location) : decode? l.encode = some l := by
  have h : l.encode.length = width := length_encode l
  have hc := l.chunk.toNat_lt
  have hr := l.row.toNat_lt
  have ht : l.encode.take 4 = LittleEndian.encode 4 l.chunk.toNat := by simp [encode]
  have hd : l.encode.drop 4 = LittleEndian.encode 4 l.row.toNat := by simp [encode]
  rw [decode?, if_pos h, ht, hd, LittleEndian.decode_encode, LittleEndian.decode_encode]
  rw [Nat.mod_eq_of_lt (by simpa using hc), Nat.mod_eq_of_lt (by simpa using hr)]
  simp

/-- eight bytes are the location that they spell, and no other bytes are one -/
theorem decode?_eq_some_iff {bs : Bytes} {l : Location} : decode? bs = some l ↔ l.encode = bs := by
  refine ⟨fun h => ?_, fun h => h ▸ decode?_encode l⟩
  rw [decode?] at h
  split at h
  · next hw =>
    cases h
    unfold width at hw
    have ht : (bs.take 4).length = 4 := by simp; omega
    have hd : (bs.drop 4).length = 4 := by simp; omega
    have hlt := LittleEndian.decode_lt (bs.take 4)
    have hld := LittleEndian.decode_lt (bs.drop 4)
    rw [ht] at hlt
    rw [hd] at hld
    have het := LittleEndian.encode_decode (bs.take 4)
    have hed := LittleEndian.encode_decode (bs.drop 4)
    rw [ht] at het
    rw [hd] at hed
    have hchunk : LittleEndian.decode (bs.take 4) % 2 ^ 32 = LittleEndian.decode (bs.take 4) := Nat.mod_eq_of_lt hlt
    have hrow : LittleEndian.decode (bs.drop 4) % 2 ^ 32 = LittleEndian.decode (bs.drop 4) := Nat.mod_eq_of_lt hld
    rw [encode, UInt32.toNat_ofNat', UInt32.toNat_ofNat', hchunk, hrow, het, hed, List.take_append_drop]
  · cases h

theorem decode?_eq_none_iff {bs : Bytes} : decode? bs = none ↔ bs.length ≠ width := by
  unfold decode?
  split <;> simp [*]

end Location

/-- address and size of a block of memory, as one builder tells it to another -/
structure Handle where
  address : Nat
  size : Nat
  deriving DecidableEq, Repr

namespace Handle

def isNull (h : Handle) : Bool := h.address = 0

/-- bytes that `n` 64-bit words take -/
def wordsSize (n : Nat) : Nat := 8 * n

def shown (h : Handle) : String :=
  Text.record "MemoryHandle" [("address", toString h.address), ("size", toString h.size)]

end Handle

end EquiJoin
