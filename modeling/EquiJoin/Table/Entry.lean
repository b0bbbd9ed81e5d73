/-
Entries and slots. An entry lies in the overflow region as

    next (8) | hash (8) | key length (4) | payload length (4) | key | payload | padding to a multiple of 8

with all numbers little-endian. Entries of one slot form a chain: `next` is the offset of the next entry, all ones ends
the chain, and the slot holds the offsets of the first and of the last entry. A new entry goes to the end of its chain,
so a chain reads back in insertion order.

`decode?` reads each field in turn and has no result as soon as one lies outside the region. `tryDecode?` is the decoder
for foreign memory: it first bounds the header and both lengths, and only then reads.

* `checkedDecode?_eq`: no access of `tryDecode?` leaves the region, whatever the region holds.
-/
import EquiJoin.Table.Header

namespace EquiJoin

/-- the offset of an entry, or all ones at the end of a chain -/
abbrev Link := UInt64

/-- what an entry holds -/
structure Entry where
  next : Link
  hash : UInt64
  key : Bytes
  payload : Bytes
  deriving DecidableEq, Repr

namespace Entry

/-- bytes before the key -/
def headerSize : Nat := 24

/-- the next multiple of eight -/
def alignUp (n : Nat) : Nat := (n + 7) / 8 * 8

/-- the next multiple of eight, none if the way there leads out of 64 bits -/
def alignUp? (n : Nat) : Option Nat := if n + 8 < 1 <<< 64 then some (alignUp n) else none

/-- bytes that an entry takes, padding included -/
def size (keyLength payloadLength : Nat) : Nat := alignUp (headerSize + keyLength + payloadLength)

/-- bytes that an entry takes, none if they need more than 64 bits -/
def size? (keyLength payloadLength : Nat) : Option Nat := alignUp? (headerSize + keyLength + payloadLength)

/-- lengths that the header can hold never add up to more than a word holds -/
theorem size?_eq_some {k p : Nat} (hk : k < 1 <<< 32) (hp : p < 1 <<< 32) : size? k p = some (size k p) := by
  unfold size? alignUp? headerSize
  rw [if_pos (by omega)]
  rfl

def encodedSize (e : Entry) : Nat := size e.key.length e.payload.length

/-- the bytes of an entry, padding excluded -/
def encode (e : Entry) : Bytes :=
  LittleEndian.encode 8 e.next.toNat ++ LittleEndian.encode 8 e.hash.toNat ++
    LittleEndian.encode 4 e.key.length ++ LittleEndian.encode 4 e.payload.length ++ e.key ++ e.payload

/-- the entry at `off`, field by field; none as soon as a field leaves the region -/
def decode? (r : Region) (off : Nat) : Option Entry := do
  let next ← r.number? 8 off
  let hash ← r.number? 8 (off + 8)
  let keyLength ← r.number? 4 (off + 16)
  let payloadLength ← r.number? 4 (off + 20)
  let key ← r.slice? (off + headerSize) keyLength
  let payload ← r.slice? (off + headerSize + keyLength) payloadLength
  return ⟨UInt64.ofNat next, UInt64.ofNat hash, key, payload⟩

/-- a sum of two sizes, none if it needs more than 64 bits -/
def checkedAdd (a b : Nat) : Option Nat := if a + b < 1 <<< 64 then some (a + b) else none

/-- the entry at `off` if the header and both declared lengths lie inside the region -/
def tryDecode? (r : Region) (off : Nat) : Option Entry := do
  let keyStart ← checkedAdd off headerSize
  if keyStart ≤ r.size then
    let keyLength := r.number 4 (off + 16)
    let payloadLength := r.number 4 (off + 20)
    let payloadStart ← checkedAdd keyStart keyLength
    let stop ← checkedAdd payloadStart payloadLength
    if stop ≤ r.size then
      return ⟨UInt64.ofNat (r.number 8 off), UInt64.ofNat (r.number 8 (off + 8)),
        r.slice keyStart keyLength, r.slice payloadStart payloadLength⟩
    else none
  else none

/-- the decoder for foreign memory with every access checked: it has no outcome if one leaves the region -/
def checkedDecode? (r : Region) (off : Nat) : Option (Option Entry) :=
  match checkedAdd off headerSize with
  | none => some none
  | some keyStart =>
    if r.size < keyStart then some none
    else do
      let keyLength ← r.number? 4 (off + 16)
      let payloadLength ← r.number? 4 (off + 20)
      match (checkedAdd keyStart keyLength).bind fun payloadStart => checkedAdd payloadStart payloadLength with
      | none => some none
      | some stop =>
        if r.size < stop then some none
        else do
          let next ← r.number? 8 off
          let hash ← r.number? 8 (off + 8)
          let key ← r.slice? keyStart keyLength
          let payload ← r.slice? (keyStart + keyLength) payloadLength
          return some ⟨UInt64.ofNat next, UInt64.ofNat hash, key, payload⟩

theorem checkedAdd_eq_some {a b c : Nat} (h : checkedAdd a b = some c) : c = a + b := by
  unfold checkedAdd at h
  split at h
  · cases h; rfl
  · cases h

/-- no access of the decoder leaves the region -/
theorem checkedDecode?_eq (r : Region) (off : Nat) : checkedDecode? r off = some (tryDecode? r off) := by
  rw [checkedDecode?, tryDecode?]
  cases hstart : checkedAdd off headerSize with
  | none => rfl
  | some keyStart =>
    have hkey := checkedAdd_eq_some hstart
    unfold headerSize at hkey
    by_cases hheader : r.size < keyStart
    · simp only [Option.bind_eq_bind, Option.bind_some, if_pos hheader, if_neg (Nat.not_le_of_lt hheader)]
    · -- the header is inside, so both lengths can be read
      have hlength : r.number? 4 (off + 16) = some (r.number 4 (off + 16)) := Region.number?_eq_some (by omega)
      have hlength' : r.number? 4 (off + 20) = some (r.number 4 (off + 20)) := Region.number?_eq_some (by omega)
      simp only [Option.bind_eq_bind, Option.bind_some, if_neg hheader, if_pos (Nat.le_of_not_lt hheader), hlength,
        hlength']
      cases hpayload : checkedAdd keyStart (r.number 4 (off + 16)) with
      | none => rfl
      | some payloadStart =>
        rw [Option.bind_some, Option.bind_some]
        cases hstop : checkedAdd payloadStart (r.number 4 (off + 20)) with
        | none => rfl
        | some stop =>
          rw [Option.bind_some]
          by_cases hend : r.size < stop
          · simp only [if_pos hend, if_neg (Nat.not_le_of_lt hend)]
          · -- the whole entry is inside
            cases checkedAdd_eq_some hpayload
            cases checkedAdd_eq_some hstop
            have hnext : r.number? 8 off = some (r.number 8 off) := Region.number?_eq_some (by omega)
            have hhash : r.number? 8 (off + 8) = some (r.number 8 (off + 8)) := Region.number?_eq_some (by omega)
            simp only [if_neg hend, if_pos (Nat.le_of_not_lt hend), hnext, hhash,
              Region.slice?_of_le (show keyStart + r.number 4 (off + 16) ≤ r.size by omega),
              Region.slice?_of_le (Nat.le_of_not_lt hend), Option.bind_some, Option.pure_def]

/-- write an entry that is not linked yet; the region has room for it -/
def write (r : Region) (off : Nat) (hash : UInt64) (key payload : Bytes) : Region :=
  r.overwrite off (encode ⟨allOnes, hash, key, payload⟩)

/-- bytes of an entry without its padding -/
def bareSize (key payload : Bytes) : Nat := headerSize + key.length + payload.length

/-- write an entry that is not linked yet, if it fits -/
def write? (r : Region) (off : Nat) (hash : UInt64) (key payload : Bytes) : Option Region :=
  if off + bareSize key payload ≤ r.size then some (write r off hash key payload) else none

@[simp] theorem length_encode (e : Entry) : e.encode.length = bareSize e.key e.payload := by
  simp [encode, bareSize, headerSize]
  omega

end Entry

/-- one bucket: the offsets of the first and of the last entry of its chain -/
structure Slot where
  head : Link
  tail : Link
  deriving DecidableEq, Repr, Inhabited

namespace Slot

def empty : Slot := ⟨allOnes, allOnes⟩

/-- the slot that the masked hash picks -/
def index (mask hash : UInt64) : Nat := (hash &&& mask).toNat

/-- the slot of a hash exists, and so does the last entry of its chain -/
def linkable (slots : Array Slot) (r : Region) (mask hash : UInt64) : Bool :=
  match slots[index mask hash]? with
  | none => false
  | some slot => slot.tail = allOnes || slot.tail.toNat + 8 ≤ r.size

/-- put the entry at `off` at the end of its chain -/
def link (slots : Array Slot) (r : Region) (mask hash : UInt64) (off : Link) : Array Slot × Region :=
  match slots[index mask hash]? with
  | none => (slots, r)
  | some slot =>
    if slot.tail = allOnes then (slots.setIfInBounds (index mask hash) ⟨off, off⟩, r)
    else
      (slots.setIfInBounds (index mask hash) ⟨slot.head, off⟩,
        r.overwrite slot.tail.toNat (LittleEndian.encode 8 off.toNat))

/-- put the entry at `off` at the end of its chain, if the slot and the last entry are within reach -/
def link? (slots : Array Slot) (r : Region) (mask hash : UInt64) (off : Link) : Option (Array Slot × Region) :=
  if linkable slots r mask hash then some (link slots r mask hash off) else none

/-- the slot array as words, head and tail of each slot in turn -/
def words (slots : Array Slot) : List UInt64 := slots.toList.flatMap fun s => [s.head, s.tail]

def encode (slots : Array Slot) : Bytes := (words slots).flatMap fun w => LittleEndian.encode 8 w.toNat

/-- the slots that a region of memory holds -/
def decode (r : Region) : Array Slot :=
  (Array.range (r.size / slotWidth)).map fun i =>
    ⟨UInt64.ofNat (r.number 8 (slotWidth * i)), UInt64.ofNat (r.number 8 (slotWidth * i + 8))⟩

end Slot

end EquiJoin
