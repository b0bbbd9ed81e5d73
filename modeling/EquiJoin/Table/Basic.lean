/-
The join table: a hash multimap from keys to payloads. A slot array holds the first and the last entry of every chain,
and an overflow region holds the entries one after another in insertion order. A new entry goes to the end of its
chain, so every chain, and with it every run of equal keys, reads back in insertion order.

The table only grows. `insert` first asks whether the entry can be stored at all (`entryBytes`), whether it fits the
byte budget and the load bound (`ensureRoom`), then enlarges the region and the slot array where needed, and only then
writes. `grow` doubles the slot array and relinks the entries in region order, which is insertion order, so no chain
changes its order. Inserting and growing are actions: they keep what they wrote when they stop.

Sizes are naturals here; where a size could leave a 64-bit word, the sum is capped (`cappedAdd`) or the call is refused
(`double`). Two things stop without a refusal: a creation that asks for more than any allocator can give
(`allocatable`), and, under a budget of the whole address space, an insertion whose end leaves the word (`entryEnd`).
Growth need not ask what an allocator can give, because it asks for little more than twice what the table has already:

* `allocatable_of_double`, `allocatable_regionSize`: while the slots and the region take less than 2^62 bytes each, the
  slots and the region that they grow to are allocatable.
-/
import EquiJoin.Action
import EquiJoin.Config
import EquiJoin.Table.Handoff

namespace EquiJoin

/-- a sum of sizes, at most the largest 64-bit word -/
def cappedAdd (a b : Nat) : Nat := min (a + b) ((1 <<< 64) - 1)

/-- a product of sizes, at most the largest 64-bit word -/
def cappedMul (a b : Nat) : Nat := min (a * b) ((1 <<< 64) - 1)

/-- a table that its builder owns -/
structure Table where
  /-- slots -/
  capacity : Nat
  /-- the budget of the overflow region -/
  maxBytes : Nat
  /-- the width that every key has, if keys are pinned to one -/
  keySize : Option Nat
  /-- how keys were encoded -/
  tag : UInt64
  loadFactor : Binary64
  /-- entries inserted so far -/
  count : Nat
  /-- bytes of the region that hold entries -/
  cursor : Nat
  slots : Array Slot
  region : Region
  deriving DecidableEq

namespace Table

/-! ## Creation -/

def emptySlots (capacity : Nat) : Array Slot := Array.replicate capacity Slot.empty

/-- no allocator gives a block of 2^63 bytes or more -/
def allocatable (bytes : Nat) : Bool := bytes < 1 <<< 63

/-- the first power of two that is not below `n`: one bit more than `n - 1` has -/
def powerOfTwoFrom (n : Nat) : Nat := if n ≤ 1 then 1 else 1 <<< ((n - 1).log2 + 1)

theorem isPowerOfTwo_powerOfTwoFrom (n : Nat) : (powerOfTwoFrom n).isPowerOfTwo := by
  unfold powerOfTwoFrom
  split
  · exact Nat.isPowerOfTwo_one
  · exact ⟨_, Nat.one_shiftLeft _⟩

theorem le_powerOfTwoFrom (n : Nat) : n ≤ powerOfTwoFrom n := by
  unfold powerOfTwoFrom
  split
  · assumption
  · have hlt : n - 1 < 2 ^ ((n - 1).log2 + 1) := Nat.lt_log2_self
    rw [Nat.one_shiftLeft]
    omega

/-- an empty table; the capacity is rounded up to a power of two. This is the one place that asks whether an allocator
could give the memory -/
def create (c : Config) : Except (Stop TableError) Table :=
  match c.check with
  | .error f => .error (.refused (.invalidConfig f.report))
  | .ok () =>
    let capacity := powerOfTwoFrom c.initialCapacity.toNat
    let initialBytes := min c.initialBytes.toNat c.maxBytes.toNat
    if 1 <<< 64 ≤ capacity then .error (.refused (.capacityOverflow c.initialCapacity.toNat))
    else if !(allocatable (slotWidth * capacity) && allocatable initialBytes) then .error .fault
    else
      .ok {
        capacity
        maxBytes := c.maxBytes.toNat
        keySize := c.keySize.bind fun k => if k = allOnes then none else some k.toNat
        tag := 0
        loadFactor := c.loadFactor
        count := 0
        cursor := 0
        slots := emptySlots capacity
        region := Region.zeros initialBytes }

/-- mark the table with the encoding of its keys -/
def withTag (t : Table) (tag : UInt64) : Table := { t with tag }

/-! ## Reading -/

/-- the control block -/
def header (t : Table) : Header :=
  { Header.new (UInt64.ofNat t.capacity) (UInt64.ofNat t.maxBytes) (t.keySize.map UInt64.ofNat) with
    cursor := UInt64.ofNat t.cursor
    entries := UInt64.ofNat t.count
    tag := t.tag }

def view (t : Table) : View := ⟨t.header, t.slots, t.region.extract 0 t.cursor⟩

def stats (t : Table) : Stats := ⟨t.capacity, t.count, t.cursor, t.maxBytes⟩

def shown (t : Table) : String :=
  Text.record "RawHashArena" [("capacity", toString t.capacity), ("num_entries", toString t.count),
    ("bytes_used", toString t.cursor), ("region_len", toString t.region.size), ("max_bytes", toString t.maxBytes),
    ("key_size", Text.optional (t.keySize.map toString)), ("key_tag", toString t.tag.toNat)]

/-! ## Admission -/

/-- bytes that an entry takes in the region, or why it can never be stored -/
def entryBytes (t : Table) (keyLength payloadLength : Nat) : Except TableError Nat :=
  match t.keySize.filter (· ≠ keyLength) with
  | some expected => .error (.keySizeMismatch expected keyLength)
  | none =>
    if 1 <<< 32 ≤ keyLength ∨ 1 <<< 32 ≤ payloadLength then
      .error (.entryTooLarge (cappedAdd keyLength payloadLength))
    else .ok (Entry.size keyLength payloadLength)

/-- entries that a slot array of this capacity may serve: the load factor's share of it, one at least -/
def threshold (loadFactor : Binary64) (capacity : Nat) : Nat := max 1 (loadFactor.scaleFloor capacity)

/-- the next capacity; its slot array must have fewer than 2^64 words -/
def double (capacity : Nat) : Except TableError Nat :=
  if capacity * 2 * 2 < 1 <<< 64 then .ok (capacity * 2) else .error (.capacityOverflow capacity)

/-- no machine has a slot array of 2^62 bytes, so none can come to ask for one of twice as many -/
theorem allocatable_of_double {capacity capacity' : Nat} (h : double capacity = .ok capacity')
    (hslots : slotWidth * capacity < 1 <<< 62) : allocatable (slotWidth * capacity') = true := by
  unfold double at h
  split at h
  · cases h
    unfold slotWidth at hslots
    unfold allocatable slotWidth
    rw [decide_eq_true_eq]
    omega
  · cases h

/-- whether doubling leads to a capacity that may serve `wanted` entries -/
def reach (loadFactor : Binary64) (wanted capacity : Nat) : Except TableError Unit :=
  if wanted ≤ threshold loadFactor capacity then .ok ()
  else if _h : 0 < capacity ∧ capacity * 2 * 2 < 1 <<< 64 then reach loadFactor wanted (capacity * 2)
  else .error (.capacityOverflow capacity)
termination_by (1 <<< 64) - capacity

/-- whether `entries` more entries of `bytes` bytes in all can be inserted -/
def ensureRoom (t : Table) (entries bytes : Nat) : Except TableError Unit :=
  let stop := cappedAdd t.cursor bytes
  if t.maxBytes < stop then .error (.capacity stop t.maxBytes)
  else reach t.loadFactor (cappedAdd t.count entries) t.capacity

/-! ## Growth -/

/-- an action on a table -/
abbrev Act (α : Type) := Action TableError Table α

/-- put the entries from `off` on into fresh slots, in region order -/
def relink (mask : UInt64) (used off : Nat) (slots : Array Slot) (r : Region) : Option (Array Slot × Region) :=
  if off < used then
    match Entry.decode? r off with
    | none => none
    | some e =>
      match Slot.link? slots (r.overwrite off (LittleEndian.encode 8 allOnes.toNat)) mask e.hash (UInt64.ofNat off) with
      | none => none
      | some (slots, r) => relink mask used (off + e.encodedSize) slots r
  else some (slots, r)
termination_by used - off
decreasing_by
  have : 24 ≤ e.encodedSize := by simp only [Entry.encodedSize, Entry.size, Entry.alignUp, Entry.headerSize]; omega
  omega

/-- double the slot array and relink every entry. The array may be larger than any that an allocator gives only if the
present one has 2^62 bytes or more (`allocatable_of_double`) -/
def grow : Act Unit := fun t =>
  match double t.capacity with
  | .error e => .error (.refused e) t
  | .ok capacity =>
    match relink (UInt64.ofNat (capacity - 1)) t.cursor 0 (emptySlots capacity) t.region with
    | none => .error .fault t
    | some (slots, region) => .ok () { t with capacity, slots, region }

/-- the length of an enlarged region: twice the old one, at least what is needed, at most the budget -/
def regionSize (t : Table) (needed : Nat) : Nat :=
  min (max needed (min (t.region.size * 2) ((1 <<< 64) - 1))) t.maxBytes

/-- no machine has a region of 2^62 bytes either, and an entry that can be stored at all ends not far behind it -/
theorem allocatable_regionSize {t : Table} {keyLength payloadLength size : Nat}
    (h : t.entryBytes keyLength payloadLength = .ok size) (hcursor : t.cursor ≤ t.region.size)
    (hregion : t.region.size < 1 <<< 62) : allocatable (t.regionSize (t.cursor + size)) = true := by
  have hsize : size < 1 <<< 34 := by
    unfold entryBytes at h
    split at h
    · cases h
    · split at h
      · cases h
      · cases h
        unfold Entry.size Entry.alignUp Entry.headerSize
        omega
  unfold allocatable regionSize
  rw [decide_eq_true_eq]
  omega

/-- have at least `needed` bytes in the region. The new region may be larger than any that an allocator gives only if
the present one has 2^62 bytes or more (`allocatable_regionSize`) -/
def secureRegion (needed : Nat) : Act Unit :=
  modify fun t =>
    if t.region.size < needed then
      { t with region := t.region.extract 0 t.cursor ++ Region.zeros (t.regionSize needed - t.cursor) }
    else t

/-- have a slot array that may serve one more entry; it is doubled at most once -/
def secureSlots : Act Unit := fun t =>
  if threshold t.loadFactor t.capacity < t.count + 1 then grow.run t else .ok () t

/-! ## Insertion -/

/-- write the entry at the cursor and link it -/
def place (hash : UInt64) (key payload : Bytes) (size : Nat) : Act Unit := fun t =>
  let mask := UInt64.ofNat (t.capacity - 1)
  if t.cursor + Entry.bareSize key payload ≤ t.region.size ∧ Slot.linkable t.slots t.region mask hash then
    let written := Entry.write t.region t.cursor hash key payload
    let (slots, region) := Slot.link t.slots written mask hash (UInt64.ofNat t.cursor)
    .ok () { t with slots, region, cursor := t.cursor + size, count := t.count + 1 }
  else .error .fault t

/-- where an entry of this size at the cursor ends; the sum must fit a 64-bit word -/
def entryEnd (size : Nat) : Act Nat := fun t =>
  if t.cursor + size < 1 <<< 64 then .ok (t.cursor + size) t else .error .fault t

/-- store a payload under a key; equal keys are kept, each with its own entry -/
def insert (hash : UInt64) (key payload : Bytes) : Act Unit := do
  let size ← Action.query fun t => t.entryBytes key.length payload.length
  Action.query fun t => t.ensureRoom 1 size
  let needed ← entryEnd size
  secureRegion needed
  secureSlots
  place hash key payload size

/-- store the location of a row under its key -/
def insertLocation (hash : UInt64) (key : Bytes) (l : Location) : Act Unit := insert hash key l.encode

end Table

end EquiJoin
