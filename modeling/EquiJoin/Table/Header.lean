/-
The control block of a table: eight 64-bit words, little-endian, 64 bytes in all. It is what a table says about itself
when it is handed over, and `check` is what a receiver asks of it before it looks at anything else.
-/
import EquiJoin.Table.Error
import EquiJoin.Table.Region

namespace EquiJoin

/-- the largest 64-bit word: the end of a chain, the key size of a table whose keys are not pinned, the cap of sums -/
def allOnes : UInt64 := 0xffffffffffffffff

/-- bytes of a slot: a head and a tail word -/
def slotWidth : Nat := 16

/-- the control block, word by word -/
structure Header where
  /-- marks the block as a table's -/
  magic : UInt64
  capacity : UInt64
  maxBytes : UInt64
  /-- bytes of the overflow region that hold entries -/
  cursor : UInt64
  entries : UInt64
  /-- the width that keys are pinned to, or all ones -/
  keySize : UInt64
  slotWidth : UInt64
  /-- how keys were encoded; zero for a table without a relation -/
  tag : UInt64
  deriving DecidableEq, Repr

namespace Header

/-- the bytes `KEELHASH` as a word -/
def theMagic : UInt64 := 0x485341484c45454b

def byteSize : Nat := 64

/-- the control block of an empty table -/
def new (capacity maxBytes : UInt64) (keySize : Option UInt64) : Header :=
  ⟨theMagic, capacity, maxBytes, 0, 0, keySize.getD allOnes, UInt64.ofNat EquiJoin.slotWidth, 0⟩

def keySize? (h : Header) : Option Nat := if h.keySize = allOnes then none else some h.keySize.toNat

/-- the bits of a hash that pick the slot -/
def mask (h : Header) : UInt64 := h.capacity - 1

/-- bytes of the slot array -/
def slotBytes (h : Header) : Nat := EquiJoin.slotWidth * h.capacity.toNat

def isPowerOfTwo (w : UInt64) : Bool := w ≠ 0 && w &&& (w - 1) = 0

/-- what a foreign control block must satisfy before its regions can be trusted -/
def check (h : Header) : Except TableError Unit :=
  if h.magic ≠ theMagic then .error (.layoutMismatch (.magic h.magic.toNat))
  else if h.slotWidth ≠ 16 then .error (.layoutMismatch (.slotWidth h.slotWidth.toNat))
  else if !isPowerOfTwo h.capacity then .error (.layoutMismatch (.capacity h.capacity.toNat))
  else if h.maxBytes < h.cursor then .error (.layoutMismatch (.cursor h.cursor.toNat h.maxBytes.toNat))
  else .ok ()

/-- the eight words in their order -/
def words (h : Header) : List UInt64 :=
  [h.magic, h.capacity, h.maxBytes, h.cursor, h.entries, h.keySize, h.slotWidth, h.tag]

def encode (h : Header) : Bytes := h.words.flatMap fun w => LittleEndian.encode 8 w.toNat

/-- the control block at the start of a region -/
def decode (r : Region) : Header :=
  let word (i : Nat) : UInt64 := UInt64.ofNat (r.number 8 (8 * i))
  ⟨word 0, word 1, word 2, word 3, word 4, word 5, word 6, word 7⟩

@[simp] theorem length_encode (h : Header) : h.encode.length = byteSize := by
  simp [encode, words, byteSize]

end Header

end EquiJoin
