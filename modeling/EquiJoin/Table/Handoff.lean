/-
Handing a built table over without copying it. The owner tells the receiver where three regions of memory lie: the
control block, the slot array and the used part of the overflow region, in this order. The receiver gets only addresses,
sizes and whatever bytes lie there, and must decide from these whether it looks at a table.

Of an address only two facts matter, whether it is null and whether it is a multiple of eight, so where an owner's
regions lie is left open: a `Placement` is any choice of the allocator.

`attach` checks the number of handles, then the control block, then the slot array, then the overflow region, and
refuses at the first fault. A control block that passes may still name a capacity whose slot array has more bytes than
a 64-bit word can count; there the call stops without a refusal.
-/
import EquiJoin.Action
import EquiJoin.Table.View

namespace EquiJoin

/-- a region of memory and where it lies -/
structure Extent where
  address : Nat
  bytes : Region

namespace Extent

def size (e : Extent) : Nat := e.bytes.size

def isNull (e : Extent) : Bool := e.address = 0

/-- words can be read in place only from a multiple of eight -/
def isAligned (e : Extent) : Bool := e.address % 8 = 0

/-- a handle that points nowhere -/
def null : Extent := ⟨0, Region.zeros 0⟩

end Extent

/-- where the three regions of a table lie -/
structure Placement where
  control : Nat
  slots : Nat
  overflow : Nat
  deriving DecidableEq, Repr

/-- what every allocator grants: no region at the null address, words at multiples of eight -/
structure Placement.Sound (p : Placement) : Prop where
  control_pos : 0 < p.control
  slots_pos : 0 < p.slots
  overflow_pos : 0 < p.overflow
  control_aligned : p.control % 8 = 0
  slots_aligned : p.slots % 8 = 0

namespace View

/-- the three regions of a table, as they are handed over -/
def extents (v : View) (p : Placement) : List Extent :=
  [⟨p.control, v.header.encode.toArray⟩, ⟨p.slots, (Slot.encode v.slots).toArray⟩, ⟨p.overflow, v.bytes⟩]

/-- sizes of the three regions -/
def sizes (v : View) : List Nat := [Header.byteSize, slotWidth * v.slots.size, v.bytes.size]

/-- the receiver's side of the control block -/
def readHeader (control : Extent) : Except TableError Header :=
  if control.size ≠ Header.byteSize then .error (.layoutMismatch (.controlSize control.size))
  else if !control.isAligned then .error (.layoutMismatch .controlAlignment)
  else
    let header := Header.decode control.bytes
    match header.check with
    | .error e => .error e
    | .ok () => .ok header

/-- the receiver's side of the slot array -/
def readSlots (header : Header) (slots : Extent) : Except (Stop TableError) (Array Slot) :=
  if 1 <<< 64 ≤ header.slotBytes then .error .fault
  else if slots.size ≠ header.slotBytes then
    .error (.refused (.layoutMismatch (.slotsSize slots.size header.capacity.toNat header.slotBytes)))
  else if !slots.isAligned then .error (.refused (.layoutMismatch .slotsAlignment))
  else .ok (Slot.decode slots.bytes)

/-- the receiver's side of the overflow region; an empty one may lie anywhere -/
def readOverflow (header : Header) (overflow : Extent) : Except TableError Region :=
  if overflow.size ≠ header.cursor.toNat then
    .error (.layoutMismatch (.overflowSize overflow.size header.cursor.toNat))
  else if overflow.size ≠ 0 && overflow.isNull then .error (.invalidHandles .nullOverflow)
  else .ok overflow.bytes

/-- the table behind three handles -/
def attach : List Extent → Except (Stop TableError) View
  | [control, slots, overflow] =>
    if control.isNull || slots.isNull then .error (.refused (.invalidHandles .nullControl))
    else do
      let header ← (readHeader control).mapError .refused
      let slots ← readSlots header slots
      let bytes ← (readOverflow header overflow).mapError .refused
      return ⟨header, slots, bytes⟩
  | handles => .error (.refused (.invalidHandles (.count handles.length)))

end View

end EquiJoin
