/-
What a join table can refuse, and the wording of each refusal. Memory that another builder hands over is refused for one
of two families of reasons: the handles themselves are unusable, or what they point at is no table of this layout.
-/
import EquiJoin.Text.Record

namespace EquiJoin

/-- unusable handles -/
inductive HandleFault where
  | count (n : Nat)
  | nullControl
  | nullOverflow
  /-- a fault that a caller words itself -/
  | other (text : String)
  deriving DecidableEq, Repr

def HandleFault.detail : HandleFault → String
  | count n => s!"expected 3 handles, got {n}"
  | nullControl => "control block and slot array addresses must be non-null"
  | nullOverflow => "overflow region address must be non-null"
  | other text => text

/-- memory that holds no table of this layout -/
inductive LayoutFault where
  | controlSize (size : Nat)
  | controlAlignment
  | magic (word : Nat)
  | slotWidth (width : Nat)
  | capacity (capacity : Nat)
  | cursor (cursor budget : Nat)
  | slotsSize (size capacity needed : Nat)
  | slotsAlignment
  | overflowSize (size cursor : Nat)
  /-- a fault that a caller words itself -/
  | other (text : String)
  deriving DecidableEq, Repr

def LayoutFault.detail : LayoutFault → String
  | controlSize n => s!"control block is {n} bytes (expected 64)"
  | controlAlignment => "control block: TargetAlignmentGreaterAndInputNotAligned"
  | magic w => "bad magic 0x" ++ Text.paddedHex 16 w
  | slotWidth w => s!"slot width {w} (expected 16)"
  | capacity c => s!"capacity {c} is not a power of two"
  | cursor c b => s!"cursor {c} beyond byte budget {b}"
  | slotsSize n c k => s!"slot array is {n} bytes but capacity {c} needs {k}"
  | slotsAlignment => "slot array: TargetAlignmentGreaterAndInputNotAligned"
  | overflowSize n c => s!"overflow region is {n} bytes but the cursor is at {c}"
  | other text => text

/-- why a table refuses a call -/
inductive TableError where
  | capacity (requested budget : Nat)
  | capacityOverflow (capacity : Nat)
  | entryTooLarge (size : Nat)
  | keySizeMismatch (expected actual : Nat)
  | invalidHandles (why : HandleFault)
  | layoutMismatch (why : LayoutFault)
  /-- the configuration was refused, in the words of its own check -/
  | invalidConfig (report : String)
  deriving DecidableEq, Repr

namespace TableError

def name : TableError → String
  | capacity .. => "Capacity"
  | capacityOverflow .. => "CapacityOverflow"
  | entryTooLarge .. => "EntryTooLarge"
  | keySizeMismatch .. => "KeySizeMismatch"
  | invalidHandles .. => "InvalidHandles"
  | layoutMismatch .. => "LayoutMismatch"
  | invalidConfig .. => "InvalidConfig"

def message : TableError → String
  | capacity n b => s!"overflow region exhausted: {n} bytes needed, budget is {b} bytes"
  | capacityOverflow c => s!"slot array of {c} slots cannot grow further"
  | entryTooLarge n => s!"entry of {n} bytes does not fit the entry header fields"
  | keySizeMismatch e a => s!"key is {a} bytes but the arena is fixed to {e}-byte keys"
  | invalidHandles why => "invalid arena handles: " ++ why.detail
  | layoutMismatch why => "arena layout mismatch: " ++ why.detail
  | invalidConfig report => "invalid arena configuration: " ++ report

end TableError

end EquiJoin
