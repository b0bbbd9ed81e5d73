/-
Sizing of a join table. Sizes are 64-bit words. `initialCapacity` counts slots and is rounded up to a power of two;
`maxBytes` bounds the overflow region, which holds keys and payloads; slots are not charged against it. `keySize` pins
every key to one width, which makes sense for composite keys only.
-/
import EquiJoin.Decimal

namespace EquiJoin

structure Config where
  initialCapacity : UInt64 := 1048576
  maxBytes : UInt64 := 268435456
  initialBytes : UInt64 := 1048576
  keySize : Option UInt64 := none
  /-- one half, by default -/
  loadFactor : Binary64 := ⟨0x3fe0000000000000⟩
  deriving DecidableEq, Repr, Inhabited

/-- what is wrong with a configuration -/
inductive ConfigFault where
  | zeroCapacity
  | zeroMaxBytes
  | zeroInitialBytes
  | initialBytesOverBudget (initial budget : UInt64)
  | loadFactorOutOfRange (x : Binary64)
  | zeroKeySize
  /-- the text is no document, or a field of it has the wrong type -/
  | unreadable
  deriving DecidableEq, Repr

def ConfigFault.detail : ConfigFault → String
  | zeroCapacity => "initial_capacity must be greater than zero"
  | zeroMaxBytes => "max_bytes must be greater than zero"
  | zeroInitialBytes => "initial_bytes must be greater than zero"
  | initialBytesOverBudget i b => s!"initial_bytes ({i.toNat}) exceeds max_bytes ({b.toNat})"
  | loadFactorOutOfRange x => s!"load_factor must be in (0, 1], got {x.text}"
  | zeroKeySize => "key_size must be greater than zero when set"
  | unreadable => "failed to parse hash relation config: "

/-- the fault as a table that refuses the configuration quotes it -/
def ConfigFault.report (f : ConfigFault) : String := "Configuration error: " ++ f.detail

namespace Config

/-- a capacity, a byte budget and a key size; the rest by default, the region no larger than its budget -/
def sized (initialCapacity maxBytes : UInt64) (keySize : Option UInt64) : Config :=
  let d : Config := {}
  { d with initialCapacity, maxBytes, keySize, initialBytes := min d.initialBytes maxBytes }

/-- the first fault, fields in order -/
def check (c : Config) : Except ConfigFault Unit :=
  if c.initialCapacity = 0 then .error .zeroCapacity
  else if c.maxBytes = 0 then .error .zeroMaxBytes
  else if c.initialBytes = 0 then .error .zeroInitialBytes
  else if c.maxBytes < c.initialBytes then .error (.initialBytesOverBudget c.initialBytes c.maxBytes)
  else if !c.loadFactor.isProportion then .error (.loadFactorOutOfRange c.loadFactor)
  else if c.keySize = some 0 then .error .zeroKeySize
  else .ok ()

/-- a configuration that the check accepts -/
structure Valid (c : Config) : Prop where
  capacity_ne : c.initialCapacity ≠ 0
  bytes_ne : c.initialBytes ≠ 0
  bytes_le : c.initialBytes ≤ c.maxBytes
  load : c.loadFactor.isProportion = true
  key_ne : c.keySize ≠ some 0

/-- the check accepts exactly the valid configurations -/
theorem check_eq_ok_iff (c : Config) : c.check = .ok () ↔ c.Valid := by
  have budget (h : c.initialBytes ≤ c.maxBytes) (hm : c.maxBytes = 0) : c.initialBytes = 0 := by
    rw [hm] at h
    exact UInt64.le_zero_iff.1 h
  constructor
  · intro h
    constructor <;> grind [check]
  · rintro ⟨h1, h2, h3, h4, h5⟩
    have := budget h3
    grind [check]

end Config

end EquiJoin
