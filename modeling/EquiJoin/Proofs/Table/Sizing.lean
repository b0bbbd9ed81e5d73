/-
How large a slot array may be. A capacity is a power of two, and its slots are counted in words, two for each of them,
so the last capacity whose words a 64-bit number can count is 2^62. Growth looks ahead: a doubling that would lead
beyond is refused. Creation looks back only: a first capacity is refused once it is no 64-bit number itself. Between
the two lies one capacity, 2^63, that growth refuses to reach and that creation accepts and then stops at.

* `isLeast_powerOfTwoFrom`: the first capacity is the least power of two that is large enough;
* `create_cases`: the three outcomes of a creation from a valid configuration;
* `counted_of_holds`: in every table that holds a log the words of the slots can be counted, and there are two for each;
* `slots_counted`: what creation and every run after it make of the slot array;
* `create_stops`: the capacity between the two guards.
-/
import EquiJoin.Proofs.Table.Attach
import Mathlib.Order.Bounds.Defs

namespace EquiJoin

/-! ## Rounding up -/

/-- of two powers of two, the larger is at least twice the smaller -/
theorem double_le_of_lt {p q : Nat} (hp : p.isPowerOfTwo) (hq : q.isPowerOfTwo) (h : p < q) : p * 2 ≤ q := by
  obtain ⟨a, rfl⟩ := hp
  obtain ⟨b, rfl⟩ := hq
  have hab : a < b := (Nat.pow_lt_pow_iff_right (by decide)).1 h
  calc 2 ^ a * 2 = 2 ^ (a + 1) := (Nat.pow_succ 2 a).symm
    _ ≤ 2 ^ b := Nat.pow_le_pow_right (by decide) hab

namespace Table

variable {t : Table} {log : List Record} {c : Config}

/-- a power of two from `n` on is more than `n - 1`, hence at least twice the highest power of two in it -/
theorem isLeast_powerOfTwoFrom (n : Nat) : IsLeast {p : Nat | p.isPowerOfTwo ∧ n ≤ p} (powerOfTwoFrom n) := by
  refine ⟨⟨isPowerOfTwo_powerOfTwoFrom n, le_powerOfTwoFrom n⟩, ?_⟩
  rintro p ⟨hp, hn⟩
  unfold powerOfTwoFrom
  split_ifs with hone
  · exact Nat.pos_of_isPowerOfTwo hp
  · have hbit : 2 ^ (n - 1).log2 ≤ n - 1 := Nat.log2_self_le (by omega)
    rw [Nat.one_shiftLeft, Nat.pow_succ]
    exact double_le_of_lt ⟨_, rfl⟩ hp (by omega)

/-! ## The two guards -/

/-- the capacity that a configuration asks for -/
def firstCapacity (c : Config) : Nat := powerOfTwoFrom c.initialCapacity.toNat

theorem firstCapacity_isPowerOfTwo (c : Config) : (firstCapacity c).isPowerOfTwo := isPowerOfTwo_powerOfTwoFrom _

/-- growth refuses a doubling exactly if the words of the doubled slot array could not be counted -/
theorem double_eq_error_iff {capacity : Nat} {e : TableError} :
    double capacity = .error e ↔ 2 ^ 64 ≤ 2 * (2 * capacity) ∧ e = .capacityOverflow capacity := by
  rw [double]
  split_ifs with hroom
  · simp only [false_iff, not_and]
    omega
  · simp only [Except.error.injEq]
    exact ⟨fun he => ⟨by omega, he.symm⟩, fun h => h.2.symm⟩

/-- a valid configuration is refused for its capacity, stops for want of memory, or makes a table of this capacity -/
theorem create_cases (hc : c.Valid) :
    (2 ^ 64 ≤ firstCapacity c ∧ create c = .error (.refused (.capacityOverflow c.initialCapacity.toNat))) ∨
      (firstCapacity c < 2 ^ 64 ∧ (2 ^ 59 ≤ firstCapacity c ∨ 2 ^ 63 ≤ c.initialBytes.toNat) ∧
        create c = .error .fault) ∨
      (firstCapacity c < 2 ^ 59 ∧ c.initialBytes.toNat < 2 ^ 63 ∧
        ∃ t, create c = .ok t ∧ t.capacity = firstCapacity c) := by
  have hcheck := (Config.check_eq_ok_iff c).2 hc
  have hbytes : min c.initialBytes.toNat c.maxBytes.toNat = c.initialBytes.toNat :=
    Nat.min_eq_left (UInt64.le_iff_toNat_le.1 hc.bytes_le)
  have hcapacity : powerOfTwoFrom c.initialCapacity.toNat = firstCapacity c := rfl
  have hgiven : (allocatable (slotWidth * firstCapacity c) && allocatable c.initialBytes.toNat) = true ↔
      firstCapacity c < 2 ^ 59 ∧ c.initialBytes.toNat < 2 ^ 63 := by
    rw [Bool.and_eq_true, allocatable, allocatable, decide_eq_true_eq, decide_eq_true_eq, slotWidth]
    omega
  simp only [create, hcheck, hbytes, hcapacity]
  split_ifs with hover hmemory
  · exact Or.inl ⟨hover, rfl⟩
  · refine Or.inr (Or.inl ⟨Nat.lt_of_not_le hover, ?_, rfl⟩)
    have hnot : ¬ (firstCapacity c < 2 ^ 59 ∧ c.initialBytes.toNat < 2 ^ 63) := fun h => by
      rw [hgiven.2 h] at hmemory
      cases hmemory
    omega
  · rw [Bool.not_eq_true', Bool.not_eq_false] at hmemory
    obtain ⟨hslots, hregion⟩ := hgiven.1 hmemory
    exact Or.inr (Or.inr ⟨hslots, hregion, _, rfl, rfl⟩)

/-- a valid configuration is refused exactly if its first capacity is no 64-bit number -/
theorem create_eq_refused_iff (hc : c.Valid) {e : TableError} : create c = .error (.refused e) ↔
    2 ^ 64 ≤ firstCapacity c ∧ e = .capacityOverflow c.initialCapacity.toNat := by
  rcases create_cases hc with ⟨hcapacity, hrun⟩ | ⟨hcapacity, -, hrun⟩ | ⟨hcapacity, -, t, hrun, -⟩
  · rw [hrun, Except.error.injEq, Stop.refused.injEq]
    exact ⟨fun he => ⟨hcapacity, he.symm⟩, fun h => h.2.symm⟩
  · simp only [hrun, Except.error.injEq, reduceCtorEq, false_iff, not_and]
    exact fun h => absurd h (Nat.not_le_of_lt hcapacity)
  · simp only [hrun, reduceCtorEq, false_iff, not_and]
    omega

/-- it stops the creation exactly if no allocator could give the slots or the first region -/
theorem create_eq_fault_iff (hc : c.Valid) : create c = .error .fault ↔
    firstCapacity c < 2 ^ 64 ∧ (2 ^ 59 ≤ firstCapacity c ∨ 2 ^ 63 ≤ c.initialBytes.toNat) := by
  rcases create_cases hc with ⟨hcapacity, hrun⟩ | ⟨hcapacity, hmemory, hrun⟩ | ⟨hcapacity, hbytes, t, hrun, -⟩
  · simp only [hrun, Except.error.injEq, reduceCtorEq, false_iff, not_and]
    omega
  · exact ⟨fun _ => ⟨hcapacity, hmemory⟩, fun _ => hrun⟩
  · simp only [hrun, reduceCtorEq, false_iff, not_and]
    omega

theorem capacity_of_create (hc : c.Valid) (ht : create c = .ok t) : t.capacity = firstCapacity c := by
  rcases create_cases hc with ⟨-, hrun⟩ | ⟨-, -, hrun⟩ | ⟨-, -, t', hrun, hcapacity⟩
  · cases hrun.symm.trans ht
  · cases hrun.symm.trans ht
  · cases hrun.symm.trans ht
    exact hcapacity

/-- of the capacities that growth refuses to reach, the creation refuses all but one -/
theorem refused_iff_of_double (hc : c.Valid) {half : Nat} {e : TableError} (hhalf : firstCapacity c = 2 * half)
    (hdouble : double half = .error e) : (∃ e, create c = .error (.refused e)) ↔ firstCapacity c ≠ 2 ^ 63 := by
  -- growth refuses from 2^63 on, and the power of two behind that is 2^64
  have hlarge : 2 ^ 63 ≤ firstCapacity c := by
    have := (double_eq_error_iff.1 hdouble).1
    omega
  constructor
  · rintro ⟨e, hcreate⟩ heq
    have := ((create_eq_refused_iff hc).1 hcreate).1
    omega
  · intro hne
    have hnext : 2 ^ 63 * 2 ≤ firstCapacity c :=
      double_le_of_lt ⟨63, rfl⟩ (firstCapacity_isPowerOfTwo c) (Nat.lt_of_le_of_ne hlarge (Ne.symm hne))
    exact ⟨_, (create_eq_refused_iff hc).2 ⟨hnext, rfl⟩⟩

/-! ## Every state -/

/-- the words of the slot array can be counted, and there are two of them for each slot -/
structure Counted (t : Table) : Prop where
  capacity : t.capacity.isPowerOfTwo
  words_lt : 2 * t.capacity < 2 ^ 64
  length_words : (Slot.words t.slots).length = 2 * t.capacity

theorem counted_of_holds (h : t.Holds log) : t.Counted where
  capacity := h.capacity_pow
  words_lt := by
    have := h.capacity_lt
    omega
  length_words := by rw [Slot.length_words, h.slots, size_slotArray]

/-- **How large a slot array gets.** From a valid configuration the first capacity is the least power of two that is
large enough. It is refused exactly if it is no 64-bit number; it stops the creation, without a refusal, if no allocator
could give the slots or the first region, the one capacity among them whose words cannot be counted, 2^63; and otherwise
there is a table of this capacity. So a first capacity that growth would refuse to reach is refused by the creation too,
but for this one. In the table and in whatever any calls make of it (asking for room makes nothing of it), the words of
the slots can be counted, there are two of them for each slot, and the capacity is a power of two. -/
theorem slots_counted (hc : c.Valid) :
    IsLeast {p : Nat | p.isPowerOfTwo ∧ c.initialCapacity.toNat ≤ p} (firstCapacity c) ∧
      (∀ e, create c = .error (.refused e) ↔
        2 ^ 64 ≤ firstCapacity c ∧ e = .capacityOverflow c.initialCapacity.toNat) ∧
      (create c = .error .fault ↔
        firstCapacity c < 2 ^ 64 ∧ (2 ^ 59 ≤ firstCapacity c ∨ 2 ^ 63 ≤ c.initialBytes.toNat)) ∧
      (∀ half e, firstCapacity c = 2 * half → double half = .error e →
        ((∃ e, create c = .error (.refused e)) ↔ firstCapacity c ≠ 2 ^ 63)) ∧
      ∀ t, create c = .ok t → t.capacity = firstCapacity c ∧ ∀ calls, (run t calls).Counted := by
  refine ⟨isLeast_powerOfTwoFrom _, fun e => create_eq_refused_iff hc, create_eq_fault_iff hc, ?_, ?_⟩
  · intro half e hhalf hdouble
    exact refused_iff_of_double hc hhalf hdouble
  · intro t ht
    exact ⟨capacity_of_create hc ht, fun calls => counted_of_holds (run_holds (create_holds ht) calls)⟩

/-- as many slots as there are numbers below 2^63 -/
def vastConfig : Config := { initialCapacity := 0x8000000000000000, maxBytes := 4096, initialBytes := 64 }

/-- the configuration is valid and its capacity a power of two that growth refuses to reach, but the creation does not
refuse it: it stops -/
theorem create_stops :
    vastConfig.check = .ok () ∧ double (2 ^ 62) = .error (.capacityOverflow (2 ^ 62)) ∧
      vastConfig.initialCapacity.toNat = 2 * 2 ^ 62 ∧ create vastConfig = .error .fault := by
  decide +kernel

/-- an entry, a growth and another entry -/
def growing : List Call := [.insert 4 [1] [7], .grow, .insert 4 [2] [8]]

/-- two slots that become four, a capacity between the guards, and one beyond both -/
theorem slots_counted_small :
    smallTable.capacity = firstCapacity smallConfig ∧ firstCapacity smallConfig = 2 ∧
      (run smallTable growing).Counted ∧ (run smallTable growing).capacity = 4 ∧
      (¬ ∃ e, create vastConfig = .error (.refused e)) ∧
      create { vastConfig with initialCapacity := 0x8000000000000001 } =
        .error (.refused (.capacityOverflow 0x8000000000000001)) := by
  have hsmall : smallConfig.Valid := (Config.check_eq_ok_iff _).1 (by decide +kernel)
  have hvast : vastConfig.Valid := (Config.check_eq_ok_iff _).1 (by decide +kernel)
  have hbeyond : { vastConfig with initialCapacity := 0x8000000000000001 : Config }.Valid :=
    (Config.check_eq_ok_iff _).1 (by decide +kernel)
  have hcapacity : firstCapacity vastConfig = 2 * 2 ^ 62 := by decide +kernel
  obtain ⟨-, -, -, -, hcounted⟩ := slots_counted hsmall
  obtain ⟨-, -, -, hguards, -⟩ := slots_counted hvast
  obtain ⟨-, hrefused, -⟩ := slots_counted hbeyond
  have hcreate : create smallConfig = .ok smallTable := by decide +kernel
  refine ⟨(hcounted smallTable hcreate).1, by decide +kernel, (hcounted smallTable hcreate).2 growing,
    by decide +kernel, ?_, ?_⟩
  · rw [hguards (2 ^ 62) (.capacityOverflow (2 ^ 62)) hcapacity (by decide +kernel), hcapacity]
    decide
  · exact (hrefused _).2 ⟨by decide +kernel, rfl⟩

end Table

end EquiJoin
