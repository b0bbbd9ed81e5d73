/-
How far a slot array can grow. The load bound of a capacity (`Table.threshold`) only rises when the capacity doubles, so
a number of entries that some doubling can serve is served by every later one.

* `reach_mono`: what can be reached for many entries can be reached for fewer;
* `reach_double`: if a capacity serves too few entries although enough can be reached, it can be doubled, and enough
  can still be reached from there;
* `ensureRoom_first`, `ensureRoom_rest`: room for a batch is room for its first entry, and once that is stored, room for
  the rest.
-/
import EquiJoin.Table.Basic
import Mathlib.Algebra.GroupWithZero.Nat
import Mathlib.Tactic.Common

namespace EquiJoin.Table

variable {lf : Binary64} {wanted capacity : Nat}

theorem reach_of_le (h : wanted ≤ threshold lf capacity) : reach lf wanted capacity = .ok () := by
  rw [reach, if_pos h]

theorem reach_mono {fewer : Nat} (hw : fewer ≤ wanted) (h : reach lf wanted capacity = .ok ()) :
    reach lf fewer capacity = .ok () := by
  fun_induction reach lf wanted capacity with
  | case1 capacity hle => exact reach_of_le (Nat.le_trans hw hle)
  | case2 capacity hle hroom ih =>
    by_cases hf : fewer ≤ threshold lf capacity
    · exact reach_of_le hf
    · rw [reach, if_neg hf, dif_pos hroom]
      exact ih h
  | case3 capacity hle hroom => cases h

theorem reach_double (hw : threshold lf capacity < wanted) (h : reach lf wanted capacity = .ok ()) :
    double capacity = .ok (capacity * 2) ∧ reach lf wanted (capacity * 2) = .ok () := by
  rw [reach, if_neg (Nat.not_le_of_lt hw)] at h
  by_cases hroom : 0 < capacity ∧ capacity * 2 * 2 < 1 <<< 64
  · rw [dif_pos hroom] at h
    exact ⟨if_pos hroom.2, h⟩
  · rw [dif_neg hroom] at h
    cases h

theorem double_eq_ok {next : Nat} (h : double capacity = .ok next) : next = capacity * 2 ∧ next < 2 ^ 63 := by
  unfold double at h
  split at h
  · cases h; exact ⟨rfl, by omega⟩
  · cases h

theorem ensureRoom_eq_ok_iff {t : Table} {entries bytes : Nat} :
    t.ensureRoom entries bytes = .ok () ↔
      cappedAdd t.cursor bytes ≤ t.maxBytes ∧ reach t.loadFactor (cappedAdd t.count entries) t.capacity = .ok () := by
  by_cases h : t.maxBytes < cappedAdd t.cursor bytes
  · rw [ensureRoom]
    simp only [if_pos h, reduceCtorEq, false_iff]
    exact fun hb => absurd hb.1 (Nat.not_le_of_lt h)
  · rw [ensureRoom]
    simp only [if_neg h]
    exact ⟨fun hr => ⟨Nat.le_of_not_lt h, hr⟩, And.right⟩

/-! ## Room for several entries -/

/-- the capacity that an insertion leaves behind -/
def capacityFor (t : Table) : Nat :=
  if threshold t.loadFactor t.capacity < t.count + 1 then t.capacity * 2 else t.capacity

theorem cappedAdd_capped (a b c : Nat) : cappedAdd a (cappedAdd b c) = cappedAdd (a + b) c := by
  unfold cappedAdd
  omega

theorem cappedAdd_succ (a b : Nat) : cappedAdd (a + 1) b = cappedAdd a (b + 1) :=
  congrArg (min · (2 ^ 64 - 1)) (Nat.add_right_comm a 1 b)

/-- room for a batch is room for its first entry -/
theorem ensureRoom_first {t : Table} {entries size bytes : Nat}
    (h : t.ensureRoom (entries + 1) (cappedAdd size bytes) = .ok ()) : t.ensureRoom 1 size = .ok () := by
  obtain ⟨hbytes, hreach⟩ := ensureRoom_eq_ok_iff.1 h
  refine ensureRoom_eq_ok_iff.2 ⟨?_, reach_mono ?_ hreach⟩
  · unfold cappedAdd at *
    omega
  · unfold cappedAdd
    omega

/-- once the first entry of a batch is stored, there is room for the rest -/
theorem ensureRoom_rest {t t' : Table} {entries size bytes : Nat}
    (h : t.ensureRoom (entries + 1) (cappedAdd size bytes) = .ok ()) (hcount : t.count + 1 < 2 ^ 64)
    (hmax : t'.maxBytes = t.maxBytes) (hload : t'.loadFactor = t.loadFactor) (hcursor : t'.cursor = t.cursor + size)
    (hnext : t'.count = t.count + 1) (hcap : t'.capacity = t.capacityFor) : t'.ensureRoom entries bytes = .ok () := by
  obtain ⟨hbytes, hreach⟩ := ensureRoom_eq_ok_iff.1 h
  refine ensureRoom_eq_ok_iff.2 ⟨?_, ?_⟩
  · rw [hmax, hcursor, ← cappedAdd_capped]
    exact hbytes
  · rw [hload, hnext, cappedAdd_succ, hcap, capacityFor]
    split_ifs with hfull
    · exact (reach_double (Nat.lt_min.2 ⟨by omega, by omega⟩) hreach).2
    · exact hreach

end EquiJoin.Table
