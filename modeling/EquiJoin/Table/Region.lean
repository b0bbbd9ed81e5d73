/-
Byte memory. A region is an array of bytes; it is read in slices and overwritten in place. `slice?` and `overwrite?` are
the checked forms: an access that is not inside the region has no result.

* `getElem?_overwrite`: a write changes the bytes it covers and no other;
* `slice?_overwrite_self`, `slice?_overwrite_of_disjoint`: a slice reads what was last written there, and a write beside
  it leaves it alone.
-/
import EquiJoin.LittleEndian

namespace EquiJoin

/-- a block of memory, byte by byte -/
abbrev Region := Array UInt8

namespace Region

/-- `n` bytes from `off` on, fewer at the end of the region -/
def slice (r : Region) (off n : Nat) : Bytes := (r.extract off (off + n)).toList

/-- `n` bytes from `off` on, if all of them are inside -/
def slice? (r : Region) (off n : Nat) : Option Bytes :=
  if off + n ≤ r.size then some (r.slice off n) else none

/-- put a string over the bytes from `off` on; what would lie outside is dropped -/
def overwrite (r : Region) (off : Nat) : Bytes → Region
  | [] => r
  | b :: bs => overwrite (r.setIfInBounds off b) (off + 1) bs

/-- put a string over the bytes from `off` on, if all of it fits -/
def overwrite? (r : Region) (off : Nat) (bs : Bytes) : Option Region :=
  if off + bs.length ≤ r.size then some (r.overwrite off bs) else none

/-- a little-endian number of `w` bytes -/
def number (r : Region) (w off : Nat) : Nat := LittleEndian.decode (r.slice off w)

/-- a little-endian number of `w` bytes, if they are inside -/
def number? (r : Region) (w off : Nat) : Option Nat := (r.slice? off w).map LittleEndian.decode

def zeros (n : Nat) : Region := Array.replicate n 0

/-- the first `n` bytes, zeros where the region ends before -/
def resize (r : Region) (n : Nat) : Region := r.extract 0 n ++ zeros (n - r.size)

@[simp] theorem size_overwrite (r : Region) (off : Nat) (bs : Bytes) : (r.overwrite off bs).size = r.size := by
  induction bs generalizing r off with
  | nil => rfl
  | cons b bs ih => simp [overwrite, ih]

theorem getElem?_overwrite (r : Region) (off : Nat) (bs : Bytes) (i : Nat) :
    (r.overwrite off bs)[i]? =
      if off ≤ i ∧ i < off + bs.length ∧ i < r.size then bs[i - off]? else r[i]? := by
  induction bs generalizing r off with
  | nil =>
    rw [if_neg (by simp only [List.length_nil]; omega)]
    rfl
  | cons b bs ih =>
    rw [overwrite, ih, Array.getElem?_setIfInBounds]
    simp only [Array.size_setIfInBounds, List.length_cons]
    by_cases h : off = i
    · subst h
      rw [if_neg (by omega), if_pos rfl]
      by_cases hs : off < r.size
      · rw [if_pos hs, if_pos (by omega), Nat.sub_self, List.getElem?_cons_zero]
      · rw [if_neg hs, if_neg (by omega), Array.getElem?_eq_none (by omega)]
    · by_cases hi : off + 1 ≤ i ∧ i < off + 1 + bs.length ∧ i < r.size
      · rw [if_pos hi, if_pos (by omega), show i - off = i - (off + 1) + 1 by omega, List.getElem?_cons_succ]
      · rw [if_neg hi, if_neg h, if_neg (by omega)]

theorem getElem?_slice (r : Region) (off n i : Nat) :
    (r.slice off n)[i]? = if i < n then r[off + i]? else none := by
  simp only [slice, Array.getElem?_toList, Array.getElem?_extract]
  by_cases h : i < n
  · by_cases hs : off + i < r.size
    · rw [if_pos (by omega), if_pos h]
    · rw [if_pos h, Array.getElem?_eq_none (by omega)]
      split <;> rfl
  · rw [if_neg (by omega), if_neg h]

theorem slice?_of_le {r : Region} {off n : Nat} (h : off + n ≤ r.size) : r.slice? off n = some (r.slice off n) :=
  if_pos h

theorem number?_eq_some {r : Region} {w off : Nat} (h : off + w ≤ r.size) :
    r.number? w off = some (r.number w off) := by
  rw [number?, slice?, if_pos h]; rfl

theorem number?_eq_none {r : Region} {w off : Nat} (h : r.size < off + w) : r.number? w off = none := by
  rw [number?, slice?, if_neg (by omega)]; rfl

theorem slice?_eq_some {r : Region} {off n : Nat} {bs : Bytes} (h : r.slice? off n = some bs) :
    off + n ≤ r.size ∧ bs.length = n ∧ ∀ i, i < n → bs[i]? = r[off + i]? := by
  unfold slice? at h
  split at h
  · next hn =>
    cases h
    refine ⟨hn, ?_, fun i hi => ?_⟩
    · simp only [slice, Array.length_toList, Array.size_extract]
      omega
    · rw [getElem?_slice, if_pos hi]
  · cases h

theorem slice?_overwrite_self {r : Region} {off : Nat} {bs : Bytes} (h : off + bs.length ≤ r.size) :
    (r.overwrite off bs).slice? off bs.length = some bs := by
  rw [slice?, if_pos (by simpa using h)]
  congr 1
  apply List.ext_getElem?
  intro i
  rw [getElem?_slice, getElem?_overwrite]
  by_cases hi : i < bs.length
  · rw [if_pos hi, if_pos (by omega), Nat.add_sub_cancel_left]
  · rw [if_neg hi, List.getElem?_eq_none (by omega)]

theorem slice?_overwrite_of_disjoint {r : Region} {off place n : Nat} {bs : Bytes}
    (h : place + n ≤ off ∨ off + bs.length ≤ place) : (r.overwrite off bs).slice? place n = r.slice? place n := by
  unfold slice?
  rw [size_overwrite]
  by_cases hs : place + n ≤ r.size
  · rw [if_pos hs, if_pos hs]
    congr 1
    apply List.ext_getElem?
    intro i
    rw [getElem?_slice, getElem?_slice]
    by_cases hi : i < n
    · rw [if_pos hi, if_pos hi, getElem?_overwrite, if_neg (by omega)]
    · rw [if_neg hi, if_neg hi]
  · rw [if_neg hs, if_neg hs]

end Region

end EquiJoin
