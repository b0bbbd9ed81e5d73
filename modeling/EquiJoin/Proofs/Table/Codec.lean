/-
Reading and writing a region that is known byte by byte. A region is cut into the bytes before a place, the bytes at
the place and the bytes after it; a write replaces the middle part, a read returns it.

* `toList_overwrite`: a write of as many bytes as the middle part has puts them in its stead;
* `decode?_of_toList`: where the bytes of an entry lie, the entry decodes;
* `decode?_eq`, `tryDecode?_eq`: what either decoder reads is the entry that the header declares, and it is read exactly
  when it lies inside the region; the decoder for foreign memory also asks that 64 bits can name its end;
* `tryDecode?_eq_decode?`: on memory that 64 bits can address, the decoder for foreign memory reads the same entries as
  the one that goes field by field.
-/
import EquiJoin.Table.Chain
import Mathlib.Algebra.GroupWithZero.Nat

namespace EquiJoin

namespace Region

/-- a write replaces the bytes that lie there -/
theorem toList_overwrite {r : Region} {pre old post : Bytes} (bs : Bytes) (h : r.toList = pre ++ old ++ post)
    (hl : old.length = bs.length) : (r.overwrite pre.length bs).toList = pre ++ bs ++ post := by
  have hsize : r.size = pre.length + bs.length + post.length := by
    rw [← Array.length_toList, h]; simp [hl, Nat.add_assoc]
  apply List.ext_getElem?
  intro i
  have hr : r[i]? = (pre ++ old ++ post)[i]? := by rw [← h, Array.getElem?_toList]
  rw [Array.getElem?_toList, getElem?_overwrite, hr]
  simp only [List.append_assoc, List.getElem?_append, hl]
  by_cases h1 : i < pre.length
  · rw [if_neg (by omega), if_pos h1, if_pos h1]
  · by_cases h2 : i - pre.length < bs.length
    · rw [if_pos (by omega), if_neg h1, if_pos h2]
    · rw [if_neg (by omega), if_neg h1, if_neg h2, if_neg h1, if_neg h2]

theorem slice_eq_of_toList {r : Region} {pre bs post : Bytes} (h : r.toList = pre ++ bs ++ post) :
    r.slice pre.length bs.length = bs := by
  simp [slice, Array.toList_extract, h, List.extract_eq_take_drop]

theorem slice?_eq_of_toList {r : Region} (pre : Bytes) {bs post : Bytes} {off n : Nat}
    (h : r.toList = pre ++ (bs ++ post)) (ho : off = pre.length) (hn : n = bs.length) : r.slice? off n = some bs := by
  subst ho hn
  have hsize : r.size = pre.length + bs.length + post.length := by
    rw [← Array.length_toList, h]; simp [Nat.add_assoc]
  rw [← List.append_assoc] at h
  rw [slice?, if_pos (by omega), slice_eq_of_toList h]

theorem number?_eq_of_toList {r : Region} (pre : Bytes) {post : Bytes} {off w n : Nat}
    (h : r.toList = pre ++ (LittleEndian.encode w n ++ post)) (ho : off = pre.length) (hn : n < 1 <<< (8 * w)) :
    r.number? w off = some n := by
  rw [number?, slice?_eq_of_toList pre h ho (LittleEndian.length_encode w n).symm, Option.map_some,
    LittleEndian.decode_encode, Nat.mod_eq_of_lt hn]

end Region

namespace Entry

/-- where the bytes of an entry lie, the entry decodes -/
theorem decode?_of_toList {r : Region} {e : Entry} {pre post : Bytes} (h : r.toList = pre ++ (e.encode ++ post))
    (hk : e.key.length < 2 ^ 32) (hp : e.payload.length < 2 ^ 32) : decode? r pre.length = some e := by
  simp only [encode, List.append_assoc] at h
  have hnext := e.next.toNat_lt
  have hhash := e.hash.toNat_lt
  have h1 : r.number? 8 pre.length = some e.next.toNat := Region.number?_eq_of_toList pre h rfl (by omega)
  have h2 : r.number? 8 (pre.length + 8) = some e.hash.toNat :=
    Region.number?_eq_of_toList (pre ++ LittleEndian.encode 8 e.next.toNat)
      (by simpa only [List.append_assoc] using h) (by simp) (by omega)
  have h3 : r.number? 4 (pre.length + 16) = some e.key.length :=
    Region.number?_eq_of_toList
      (pre ++ LittleEndian.encode 8 e.next.toNat ++ LittleEndian.encode 8 e.hash.toNat)
      (by simpa only [List.append_assoc] using h) (by simp) (by omega)
  have h4 : r.number? 4 (pre.length + 20) = some e.payload.length :=
    Region.number?_eq_of_toList
      (pre ++ LittleEndian.encode 8 e.next.toNat ++ LittleEndian.encode 8 e.hash.toNat ++
        LittleEndian.encode 4 e.key.length)
      (by simpa only [List.append_assoc] using h) (by simp) (by omega)
  have h5 : r.slice? (pre.length + headerSize) e.key.length = some e.key :=
    Region.slice?_eq_of_toList
      (pre ++ LittleEndian.encode 8 e.next.toNat ++ LittleEndian.encode 8 e.hash.toNat ++
        LittleEndian.encode 4 e.key.length ++ LittleEndian.encode 4 e.payload.length)
      (by simpa only [List.append_assoc] using h)
      (by simp only [List.length_append, LittleEndian.length_encode, headerSize]) rfl
  have h6 : r.slice? (pre.length + headerSize + e.key.length) e.payload.length = some e.payload :=
    Region.slice?_eq_of_toList
      (pre ++ LittleEndian.encode 8 e.next.toNat ++ LittleEndian.encode 8 e.hash.toNat ++
        LittleEndian.encode 4 e.key.length ++ LittleEndian.encode 4 e.payload.length ++ e.key)
      (by simpa only [List.append_assoc] using h)
      (by simp only [List.length_append, LittleEndian.length_encode, headerSize]) rfl
  simp [decode?, h1, h2, h3, h4, h5, h6]

/-- where the entry that the header at `off` declares would end -/
def stop (r : Region) (off : Nat) : Nat := off + headerSize + r.number 4 (off + 16) + r.number 4 (off + 20)

/-- the entry that the header at `off` declares -/
def declared (r : Region) (off : Nat) : Entry :=
  ⟨UInt64.ofNat (r.number 8 off), UInt64.ofNat (r.number 8 (off + 8)),
    r.slice (off + headerSize) (r.number 4 (off + 16)),
    r.slice (off + headerSize + r.number 4 (off + 16)) (r.number 4 (off + 20))⟩

/-- an entry is read exactly when all it declares lies inside the region -/
theorem decode?_eq (r : Region) (off : Nat) :
    decode? r off = if stop r off ≤ r.size then some (declared r off) else none := by
  by_cases hh : off + headerSize ≤ r.size
  · unfold headerSize at hh
    rw [decode?, Region.number?_eq_some (by omega), Region.number?_eq_some (by omega),
      Region.number?_eq_some (by omega), Region.number?_eq_some (by omega)]
    by_cases hk : off + headerSize + r.number 4 (off + 16) ≤ r.size
    · by_cases hp : stop r off ≤ r.size
      · have hp' : off + headerSize + r.number 4 (off + 16) + r.number 4 (off + 20) ≤ r.size := hp
        simp [Region.slice?, declared, hk, hp, hp']
      · have hp' : ¬ off + headerSize + r.number 4 (off + 16) + r.number 4 (off + 20) ≤ r.size := hp
        simp [Region.slice?, hk, hp, hp']
    · have hp : ¬ stop r off ≤ r.size := by unfold stop; omega
      simp [Region.slice?, hk, hp]
  · -- the last field of the header is outside already
    have hlast : r.number? 4 (off + 20) = none := Region.number?_eq_none (by unfold headerSize at hh; omega)
    have hp : ¬ stop r off ≤ r.size := by unfold stop; omega
    rw [if_neg hp, decode?, hlast]
    cases r.number? 8 off <;> cases r.number? 8 (off + 8) <;> cases r.number? 4 (off + 16) <;> rfl

theorem checkedAdd_of_lt {a b : Nat} (h : a + b < 2 ^ 64) : checkedAdd a b = some (a + b) := if_pos h

theorem checkedAdd_eq (a b : Nat) : checkedAdd a b = some (a + b) ∨ checkedAdd a b = none := by
  unfold checkedAdd
  split
  · exact Or.inl rfl
  · exact Or.inr rfl

/-- what the decoder for foreign memory reads is inside the region, and ends at a place that 64 bits can name -/
theorem tryDecode?_eq (r : Region) (off : Nat) :
    tryDecode? r off = if stop r off ≤ r.size ∧ stop r off < 2 ^ 64 then some (declared r off) else none := by
  by_cases hword : stop r off < 2 ^ 64
  · have hstart : off + headerSize < 2 ^ 64 := by unfold stop at hword; omega
    have hpayload : off + headerSize + r.number 4 (off + 16) < 2 ^ 64 := by unfold stop at hword; omega
    have hstop : checkedAdd (off + headerSize + r.number 4 (off + 16)) (r.number 4 (off + 20)) = some (stop r off) :=
      checkedAdd_of_lt hword
    rw [tryDecode?, checkedAdd_of_lt hstart]
    simp only [Option.bind_eq_bind, Option.bind_some, checkedAdd_of_lt hpayload, hstop]
    by_cases hp : stop r off ≤ r.size
    · have hs : off + headerSize ≤ r.size := by unfold stop at hp; omega
      rw [if_pos hs, if_pos hp, if_pos ⟨hp, hword⟩]
      rfl
    · have hnot : ¬ (stop r off ≤ r.size ∧ stop r off < 2 ^ 64) := fun h => hp h.1
      rw [if_neg hp, ite_self, if_neg hnot]
  · -- at the latest the sum that ends the entry leaves the word
    have hstop : checkedAdd (off + headerSize + r.number 4 (off + 16)) (r.number 4 (off + 20)) = none := if_neg hword
    rw [if_neg fun h => hword h.2, tryDecode?]
    rcases checkedAdd_eq off headerSize with h₁ | h₁ <;>
      rcases checkedAdd_eq (off + headerSize) (r.number 4 (off + 16)) with h₂ | h₂ <;> simp [h₁, h₂, hstop]

/-- on memory that 64 bits can address the two decoders read the same entries -/
theorem tryDecode?_eq_decode? {r : Region} (hr : r.size < 2 ^ 64) (off : Nat) : tryDecode? r off = decode? r off := by
  rw [tryDecode?_eq, decode?_eq]
  have hword : stop r off ≤ r.size ∧ stop r off < 2 ^ 64 ↔ stop r off ≤ r.size :=
    ⟨And.left, fun h => ⟨h, Nat.lt_of_le_of_lt h hr⟩⟩
  simp only [hword]

end Entry

end EquiJoin
