/-
The entry codec. An entry is read where its header, its key and its payload lie inside the region, and reading and
writing undo each other: what was written is read back, and the bytes of an entry that is read are those that the entry
is written with. A write touches no other byte, the padding behind the entry included.

* `decode?_eq_some_iff`: an entry is read exactly when it lies at its place;
* `tryDecode?_eq_some_iff`: the decoder for foreign memory reads the same entries, where 64 bits can name their ends;
* `Within.slice_eq`: the bytes of an entry that is read are those that it is written with;
* `wrote_of_fits`: what a write leaves behind;
* `entry_round_trips`: all of it, for every region and every place.
-/
import EquiJoin.Proofs.Table.Foreign

namespace EquiJoin

namespace Region

/-- two slices, the second where the first ends, are one -/
theorem slice_append (r : Region) (off m n : Nat) : r.slice off m ++ r.slice (off + m) n = r.slice off (m + n) := by
  simp only [slice]
  rw [← Array.toList_append, Array.extract_append_extract]
  congr 2 <;> omega

/-- writing back the number that was read gives the bytes that lie there -/
theorem encode_number {r : Region} {w off : Nat} (h : off + w ≤ r.size) :
    LittleEndian.encode w (r.number w off) = r.slice off w := by
  have hback := LittleEndian.encode_decode (r.slice off w)
  rwa [Entry.length_slice h] at hback

/-- bytes outside the range of a write stay as they are -/
theorem getElem?_overwrite_of_outside {r : Region} {off i : Nat} {bs : Bytes} (h : i < off ∨ off + bs.length ≤ i) :
    (r.overwrite off bs)[i]? = r[i]? := by
  rw [getElem?_overwrite, if_neg (by omega)]

end Region

namespace Entry

variable {r r' : Region} {off : Nat} {e : Entry}

/-! ## Sizes -/

/-- what an entry takes up is the least multiple of eight that covers its bytes, and 64 bits hold it -/
structure Padded (e : Entry) : Prop where
  aligned : 8 ∣ e.encodedSize
  covers : bareSize e.key e.payload ≤ e.encodedSize
  least : e.encodedSize < bareSize e.key e.payload + 8
  word : size? e.key.length e.payload.length = some e.encodedSize

theorem dvd_alignUp (n : Nat) : 8 ∣ alignUp n := Nat.dvd_mul_left 8 _

theorem le_alignUp (n : Nat) : n ≤ alignUp n := by
  unfold alignUp
  omega

theorem alignUp_lt (n : Nat) : alignUp n < n + 8 := by
  unfold alignUp
  omega

theorem padded (hk : e.key.length < 2 ^ 32) (hp : e.payload.length < 2 ^ 32) : Padded e where
  aligned := dvd_alignUp _
  covers := le_alignUp _
  least := alignUp_lt _
  word := size?_eq_some hk hp

/-! ## Reading -/

/-- header, key and payload of the entry that is declared at this place lie inside the region -/
structure Inside (r : Region) (off : Nat) : Prop where
  header : off + headerSize ≤ r.size
  key : off + headerSize + r.number 4 (off + 16) ≤ r.size
  payload : off + headerSize + r.number 4 (off + 16) + r.number 4 (off + 20) ≤ r.size

theorem inside_iff (r : Region) (off : Nat) : Inside r off ↔ stop r off ≤ r.size := by
  constructor
  · intro h
    exact h.payload
  · intro h
    have hpayload : off + headerSize + r.number 4 (off + 16) + r.number 4 (off + 20) ≤ r.size := h
    exact ⟨by omega, by omega, hpayload⟩

/-- at one place lies at most one entry, the declared one -/
theorem Within.eq_declared (h : Within r off e) : e = declared r off := by
  have hnext : UInt64.ofNat (r.number 8 off) = e.next := by rw [h.next, UInt64.ofNat_toNat]
  have hhash : UInt64.ofNat (r.number 8 (off + 8)) = e.hash := by rw [h.hash, UInt64.ofNat_toNat]
  rw [declared, h.keyLength, h.payloadLength, hnext, hhash, h.key, h.payload]

theorem Within.stop_eq (h : Within r off e) : stop r off = off + bareSize e.key e.payload := by
  rw [stop, h.keyLength, h.payloadLength, bareSize]
  omega

/-- an entry is read exactly when it lies at its place -/
theorem decode?_eq_some_iff : decode? r off = some e ↔ Within r off e := by
  rw [decode?_eq]
  constructor
  · intro h
    split_ifs at h with hstop
    cases h
    exact within_declared hstop
  · intro h
    have hstop : stop r off ≤ r.size := by rw [h.stop_eq]; unfold bareSize; have := h.fits; omega
    rw [if_pos hstop, ← h.eq_declared]

/-- the decoder for foreign memory reads the same entries, as far as 64 bits can name their ends -/
theorem tryDecode?_eq_some_iff :
    tryDecode? r off = some e ↔ decode? r off = some e ∧ off + bareSize e.key e.payload < 2 ^ 64 := by
  constructor
  · intro h
    have hwithin := within_of_tryDecode? h
    refine ⟨decode?_eq_some_iff.2 hwithin, ?_⟩
    rw [tryDecode?_eq] at h
    split_ifs at h with hstop
    rw [← hwithin.stop_eq]
    exact hstop.2
  · rintro ⟨h, hword⟩
    have hstop := (decode?_eq_some_iff.1 h).stop_eq
    rw [decode?_eq] at h
    split_ifs at h with hinside
    rw [tryDecode?_eq, if_pos ⟨hinside, by omega⟩, h]

/-- the bytes of an entry that is read are those that it is written with -/
theorem Within.slice_eq (h : Within r off e) : r.slice off (bareSize e.key e.payload) = e.encode := by
  have hfits := h.fits
  unfold headerSize at hfits
  have hnext : LittleEndian.encode 8 e.next.toNat = r.slice off 8 := by
    rw [← h.next, Region.encode_number (by omega)]
  have hhash : LittleEndian.encode 8 e.hash.toNat = r.slice (off + 8) 8 := by
    rw [← h.hash, Region.encode_number (by omega)]
  have hkey : LittleEndian.encode 4 e.key.length = r.slice (off + 16) 4 := by
    rw [← h.keyLength, Region.encode_number (by omega)]
  have hpayload : LittleEndian.encode 4 e.payload.length = r.slice (off + 20) 4 := by
    rw [← h.payloadLength, Region.encode_number (by omega)]
  have hheader : r.slice off 8 ++ r.slice (off + 8) 8 ++ r.slice (off + 16) 4 ++ r.slice (off + 20) 4 =
      r.slice off headerSize := by
    simp only [Region.slice_append, Nat.reduceAdd, headerSize]
  calc r.slice off (bareSize e.key e.payload)
      = r.slice off headerSize ++ r.slice (off + headerSize) e.key.length ++
          r.slice (off + headerSize + e.key.length) e.payload.length := by
        rw [Region.slice_append, Nat.add_assoc off, Region.slice_append, bareSize]
    _ = e.encode := by rw [encode, hnext, hhash, hkey, hpayload, hheader, h.key, h.payload]

/-! ## Writing -/

/-- what writing an entry at a place leaves behind: both decoders read it back there, and no byte beside it changes -/
structure Wrote (r : Region) (off : Nat) (e : Entry) (r' : Region) : Prop where
  size : r'.size = r.size
  decoded : decode? r' off = some e
  decodedForeign : r.size < 2 ^ 64 → tryDecode? r' off = some e
  outside : ∀ i, i < off ∨ off + bareSize e.key e.payload ≤ i → r'[i]? = r[i]?

/-- an entry that fits is read back -/
theorem decode?_overwrite (hk : e.key.length < 2 ^ 32) (hp : e.payload.length < 2 ^ 32)
    (hfits : off + bareSize e.key e.payload ≤ r.size) : decode? (r.overwrite off e.encode) off = some e := by
  let pre := r.toList.take off
  let old := (r.toList.drop off).take (bareSize e.key e.payload)
  let post := (r.toList.drop off).drop (bareSize e.key e.payload)
  have hsplit : r.toList = pre ++ old ++ post := by
    rw [List.append_assoc, List.take_append_drop, List.take_append_drop]
  have hpre : pre.length = off := by simp [pre]; omega
  have hold : old.length = e.encode.length := by simp [old]; omega
  have hwritten := Region.toList_overwrite e.encode hsplit hold
  rw [hpre, List.append_assoc] at hwritten
  rw [← hpre]
  exact decode?_of_toList (by rw [hpre]; exact hwritten) hk hp

theorem wrote_of_fits (hk : e.key.length < 2 ^ 32) (hp : e.payload.length < 2 ^ 32)
    (hfits : off + bareSize e.key e.payload ≤ r.size) : Wrote r off e (r.overwrite off e.encode) := by
  have hdecoded := decode?_overwrite hk hp hfits
  refine ⟨Region.size_overwrite r off e.encode, hdecoded, ?_, ?_⟩
  · intro hr
    exact tryDecode?_eq_some_iff.2 ⟨hdecoded, by omega⟩
  · intro i hi
    rw [← length_encode] at hi
    exact Region.getElem?_overwrite_of_outside hi

/-- **Round trip of the entry codec.** The decoder for foreign memory never leaves the region, and it reads an entry
exactly where the other one does not leave it either (header, key and payload lie inside) and the entry ends at a place
that 64 bits can name; then both read the same. The bytes of an entry that is read are those that it is written with. An
entry that has room is written and read back by both; it takes up the least multiple of eight that covers it, and every
byte beside it, its padding included, stays as it was. -/
theorem entry_round_trips (r : Region) (off : Nat) :
    checkedDecode? r off = some (tryDecode? r off) ∧
    ((decode? r off).isSome ↔ Inside r off) ∧
    (∀ e, tryDecode? r off = some e ↔ decode? r off = some e ∧ off + bareSize e.key e.payload < 2 ^ 64) ∧
    (r.size < 2 ^ 64 → tryDecode? r off = decode? r off) ∧
    (∀ e, decode? r off = some e → r.slice? off (bareSize e.key e.payload) = some e.encode) ∧
    ∀ (hash : UInt64) (key payload : Bytes), key.length < 2 ^ 32 → payload.length < 2 ^ 32 →
      off + size key.length payload.length ≤ r.size →
      ∃ r', write? r off hash key payload = some r' ∧ Wrote r off ⟨allOnes, hash, key, payload⟩ r' ∧
        ∀ e, decode? r' off = some e → e.encodedSize = size key.length payload.length ∧ e.Padded := by
  refine ⟨checkedDecode?_eq r off, ?_, fun e => tryDecode?_eq_some_iff, fun hr => tryDecode?_eq_decode? hr off, ?_, ?_⟩
  · rw [inside_iff, decode?_eq]
    by_cases hstop : stop r off ≤ r.size <;> simp [hstop]
  · intro e h
    have hwithin := decode?_eq_some_iff.1 h
    have hfits : off + bareSize e.key e.payload ≤ r.size := by unfold bareSize; have := hwithin.fits; omega
    rw [Region.slice?_of_le hfits, hwithin.slice_eq]
  · intro hash key payload hk hp hroom
    have hfits : off + bareSize key payload ≤ r.size :=
      Nat.le_trans (Nat.add_le_add_left (le_alignUp (headerSize + key.length + payload.length)) off) hroom
    have hwrote : Wrote r off ⟨allOnes, hash, key, payload⟩ (write r off hash key payload) := wrote_of_fits hk hp hfits
    refine ⟨_, if_pos hfits, hwrote, ?_⟩
    intro e he
    rw [hwrote.decoded] at he
    cases he
    exact ⟨rfl, padded hk hp⟩

/-- the entry of a short key and payload, written eight bytes into an empty block -/
theorem entry_round_trips_short : ∃ r', write? (Region.zeros 64) 8 0xabcd [107, 101, 121] [112, 97, 121] = some r' ∧
    Wrote (Region.zeros 64) 8 ⟨allOnes, 0xabcd, [107, 101, 121], [112, 97, 121]⟩ r' ∧
    tryDecode? r' 8 = some ⟨allOnes, 0xabcd, [107, 101, 121], [112, 97, 121]⟩ := by
  obtain ⟨r', hwrite, hwrote, -⟩ :=
    (entry_round_trips (Region.zeros 64) 8).2.2.2.2.2 0xabcd [107, 101, 121] [112, 97, 121] (by decide) (by decide)
      (by simp [Region.zeros, size, alignUp, headerSize])
  exact ⟨r', hwrite, hwrote, hwrote.decodedForeign (by simp [Region.zeros])⟩

end Entry

end EquiJoin
