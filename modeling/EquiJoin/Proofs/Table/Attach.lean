/-
Reattaching to a table. The owner hands over bytes; the receiver decodes them and checks what it can. A view is `Valid`
if it passes these checks.

* `Header.decode_encode`, `Slot.decode_encode`: control blocks and slot arrays are read back as they were written;
* `attach_extents`, `valid_of_attach`: the views that can be attached are the valid ones, and they come back unchanged;
* `Table.valid_view`: a table that holds a log has a valid view, if its slot array can be allocated.
-/
import EquiJoin.Proofs.Table.Multimap

namespace EquiJoin

/-! ## Outcomes -/

/-- rewording a refusal leaves the answers as they are -/
theorem mapError_eq_ok {ε ε' α : Type} {f : ε → ε'} {x : Except ε α} {a : α} : x.mapError f = .ok a ↔ x = .ok a := by
  cases x with
  | error e => simp [Except.mapError]
  | ok b => simp [Except.mapError]

theorem bind_eq_ok {ε α β : Type} {x : Except ε α} {f : α → Except ε β} {b : β} :
    (x >>= f) = .ok b ↔ ∃ a, x = .ok a ∧ f a = .ok b := by
  cases x with
  | error e => simp [bind, Except.bind]
  | ok a => simp [bind, Except.bind]

/-! ## Words -/

theorem Region.number_of_number? {r : Region} {w off n : Nat} (h : r.number? w off = some n) : r.number w off = n := by
  unfold number? slice? at h
  split_ifs at h
  · exact Option.some.inj h
  · cases h

theorem length_words (words : List UInt64) :
    (words.flatMap fun w => LittleEndian.encode 8 w.toNat).length = 8 * words.length := by
  simp [List.length_flatMap, List.map_const', Nat.mul_comm]

/-- a word is read back from its place -/
theorem number_words {words : List UInt64} {i : Nat} {w : UInt64} (h : words[i]? = some w) :
    Region.number (words.flatMap fun w => LittleEndian.encode 8 w.toNat).toArray 8 (8 * i) = w.toNat := by
  obtain ⟨hi, rfl⟩ := List.getElem?_eq_some_iff.1 h
  have hcut : words = words.take i ++ words[i] :: words.drop (i + 1) := by simp
  have hbytes : (words.flatMap fun w => LittleEndian.encode 8 w.toNat) =
      ((words.take i).flatMap fun w => LittleEndian.encode 8 w.toNat) ++
        (LittleEndian.encode 8 words[i].toNat ++
          (words.drop (i + 1)).flatMap fun w => LittleEndian.encode 8 w.toNat) := by
    conv_lhs => rw [hcut]
    rw [List.flatMap_append, List.flatMap_cons]
  have hplace : 8 * i = ((words.take i).flatMap fun w => LittleEndian.encode 8 w.toNat).length := by
    rw [length_words, List.length_take, Nat.min_eq_left (Nat.le_of_lt hi)]
  exact Region.number_of_number? (Region.number?_eq_of_toList _ hbytes hplace words[i].toNat_lt)

namespace Header

/-- a control block is read back as it was written -/
theorem decode_encode (h : Header) : decode h.encode.toArray = h := by
  have word (i : Nat) (w : UInt64) (hw : h.words[i]? = some w) :
      UInt64.ofNat (Region.number h.encode.toArray 8 (8 * i)) = w := by
    rw [encode, number_words hw, UInt64.ofNat_toNat]
  simp only [decode, word 0 h.magic rfl, word 1 h.capacity rfl, word 2 h.maxBytes rfl, word 3 h.cursor rfl,
    word 4 h.entries rfl, word 5 h.keySize rfl, word 6 h.slotWidth rfl, word 7 h.tag rfl]

/-- the test on bits is the test for a power of two -/
theorem isPowerOfTwo_iff (w : UInt64) : isPowerOfTwo w ↔ w.toNat.isPowerOfTwo := by
  rw [← Nat.ne_zero_and_sub_one_eq_zero_iff_isPowerOfTwo, isPowerOfTwo, Bool.and_eq_true, decide_eq_true_iff,
    decide_eq_true_iff]
  have hzero : w ≠ 0 ↔ w.toNat ≠ 0 := by rw [ne_eq, ← UInt64.toNat_inj]; rfl
  rw [hzero]
  refine and_congr_right fun hpos => ?_
  have hone : (1 : UInt64) ≤ w := UInt64.le_iff_toNat_le.2 (Nat.pos_of_ne_zero hpos)
  rw [← UInt64.toNat_inj, UInt64.toNat_and, UInt64.toNat_sub_of_le _ _ hone]
  rfl

/-- what the check of a foreign control block asks -/
structure Passes (h : Header) : Prop where
  magic : h.magic = theMagic
  slotWidth : h.slotWidth = 16
  capacity : h.capacity.toNat.isPowerOfTwo
  cursor_le : h.cursor ≤ h.maxBytes

theorem check_eq_ok_iff {h : Header} : h.check = .ok () ↔ h.Passes := by
  constructor
  · intro hcheck
    unfold check at hcheck
    split_ifs at hcheck with hmagic hwidth hpow hcursor
    exact ⟨not_not.1 hmagic, not_not.1 hwidth, (isPowerOfTwo_iff _).1 (by simpa using hpow), UInt64.not_lt.1 hcursor⟩
  · rintro ⟨hmagic, hwidth, hpow, hcursor⟩
    rw [check, if_neg (not_not.2 hmagic), if_neg (not_not.2 hwidth), (isPowerOfTwo_iff _).2 hpow, if_neg (by decide),
      if_neg (UInt64.not_lt.2 hcursor)]

end Header

namespace Slot

theorem getElem?_words (slots : List Slot) (i : Nat) :
    (slots.flatMap fun s => [s.head, s.tail])[2 * i]? = slots[i]?.map head ∧
      (slots.flatMap fun s => [s.head, s.tail])[2 * i + 1]? = slots[i]?.map tail := by
  induction slots generalizing i with
  | nil => exact ⟨rfl, rfl⟩
  | cons s slots ih =>
    cases i with
    | zero => exact ⟨rfl, rfl⟩
    | succ i => exact ih i

theorem length_words (slots : Array Slot) : (words slots).length = 2 * slots.size := by
  simp [words, List.length_flatMap, List.map_const', Nat.mul_comm]

theorem length_encode (slots : Array Slot) : (encode slots).length = slotWidth * slots.size := by
  rw [encode, EquiJoin.length_words, length_words]
  unfold slotWidth
  omega

theorem size_decode (r : Region) : (decode r).size = r.size / slotWidth := by
  simp [decode]

/-- a slot array is read back as it was written -/
theorem decode_encode (slots : Array Slot) : decode (encode slots).toArray = slots := by
  have hsize : (encode slots).toArray.size = slotWidth * slots.size := length_encode slots
  refine Array.ext (by simp [size_decode, hsize, slotWidth]) fun i hi hi' => ?_
  have hslot : slots.toList[i]? = some slots[i] := by rw [Array.getElem?_toList, Array.getElem?_eq_getElem hi']
  obtain ⟨hhead, htail⟩ := getElem?_words slots.toList i
  rw [hslot, Option.map_some] at hhead htail
  have hplace : slotWidth * i = 8 * (2 * i) := by unfold slotWidth; omega
  have hplace' : slotWidth * i + 8 = 8 * (2 * i + 1) := by unfold slotWidth; omega
  simp only [decode, Array.getElem_map, Array.getElem_range]
  rw [hplace', hplace, encode, words, number_words hhead, number_words htail, UInt64.ofNat_toNat, UInt64.ofNat_toNat]

end Slot

/-! ## Views that can be attached -/

namespace View

/-- what a receiver asks of a table -/
structure Valid (v : View) : Prop where
  check : v.header.check = .ok ()
  slotBytes : v.header.slotBytes < 2 ^ 64
  slots : v.slots.size = v.header.capacity.toNat
  bytes : v.bytes.size = v.header.cursor.toNat

theorem readHeader_eq_ok {control : Extent} {header : Header} :
    readHeader control = .ok header ↔
      control.size = Header.byteSize ∧ control.isAligned ∧ header = Header.decode control.bytes ∧
        header.check = .ok () := by
  constructor
  · intro h
    unfold readHeader at h
    split_ifs at h with hsize haligned
    cases hcheck : (Header.decode control.bytes).check with
    | error e => simp only [hcheck] at h; cases h
    | ok u =>
      simp only [hcheck] at h
      cases h
      exact ⟨not_not.1 hsize, by simpa using haligned, rfl, hcheck⟩
  · rintro ⟨hsize, haligned, rfl, hcheck⟩
    rw [readHeader, if_neg (not_not.2 hsize), if_neg (by simpa using haligned)]
    simp only [hcheck]

theorem readSlots_eq_ok {header : Header} {extent : Extent} {slots : Array Slot} :
    readSlots header extent = .ok slots ↔
      header.slotBytes < 2 ^ 64 ∧ extent.size = header.slotBytes ∧ extent.isAligned ∧
        slots = Slot.decode extent.bytes := by
  constructor
  · intro h
    unfold readSlots at h
    split_ifs at h with hfit hsize haligned
    cases h
    exact ⟨Nat.lt_of_not_le hfit, not_not.1 hsize, by simpa using haligned, rfl⟩
  · rintro ⟨hfit, hsize, haligned, rfl⟩
    have hword : ¬ 1 <<< 64 ≤ header.slotBytes := Nat.not_le_of_lt hfit
    rw [readSlots, if_neg hword, if_neg (not_not.2 hsize), if_neg (by simpa using haligned)]

theorem readOverflow_eq_ok {header : Header} {extent : Extent} {bytes : Region} :
    readOverflow header extent = .ok bytes ↔
      extent.size = header.cursor.toNat ∧ (extent.size = 0 ∨ extent.isNull = false) ∧ bytes = extent.bytes := by
  constructor
  · intro h
    unfold readOverflow at h
    split_ifs at h with hsize hnull
    cases h
    exact ⟨not_not.1 hsize, by simpa [or_iff_not_imp_left] using hnull, rfl⟩
  · rintro ⟨hsize, hnull, rfl⟩
    rw [readOverflow, if_neg (not_not.2 hsize), if_neg (by simpa [or_iff_not_imp_left] using hnull)]

/-- attaching decodes and checks three regions -/
theorem attach_eq_ok {handles : List Extent} {v : View} :
    attach handles = .ok v ↔
      ∃ control slots overflow, handles = [control, slots, overflow] ∧ control.isNull = false ∧
        slots.isNull = false ∧ readHeader control = .ok v.header ∧ readSlots v.header slots = .ok v.slots ∧
        readOverflow v.header overflow = .ok v.bytes := by
  constructor
  · intro h
    unfold attach at h
    split at h
    · next control slots overflow =>
      split_ifs at h with hnull
      rw [Bool.or_eq_true, not_or, Bool.not_eq_true, Bool.not_eq_true] at hnull
      obtain ⟨header, hheader, h⟩ := bind_eq_ok.1 h
      obtain ⟨words, hwords, h⟩ := bind_eq_ok.1 h
      obtain ⟨bytes, hbytes, h⟩ := bind_eq_ok.1 h
      cases h
      exact ⟨control, slots, overflow, rfl, hnull.1, hnull.2, mapError_eq_ok.1 hheader, hwords,
        mapError_eq_ok.1 hbytes⟩
    · cases h
  · rintro ⟨control, slots, overflow, rfl, hcontrol, hslots, hheader, hwords, hbytes⟩
    rw [attach, hcontrol, hslots, Bool.or_self, if_neg (by decide)]
    exact bind_eq_ok.2 ⟨_, mapError_eq_ok.2 hheader, bind_eq_ok.2 ⟨_, hwords, bind_eq_ok.2
      ⟨_, mapError_eq_ok.2 hbytes, rfl⟩⟩⟩

/-- a valid view comes back from its regions as it was, wherever they lie -/
theorem attach_extents {v : View} (hv : v.Valid) {p : Placement} (hp : p.Sound) : attach (v.extents p) = .ok v := by
  have hsize : (Slot.encode v.slots).toArray.size = v.header.slotBytes := by
    rw [List.size_toArray, Slot.length_encode, hv.slots, Header.slotBytes]
  have not_null {address : Nat} (h : 0 < address) (bytes : Region) : Extent.isNull ⟨address, bytes⟩ = false := by
    simpa [Extent.isNull] using Nat.ne_of_gt h
  refine attach_eq_ok.2 ⟨_, _, _, rfl, not_null hp.control_pos _, not_null hp.slots_pos _, ?_, ?_, ?_⟩
  · exact readHeader_eq_ok.2 ⟨Header.length_encode v.header, by simpa [Extent.isAligned] using hp.control_aligned,
      (Header.decode_encode v.header).symm, hv.check⟩
  · exact readSlots_eq_ok.2 ⟨hv.slotBytes, hsize, by simpa [Extent.isAligned] using hp.slots_aligned,
      (Slot.decode_encode v.slots).symm⟩
  · exact readOverflow_eq_ok.2 ⟨hv.bytes, .inr (not_null hp.overflow_pos _), rfl⟩

/-- and what is attached is valid -/
theorem valid_of_attach {handles : List Extent} {v : View} (h : attach handles = .ok v) : v.Valid := by
  obtain ⟨control, slots, overflow, -, -, -, hheader, hslots, hbytes⟩ := attach_eq_ok.1 h
  obtain ⟨-, -, -, hcheck⟩ := readHeader_eq_ok.1 hheader
  obtain ⟨hfit, hsize, -, hwords⟩ := readSlots_eq_ok.1 hslots
  obtain ⟨hcursor, -, hregion⟩ := readOverflow_eq_ok.1 hbytes
  refine ⟨hcheck, hfit, ?_, by rw [hregion]; exact hcursor⟩
  rw [hwords, Slot.size_decode, ← Extent.size, hsize, Header.slotBytes, slotWidth]
  exact Nat.mul_div_cancel_left _ (by decide)

end View

namespace Table

variable {t : Table} {log : List Record}

/-- the words of the control block are the numbers of the table -/
theorem toNat_header (h : t.Holds log) :
    t.header.capacity.toNat = t.capacity ∧ t.header.maxBytes.toNat = t.maxBytes ∧
      t.header.cursor.toNat = t.cursor ∧ t.header.entries.toNat = t.count := by
  have hword {n : Nat} (hn : n < 2 ^ 64) : (UInt64.ofNat n).toNat = n := UInt64.toNat_ofNat_of_lt' hn
  have := h.capacity_lt
  have := h.maxBytes_lt
  have := h.cursor_le_maxBytes
  have := h.count_le
  exact ⟨hword (by omega), hword (by omega), hword (by omega), hword (by omega)⟩

theorem stats_view (h : t.Holds log) : t.view.stats = t.stats := by
  obtain ⟨hcapacity, hmax, hcursor, hcount⟩ := toNat_header h
  show Stats.mk t.header.capacity.toNat t.header.entries.toNat t.header.cursor.toNat t.header.maxBytes.toNat = t.stats
  rw [hcapacity, hmax, hcursor, hcount, stats]

/-- a table that holds a log has a valid view, if its slot array can be allocated -/
theorem valid_view (h : t.Holds log) (ha : allocatable (slotWidth * t.capacity)) : t.view.Valid := by
  obtain ⟨hcapacity, hmax, hcursor, -⟩ := toNat_header h
  exact {
    check := Header.check_eq_ok_iff.2 {
      magic := rfl
      slotWidth := rfl
      capacity := hcapacity.symm ▸ h.capacity_pow
      cursor_le := UInt64.le_iff_toNat_le.2 (by
        show t.header.cursor.toNat ≤ t.header.maxBytes.toNat
        rw [hmax, hcursor]
        exact h.cursor_le_maxBytes) }
    slotBytes := by
      have hslots : slotWidth * t.capacity < 2 ^ 63 := by simpa [allocatable] using ha
      show slotWidth * t.header.capacity.toNat < 2 ^ 64
      rw [hcapacity]
      omega
    slots := by
      show t.slots.size = t.header.capacity.toNat
      rw [hcapacity, h.slots, size_slotArray]
    bytes := by
      show t.view.bytes.size = t.header.cursor.toNat
      rw [size_view_bytes h, hcursor] }

end Table

end EquiJoin
