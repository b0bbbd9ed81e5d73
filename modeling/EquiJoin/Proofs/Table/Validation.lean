/-
What a receiver learns from attaching. The three handles may point at anything: any words in the control block, any
sizes, any bytes. Attaching answers or refuses, with one exception. A control block that passes its check may name a
capacity of 2^60 or more, and a slot array of so many slots has more bytes than a 64-bit word counts; there the call
stops before it has compared a size. Wherever it answers, the sizes are those of the control block as integers, so a
masked hash always picks a slot that exists.

* `attach_eq_fault_iff`: where attaching stops without a refusal;
* `trusted_of_attach`: what an attached view may be trusted for;
* `attach_sound`: both, for all handles, and `attach_stops`: there is such a control block.
-/
import EquiJoin.Proofs.Table.Foreign

namespace EquiJoin

/-- a sequence stops where its first part does, or else where its second part does -/
theorem bind_eq_error {ε α β : Type} {x : Except ε α} {f : α → Except ε β} {e : ε} :
    (x >>= f) = .error e ↔ x = .error e ∨ ∃ a, x = .ok a ∧ f a = .error e := by
  cases x with
  | error e' => simp [bind, Except.bind]
  | ok a => simp [bind, Except.bind]

/-- a refusal is no fault -/
theorem mapError_refused_ne_fault {ε α : Type} {x : Except ε α} : x.mapError Stop.refused ≠ .error .fault := by
  cases x with
  | error e => simp [Except.mapError]
  | ok a => simp [Except.mapError]

namespace View

variable {control slots overflow : Extent} {handles : List Extent} {header : Header} {v : View}

/-! ## Where attaching stops -/

/-- more bytes than a word counts are asked for from a capacity of 2^60 on -/
theorem slotBytes_lt_iff : header.slotBytes < 2 ^ 64 ↔ header.capacity.toNat < 2 ^ 60 := by
  unfold Header.slotBytes slotWidth
  omega

theorem readSlots_eq_fault_iff : readSlots header slots = .error .fault ↔ 2 ^ 60 ≤ header.capacity.toNat := by
  have hbytes : 1 <<< 64 ≤ header.slotBytes ↔ 2 ^ 60 ≤ header.capacity.toNat := by
    rw [← not_iff_not, Nat.not_le, Nat.not_le]
    exact slotBytes_lt_iff
  rw [readSlots, ← hbytes]
  split_ifs with hlong hsize haligned
  · exact iff_of_true rfl hlong
  · exact iff_of_false (by simp) hlong
  · exact iff_of_false (by simp) hlong
  · exact iff_of_false (by simp) hlong

/-- attaching stops without a refusal exactly where the control block passes and its capacity is too large -/
theorem attach_eq_fault_iff :
    attach handles = .error .fault ↔
      ∃ control slots overflow header, handles = [control, slots, overflow] ∧ control.isNull = false ∧
        slots.isNull = false ∧ readHeader control = .ok header ∧ 2 ^ 60 ≤ header.capacity.toNat := by
  constructor
  · intro h
    unfold attach at h
    split at h
    · next control slots overflow =>
      split_ifs at h with hnull
      · cases h
      rw [Bool.or_eq_true, not_or, Bool.not_eq_true, Bool.not_eq_true] at hnull
      rcases bind_eq_error.1 h with h | ⟨header, hheader, h⟩
      · exact absurd h mapError_refused_ne_fault
      rcases bind_eq_error.1 h with h | ⟨words, hwords, h⟩
      · exact ⟨control, slots, overflow, header, rfl, hnull.1, hnull.2, mapError_eq_ok.1 hheader,
          readSlots_eq_fault_iff.1 h⟩
      rcases bind_eq_error.1 h with h | ⟨bytes, hbytes, h⟩
      · exact absurd h mapError_refused_ne_fault
      · cases h
    · cases h
  · rintro ⟨control, slots, overflow, header, rfl, hcontrol, hslots, hheader, hcapacity⟩
    rw [attach, hcontrol, hslots, Bool.or_self, if_neg (by decide)]
    exact bind_eq_error.2 (.inr ⟨header, mapError_eq_ok.2 hheader,
      bind_eq_error.2 (.inl (readSlots_eq_fault_iff.2 hcapacity))⟩)

/-! ## What an answer says -/

/-- what an attached view may be trusted for: its sizes are those that its control block names, as integers, and its
regions are the ones that were handed over -/
structure Trusted (v : View) (control slots overflow : Extent) : Prop where
  header : v.header = Header.decode control.bytes
  capacity : v.header.capacity.toNat.isPowerOfTwo
  words : (Slot.words v.slots).length = 2 * v.header.capacity.toNat
  slots : slots.size = 8 * (Slot.words v.slots).length
  bytes : v.bytes = overflow.bytes
  cursor : v.bytes.size = v.header.cursor.toNat
  budget : v.header.cursor.toNat ≤ v.header.maxBytes.toNat
  /-- both words of the slot that a hash picks are inside -/
  index : ∀ hash, 2 * Slot.index v.header.mask hash + 1 < (Slot.words v.slots).length
  probe : ∀ hash key, (v.matches? hash key).isSome

theorem trusted_of_attach (h : attach handles = .ok v) :
    ∃ control slots overflow, handles = [control, slots, overflow] ∧ v.Trusted control slots overflow := by
  obtain ⟨control, slots, overflow, hhandles, -, -, hheader, hslots, hbytes⟩ := attach_eq_ok.1 h
  obtain ⟨hshaped, hcursor⟩ := shaped_of_attach h
  obtain ⟨-, -, hdecode, hcheck⟩ := readHeader_eq_ok.1 hheader
  obtain ⟨-, hsize, -, -⟩ := readSlots_eq_ok.1 hslots
  refine ⟨control, slots, overflow, hhandles, ?_⟩
  exact {
    header := hdecode
    capacity := hshaped.capacity
    words := hshaped.slots
    slots := by
      rw [hsize, hshaped.slots, Header.slotBytes, slotWidth]
      omega
    bytes := (readOverflow_eq_ok.1 hbytes).2.2
    cursor := hcursor
    budget := UInt64.le_iff_toNat_le.1 (Header.check_eq_ok_iff.1 hcheck).cursor_le
    index := fun hash => by
      have := index_lt_of_shaped hshaped hash
      rw [Slot.length_words]
      omega
    probe := fun hash key => by
      obtain ⟨link, hm⟩ := matches?_of_shaped hshaped hash key
      rw [hm]
      rfl }

/-- **Attaching trusts nothing it has not checked.** Whatever the handles point at, attaching answers or refuses, except
where the control block passes its check and names a capacity of 2^60 or more. Whenever it answers, the slot array has
exactly two words for each unit of the capacity and the overflow region exactly as many bytes as the cursor says, which
is within the budget, so no hash leads past the slot array. -/
theorem attach_sound (handles : List Extent) :
    (attach handles = .error .fault ↔
      ∃ control slots overflow, handles = [control, slots, overflow] ∧ control.isNull = false ∧
        slots.isNull = false ∧ control.size = Header.byteSize ∧ control.isAligned ∧
        (Header.decode control.bytes).check = .ok () ∧ 2 ^ 60 ≤ (Header.decode control.bytes).capacity.toNat) ∧
      ∀ v, attach handles = .ok v →
        ∃ control slots overflow, handles = [control, slots, overflow] ∧ v.Trusted control slots overflow := by
  refine ⟨attach_eq_fault_iff.trans ⟨?_, ?_⟩, fun v => trusted_of_attach⟩
  · rintro ⟨control, slots, overflow, header, hhandles, hcontrol, hslots, hheader, hcapacity⟩
    obtain ⟨hsize, haligned, rfl, hcheck⟩ := readHeader_eq_ok.1 hheader
    exact ⟨control, slots, overflow, hhandles, hcontrol, hslots, hsize, haligned, hcheck, hcapacity⟩
  · rintro ⟨control, slots, overflow, hhandles, hcontrol, hslots, hsize, haligned, hcheck, hcapacity⟩
    exact ⟨control, slots, overflow, _, hhandles, hcontrol, hslots, readHeader_eq_ok.2 ⟨hsize, haligned, rfl, hcheck⟩,
      hcapacity⟩

/-- a control block that passes its check and asks for 2^64 bytes of slots -/
def oversized : Header := Header.new 0x1000000000000000 64 none

/-- whatever the sizes of the other two regions, such a control block is neither accepted nor refused -/
theorem attach_stops :
    oversized.check = .ok () ∧
      attach [⟨8, oversized.encode.toArray⟩, ⟨8, Region.zeros 32⟩, ⟨8, Region.zeros 0⟩] = .error .fault := by
  have hcheck : oversized.check = .ok () := by decide +kernel
  have hread : readHeader ⟨8, oversized.encode.toArray⟩ = .ok oversized :=
    readHeader_eq_ok.2 ⟨Header.length_encode oversized, by decide, (Header.decode_encode oversized).symm, hcheck⟩
  exact ⟨hcheck, attach_eq_fault_iff.2 ⟨_, _, _, oversized, rfl, by decide, by decide, hread, by decide⟩⟩

/-- forged words and bytes of the right sizes are accepted -/
theorem attach_sound_forged :
    attach (forged.extents ⟨64, 128, 192⟩) = .ok forged ∧
      (∃ control slots overflow, forged.extents ⟨64, 128, 192⟩ = [control, slots, overflow] ∧
        forged.Trusted control slots overflow) ∧
      attach [⟨8, oversized.encode.toArray⟩, ⟨8, Region.zeros 0⟩, ⟨0, Region.zeros 7⟩] = .error .fault := by
  have hvalid : forged.Valid := ⟨by decide +kernel, by decide, by decide, by decide +kernel⟩
  have haccepted : attach (forged.extents ⟨64, 128, 192⟩) = .ok forged :=
    attach_extents hvalid ⟨by decide, by decide, by decide, by decide, by decide⟩
  refine ⟨haccepted, (attach_sound _).2 _ haccepted, (attach_sound _).1.2 ⟨_, _, _, rfl, ?_⟩⟩
  rw [Header.decode_encode]
  exact ⟨by decide, by decide, by decide +kernel, by decide, by decide +kernel, by decide⟩

end View

end EquiJoin
