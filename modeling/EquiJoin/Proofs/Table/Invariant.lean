/-
What a table that its builder owns looks like after any calls. `Holds t log` says that the memory of `t` is the image of
the records in `log`, the oldest first, and that the region keeps to its budget. Every action either keeps this for the
same log, or extends the log by the record that it stored.

* `create_holds`: a new table holds nothing;
* `grow_of_double`: the slot array can be doubled whenever the capacity can, and the log stays;
* `insert_of_room`: an insertion that is admitted and given room succeeds and appends its record to the log;
* `insert_of_entryBytes_error`, `insert_of_ensureRoom_error`, `insert_of_overflow`: any other insertion leaves the table
  as it was.
-/
import EquiJoin.Proofs.Table.Growth
import EquiJoin.Proofs.Table.Image

namespace EquiJoin.Table

/-- the bits of a hash that pick the slot -/
def mask (t : Table) : UInt64 := UInt64.ofNat (t.capacity - 1)

/-- the memory of `t` is the image of these records -/
structure Holds (t : Table) (log : List Record) : Prop where
  capacity_pow : t.capacity.isPowerOfTwo
  capacity_lt : t.capacity < 2 ^ 63
  maxBytes_lt : t.maxBytes < 2 ^ 64
  count : t.count = log.length
  cursor : t.cursor = total log
  slots : t.slots = slotArray t.capacity t.mask (layout 0 log)
  /-- the rest of the region is zero -/
  region : t.region.toList = image t.mask (layout 0 log) ++ List.replicate (t.region.size - t.cursor) 0
  size_le : t.region.size ≤ t.maxBytes
  fits : ∀ n ∈ log, n.Fits
  /-- all ones stands for keys that are not pinned -/
  keySize_lt : ∀ k ∈ t.keySize, k < 2 ^ 64 - 1
  /-- pinned keys have their width -/
  pinned : ∀ n ∈ log, ∀ k ∈ t.keySize, n.key.length = k

/-- what no insertion and no growth changes -/
structure Keeps (t t' : Table) : Prop where
  maxBytes : t'.maxBytes = t.maxBytes
  keySize : t'.keySize = t.keySize
  tag : t'.tag = t.tag
  loadFactor : t'.loadFactor = t.loadFactor

theorem Keeps.refl (t : Table) : t.Keeps t := ⟨rfl, rfl, rfl, rfl⟩

theorem Keeps.trans {t t' t'' : Table} (h : t.Keeps t') (h' : t'.Keeps t'') : t.Keeps t'' :=
  ⟨h'.maxBytes.trans h.maxBytes, h'.keySize.trans h.keySize, h'.tag.trans h.tag, h'.loadFactor.trans h.loadFactor⟩

/-- two tables that agree in this still do after both were changed -/
theorem Keeps.congr {t t' u u' : Table} (h : t.Keeps t') (hu : t.Keeps u) (hu' : t'.Keeps u') : u.Keeps u' :=
  ⟨(hu'.maxBytes.trans h.maxBytes).trans hu.maxBytes.symm, (hu'.keySize.trans h.keySize).trans hu.keySize.symm,
    (hu'.tag.trans h.tag).trans hu.tag.symm, (hu'.loadFactor.trans h.loadFactor).trans hu.loadFactor.symm⟩

/-- a masked hash picks a slot that exists -/
theorem index_lt {capacity : Nat} (hpos : 0 < capacity) (hlt : capacity < 2 ^ 63) (hash : UInt64) :
    Slot.index (UInt64.ofNat (capacity - 1)) hash < capacity := by
  have h : (UInt64.ofNat (capacity - 1)).toNat = capacity - 1 := by
    rw [UInt64.toNat_ofNat', Nat.mod_eq_of_lt (by omega)]
  have := Nat.and_le_right (n := hash.toNat) (m := capacity - 1)
  rw [Slot.index, UInt64.toNat_and, h]
  omega

namespace Holds

variable {t : Table} {log : List Record}

theorem capacity_pos (h : t.Holds log) : 0 < t.capacity := by
  obtain ⟨k, hk⟩ := h.capacity_pow
  rw [hk]
  exact Nat.two_pow_pos k

theorem size_eq (h : t.Holds log) : t.region.size = total log + (t.region.size - t.cursor) := by
  have := congrArg List.length h.region
  simpa using this

theorem cursor_le (h : t.Holds log) : t.cursor ≤ t.region.size := by
  have := h.size_eq
  have := h.cursor
  omega

theorem cursor_le_maxBytes (h : t.Holds log) : t.cursor ≤ t.maxBytes := Nat.le_trans h.cursor_le h.size_le

/-- every entry takes more than one byte, so the number of entries stays far from the end of its word -/
theorem count_le (h : t.Holds log) : 24 * t.count ≤ t.cursor := by
  rw [h.count, h.cursor]
  clear h
  induction log with
  | nil => simp
  | cons n log ih =>
    have : 24 ≤ n.size := n.headerSize_le_size
    simp only [List.length_cons, total_cons]
    omega

/-- the tag is no part of what a table holds -/
theorem withTag (h : t.Holds log) (tag : UInt64) : (t.withTag tag).Holds log :=
  { h with }

theorem slot_lt (h : t.Holds log) (n : Record) : n.slot t.mask < t.capacity :=
  n.slot_eq t.mask ▸ index_lt h.capacity_pos h.capacity_lt n.hash

end Holds

/-! ## Creation and growth -/

theorem create_holds {c : Config} {t : Table} (h : create c = .ok t) : t.Holds [] := by
  unfold create at h
  split at h
  · cases h
  · dsimp only at h
    split_ifs at h with hcap halloc
    cases h
    have hslots : slotWidth * powerOfTwoFrom c.initialCapacity.toNat < 2 ^ 63 := by
      simp [allocatable] at halloc; omega
    unfold slotWidth at hslots
    have hmax := c.maxBytes.toNat_lt
    exact {
      capacity_pow := isPowerOfTwo_powerOfTwoFrom _
      capacity_lt := by simp only; omega
      maxBytes_lt := by simp only; omega
      count := rfl
      cursor := rfl
      slots := (slotArray_nil _ _).symm
      region := by simp [Region.zeros, layout, image]
      size_le := by simp only [Region.zeros, Array.size_replicate]; omega
      fits := by simp
      keySize_lt := by
        intro k hk
        obtain ⟨w, -, hw⟩ := Option.bind_eq_some_iff.1 hk
        have hlt := w.toNat_lt
        have hones : allOnes.toNat = 2 ^ 64 - 1 := rfl
        split_ifs at hw with hne
        cases hw
        have : w.toNat ≠ allOnes.toNat := fun he => hne (UInt64.toNat_inj.1 he)
        omega
      pinned := by simp }

theorem maxBytes_of_create {c : Config} {t : Table} (h : create c = .ok t) : t.maxBytes = c.maxBytes.toNat := by
  unfold create at h
  split at h
  · cases h
  · dsimp only at h
    split_ifs at h
    cases h
    rfl

theorem grow_of_double {t : Table} {log : List Record} (h : t.Holds log) {capacity : Nat}
    (hd : double t.capacity = .ok capacity) :
    ∃ t', grow.run t = .ok () t' ∧ t'.Holds log ∧ t.Keeps t' ∧ t'.capacity = capacity ∧ t'.count = t.count ∧
      t'.cursor = t.cursor ∧ t'.region.size = t.region.size := by
  obtain ⟨hcap, hlt⟩ := double_eq_ok hd
  have hpos := h.capacity_pos
  have hbudget := h.cursor_le_maxBytes
  have hmax := h.maxBytes_lt
  have hcursor := h.cursor
  have hindex := index_lt (by omega) hlt
  have hold : t.region.toList = image (UInt64.ofNat (capacity - 1)) (layout 0 []) ++
      image t.mask (layout (total []) log) ++ List.replicate (t.region.size - t.cursor) 0 := by
    simpa [layout, image] using h.region
  obtain ⟨region, hrelink, hregion⟩ := relink_eq hindex log [] h.fits (by simpa using by omega) hold
  have hsize : region.size = t.region.size := by
    have := congrArg List.length hregion
    rw [h.size_eq]
    simpa using this
  refine ⟨{ t with capacity, slots := slotArray capacity (UInt64.ofNat (capacity - 1)) (layout 0 log), region }, ?_, ?_,
    ⟨rfl, rfl, rfl, rfl⟩, rfl, rfl, rfl, hsize⟩
  · simp only [grow, EStateM.run, hd, h.cursor]
    simp only [List.nil_append, total_nil, layout, slotArray_nil] at hrelink
    rw [hrelink]
  · exact {
      capacity_pow := by
        obtain ⟨k, hk⟩ := h.capacity_pow
        exact ⟨k + 1, by simp only [hcap, hk, Nat.pow_succ]⟩
      capacity_lt := hlt
      maxBytes_lt := hmax
      count := h.count
      cursor := hcursor
      slots := rfl
      region := by simp only [hsize]; exact hregion
      size_le := by simpa only [hsize] using h.size_le
      fits := h.fits
      keySize_lt := h.keySize_lt
      pinned := h.pinned }

/-! ## Insertion -/

/-- the region is enlarged with zeros behind the entries -/
theorem secureRegion_holds {t : Table} {log : List Record} (h : t.Holds log) {needed : Nat} (hn : t.cursor ≤ needed)
    (hb : needed ≤ t.maxBytes) :
    ∃ t', (secureRegion needed).run t = .ok () t' ∧ t'.Holds log ∧ t.Keeps t' ∧ t'.capacity = t.capacity ∧
      t'.count = t.count ∧ t'.cursor = t.cursor ∧ needed ≤ t'.region.size := by
  by_cases hs : t.region.size < needed
  · have hlen : needed ≤ t.regionSize needed := by unfold regionSize; omega
    have hmax : t.regionSize needed ≤ t.maxBytes := by unfold regionSize; omega
    have hcursor := h.cursor_le
    have hused : (t.region.extract 0 t.cursor).toList = image t.mask (layout 0 log) := by
      rw [Array.toList_extract, h.region, List.extract_eq_take_drop, h.cursor]
      simp
    have hsize : (t.region.extract 0 t.cursor ++ Region.zeros (t.regionSize needed - t.cursor)).size =
        t.regionSize needed := by
      simp only [Array.size_append, Array.size_extract, Region.zeros, Array.size_replicate]
      omega
    refine ⟨{ t with region := t.region.extract 0 t.cursor ++ Region.zeros (t.regionSize needed - t.cursor) }, ?_,
      { h with region := ?_, size_le := ?_ }, ⟨rfl, rfl, rfl, rfl⟩, rfl, rfl, rfl, ?_⟩
    · rw [secureRegion, Action.run_modify, if_pos hs]
    · simp only [hsize, Array.toList_append, hused]
      rfl
    · simpa only [hsize] using hmax
    · simpa only [hsize] using hlen
  · refine ⟨t, ?_, h, Keeps.refl t, rfl, rfl, rfl, by omega⟩
    rw [secureRegion, Action.run_modify, if_neg hs]

theorem run_secureSlots (t : Table) :
    secureSlots.run t = if threshold t.loadFactor t.capacity < t.count + 1 then grow.run t else .ok () t := rfl

/-- the slot array is doubled if it must be, and then it can be -/
theorem secureSlots_holds {t : Table} {log : List Record} (h : t.Holds log)
    (hr : reach t.loadFactor (t.count + 1) t.capacity = .ok ()) :
    ∃ t', secureSlots.run t = .ok () t' ∧ t'.Holds log ∧ t.Keeps t' ∧ t'.capacity = t.capacityFor ∧
      t'.count = t.count ∧ t'.cursor = t.cursor ∧ t'.region.size = t.region.size := by
  by_cases hw : threshold t.loadFactor t.capacity < t.count + 1
  · rw [run_secureSlots, capacityFor, if_pos hw, if_pos hw]
    exact grow_of_double h (reach_double hw hr).1
  · refine ⟨t, by rw [run_secureSlots, if_neg hw], h, Keeps.refl t, by rw [capacityFor, if_neg hw], rfl, rfl, rfl⟩

/-- a record that is written at the cursor stands behind the others; the rest of the region is zero as before -/
theorem toList_write {t : Table} {log : List Record} (h : t.Holds log) (n : Record)
    (hs : t.cursor + n.size ≤ t.region.size) :
    (Entry.write t.region t.cursor n.hash n.key n.payload).toList =
      image t.mask (layout 0 log) ++ n.image allOnes ++ List.replicate (t.region.size - t.cursor - n.size) 0 := by
  have hbare := n.bareSize_le_size
  -- the zeros behind the entries are cut at the end of the bytes that are written and at the end of the padding
  set room := t.region.size - t.cursor
  have hroom : List.replicate room (0 : UInt8) =
      List.replicate (Entry.bareSize n.key n.payload) 0 ++ (n.padding ++ List.replicate (room - n.size) 0) := by
    simp only [Record.padding, List.replicate_append_replicate]
    congr 1
    omega
  have hbefore : t.region.toList = image t.mask (layout 0 log) ++ List.replicate (Entry.bareSize n.key n.payload) 0 ++
      (n.padding ++ List.replicate (room - n.size) 0) := by
    rw [h.region, hroom, List.append_assoc]
  have := Region.toList_overwrite (Entry.encode ⟨allOnes, n.hash, n.key, n.payload⟩) hbefore (by simp)
  rw [length_image, ← h.cursor] at this
  rw [Entry.write, this, Record.image]
  simp only [List.append_assoc]
  rfl

/-- a record that fits is written at the cursor and linked -/
theorem place_holds {t : Table} {log : List Record} (h : t.Holds log) {n : Record} (hf : n.Fits)
    (hp : ∀ k ∈ t.keySize, n.key.length = k) (hs : t.cursor + n.size ≤ t.region.size) :
    ∃ t', (place n.hash n.key n.payload n.size).run t = .ok () t' ∧ t'.Holds (log ++ [n]) ∧ t.Keeps t' ∧
      t'.capacity = t.capacity := by
  have hcursor := h.cursor
  have hsize := h.size_le
  have hmax := h.maxBytes_lt
  have hbare := n.bareSize_le_size
  obtain ⟨hlinkable, region, hlink, hregion⟩ := link_snoc (h.slot_lt n) (by omega) (toList_write h n hs)
  have hsame : region.size = t.region.size := by
    have h1 := congrArg List.length hregion
    simp only [Array.length_toList, List.length_append, length_image, total_append, total_cons, total_nil,
      List.length_replicate] at h1
    omega
  have hcan : Slot.linkable t.slots t.region t.mask n.hash = true := by
    rw [h.slots]
    simpa only [Slot.linkable, Entry.write, Region.size_overwrite] using hlinkable
  refine ⟨{ t with
      slots := slotArray t.capacity t.mask (layout 0 (log ++ [n])), region, cursor := t.cursor + n.size,
      count := t.count + 1 }, ?_, ?_, ⟨rfl, rfl, rfl, rfl⟩, rfl⟩
  · rw [← h.slots, ← hcursor] at hlink
    have hguard : t.cursor + Entry.bareSize n.key n.payload ≤ t.region.size ∧
        Slot.linkable t.slots t.region (UInt64.ofNat (t.capacity - 1)) n.hash = true := ⟨by omega, hcan⟩
    simp only [place, EStateM.run, if_pos hguard]
    rw [show UInt64.ofNat (t.capacity - 1) = t.mask from rfl, hlink]
  · exact {
      capacity_pow := h.capacity_pow
      capacity_lt := h.capacity_lt
      maxBytes_lt := hmax
      count := by simp [h.count]
      cursor := by simp [hcursor]
      slots := rfl
      region := by
        simp only [hsame, Nat.sub_add_eq]
        exact hregion
      size_le := by simpa only [hsame] using hsize
      fits := List.forall_mem_append.2 ⟨h.fits, List.forall_mem_singleton.2 hf⟩
      keySize_lt := h.keySize_lt
      pinned := List.forall_mem_append.2 ⟨h.pinned, List.forall_mem_singleton.2 hp⟩ }

theorem entryBytes_eq_ok {t : Table} {n : Record} {size : Nat}
    (h : t.entryBytes n.key.length n.payload.length = .ok size) :
    size = n.size ∧ n.Fits ∧ ∀ k ∈ t.keySize, n.key.length = k := by
  unfold entryBytes at h
  split at h
  · cases h
  · next hk =>
    split_ifs at h with hl
    cases h
    refine ⟨rfl, ⟨by omega, by omega⟩, fun k hk' => ?_⟩
    rw [Option.mem_def.1 hk'] at hk
    by_contra hne
    simp [Option.filter, Ne.symm hne] at hk

theorem entryBytes_congr {t t' : Table} (h : t'.keySize = t.keySize) (keyLength payloadLength : Nat) :
    t'.entryBytes keyLength payloadLength = t.entryBytes keyLength payloadLength := by
  unfold entryBytes
  rw [h]

theorem run_entryEnd (t : Table) (size : Nat) :
    (entryEnd size).run t = if t.cursor + size < 2 ^ 64 then .ok (t.cursor + size) t else .error .fault t := rfl

theorem run_entryBytes {t : Table} {n : Record} {size : Nat}
    (hb : t.entryBytes n.key.length n.payload.length = .ok size) :
    (Action.query fun t => t.entryBytes n.key.length n.payload.length : Act Nat).run t = .ok size t :=
  Action.run_query_of_ok hb

/-- an insertion that is admitted and given room goes on to enlarge what is too small and to write -/
theorem insert_eq {t : Table} {n : Record} {size : Nat} (hb : t.entryBytes n.key.length n.payload.length = .ok size)
    (hr : t.ensureRoom 1 size = .ok ()) :
    (insert n.hash n.key n.payload).run t =
      (do secureRegion (← entryEnd size); secureSlots; place n.hash n.key n.payload size : Act Unit).run t := by
  unfold insert
  rw [Action.run_bind_of_ok (run_entryBytes hb),
    Action.run_bind_of_ok (Action.run_query_of_ok (f := fun t : Table => t.ensureRoom 1 size) hr)]

/-- an insertion that is admitted and given room succeeds, unless its end leaves the word -/
theorem insert_of_room {t : Table} {log : List Record} (h : t.Holds log) {n : Record} {size : Nat}
    (hb : t.entryBytes n.key.length n.payload.length = .ok size) (hr : t.ensureRoom 1 size = .ok ())
    (he : t.cursor + size < 2 ^ 64) :
    ∃ t', (insert n.hash n.key n.payload).run t = .ok () t' ∧ t'.Holds (log ++ [n]) ∧ t.Keeps t' ∧
      t'.capacity = t.capacityFor := by
  obtain ⟨rfl, hfits, hpinned⟩ := entryBytes_eq_ok hb
  have hcount : cappedAdd t.count 1 = t.count + 1 := by
    have := h.count_le
    have := h.cursor_le_maxBytes
    have := h.maxBytes_lt
    unfold cappedAdd
    omega
  have hreach : t.cursor + n.size ≤ t.maxBytes ∧ reach t.loadFactor (t.count + 1) t.capacity = .ok () := by
    rw [ensureRoom, hcount] at hr
    split_ifs at hr with hbudget
    refine ⟨?_, hr⟩
    unfold cappedAdd at hbudget
    omega
  obtain ⟨t₁, hsecure₁, h₁, hk₁, hc₁, hn₁, hu₁, hs₁⟩ := secureRegion_holds h (Nat.le_add_right _ _) hreach.1
  obtain ⟨t₂, hsecure₂, h₂, hk₂, hc₂, -, hu₂, hs₂⟩ :=
    secureSlots_holds h₁ (by rw [hk₁.loadFactor, hn₁, hc₁]; exact hreach.2)
  obtain ⟨t₃, hplace, h₃, hk₃, hc₃⟩ := place_holds h₂ hfits
    (by rw [hk₂.keySize, hk₁.keySize]; exact hpinned) (by rw [hu₂, hu₁, hs₂]; exact hs₁)
  refine ⟨t₃, ?_, h₃, (hk₁.trans hk₂).trans hk₃, ?_⟩
  · have hend : (entryEnd n.size).run t = .ok (t.cursor + n.size) t := by rw [run_entryEnd, if_pos he]
    rw [insert_eq hb hr, Action.run_bind_of_ok hend, Action.run_bind_of_ok hsecure₁, Action.run_bind_of_ok hsecure₂]
    exact hplace
  · rw [hc₃, hc₂, capacityFor, capacityFor, hk₁.loadFactor, hn₁, hc₁]

theorem insert_of_entryBytes_error {t : Table} {n : Record} {e : TableError}
    (h : t.entryBytes n.key.length n.payload.length = .error e) :
    (insert n.hash n.key n.payload).run t = .error (.refused e) t := by
  unfold insert
  exact Action.run_bind_of_error (Action.run_query_of_error h)

theorem insert_of_ensureRoom_error {t : Table} {n : Record} {size : Nat} {e : TableError}
    (hb : t.entryBytes n.key.length n.payload.length = .ok size) (hr : t.ensureRoom 1 size = .error e) :
    (insert n.hash n.key n.payload).run t = .error (.refused e) t := by
  unfold insert
  rw [Action.run_bind_of_ok (run_entryBytes hb)]
  exact Action.run_bind_of_error (Action.run_query_of_error hr)

theorem insert_of_overflow {t : Table} {n : Record} {size : Nat}
    (hb : t.entryBytes n.key.length n.payload.length = .ok size) (hr : t.ensureRoom 1 size = .ok ())
    (he : 2 ^ 64 ≤ t.cursor + size) : (insert n.hash n.key n.payload).run t = .error .fault t := by
  rw [insert_eq hb hr]
  exact Action.run_bind_of_error (by rw [run_entryEnd, if_neg (by omega)])

/-- an insertion stores its record or leaves the table as it was -/
theorem insert_cases {t : Table} {log : List Record} (h : t.Holds log) (n : Record) :
    (∃ s, (insert n.hash n.key n.payload).run t = .error s t) ∨
      ∃ t', (insert n.hash n.key n.payload).run t = .ok () t' ∧ t'.Holds (log ++ [n]) ∧ t.Keeps t' := by
  cases hb : t.entryBytes n.key.length n.payload.length with
  | error e => exact Or.inl ⟨_, insert_of_entryBytes_error hb⟩
  | ok size =>
    cases hr : t.ensureRoom 1 size with
    | error e => exact Or.inl ⟨_, insert_of_ensureRoom_error hb hr⟩
    | ok u =>
      by_cases he : t.cursor + size < 2 ^ 64
      · obtain ⟨t', hi, h', hk, -⟩ := insert_of_room h hb hr he
        exact Or.inr ⟨t', hi, h', hk⟩
      · exact Or.inl ⟨_, insert_of_overflow hb hr (by omega)⟩

/-- growing keeps the log, whether the capacity could be doubled or not -/
theorem grow_cases {t : Table} {log : List Record} (h : t.Holds log) :
    (∃ e, grow.run t = .error (.refused e) t) ∨ ∃ t', grow.run t = .ok () t' ∧ t'.Holds log ∧ t.Keeps t' := by
  cases hd : double t.capacity with
  | error e => exact Or.inl ⟨e, by simp only [grow, EStateM.run, hd]⟩
  | ok capacity =>
    obtain ⟨t', hg, h', hk, -⟩ := grow_of_double h hd
    exact Or.inr ⟨t', hg, h', hk⟩

end EquiJoin.Table
