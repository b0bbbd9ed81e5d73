/-
What the memory of a table looks like to someone who knows the format and nothing else. Two readers are written down:
`entriesFrom` goes through the region entry by entry, by the size of each, and `Visits` follows the links of a chain as
they stand. Neither of them trusts anything: a reader that comes to bytes which are no entry, or past the end, has no
result.

* `placed`: the entries of an image, each at its offset and with its link;
* `entriesFrom_image`: the reader by sizes finds them, in the order of insertion;
* `leads_bucket`: the reader by links finds those of one slot, from the first word of the slot to the second one;
* `wellFormed_of_holds`, `wellFormed_of_logged`: on every table both readers agree, and whatever is no entry is zero.
-/
import EquiJoin.Proofs.Table.Attach
import EquiJoin.Proofs.Table.Reachable

namespace EquiJoin

/-! ## Readers -/

/-- the entries from `off` on, one behind the other, each with its offset; none if one of them does not decode or the
last one does not end at `stop` -/
def entriesFrom (r : Region) (stop off : Nat) : Option (List (Nat × Entry)) :=
  if off < stop then
    match Entry.decode? r off with
    | none => none
    | some e => (entriesFrom r stop (off + e.encodedSize)).map ((off, e) :: ·)
  else if off = stop then some [] else none
termination_by stop - off
decreasing_by
  have : 24 ≤ e.encodedSize := by simp only [Entry.encodedSize, Entry.size, Entry.alignUp, Entry.headerSize]; omega
  omega

/-- the links from `link` on lead through these entries, each at its offset, and there the chain ends -/
inductive Visits (r : Region) : Link → List (Nat × Entry) → Prop where
  | stop : Visits r allOnes []
  | next {link : Link} {e : Entry} {es : List (Nat × Entry)} (hlink : link ≠ allOnes)
      (hdecode : Entry.decode? r link.toNat = some e) (hrest : Visits r e.next es) :
      Visits r link ((link.toNat, e) :: es)

/-- a slot is empty, or its first word leads through these entries and its second word names the last of them -/
inductive Slot.Leads (r : Region) : Slot → List (Nat × Entry) → Prop where
  | empty : Leads r Slot.empty []
  | chain {slot : Slot} {es : List (Nat × Entry)} {last : Nat × Entry} (hvisits : Visits r slot.head es)
      (hlast : es.getLast? = some last) (htail : slot.tail.toNat = last.1) (hend : last.2.next = allOnes) :
      Leads r slot es

/-- what an entry stores, without its link -/
def Entry.record (e : Entry) : Record := ⟨e.hash, e.key, e.payload⟩

/-! ## The entries of an image -/

/-- the entries of records in their places, linked bucket by bucket -/
def placed (mask : UInt64) : List (Nat × Record) → List (Nat × Entry)
  | [] => []
  | p :: ps => (p.1, p.2.entry (linkTo (bucket mask (p.2.slot mask) ps).head?)) :: placed mask ps

theorem offsets_placed (mask : UInt64) (ps : List (Nat × Record)) :
    (placed mask ps).map Prod.fst = ps.map Prod.fst := by
  induction ps with
  | nil => rfl
  | cons p ps ih => rw [placed, List.map_cons, List.map_cons, ih]

theorem records_placed (mask : UInt64) (off : Nat) (ns : List Record) :
    (placed mask (layout off ns)).map (fun p => p.2.record) = ns := by
  induction ns generalizing off with
  | nil => rfl
  | cons n ns ih =>
    rw [layout, placed, List.map_cons, ih]
    rfl

/-- the entries of one slot are those of its bucket, each linked with the next -/
theorem filter_placed (mask : UInt64) (b : Nat) (ps : List (Nat × Record)) :
    ((placed mask ps).filter fun p => Slot.index mask p.2.hash = b) = linked (bucket mask b ps) := by
  induction ps with
  | nil => rfl
  | cons p ps ih =>
    have hslot : Slot.index mask (p.2.entry (linkTo (bucket mask (p.2.slot mask) ps).head?)).hash = p.2.slot mask :=
      (p.2.slot_eq mask).symm
    rw [placed]
    by_cases hb : p.2.slot mask = b
    · rw [List.filter_cons_of_pos (by simpa only [hslot, decide_eq_true_eq] using hb), ih, bucket_cons_of_eq hb, linked,
        hb]
    · rw [List.filter_cons_of_neg (by simpa only [hslot, decide_eq_true_eq] using hb), ih, bucket_cons_of_ne hb]

/-- every entry stands somewhere in the image, with its padding behind it -/
theorem image_of_mem_placed {mask : UInt64} {off : Nat} {ns : List Record} {q : Nat × Entry}
    (h : q ∈ placed mask (layout off ns)) :
    ∃ n ∈ ns, ∃ next pre post, q = (off + pre.length, n.entry next) ∧
      image mask (layout off ns) = pre ++ (n.image next ++ post) := by
  induction ns generalizing off with
  | nil => cases h
  | cons n ns ih =>
    rw [layout, placed, List.mem_cons] at h
    rw [layout, image]
    set first := linkTo (bucket mask (n.slot mask) (layout (off + n.size) ns)).head?
    rcases h with rfl | h
    · exact ⟨n, List.mem_cons_self, first, [], _, rfl, rfl⟩
    · obtain ⟨m, hm, next, pre, post, rfl, himage⟩ := ih h
      refine ⟨m, List.mem_cons_of_mem n hm, next, n.image first ++ pre, post, ?_, ?_⟩
      · rw [List.length_append, Record.length_image, Nat.add_assoc]
      · rw [himage, List.append_assoc]

section Region

variable {mask : UInt64} {r : Region} {ns : List Record} {rest : Bytes} {q : Nat × Entry}

/-- every entry of an image decodes -/
theorem decode?_of_mem_placed (hr : r.toList = image mask (layout 0 ns) ++ rest) (hfits : ∀ n ∈ ns, n.Fits)
    (hq : q ∈ placed mask (layout 0 ns)) : Entry.decode? r q.1 = some q.2 := by
  obtain ⟨n, hn, next, pre, post, rfl, himage⟩ := image_of_mem_placed hq
  have hcut : r.toList = pre ++ (n.image next ++ (post ++ rest)) := by
    rw [hr, himage]
    simp only [List.append_assoc]
  rw [Nat.zero_add]
  exact decode?_image (hfits n hn) hcut

/-- the bytes between the payload of an entry and the next entry are zero -/
theorem padding_of_mem_placed (hr : r.toList = image mask (layout 0 ns) ++ rest)
    (hq : q ∈ placed mask (layout 0 ns)) {i : Nat} (hlo : q.1 + Entry.bareSize q.2.key q.2.payload ≤ i)
    (hhi : i < q.1 + q.2.encodedSize) : r[i]? = some 0 := by
  obtain ⟨n, -, next, pre, post, rfl, himage⟩ := image_of_mem_placed hq
  have hcut : r.toList = (pre ++ (n.entry next).encode) ++ (n.padding ++ (post ++ rest)) := by
    rw [hr, himage, Record.image]
    simp only [List.append_assoc]
  have hlo : pre.length + (n.entry next).encode.length ≤ i := by
    rw [Entry.length_encode]
    simpa using hlo
  have hhi : i < pre.length + n.size := by
    rw [Nat.zero_add] at hhi
    exact hhi
  have hbare : (n.entry next).encode.length = Entry.bareSize n.key n.payload := Entry.length_encode _
  have hlength : n.padding.length = n.size - Entry.bareSize n.key n.payload := List.length_replicate
  rw [← Array.getElem?_toList, hcut, List.getElem?_append_right (by rwa [List.length_append]), List.length_append,
    List.getElem?_append_left (by omega), Record.padding, List.getElem?_replicate, if_pos (by omega)]

/-- going through an image by sizes finds its entries, in the order of the records -/
theorem entriesFrom_image (ns : List Record) (hfits : ∀ n ∈ ns, n.Fits) {pre post : Bytes}
    (h : r.toList = pre ++ (image mask (layout pre.length ns) ++ post)) :
    entriesFrom r (pre.length + total ns) pre.length = some (placed mask (layout pre.length ns)) := by
  induction ns generalizing pre with
  | nil =>
    rw [total_nil, Nat.add_zero, entriesFrom, if_neg (Nat.lt_irrefl _), if_pos rfl]
    rfl
  | cons n ns ih =>
    -- the first entry is read, and its bytes join those before; its link leads to a later one and is not looked at
    have hn24 : 24 ≤ n.size := n.headerSize_le_size
    rw [layout, image] at h
    set first := linkTo (bucket mask (n.slot mask) (layout (pre.length + n.size) ns)).head?
    have hdecode : Entry.decode? r pre.length = some (n.entry first) :=
      decode?_image (hfits n List.mem_cons_self) (by rw [h, List.append_assoc])
    have hlen : (pre ++ n.image first).length = pre.length + n.size := by
      rw [List.length_append, Record.length_image]
    have hrest : entriesFrom r (pre.length + n.size + total ns) (pre.length + n.size) =
        some (placed mask (layout (pre.length + n.size) ns)) := by
      have htail : r.toList =
          pre ++ n.image first ++ (image mask (layout (pre ++ n.image first).length ns) ++ post) := by
        rw [h, hlen]
        simp only [List.append_assoc]
      have := ih (fun m hm => hfits m (List.mem_cons_of_mem n hm)) htail
      rwa [hlen] at this
    have hencoded : (n.entry first).encodedSize = n.size := rfl
    rw [entriesFrom, if_pos (by rw [total_cons]; omega), hdecode]
    simp only [hencoded]
    rw [total_cons, ← Nat.add_assoc, hrest, layout, placed]
    rfl

end Region

/-! ## The entries of one slot -/

theorem getLast?_linked (ps : List (Nat × Record)) :
    (linked ps).getLast? = ps.getLast?.map fun p => (p.1, p.2.entry allOnes) := by
  induction ps with
  | nil => rfl
  | cons p ps ih =>
    rw [linked, List.getLast?_cons, List.getLast?_cons, ih]
    cases ps with
    | nil => rfl
    | cons q qs => simp [List.getLast?_cons]

/-- the links of a bucket lead through its entries -/
theorem visits_linked {r : Region} {ps : List (Nat × Record)} (hplace : ∀ p ∈ ps, p.1 + 24 ≤ 2 ^ 64)
    (hdecode : ∀ q ∈ linked ps, Entry.decode? r q.1 = some q.2) : Visits r (linkTo ps.head?) (linked ps) := by
  induction ps with
  | nil => exact .stop
  | cons p ps ih =>
    -- an offset that leaves room for a header is not the word that ends the chain
    have hp : p.1 + 24 ≤ 2 ^ 64 := hplace p List.mem_cons_self
    have hto : (UInt64.ofNat p.1).toNat = p.1 := by rw [UInt64.toNat_ofNat', Nat.mod_eq_of_lt (by omega)]
    have hrest : Visits r (linkTo ps.head?) (linked ps) :=
      ih (fun q hq => hplace q (List.mem_cons_of_mem p hq)) fun q hq => hdecode q (List.mem_cons_of_mem _ hq)
    have hfirst : Entry.decode? r (UInt64.ofNat p.1).toNat = some (p.2.entry (linkTo ps.head?)) := by
      rw [hto]
      exact hdecode _ List.mem_cons_self
    have := Visits.next (ofNat_ne_allOnes hp) hfirst hrest
    rwa [hto] at this

/-- a slot that holds the first and the last record of a bucket leads through its entries -/
theorem leads_bucket {r : Region} {ps : List (Nat × Record)} (hplace : ∀ p ∈ ps, p.1 + 24 ≤ 2 ^ 64)
    (hdecode : ∀ q ∈ linked ps, Entry.decode? r q.1 = some q.2) :
    Slot.Leads r ⟨linkTo ps.head?, linkTo ps.getLast?⟩ (linked ps) := by
  cases hlast : ps.getLast? with
  | none =>
    rw [List.getLast?_eq_none_iff] at hlast
    subst hlast
    exact .empty
  | some p =>
    have hp := hplace p (List.mem_of_getLast? hlast)
    have hend : (linked ps).getLast? = some (p.1, p.2.entry allOnes) := by
      rw [getLast?_linked, hlast]
      rfl
    have hplace' : (UInt64.ofNat p.1).toNat = p.1 := by rw [UInt64.toNat_ofNat', Nat.mod_eq_of_lt (by omega)]
    exact .chain (visits_linked hplace hdecode) hend hplace' rfl

/-! ## Places -/

theorem pairwise_layout (off : Nat) (ns : List Record) : ((layout off ns).map Prod.fst).Pairwise (· < ·) := by
  induction ns generalizing off with
  | nil => exact .nil
  | cons n ns ih =>
    have hn24 : 24 ≤ n.size := n.headerSize_le_size
    rw [layout, List.map_cons]
    refine .cons (fun place hplace => ?_) (ih _)
    obtain ⟨p, hp, rfl⟩ := List.mem_map.1 hplace
    have := (bounds_of_mem_layout hp).1
    show off < p.1
    omega

/-- all sizes are multiples of eight -/
theorem aligned_of_mem_layout {off : Nat} {ns : List Record} (hoff : off % 8 = 0) {p : Nat × Record}
    (h : p ∈ layout off ns) : p.1 % 8 = 0 := by
  induction ns generalizing off with
  | nil => cases h
  | cons n ns ih =>
    rcases List.mem_cons.1 h with rfl | h
    · exact hoff
    · refine ih ?_ h
      unfold Record.size Entry.size Entry.alignUp
      omega

theorem aligned_of_mem_placed {mask : UInt64} {ns : List Record} {q : Nat × Entry}
    (h : q ∈ placed mask (layout 0 ns)) : q.1 % 8 = 0 := by
  have hoff : q.1 ∈ (placed mask (layout 0 ns)).map Prod.fst := List.mem_map_of_mem h
  rw [offsets_placed] at hoff
  obtain ⟨p, hp, hpq⟩ := List.mem_map.1 hoff
  exact hpq ▸ aligned_of_mem_layout rfl hp

namespace Table

variable {t : Table} {log : List Record}

/-! ## Tables -/

/-- the memory of a table, read without trust, holds exactly these entries in this order -/
structure WellFormed (t : Table) (es : List (Nat × Entry)) : Prop where
  /-- one behind the other, the entries fill the region up to the cursor -/
  entries : entriesFrom t.region t.cursor 0 = some es
  count : t.count = es.length
  capacity : t.capacity.isPowerOfTwo
  words : (Slot.words t.slots).length = 2 * t.capacity
  /-- every slot leads through the entries that the masked hash sends there, and through no others -/
  slots : ∀ b < t.capacity, ∃ slot, t.slots[b]? = some slot ∧
    slot.Leads t.region (es.filter fun p => p.2.hash.toNat &&& (t.capacity - 1) = b)
  increasing : (es.map Prod.fst).Pairwise (· < ·)
  aligned : ∀ p ∈ es, p.1 % 8 = 0
  cursor_le : t.cursor ≤ t.region.size
  size_le : t.region.size ≤ t.maxBytes
  /-- between an entry and the next one there are zeros -/
  padding : ∀ p ∈ es, ∀ i, p.1 + Entry.bareSize p.2.key p.2.payload ≤ i → i < p.1 + p.2.encodedSize →
    t.region[i]? = some 0
  /-- and so there are from the cursor on -/
  unused : ∀ i, t.cursor ≤ i → i < t.region.size → t.region[i]? = some 0
  pinned : ∀ width ∈ t.keySize, ∀ p ∈ es, p.2.key.length = width

/-- the mask is one less than the capacity, as a number too -/
theorem index_mask (h : t.Holds log) (hash : UInt64) :
    Slot.index t.mask hash = hash.toNat &&& (t.capacity - 1) := by
  have hlt := h.capacity_lt
  rw [Slot.index, mask, UInt64.toNat_and, UInt64.toNat_ofNat', Nat.mod_eq_of_lt (by omega)]

/-- going through the region by sizes finds the log and ends at the cursor -/
theorem entriesFrom_of_holds (h : t.Holds log) :
    entriesFrom t.region t.cursor 0 = some (placed t.mask (layout 0 log)) := by
  have hregion : t.region.toList = [] ++ (image t.mask (layout ([] : Bytes).length log) ++
      List.replicate (t.region.size - t.cursor) 0) := h.region
  have := entriesFrom_image log h.fits hregion
  simpa [h.cursor] using this

/-- every slot leads through the entries of its bucket -/
theorem leads_of_holds (h : t.Holds log) {b : Nat} (hb : b < t.capacity) :
    ∃ slot, t.slots[b]? = some slot ∧
      slot.Leads t.region
        ((placed t.mask (layout 0 log)).filter fun p => p.2.hash.toNat &&& (t.capacity - 1) = b) := by
  have hslot : t.slots[b]? = some ⟨linkTo (bucket t.mask b (layout 0 log)).head?,
      linkTo (bucket t.mask b (layout 0 log)).getLast?⟩ := by
    rw [h.slots]
    exact getElem?_slotArray hb _
  refine ⟨_, hslot, ?_⟩
  simp only [← index_mask h]
  rw [filter_placed]
  refine leads_bucket (fun p hp => ?_) fun q hq => ?_
  · have hplace := bounds_of_mem_layout (mem_of_mem_bucket hp)
    have hsize : 24 ≤ p.2.size := p.2.headerSize_le_size
    have hcursor := h.cursor
    have hbudget := h.cursor_le_maxBytes
    have hmax := h.maxBytes_lt
    omega
  · rw [← filter_placed] at hq
    exact decode?_of_mem_placed h.region h.fits (List.mem_filter.1 hq).1

/-- the bytes from the cursor on are zero -/
theorem unused_of_holds (h : t.Holds log) {i : Nat} (hlo : t.cursor ≤ i) (hhi : i < t.region.size) :
    t.region[i]? = some 0 := by
  have hbehind : (image t.mask (layout 0 log)).length ≤ i := by rwa [length_image, ← h.cursor]
  rw [← Array.getElem?_toList, h.region, List.getElem?_append_right hbehind, length_image, ← h.cursor,
    List.getElem?_replicate, if_pos (by omega)]

/-- reading the image of a log gives back the log -/
theorem wellFormed_of_holds (h : t.Holds log) : t.WellFormed (placed t.mask (layout 0 log)) where
  entries := entriesFrom_of_holds h
  count := by
    have hlength := congrArg List.length (records_placed t.mask 0 log)
    rw [List.length_map] at hlength
    rw [h.count, hlength]
  capacity := h.capacity_pow
  words := by rw [Slot.length_words, h.slots, size_slotArray]
  slots _ hb := leads_of_holds h hb
  increasing := by
    rw [offsets_placed]
    exact pairwise_layout 0 log
  aligned _ hq := aligned_of_mem_placed hq
  cursor_le := h.cursor_le
  size_le := h.size_le
  padding _ hq _ hlo hhi := padding_of_mem_placed h.region hq hlo hhi
  unused _ hlo hhi := unused_of_holds h hlo hhi
  pinned width hwidth q hq := by
    obtain ⟨n, hn, next, pre, post, rfl, -⟩ := image_of_mem_placed hq
    exact h.pinned n hn width hwidth

/-- **The representation invariant.** Take any table that insertions, successful or not, and growths have led to. Its
region decodes, from the start by the size of each entry, into as many entries as were inserted; they end at the cursor
and hold what the successful insertions stored, in their order. The capacity is a power of two, with two words of slots
for each unit of it, and every slot is empty or its links lead, further and further on through multiples of eight, to
exactly the entries that the masked hash sends there, from its first word to its last, where the chain ends. The
region is within the budget, the bytes that belong to no entry are zero, and pinned keys have their width. -/
theorem wellFormed_of_logged (h : t.Logged log) :
    ∃ es, t.WellFormed es ∧ es.map (fun p => p.2.record) = log :=
  ⟨_, wellFormed_of_holds h.holds, records_placed t.mask 0 log⟩

/-- what `smallCalls` store -/
def smallLog : List Record :=
  [⟨4, [1], [7]⟩, ⟨4, [2], [8]⟩, ⟨6, [1], [9]⟩, ⟨4, [1], [3, 0, 0, 0, 5, 0, 0, 0]⟩, ⟨4, [1], [10]⟩]

theorem create_small : create smallConfig = .ok smallTable := by decide +kernel

theorem logged_small : (run smallTable smallCalls).Logged smallLog := by
  have hlog : accepted smallTable smallCalls = smallLog := by decide +kernel
  have := logged_run (.create create_small) smallCalls
  rwa [List.nil_append, hlog] at this

/-- after growths on request and for load, an enlarged region, and an insertion that was refused -/
theorem wellFormed_of_logged_small :
    ∃ es, (run smallTable smallCalls).WellFormed es ∧ es.map (fun p => p.2.record) = smallLog :=
  wellFormed_of_logged logged_small

end Table

end EquiJoin
