/-
Probing memory of unknown origin. The regions of a view may hold any bytes at all: heads and links that lead nowhere or
back, lengths that run past the end, entries that overlap. `Matches.checkedCalls` reads them with every access checked
and a record of the entries that it examines, and always has an outcome; here is what these entries are.

* `within_of_tryDecode?`: an entry that is read is the one that the header at its place declares;
* `pairwise_chain`, `within_of_mem_chain`, `length_chain_le`: the examined entries lie in the region, further and
  further on, so there are no more of them than the region has bytes;
* `answers_eq`: call after call, a walk answers its payloads one by one and nothing from then on;
* `probe_of_shaped`: all of this for a view whose slot array has the size that its capacity asks for, and
  `shaped_of_attach`: every view that was attached is one.
-/
import EquiJoin.Proofs.Table.Attach

namespace EquiJoin

/-! ## The decoder -/

namespace Entry

/-- the entry lies at this place, all of it inside the region: its header says so, and its key and its payload are the
slices of the region behind the header -/
structure Within (r : Region) (off : Nat) (e : Entry) : Prop where
  fits : off + headerSize + e.key.length + e.payload.length ≤ r.size
  next : r.number 8 off = e.next.toNat
  hash : r.number 8 (off + 8) = e.hash.toNat
  keyLength : r.number 4 (off + 16) = e.key.length
  payloadLength : r.number 4 (off + 20) = e.payload.length
  key : r.slice (off + headerSize) e.key.length = e.key
  payload : r.slice (off + headerSize + e.key.length) e.payload.length = e.payload

theorem length_slice {r : Region} {off n : Nat} (h : off + n ≤ r.size) : (r.slice off n).length = n :=
  (Region.slice?_eq_some (Region.slice?_of_le h)).2.1

/-- a word of eight bytes is the number that it spells -/
theorem toNat_word (r : Region) (off : Nat) : (UInt64.ofNat (r.number 8 off)).toNat = r.number 8 off := by
  have hlength : (r.slice off 8).length ≤ 8 := by
    simp only [Region.slice, Array.length_toList, Array.size_extract]
    omega
  have hpow : 1 <<< (8 * (r.slice off 8).length) ≤ 1 <<< 64 := by
    rw [Nat.one_shiftLeft, Nat.one_shiftLeft]
    exact Nat.pow_le_pow_right (by omega) (by omega)
  have hlt : r.number 8 off < 1 <<< 64 := Nat.lt_of_lt_of_le (LittleEndian.decode_lt _) hpow
  exact UInt64.toNat_ofNat_of_lt' hlt

/-- the declared entry lies inside the region when it ends there -/
theorem within_declared {r : Region} {off : Nat} (h : stop r off ≤ r.size) : Within r off (declared r off) := by
  unfold stop at h
  have hkey : (declared r off).key.length = r.number 4 (off + 16) := length_slice (by omega)
  have hpayload : (declared r off).payload.length = r.number 4 (off + 20) := length_slice (by omega)
  exact {
    fits := by rw [hkey, hpayload]; exact h
    next := (toNat_word r off).symm
    hash := (toNat_word r (off + 8)).symm
    keyLength := hkey.symm
    payloadLength := hpayload.symm
    key := by rw [hkey]; rfl
    payload := by rw [hkey, hpayload]; rfl }

/-- an entry that the decoder accepts is the one that the header at its place declares -/
theorem within_of_tryDecode? {r : Region} {off : Nat} {e : Entry} (h : tryDecode? r off = some e) : Within r off e := by
  rw [tryDecode?_eq] at h
  split_ifs at h with hstop
  cases h
  exact within_declared hstop.1

end Entry

/-! ## The walk -/

/-- the examined entries lie in the region -/
theorem within_of_mem_chain {r : Region} {link : Link} {p : Nat × Entry} (h : p ∈ chain r link) :
    p.2.Within r p.1 := by
  fun_induction chain r link with
  | case1 => cases h
  | case2 => cases h
  | case3 link hne e hdecode ih =>
    rcases List.mem_cons.1 h with rfl | h
    · exact Entry.within_of_tryDecode? hdecode
    · exact ih h

/-- and none of them lies before the link that the walk begins with -/
theorem le_of_mem_chain {r : Region} {link : Link} {p : Nat × Entry} (h : p ∈ chain r link) : link.toNat ≤ p.1 := by
  fun_induction chain r link with
  | case1 => cases h
  | case2 => cases h
  | case3 link hne e hdecode ih =>
    rcases List.mem_cons.1 h with rfl | h
    · exact Nat.le_refl _
    · have hforward := UInt64.lt_iff_toNat_lt.1 (Link.forward_gt hne e.next)
      have := ih h
      omega

/-- a walk examines entries further and further on -/
theorem pairwise_chain (r : Region) (link : Link) : ((chain r link).map Prod.fst).Pairwise (· < ·) := by
  fun_induction chain r link with
  | case1 => exact .nil
  | case2 => exact .nil
  | case3 link hne e hdecode ih =>
    rw [List.map_cons]
    refine .cons (fun off hoff => ?_) ih
    obtain ⟨p, hp, rfl⟩ := List.mem_map.1 hoff
    exact Nat.lt_of_lt_of_le (UInt64.lt_iff_toNat_lt.1 (Link.forward_gt hne e.next)) (le_of_mem_chain hp)

/-- strictly increasing numbers between two bounds are no more than lie between them -/
theorem length_le_of_pairwise (lo hi : Nat) {offs : List Nat} (h : offs.Pairwise (· < ·))
    (hb : ∀ off ∈ offs, lo ≤ off ∧ off < hi) : offs.length ≤ hi - lo := by
  induction offs generalizing lo with
  | nil => exact Nat.zero_le _
  | cons off offs ih =>
    obtain ⟨hlt, hrest⟩ := List.pairwise_cons.1 h
    have hoff := hb off List.mem_cons_self
    have := ih (off + 1) hrest fun x hx => ⟨hlt x hx, (hb x (List.mem_cons_of_mem off hx)).2⟩
    rw [List.length_cons]
    omega

/-- a walk examines at most as many entries as the region has bytes -/
theorem length_chain_le (r : Region) (link : Link) : (chain r link).length ≤ r.size := by
  have hinside : ∀ off ∈ (chain r link).map Prod.fst, 0 ≤ off ∧ off < r.size := by
    intro off hoff
    obtain ⟨p, hp, rfl⟩ := List.mem_map.1 hoff
    have := (within_of_mem_chain hp).fits
    unfold Entry.headerSize at this
    omega
  simpa using length_le_of_pairwise 0 r.size (pairwise_chain r link) hinside

namespace Matches

/-! ## Call after call -/

/-- a walk that finds nothing has come to its end -/
theorem eq_allOnes_of_seek {r : Region} {hash : UInt64} {key : Bytes} {link after : Link}
    (h : seek r hash key link = (none, after)) : after = allOnes := by
  fun_induction seek r hash key link with
  | case1 => cases h; rfl
  | case2 => cases h; rfl
  | case3 => cases h
  | case4 link hne e hdecode hhit ih => exact ih h

/-- one call answers the first payload and leaves the others -/
theorem next?_eq (m : Matches) : m.next?.1 = m.toList.head? ∧ m.next?.2.toList = m.toList.tail := by
  have hnext : m.next?.2.toList = collect m.region m.hash m.key (seek m.region m.hash m.key m.link).2 := rfl
  rw [hnext, next?, toList, collect_of_seek m.region m.hash m.key m.link]
  rcases hseek : seek m.region m.hash m.key m.link with ⟨_ | payload, after⟩
  · refine ⟨rfl, ?_⟩
    rw [eq_allOnes_of_seek hseek, collect_of_seek, seek_eq_none (.inl rfl)]
    rfl
  · exact ⟨rfl, rfl⟩

/-- call after call, a walk answers its payloads one by one and nothing from then on -/
theorem answers_eq (n : Nat) (m : Matches) : m.answers n = (List.range n).map fun i => m.toList[i]? := by
  induction n generalizing m with
  | zero => rfl
  | succ n ih =>
    obtain ⟨hfirst, hrest⟩ := m.next?_eq
    rw [answers, ih, hfirst, hrest, List.range_succ_eq_map, List.map_cons, List.map_map, List.head?_eq_getElem?]
    refine congrArg _ (List.map_congr_left fun i _ => ?_)
    rw [List.getElem?_tail]
    rfl

/-- the payloads that are answered are the first ones of the walk -/
theorem filterMap_answers (n : Nat) (m : Matches) : (m.answers n).filterMap id = m.toList.take n := by
  induction n generalizing m with
  | zero => rfl
  | succ n ih =>
    obtain ⟨hfirst, hrest⟩ := m.next?_eq
    rw [answers, List.filterMap_cons, ih, hfirst, hrest]
    cases m.toList with
    | nil => simp
    | cons payload payloads => rfl

/-- a walk has no more payloads than its region has bytes -/
theorem length_toList_le (m : Matches) : m.toList.length ≤ m.region.size := by
  rw [toList, collect_eq_chain, List.length_map]
  exact Nat.le_trans (List.length_filter_le _ _) (length_chain_le m.region m.link)

theorem getElem?_answers {n i : Nat} (h : i < n) (m : Matches) : (m.answers n)[i]? = some m.toList[i]? := by
  rw [answers_eq, List.getElem?_map, List.getElem?_range h]
  rfl

/-- after the first call without an answer there is none -/
theorem answers_ended {m : Matches} {n i j : Nat} (hij : i ≤ j) (hj : j < n) (h : (m.answers n)[i]? = some none) :
    (m.answers n)[j]? = some none := by
  rw [getElem?_answers (Nat.lt_of_le_of_lt hij hj), Option.some.injEq, List.getElem?_eq_none_iff] at h
  rw [getElem?_answers hj, List.getElem?_eq_none (Nat.le_trans h hij)]

/-- after as many calls as the region has bytes there is no answer any more -/
theorem answers_end (m : Matches) : none ∈ m.answers (m.region.size + 1) := by
  refine List.mem_of_getElem? (i := m.region.size) ?_
  rw [getElem?_answers (Nat.lt_succ_self _), List.getElem?_eq_none m.length_toList_le]

end Matches

/-! ## Views -/

namespace View

/-- the capacity is a power of two and the slot array has two words for each unit of it; nothing is asked of the words
or of the region -/
structure Shaped (v : View) : Prop where
  capacity : v.header.capacity.toNat.isPowerOfTwo
  slots : (Slot.words v.slots).length = 2 * v.header.capacity.toNat

/-- every hash picks a slot that exists -/
theorem index_lt_of_shaped {v : View} (hv : v.Shaped) (hash : UInt64) :
    Slot.index v.header.mask hash < v.slots.size := by
  have hsize : v.slots.size = v.header.capacity.toNat := by
    have := hv.slots
    rw [Slot.length_words] at this
    omega
  obtain ⟨k, hk⟩ := hv.capacity
  have hpos : 0 < v.header.capacity.toNat := hk ▸ Nat.two_pow_pos k
  have hone : (1 : UInt64) ≤ v.header.capacity := UInt64.le_iff_toNat_le.2 hpos
  have hmask : v.header.mask.toNat = v.header.capacity.toNat - 1 := UInt64.toNat_sub_of_le _ _ hone
  have hand : (hash.toNat &&& v.header.mask.toNat) ≤ v.header.mask.toNat := Nat.and_le_right
  rw [Slot.index, UInt64.toNat_and]
  omega

/-- the walk under a hash and a key begins in a slot that exists -/
theorem matches?_of_shaped {v : View} (hv : v.Shaped) (hash : UInt64) (key : Bytes) :
    ∃ link, v.matches? hash key = some ⟨v.bytes, hash, key, link⟩ := by
  rw [matches?, Array.getElem?_eq_getElem (index_lt_of_shaped hv hash)]
  split_ifs
  · exact ⟨_, rfl⟩
  · exact ⟨_, rfl⟩

/-- every view that was attached has the right shape, and its region has as many bytes as its cursor says -/
theorem shaped_of_attach {handles : List Extent} {v : View} (h : attach handles = .ok v) :
    v.Shaped ∧ v.bytes.size = v.header.cursor.toNat := by
  have hv := valid_of_attach h
  exact ⟨⟨(Header.check_eq_ok_iff.1 hv.check).capacity, by rw [Slot.length_words, hv.slots]⟩, hv.bytes⟩

/-- **Probing foreign memory is safe and ends.** Take any view whose slot array has the size that its capacity asks for,
whatever its words and its region hold, and any hash and key. The slot exists. However often the next payload is asked
for, no access leaves the region, and the entries examined by all calls together lie in it, further and further on, so
there are at most as many as it has bytes, which for an attached view is its cursor. What is answered belongs to one of
them that carries the hash and the key, and is the slice of the region behind that key; once there is no answer, there
is none later, and this point comes. Looking up and asking whether anything is stored are such calls. -/
theorem probe_of_shaped {v : View} (hv : v.Shaped) (hash : UInt64) (key : Bytes) :
    ∃ m, v.matches? hash key = some m ∧
      (∀ n, ∃ seen, m.checkedCalls n = some (seen, m.answers n) ∧
        (seen.map Prod.fst).Pairwise (· < ·) ∧ (∀ p ∈ seen, p.2.Within v.bytes p.1) ∧ seen.length ≤ v.bytes.size ∧
        ∀ payload, some payload ∈ m.answers n →
          ∃ p ∈ seen, p.2.hash = hash ∧ p.2.key = key ∧ p.2.payload = payload) ∧
      (∀ n i j, i ≤ j → j < n → (m.answers n)[i]? = some none → (m.answers n)[j]? = some none) ∧
      none ∈ m.answers (v.bytes.size + 1) ∧
      v.exists? hash key = some ((m.answers 1).any Option.isSome) ∧
      (∀ out, ∃ found, v.lookup? hash key out = some (!found.isEmpty, out ++ found) ∧
        found = ((m.answers (v.bytes.size + 1)).filterMap id).filterMap Location.decode?) ∧
      ∀ handles, attach handles = .ok v → v.bytes.size = v.header.cursor.toNat := by
  obtain ⟨link, hm⟩ := matches?_of_shaped hv hash key
  refine ⟨_, hm, fun n => ?_, fun n i j => Matches.answers_ended, Matches.answers_end _, ?_, fun out => ?_,
    fun handles h => (shaped_of_attach h).2⟩
  · obtain ⟨seen, hcalls, hinitial, hfound⟩ := Matches.checkedCalls_eq n ⟨v.bytes, hash, key, link⟩
    refine ⟨seen, hcalls, (pairwise_chain v.bytes link).sublist (hinitial.sublist.map _),
      fun p hp => within_of_mem_chain (hinitial.subset hp),
      Nat.le_trans hinitial.length_le (length_chain_le v.bytes link), fun payload hpayload => ?_⟩
    obtain ⟨p, hp, hhit, hpayload⟩ := hfound payload hpayload
    rw [Matches.hit, Bool.and_eq_true] at hhit
    exact ⟨p, hp, eq_of_beq hhit.1, eq_of_beq hhit.2, hpayload⟩
  · rw [exists?, hm]
    simp [Matches.answers]
  · refine ⟨_, by rw [lookup?, hm]; rfl, ?_⟩
    rw [Matches.filterMap_answers, List.take_of_length_le]
    exact Nat.le_succ_of_le (Matches.length_toList_le _)

/-- two entries that link to each other, the second at no multiple of eight, and a slot that leads past the end -/
def forged : View where
  header := { Header.new 2 52 none with cursor := 52 }
  slots := #[⟨50, 3⟩, ⟨0, 7⟩]
  bytes := (Entry.encode ⟨26, 5, [7], [9]⟩ ++ Entry.encode ⟨0, 5, [7], [8]⟩).toArray

theorem probe_of_shaped_forged :
    forged.Shaped ∧ ∃ m, forged.matches? 5 [7] = some m ∧ m.answers 3 = [some [9], some [8], none] ∧
      (∃ seen, m.checkedCalls 3 = some (seen, m.answers 3) ∧ seen.length ≤ 52) ∧ none ∈ m.answers 53 := by
  have hshaped : forged.Shaped := ⟨⟨1, rfl⟩, rfl⟩
  have hm : forged.matches? 5 [7] = some ⟨forged.bytes, 5, [7], 0⟩ := rfl
  obtain ⟨m, hm', hcalls, -, hend, -⟩ := probe_of_shaped hshaped 5 [7]
  cases hm.symm.trans hm'
  have hanswers : (Matches.mk forged.bytes 5 [7] 0).answers 3 = [some [9], some [8], none] := by decide +kernel
  obtain ⟨seen, hseen, -, -, hlength, -⟩ := hcalls 3
  exact ⟨hshaped, _, hm, hanswers, ⟨seen, hseen, hlength⟩, hend⟩

end View

end EquiJoin
