/-
When an insertion is answered, why it is refused, and what it leaves behind. `Admits` lists what is asked of a record:
its key has the pinned width, its lengths fit the header of an entry, its bytes fit the budget, and some capacity that
doublings lead to serves one entry more. `Refuses` gives the first of these that fails, with the error that says so. An
insertion grows the region before it grows the slots, and only then writes; that it leaves no trace when it is refused
rests on the checks in front, which leave nothing that could fail once something has been changed.

* `Doubles`, `serves_or_ends`: the capacities that can be reached, and the two ways in which the search among them ends;
* `body_of_mem_placed`: the bytes of an entry behind its link, wherever the links lead;
* `stores_of_holds`: what one more record changes, and what it leaves alone;
* `insert_of_admits`, `insert_of_refuses`, `admits_or_refuses`: the outcomes, and that there is no other;
* `insert_iff_admits`: all of it, for every reachable table.
-/
import EquiJoin.Proofs.Table.Batch
import EquiJoin.Proofs.Table.Representation
import EquiJoin.Proofs.Table.Sizing

namespace EquiJoin.Table

variable {t t' : Table} {log : List Record} {n : Record} {lf : Binary64} {wanted capacity last : Nat} {e : TableError}

/-! ## The search for a capacity -/

/-- permitted doublings, zero or more, lead from one capacity to another -/
inductive Doubles : Nat → Nat → Prop where
  | here (capacity : Nat) : Doubles capacity capacity
  | twice {capacity next last : Nat} : double capacity = .ok next → Doubles next last → Doubles capacity last

/-- where a capacity that can be reached serves enough entries, the search finds one -/
theorem reach_of_doubles (hpos : 0 < capacity) (hd : Doubles capacity last) (hw : wanted ≤ threshold lf last) :
    reach lf wanted capacity = .ok () := by
  induction hd with
  | here => exact reach_of_le hw
  | twice hdouble _ ih =>
    obtain ⟨rfl, -⟩ := double_eq_ok hdouble
    exact reach_of_double hpos hdouble (ih (by omega) hw)

/-- where none of them does, it ends with the refusal of the last doubling -/
theorem reach_of_none (hpos : 0 < capacity) (hd : Doubles capacity last) (hlast : double last = .error e)
    (hnone : ∀ c, Doubles capacity c → threshold lf c < wanted) : reach lf wanted capacity = .error e := by
  induction hd with
  | here capacity =>
    obtain ⟨hover, rfl⟩ := double_eq_error_iff.1 hlast
    have hless := hnone capacity (.here capacity)
    rw [reach, if_neg (Nat.not_le_of_lt hless), dif_neg (by omega)]
  | @twice capacity next last hdouble _ ih =>
    obtain ⟨rfl, hroom⟩ := double_eq_ok hdouble
    have hless := hnone capacity (.here capacity)
    rw [reach, if_neg (Nat.not_le_of_lt hless), dif_pos ⟨hpos, by omega⟩]
    apply ih (by omega) hlast
    intro c hc
    exact hnone c (.twice hdouble hc)

/-- a capacity that can be reached serves enough entries, or none does and a last one cannot be doubled -/
theorem serves_or_ends (lf : Binary64) (wanted : Nat) (hpos : 0 < capacity) :
    (∃ last, Doubles capacity last ∧ wanted ≤ threshold lf last) ∨
      ∃ last, Doubles capacity last ∧ double last = .error (.capacityOverflow last) ∧
        ∀ c, Doubles capacity c → threshold lf c < wanted := by
  fun_induction reach lf wanted capacity with
  | case1 capacity hserved => exact Or.inl ⟨capacity, .here capacity, hserved⟩
  | case2 capacity hfull hroom ih =>
    have hdouble : double capacity = .ok (capacity * 2) := if_pos hroom.2
    rcases ih (by omega) with ⟨last, hlast, hserved⟩ | ⟨last, hlast, hover, hnone⟩
    · exact Or.inl ⟨last, .twice hdouble hlast, hserved⟩
    · refine Or.inr ⟨last, .twice hdouble hlast, hover, ?_⟩
      intro c hc
      cases hc with
      | here => exact Nat.lt_of_not_le hfull
      | twice hnext hc =>
        cases hdouble.symm.trans hnext
        exact hnone c hc
  | case3 capacity hfull hroom =>
    have hover : double capacity = .error (.capacityOverflow capacity) := if_neg fun h => hroom ⟨hpos, h⟩
    refine Or.inr ⟨capacity, .here capacity, hover, ?_⟩
    intro c hc
    cases hc with
    | here => exact Nat.lt_of_not_le hfull
    | twice hnext _ => cases hover.symm.trans hnext

/-! ## The conditions -/

/-- what is asked of a record before it is stored -/
structure Admits (t : Table) (n : Record) : Prop where
  pinned : ∀ k ∈ t.keySize, n.key.length = k
  fits : n.Fits
  budget : t.cursor + n.size ≤ t.maxBytes
  served : ∃ last, Doubles t.capacity last ∧ t.count + 1 ≤ threshold t.loadFactor last

/-- the first of these that fails, and the error that says so -/
inductive Refuses (t : Table) (n : Record) : TableError → Prop where
  | keySize {k : Nat} (hk : k ∈ t.keySize) (hne : n.key.length ≠ k) : Refuses t n (.keySizeMismatch k n.key.length)
  | tooLarge (hpinned : ∀ k ∈ t.keySize, n.key.length = k) (hlarge : ¬ n.Fits) :
      Refuses t n (.entryTooLarge (cappedAdd n.key.length n.payload.length))
  | budget (hpinned : ∀ k ∈ t.keySize, n.key.length = k) (hfits : n.Fits) (hover : t.maxBytes < t.cursor + n.size) :
      Refuses t n (.capacity (t.cursor + n.size) t.maxBytes)
  | slots {last : Nat} (hpinned : ∀ k ∈ t.keySize, n.key.length = k) (hfits : n.Fits)
      (hbudget : t.cursor + n.size ≤ t.maxBytes) (hlast : Doubles t.capacity last)
      (hover : double last = .error (.capacityOverflow last))
      (hnone : ∀ c, Doubles t.capacity c → threshold t.loadFactor c < t.count + 1) :
      Refuses t n (.capacityOverflow last)

theorem admits_or_refuses (hpos : 0 < t.capacity) (n : Record) : t.Admits n ∨ ∃ e, t.Refuses n e := by
  by_cases hpinned : ∀ k ∈ t.keySize, n.key.length = k
  · by_cases hfits : n.Fits
    · rcases Nat.lt_or_ge t.maxBytes (t.cursor + n.size) with hover | hbudget
      · exact Or.inr ⟨_, .budget hpinned hfits hover⟩
      · rcases serves_or_ends t.loadFactor (t.count + 1) hpos with hserved | ⟨last, hlast, hover, hnone⟩
        · exact Or.inl ⟨hpinned, hfits, hbudget, hserved⟩
        · exact Or.inr ⟨_, .slots hpinned hfits hbudget hlast hover hnone⟩
    · exact Or.inr ⟨_, .tooLarge hpinned hfits⟩
  · push Not at hpinned
    obtain ⟨k, hk, hne⟩ := hpinned
    exact Or.inr ⟨_, .keySize hk hne⟩

/-! ## The checks in front -/

theorem keySize_filter (hpinned : ∀ k ∈ t.keySize, n.key.length = k) :
    t.keySize.filter (· ≠ n.key.length) = none := by
  rw [Option.filter_eq_none_iff]
  intro k hk
  simp [hpinned k hk]

theorem entryBytes_of_fits (hpinned : ∀ k ∈ t.keySize, n.key.length = k) (hfits : n.Fits) :
    t.entryBytes n.key.length n.payload.length = .ok n.size := by
  have hkey := hfits.key_lt
  have hpayload := hfits.payload_lt
  rw [entryBytes, keySize_filter hpinned]
  simp only
  rw [if_neg (by omega)]
  rfl

theorem entryBytes_of_not_fits (hpinned : ∀ k ∈ t.keySize, n.key.length = k) (hlarge : ¬ n.Fits) :
    t.entryBytes n.key.length n.payload.length =
      .error (.entryTooLarge (cappedAdd n.key.length n.payload.length)) := by
  have hlengths : 1 <<< 32 ≤ n.key.length ∨ 1 <<< 32 ≤ n.payload.length := by
    by_contra hboth
    exact hlarge ⟨by omega, by omega⟩
  rw [entryBytes, keySize_filter hpinned]
  simp only
  rw [if_pos hlengths]

theorem entryBytes_of_keySize {k : Nat} (hk : k ∈ t.keySize) (hne : n.key.length ≠ k) :
    t.entryBytes n.key.length n.payload.length = .error (.keySizeMismatch k n.key.length) := by
  have hfilter : t.keySize.filter (· ≠ n.key.length) = some k := by
    rw [Option.mem_def.1 hk, Option.filter_some, if_pos (by simpa using Ne.symm hne)]
  rw [entryBytes, hfilter]

/-- in memory that an allocator can have given, an entry that its header can describe ends within a 64-bit word -/
theorem end_lt_of_allocatable (h : t.Holds log) (hfits : n.Fits) (hmemory : allocatable t.region.size = true) :
    t.cursor + n.size < 2 ^ 64 := by
  have hregion : t.region.size < 2 ^ 63 := of_decide_eq_true hmemory
  have hcursor := h.cursor_le
  have hkey := hfits.key_lt
  have hpayload := hfits.payload_lt
  unfold Record.size Entry.size Entry.alignUp Entry.headerSize
  omega

/-! ## What one more record changes -/

theorem size_record (e : Entry) : e.record.size = e.encodedSize := rfl

theorem map_placed (mask : UInt64) (ps : List (Nat × Record)) :
    (placed mask ps).map (fun q => (q.1, q.2.record)) = ps := by
  induction ps with
  | nil => rfl
  | cons p ps ih =>
    rw [placed, List.map_cons, ih]
    rfl

/-- the bytes of an entry behind its link are those of its record, wherever the links lead -/
theorem body_of_mem_placed {mask : UInt64} {r : Region} {ns : List Record} {rest : Bytes} {q : Nat × Entry}
    (hr : r.toList = image mask (layout 0 ns) ++ rest) (hq : q ∈ placed mask (layout 0 ns)) {i : Nat}
    (hlo : q.1 + 8 ≤ i) (hhi : i < q.1 + q.2.encodedSize) : r[i]? = q.2.record.body[i - (q.1 + 8)]? := by
  obtain ⟨m, -, next, pre, post, rfl, himage⟩ := image_of_mem_placed hq
  rw [Nat.zero_add] at *
  have hrecord : (m.entry next).record = m := rfl
  have hlink : (LittleEndian.encode 8 next.toNat).length = 8 := LittleEndian.length_encode 8 _
  have hcut : r.toList = (pre ++ LittleEndian.encode 8 next.toNat) ++ (m.body ++ (post ++ rest)) := by
    rw [hr, himage, Record.image_eq]
    simp only [List.append_assoc]
  have hbody : m.body.length = m.size - 8 := by
    have := congrArg List.length (m.image_eq next)
    rw [Record.length_image, List.length_append, hlink] at this
    omega
  have hsize : i < pre.length + m.size := hhi
  rw [← Array.getElem?_toList, hcut, List.getElem?_append_right (by rw [List.length_append]; omega),
    List.length_append, hlink, List.getElem?_append_left (by omega), hrecord]

/-- the entries of a table, each with its offset -/
def entries? (t : Table) : Option (List (Nat × Entry)) := entriesFrom t.region t.cursor 0

/-- what an answered insertion does: the record stands behind the others, and of these only links have changed -/
structure Stores (t : Table) (n : Record) (t' : Table) : Prop where
  count : t'.count = t.count + 1
  cursor : t'.cursor = t.cursor + n.size
  capacity : t'.capacity = t.capacity ∨ t'.capacity = t.capacity * 2
  keeps : t.Keeps t'
  entries : ∃ es es', t.entries? = some es ∧ t'.entries? = some es' ∧
    es'.map (fun p => (p.1, p.2.record)) = es.map (fun p => (p.1, p.2.record)) ++ [(t.cursor, n)] ∧
    ∀ p ∈ es, ∀ i, p.1 + 8 ≤ i → i < p.1 + p.2.encodedSize → t'.region[i]? = t.region[i]?

/-- two images of which one has a record more differ in links only -/
theorem frame_of_holds (h : t.Holds log) (h' : t'.Holds (log ++ [n])) {p : Nat × Entry}
    (hp : p ∈ placed t.mask (layout 0 log)) {i : Nat} (hlo : p.1 + 8 ≤ i) (hhi : i < p.1 + p.2.encodedSize) :
    t'.region[i]? = t.region[i]? := by
  -- the record stands at the same place in both, though with another link
  have hplace : (p.1, p.2.record) ∈ layout 0 log := by
    have := List.mem_map_of_mem (f := fun q : Nat × Entry => (q.1, q.2.record)) hp
    rwa [map_placed] at this
  have hplace' : (p.1, p.2.record) ∈ (placed t'.mask (layout 0 (log ++ [n]))).map fun q => (q.1, q.2.record) := by
    rw [map_placed, layout_snoc]
    exact List.mem_append_left _ hplace
  obtain ⟨q, hq, hqp⟩ := List.mem_map.1 hplace'
  obtain ⟨hoff, hrecord⟩ := Prod.mk.inj hqp
  have hsize : q.2.encodedSize = p.2.encodedSize := by
    rw [← size_record, hrecord, size_record]
  rw [body_of_mem_placed h.region hp hlo hhi,
    body_of_mem_placed h'.region hq (by rwa [hoff]) (by rwa [hoff, hsize]), hoff, hrecord]

theorem stores_of_holds (h : t.Holds log) (hsize : t.entryBytes n.key.length n.payload.length = .ok n.size)
    (h' : t'.Holds (log ++ [n])) (hkeeps : t.Keeps t') (hcapacity : t'.capacity = t.capacityFor) : t.Stores n t' where
  count := (count_of_insert h hsize h').1
  cursor := (count_of_insert h hsize h').2
  capacity := by
    rw [hcapacity, capacityFor]
    split_ifs
    · exact Or.inr rfl
    · exact Or.inl rfl
  keeps := hkeeps
  entries := by
    refine ⟨_, _, entriesFrom_of_holds h, entriesFrom_of_holds h', ?_, ?_⟩
    · rw [map_placed, map_placed, layout_snoc, h.cursor]
    · intro p hp i hlo hhi
      exact frame_of_holds h h' hp hlo hhi

/-! ## The outcomes -/

theorem insert_of_admits (h : t.Holds log) (ha : t.Admits n) :
    ∃ t', (insert n.hash n.key n.payload).run t = .ok () t' ∧ t.Stores n t' := by
  obtain ⟨last, hlast, hserved⟩ := ha.served
  have hmax := h.maxBytes_lt
  have hbudget := ha.budget
  have hroom : t.ensureRoom 1 n.size = .ok () := by
    refine ensureRoom_eq_ok_iff.2 ⟨Nat.le_trans (Nat.min_le_left _ _) hbudget, ?_⟩
    rw [h.cappedAdd_count]
    exact reach_of_doubles h.capacity_pos hlast hserved
  have hsize := entryBytes_of_fits ha.pinned ha.fits
  obtain ⟨t', hrun, hlog, hkeeps, hcapacity⟩ := insert_of_room h hsize hroom (Nat.lt_of_le_of_lt hbudget hmax)
  exact ⟨t', hrun, stores_of_holds h hsize hlog hkeeps hcapacity⟩

/-- a record that is not admitted leaves the table as it was; on memory that an allocator can have given, no sum of
sizes leaves its word, and the insertion is refused for the first reason -/
theorem insert_of_refuses (h : t.Holds log) (hr : t.Refuses n e) :
    ∃ s, (insert n.hash n.key n.payload).run t = .error s t ∧ (allocatable t.region.size = true → s = .refused e) := by
  cases hr with
  | keySize hk hne => exact ⟨_, insert_of_entryBytes_error (entryBytes_of_keySize hk hne), fun _ => rfl⟩
  | tooLarge hpinned hlarge =>
    exact ⟨_, insert_of_entryBytes_error (entryBytes_of_not_fits hpinned hlarge), fun _ => rfl⟩
  | budget hpinned hfits hover =>
    have hsize := entryBytes_of_fits hpinned hfits
    by_cases hcapped : t.maxBytes < cappedAdd t.cursor n.size
    · have hroom : t.ensureRoom 1 n.size = .error (.capacity (cappedAdd t.cursor n.size) t.maxBytes) := by
        rw [ensureRoom, if_pos hcapped]
      refine ⟨_, insert_of_ensureRoom_error hsize hroom, ?_⟩
      intro hmemory
      have hexact : cappedAdd t.cursor n.size = t.cursor + n.size := by
        have := end_lt_of_allocatable h hfits hmemory
        unfold cappedAdd
        omega
      rw [hexact]
    · -- the budget is the whole address space, and the end of the entry lies beyond it
      have hend : 2 ^ 64 ≤ t.cursor + n.size := by
        unfold cappedAdd at hcapped
        omega
      have hstops : ∃ s, (insert n.hash n.key n.payload).run t = .error s t := by
        cases hroom : t.ensureRoom 1 n.size with
        | error e => exact ⟨_, insert_of_ensureRoom_error hsize hroom⟩
        | ok u => exact ⟨_, insert_of_overflow hsize hroom hend⟩
      obtain ⟨s, hrun⟩ := hstops
      exact ⟨s, hrun, fun hmemory => absurd hend (Nat.not_le_of_lt (end_lt_of_allocatable h hfits hmemory))⟩
  | @slots last hpinned hfits hbudget hlast hover hnone =>
    have hcapped : ¬ t.maxBytes < cappedAdd t.cursor n.size := by
      unfold cappedAdd
      omega
    have hroom : t.ensureRoom 1 n.size = .error (.capacityOverflow last) := by
      rw [ensureRoom, h.cappedAdd_count, if_neg hcapped]
      exact reach_of_none h.capacity_pos hlast hover hnone
    exact ⟨_, insert_of_ensureRoom_error (entryBytes_of_fits hpinned hfits) hroom, fun _ => rfl⟩

/-- **When an insertion is answered.** Take any table that calls have led to, and any hash, key and payload. The
insertion is answered exactly if the key has the pinned width, both lengths fit 32 bits, the entry ends within the
budget, and some capacity that zero or more permitted doublings lead to serves one entry more. If it is answered, there
is one entry more, at the old cursor, and the cursor has moved by its size; the capacity is the same or twice as large;
budget, key size and tag are kept; and of every entry before, all bytes but its link are the same. If it is not, the
whole table is as it was, and (memory being what an allocator can have given) the reason is the first condition that
fails. -/
theorem insert_iff_admits (h : t.Reachable) (n : Record) :
    ((∃ t', (insert n.hash n.key n.payload).run t = .ok () t') ↔ t.Admits n) ∧
      (∀ t', (insert n.hash n.key n.payload).run t = .ok () t' → t.Stores n t') ∧
      (∀ s t', (insert n.hash n.key n.payload).run t = .error s t' → t' = t) ∧
      (allocatable t.region.size = true →
        ∀ s, (insert n.hash n.key n.payload).run t = .error s t ↔ ∃ e, s = .refused e ∧ t.Refuses n e) := by
  obtain ⟨log, hlog⟩ := holds_of_reachable h
  rcases admits_or_refuses hlog.capacity_pos n with ha | ⟨e, he⟩
  · obtain ⟨t', hrun, hstores⟩ := insert_of_admits hlog ha
    simp only [hrun]
    refine ⟨⟨fun _ => ha, fun _ => ⟨t', rfl⟩⟩, ?_, ?_, ?_⟩
    · rintro _ ⟨⟩
      exact hstores
    · rintro s t'' hs
      cases hs
    · intro _ s
      constructor
      · intro hs
        cases hs
      · rintro ⟨e, -, he⟩
        obtain ⟨s', hrun', -⟩ := insert_of_refuses hlog he
        cases hrun.symm.trans hrun'
  · obtain ⟨s, hrun, hreason⟩ := insert_of_refuses hlog he
    simp only [hrun]
    refine ⟨⟨?_, ?_⟩, ?_, ?_, ?_⟩
    · rintro ⟨_, ⟨⟩⟩
    · intro ha
      obtain ⟨t', hrun', -⟩ := insert_of_admits hlog ha
      cases hrun.symm.trans hrun'
    · rintro _ ⟨⟩
    · rintro _ _ ⟨⟩
      rfl
    · intro hmemory s'
      constructor
      · rintro ⟨⟩
        exact ⟨e, hreason hmemory, he⟩
      · rintro ⟨e', rfl, he'⟩
        obtain ⟨s', hrun', hreason'⟩ := insert_of_refuses hlog he'
        rw [← hrun, hrun', hreason' hmemory]

/-- keys of one byte, a budget of three small entries, and a load factor of 2^-62: no slot array serves a second one -/
def sparseConfig : Config :=
  { initialCapacity := 1, maxBytes := 96, initialBytes := 8, keySize := some 1, loadFactor := ⟨0x3c10000000000000⟩ }

def sparseTable : Table := ⟨1, 96, some 1, 0, sparseConfig.loadFactor, 0, 0, emptySlots 1, Region.zeros 8⟩

/-- the first entry is stored; a key of no bytes, a payload beyond the budget and a second entry are refused -/
theorem insert_iff_admits_sparse :
    sparseTable.Reachable ∧ sparseTable.Admits ⟨7, [1], [5]⟩ ∧
      (∃ t', (insert 7 [1] [5]).run sparseTable = .ok () t' ∧ sparseTable.Stores ⟨7, [1], [5]⟩ t') ∧
      (insert 7 [] []).run sparseTable = .error (.refused (.keySizeMismatch 1 0)) sparseTable ∧
      (insert 7 [1] (List.replicate 72 0)).run sparseTable = .error (.refused (.capacity 104 96)) sparseTable ∧
      (run sparseTable [.insert 7 [1] [5]]).Refuses ⟨9, [2], []⟩ (.capacityOverflow (2 ^ 62)) := by
  have hreach : sparseTable.Reachable := .create (c := sparseConfig) (by decide +kernel)
  have hadmits : sparseTable.Admits ⟨7, [1], [5]⟩ := {
    pinned := by decide +kernel
    fits := ⟨by decide, by decide⟩
    budget := by decide +kernel
    served := ⟨1, .here 1, by decide +kernel⟩ }
  have hnarrow : sparseTable.Refuses ⟨7, [], []⟩ (.keySizeMismatch 1 0) := .keySize (k := 1) rfl (by decide)
  have hlong : sparseTable.Refuses ⟨7, [1], List.replicate 72 0⟩ (.capacity 104 96) :=
    .budget (by decide +kernel) ⟨by decide, by simp⟩ (by decide +kernel)
  obtain ⟨hanswered, hstores, -⟩ := insert_iff_admits hreach ⟨7, [1], [5]⟩
  obtain ⟨t', hrun⟩ := hanswered.2 hadmits
  refine ⟨hreach, hadmits, ⟨t', hrun, hstores t' hrun⟩, ?_, ?_, ?_⟩
  · obtain ⟨-, -, -, hreason⟩ := insert_iff_admits hreach ⟨7, [], []⟩
    exact (hreason (by decide +kernel) _).2 ⟨_, rfl, hnarrow⟩
  · obtain ⟨-, -, -, hreason⟩ := insert_iff_admits hreach ⟨7, [1], List.replicate 72 0⟩
    exact (hreason (by decide +kernel) _).2 ⟨_, rfl, hlong⟩
  · have hfull : (run sparseTable [.insert 7 [1] [5]]).ensureRoom 1 32 = .error (.capacityOverflow (2 ^ 62)) := by
      decide +kernel
    have hsize : (run sparseTable [.insert 7 [1] [5]]).entryBytes 1 0 = .ok 32 := by decide +kernel
    obtain ⟨-, -, -, hreason⟩ := insert_iff_admits (hreach.step (.insert 7 [1] [5])) ⟨9, [2], []⟩
    obtain ⟨e, he, hrefuses⟩ :=
      (hreason (by decide +kernel) _).1 (insert_of_ensureRoom_error (n := ⟨9, [2], []⟩) hsize hfull)
    cases he
    exact hrefuses

end EquiJoin.Table
