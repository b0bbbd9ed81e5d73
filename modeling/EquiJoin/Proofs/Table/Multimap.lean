/-
A table is a multimap that keeps the order of insertion. Beside it stands the plain log of the records that were
accepted; `payloadsOf` filters it by hash and key. However the table grew in between, a probe reads the same payloads in
the same order.

* `chain_image`: walking a slot of an image visits the records of its bucket in order;
* `toList_matches`, `lookup_of_holds`, `exists_of_holds`: probes of a table that holds a log answer from the log;
* `run_holds`: after any calls, refused ones included, the table holds what it held and the records accepted since;
* `run_refines_log`: a new table, after any calls, answers every probe from the log of its accepted insertions.
-/
import EquiJoin.Proofs.Table.Invariant

namespace EquiJoin

/-- whether a record is stored under a hash and a key -/
def Record.carries (hash : UInt64) (key : Bytes) (n : Record) : Bool := n.hash == hash && n.key == key

/-- the payloads stored under a hash and a key, the oldest first -/
def payloadsOf (log : List Record) (hash : UInt64) (key : Bytes) : List Bytes :=
  (log.filter (Record.carries hash key)).map Record.payload

/-- the entries of a bucket, each linked with the next -/
def linked : List (Nat × Record) → List (Nat × Entry)
  | [] => []
  | p :: ps => (p.1, p.2.entry (linkTo ps.head?)) :: linked ps

/-! ## Walking an image -/

/-- a link inside an image leads forward, so the walk follows it -/
theorem forward_linkTo {here : Nat} {next : Option (Nat × Record)} (h : ∀ p ∈ next, here < p.1 ∧ p.1 < 2 ^ 64)
    (hl : here + 24 ≤ 2 ^ 64) : Link.forward (UInt64.ofNat here) (linkTo next) = linkTo next := by
  cases next with
  | none =>
    unfold Link.forward linkTo
    split_ifs <;> rfl
  | some p =>
    obtain ⟨h1, h2⟩ := h p rfl
    refine if_pos (UInt64.lt_iff_toNat_lt.2 ?_)
    rw [linkTo, UInt64.toNat_ofNat', UInt64.toNat_ofNat', Nat.mod_eq_of_lt (by omega), Nat.mod_eq_of_lt h2]
    exact h1

/-- walking a slot of an image visits the records of its bucket in order -/
theorem chain_image {mask : UInt64} {b : Nat} {r : Region} (hr : r.size < 2 ^ 64) (ns : List Record)
    (hfits : ∀ n ∈ ns, n.Fits) {pre post : Bytes}
    (h : r.toList = pre ++ (image mask (layout pre.length ns) ++ post)) :
    chain r (linkTo (bucket mask b (layout pre.length ns)).head?) = linked (bucket mask b (layout pre.length ns)) := by
  induction ns generalizing pre with
  | nil =>
    have hnil : linkTo (bucket mask b (layout pre.length [])).head? = allOnes := rfl
    rw [hnil, chain, dif_pos rfl]
    rfl
  | cons n ns ih =>
    have hsize : pre.length + n.size + total ns ≤ r.size := by
      have := congrArg List.length h
      simp only [Array.length_toList, List.length_append, length_image, total_cons] at this
      omega
    have hn24 : 24 ≤ n.size := n.headerSize_le_size
    rw [layout, image] at h
    have hrest : chain r (linkTo (bucket mask b (layout (pre.length + n.size) ns)).head?) =
        linked (bucket mask b (layout (pre.length + n.size) ns)) := by
      set first := n.image (linkTo (bucket mask (n.slot mask) (layout (pre.length + n.size) ns)).head?) with hfirst
      have hlen : (pre ++ first).length = pre.length + n.size := by
        rw [List.length_append, hfirst, Record.length_image]
      have htail : r.toList = pre ++ first ++ (image mask (layout (pre ++ first).length ns) ++ post) := by
        rw [h, hlen]
        simp only [List.append_assoc]
      have := ih (fun m hm => hfits m (List.mem_cons_of_mem n hm)) htail
      rwa [hlen] at this
    by_cases hb : n.slot mask = b
    · subst hb
      rw [layout, bucket_cons_of_eq (p := (pre.length, n)) rfl, linked, ← hrest]
      set next := (bucket mask (n.slot mask) (layout (pre.length + n.size) ns)).head? with hnext
      have hplace : (UInt64.ofNat pre.length).toNat = pre.length := by
        rw [UInt64.toNat_ofNat', Nat.mod_eq_of_lt (by omega)]
      have hdecode : Entry.tryDecode? r (UInt64.ofNat pre.length).toNat = some (n.entry (linkTo next)) := by
        rw [hplace, Entry.tryDecode?_eq_decode? hr]
        exact decode?_image (hfits n List.mem_cons_self) (by rw [h]; simp only [List.append_assoc]; rfl)
      have hforward : Link.forward (UInt64.ofNat pre.length) (linkTo next) = linkTo next := by
        refine forward_linkTo (fun p hp => ?_) (by omega)
        have := bounds_of_mem_layout (mem_of_mem_bucket (List.mem_of_head? (hnext.symm.trans hp)))
        omega
      rw [List.head?_cons, linkTo, chain, dif_neg (ofNat_ne_allOnes (by omega)), hdecode]
      simp only [Record.entry, hforward, hplace]
    · rw [layout, bucket_cons_of_ne hb]
      exact hrest

/-- the entries of a bucket that carry a hash and a key are the records that do -/
theorem hits_linked (hash : UInt64) (key : Bytes) (ps : List (Nat × Record)) :
    ((linked ps).filter fun e => Matches.hit hash key e.2).map (fun e => e.2.payload) =
      payloadsOf (ps.map Prod.snd) hash key := by
  induction ps with
  | nil => rfl
  | cons p ps ih =>
    have hhit : Matches.hit hash key (p.2.entry (linkTo ps.head?)) = p.2.carries hash key := rfl
    unfold payloadsOf at ih ⊢
    rw [linked, List.map_cons]
    cases hc : p.2.carries hash key with
    | true =>
      rw [List.filter_cons_of_pos (by simp only [hhit, hc]), List.filter_cons_of_pos hc, List.map_cons, List.map_cons,
        ih]
      rfl
    | false => rw [List.filter_cons_of_neg (by simp [hhit, hc]), List.filter_cons_of_neg (by simp [hc]), ih]

/-- all records of a hash are in one bucket -/
theorem payloadsOf_bucket (mask hash : UInt64) (key : Bytes) (off : Nat) (ns : List Record) :
    payloadsOf ((bucket mask (Slot.index mask hash) (layout off ns)).map Prod.snd) hash key =
      payloadsOf ns hash key := by
  induction ns generalizing off with
  | nil => rfl
  | cons n ns ih =>
    have ih' := ih (off + n.size)
    unfold payloadsOf at ih' ⊢
    by_cases hb : n.slot mask = Slot.index mask hash
    · rw [layout, bucket_cons_of_eq hb]
      cases hc : n.carries hash key <;> simp [hc, ih']
    · have hc : n.carries hash key = false := by
        have : n.hash ≠ hash := fun he => hb (by rw [Record.slot_eq, he])
        simp [Record.carries, this]
      rw [layout, bucket_cons_of_ne hb, ih', List.filter_cons_of_neg (by simp [hc])]

/-- the locations among the payloads, as the eight bytes that each of them is -/
theorem encode_filterMap_decode? (ps : List Bytes) :
    (ps.filterMap Location.decode?).map Location.encode = ps.filter fun p => p.length = Location.width := by
  induction ps with
  | nil => rfl
  | cons p ps ih =>
    cases hp : Location.decode? p with
    | none =>
      rw [List.filterMap_cons_none hp, ih, List.filter_cons_of_neg (by simpa using Location.decode?_eq_none_iff.1 hp)]
    | some l =>
      have he := Location.decode?_eq_some_iff.1 hp
      have hw : p.length = Location.width := he ▸ l.length_encode
      rw [List.filterMap_cons_some hp, List.map_cons, ih, he, List.filter_cons_of_pos (by simpa using hw)]

/-- a walk has a next payload exactly when it has any -/
theorem Matches.isSome_next? (m : Matches) : m.next?.1.isSome = !m.toList.isEmpty := by
  rw [toList, collect_of_seek, next?]
  rcases seek m.region m.hash m.key m.link with ⟨p, link⟩
  cases p <;> rfl

namespace Table

variable {t : Table} {log : List Record}

/-! ## Probing a table that holds a log -/

/-- the mask in the control block is the one that entries were linked with -/
theorem mask_header (h : t.Holds log) : t.header.mask = t.mask := by
  have hpos := h.capacity_pos
  have hlt := h.capacity_lt
  apply UInt64.toNat_inj.1
  have hcap : (UInt64.ofNat t.capacity).toNat = t.capacity := by rw [UInt64.toNat_ofNat', Nat.mod_eq_of_lt (by omega)]
  have hone : (1 : UInt64) ≤ UInt64.ofNat t.capacity := by rw [UInt64.le_iff_toNat_le, hcap]; exact hpos
  show (UInt64.ofNat t.capacity - 1).toNat = (UInt64.ofNat (t.capacity - 1)).toNat
  rw [UInt64.toNat_sub_of_le _ _ hone, hcap, UInt64.toNat_ofNat', Nat.mod_eq_of_lt (by omega)]
  rfl

/-- the used part of the region is the image of the log -/
theorem toList_view_bytes (h : t.Holds log) : t.view.bytes.toList = image t.mask (layout 0 log) := by
  rw [view, Array.toList_extract, h.region, List.extract_eq_take_drop, h.cursor]
  simp

theorem size_view_bytes (h : t.Holds log) : t.view.bytes.size = t.cursor := by
  have := congrArg List.length (toList_view_bytes h)
  rwa [Array.length_toList, length_image, ← h.cursor] at this

/-- the key size in the control block is the pinned one -/
theorem keySize?_view (h : t.Holds log) : t.view.keySize? = t.keySize := by
  show Header.keySize? t.header = t.keySize
  cases hs : t.keySize with
  | none => simp [Header.keySize?, header, Header.new, hs]
  | some k =>
    have hlt : k < 2 ^ 64 - 1 := h.keySize_lt k hs
    have hto : (UInt64.ofNat k).toNat = k := by rw [UInt64.toNat_ofNat', Nat.mod_eq_of_lt (by omega)]
    have hne : UInt64.ofNat k ≠ allOnes := by
      intro he
      rw [he] at hto
      have : allOnes.toNat = 2 ^ 64 - 1 := rfl
      omega
    simp [Header.keySize?, header, Header.new, hs, hne, hto]

/-- a probe walks over the payloads that the log has under the hash and the key -/
theorem toList_matches (h : t.Holds log) (hash : UInt64) (key : Bytes) :
    ∃ m, t.view.matches? hash key = some m ∧ m.toList = payloadsOf log hash key := by
  rw [View.matches?, keySize?_view h]
  by_cases hk : t.keySize.any (· ≠ key.length) = true
  · -- no record has a key of another width than the pinned one
    refine ⟨_, if_pos hk, ?_⟩
    obtain ⟨hs, hne⟩ := (Option.any_eq_true_iff_get _ _).1 hk
    have hk' : t.keySize.get hs ∈ t.keySize := Option.get_mem hs
    have hnone : ∀ n ∈ log, n.carries hash key ≠ true := by
      intro n hn hc
      have hw := h.pinned n hn _ hk'
      have : n.key = key := eq_of_beq (Bool.and_eq_true _ _ ▸ hc).2
      simp [← this, hw] at hne
    rw [Matches.toList, Matches.collect_of_seek, Matches.seek_eq_none (.inl rfl), payloadsOf,
      List.filter_eq_nil_iff.2 hnone]
    rfl
  · have hslot : t.view.slots[Slot.index t.view.header.mask hash]? =
        some ⟨linkTo (bucket t.mask (Slot.index t.mask hash) (layout 0 log)).head?,
          linkTo (bucket t.mask (Slot.index t.mask hash) (layout 0 log)).getLast?⟩ := by
      show t.slots[Slot.index t.header.mask hash]? = _
      rw [mask_header h, h.slots]
      exact getElem?_slotArray (index_lt h.capacity_pos h.capacity_lt hash) _
    have hsmall : t.view.bytes.size < 2 ^ 64 := by
      rw [size_view_bytes h]
      exact Nat.lt_of_le_of_lt h.cursor_le_maxBytes h.maxBytes_lt
    have hview : t.view.bytes.toList = [] ++ (image t.mask (layout ([] : Bytes).length log) ++ []) := by
      simpa using toList_view_bytes h
    have hchain := chain_image (b := Slot.index t.mask hash) hsmall log h.fits hview
    refine ⟨⟨t.view.bytes, hash, key, linkTo (bucket t.mask (Slot.index t.mask hash) (layout 0 log)).head?⟩, ?_, ?_⟩
    · rw [if_neg hk, hslot, Option.map_some]
    · rw [Matches.toList, Matches.collect_eq_chain]
      rw [List.length_nil] at hchain
      rw [hchain, hits_linked, payloadsOf_bucket]

theorem lookup_of_holds (h : t.Holds log) (hash : UInt64) (key : Bytes) (out : List Location) :
    t.view.lookup? hash key out =
      some (!((payloadsOf log hash key).filterMap Location.decode?).isEmpty,
        out ++ (payloadsOf log hash key).filterMap Location.decode?) := by
  obtain ⟨m, hm, hl⟩ := toList_matches h hash key
  rw [View.lookup?, hm, Option.map_some, hl]

theorem exists_of_holds (h : t.Holds log) (hash : UInt64) (key : Bytes) :
    t.view.exists? hash key = some (!(payloadsOf log hash key).isEmpty) := by
  obtain ⟨m, hm, hl⟩ := toList_matches h hash key
  rw [View.exists?, hm, Option.map_some, Matches.isSome_next?, hl]

/-! ## Runs -/

/-- a call that may change a table -/
inductive Call where
  | insert (hash : UInt64) (key payload : Bytes)
  | insertLocation (hash : UInt64) (key : Bytes) (l : Location)
  | grow

namespace Call

def act : Call → Act Unit
  | insert hash key payload => Table.insert hash key payload
  | insertLocation hash key l => Table.insertLocation hash key l
  | grow => Table.grow

/-- what the call is to store -/
def records : Call → List Record
  | insert hash key payload => [⟨hash, key, payload⟩]
  | insertLocation hash key l => [⟨hash, key, l.encode⟩]
  | grow => []

/-- what the call did store -/
def stored (t : Table) (call : Call) : List Record :=
  match call.act.run t with
  | .ok _ _ => call.records
  | .error _ _ => []

end Call

/-- the table after some calls, whatever their outcomes -/
def run (t : Table) (calls : List Call) : Table := calls.foldl (fun t call => call.act.after t) t

/-- the records of the calls that succeeded, in the order of the calls -/
def accepted : Table → List Call → List Record
  | _, [] => []
  | t, call :: calls => call.stored t ++ accepted (call.act.after t) calls

/-- one call keeps the log, or extends it by what it stored -/
theorem call_holds (h : t.Holds log) (call : Call) :
    (call.act.after t).Holds (log ++ call.stored t) ∧ t.Keeps (call.act.after t) := by
  have insertion (n : Record) (hact : call.act = Table.insert n.hash n.key n.payload) (hrec : call.records = [n]) :
      (call.act.after t).Holds (log ++ call.stored t) ∧ t.Keeps (call.act.after t) := by
    rcases insert_cases h n with ⟨s, he⟩ | ⟨t', hok, h', hk⟩
    · rw [← hact] at he
      rw [Action.after_of_error he, Call.stored, he, List.append_nil]
      exact ⟨h, Keeps.refl t⟩
    · rw [← hact] at hok
      rw [Action.after_of_ok hok, Call.stored, hok, hrec]
      exact ⟨h', hk⟩
  cases call with
  | insert hash key payload => exact insertion ⟨hash, key, payload⟩ rfl rfl
  | insertLocation hash key l => exact insertion ⟨hash, key, l.encode⟩ rfl rfl
  | grow =>
    rw [Call.act, Call.stored]
    rcases grow_cases h with ⟨e, he⟩ | ⟨t', hok, h', hk⟩
    · rw [Action.after_of_error he]
      simp only [Call.act, he, List.append_nil]
      exact ⟨h, Keeps.refl t⟩
    · rw [Action.after_of_ok hok]
      simp only [Call.act, hok, Call.records, List.append_nil]
      exact ⟨h', hk⟩

theorem run_holds (h : t.Holds log) (calls : List Call) : (run t calls).Holds (log ++ accepted t calls) := by
  induction calls generalizing t log with
  | nil => simpa [run, accepted] using h
  | cons call calls ih =>
    have := ih (call_holds h call).1
    rwa [List.append_assoc] at this

theorem keeps_run (h : t.Holds log) (calls : List Call) : t.Keeps (run t calls) := by
  induction calls generalizing t log with
  | nil => exact Keeps.refl t
  | cons call calls ih =>
    obtain ⟨h', hkeeps⟩ := call_holds h call
    exact hkeeps.trans (ih h')

/-- **A table is an insertion-ordered multimap.** After any calls on a new table, a probe walks over exactly the
payloads that were accepted under its hash and key, in their order. A lookup appends the locations among them, which are
the payloads of eight bytes, and says whether there were any. -/
theorem run_refines_log {c : Config} (h : create c = .ok t) (calls : List Call) (hash : UInt64) (key : Bytes) :
    ∃ m, (run t calls).view.matches? hash key = some m ∧ m.toList = payloadsOf (accepted t calls) hash key ∧
      ∀ out, ∃ found, (run t calls).view.lookup? hash key out = some (!found.isEmpty, out ++ found) ∧
        found.map Location.encode =
          (payloadsOf (accepted t calls) hash key).filter fun p => p.length = Location.width := by
  have hrun : (run t calls).Holds (accepted t calls) := run_holds (create_holds h) calls
  obtain ⟨m, hm, hl⟩ := toList_matches hrun hash key
  exact ⟨m, hm, hl, fun out => ⟨_, lookup_of_holds hrun hash key out, encode_filterMap_decode? _⟩⟩

/-- two slots, half of which may be filled: the second entry makes the slot array grow -/
def smallConfig : Config := { initialCapacity := 2, maxBytes := 200, initialBytes := 8 }

def smallTable : Table := ⟨2, 200, none, 0, smallConfig.loadFactor, 0, 0, emptySlots 2, Region.zeros 8⟩

/-- two keys in one slot, one key under two hashes, a growth, a location, and one payload that is too large -/
def smallCalls : List Call :=
  [.insert 4 [1] [7], .insert 4 [2] [8], .insert 6 [1] [9], .grow, .insertLocation 4 [1] ⟨3, 5⟩,
    .insert 4 [1] (List.replicate 200 0), .insert 4 [1] [10]]

theorem run_refines_log_small :
    create smallConfig = .ok smallTable ∧
      ∃ m, (run smallTable smallCalls).view.matches? 4 [1] = some m ∧
        m.toList = [[7], [3, 0, 0, 0, 5, 0, 0, 0], [10]] ∧
        ∃ found, (run smallTable smallCalls).view.lookup? 4 [1] [⟨0, 0⟩] = some (!found.isEmpty, ⟨0, 0⟩ :: found) ∧
          found.map Location.encode = [[3, 0, 0, 0, 5, 0, 0, 0]] := by
  have hc : create smallConfig = .ok smallTable := by decide +kernel
  have hp : payloadsOf (accepted smallTable smallCalls) 4 [1] = [[7], [3, 0, 0, 0, 5, 0, 0, 0], [10]] := by
    decide +kernel
  obtain ⟨m, hm, hl, hlookup⟩ := run_refines_log hc smallCalls 4 [1]
  obtain ⟨found, hf, he⟩ := hlookup [⟨0, 0⟩]
  rw [hp] at hl he
  exact ⟨hc, m, hm, hl, found, hf, he⟩

end Table

end EquiJoin
