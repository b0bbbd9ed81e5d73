/-
The numbers of rows. A row is recorded under the index of its chunk and its own number in it. Both have 32 bits: the
index counts the accepted chunks and never starts over, but the number of a row is cut. So rows share a location exactly
if their chunk has more rows than 32 bits number.

* `records_of_holds`: the records of a table, read from its region;
* `perm_of_recorded`: the locations in the table and among the null rows are those of all rows, each once;
* `nodup_numbered`: these are different exactly if no chunk is too long;
* `locations_of_run`: what a run of calls records, and under which locations;
* `locations_shared`: a chunk with one row too many.
-/
import EquiJoin.Proofs.Relation.Materialize
import EquiJoin.Proofs.Table.Representation
import Mathlib.Data.List.Nodup

namespace EquiJoin

/-! ## Reading what is recorded -/

/-- the records of a table, one behind the other as its region has them -/
def Table.records (t : Table) : List Record :=
  ((entriesFrom t.region t.cursor 0).getD []).map fun p => p.2.record

theorem Table.records_of_holds {t : Table} {log : List Record} (h : t.Holds log) : t.records = log := by
  rw [records, entriesFrom_of_holds h]
  exact records_placed t.mask 0 log

theorem Location.place_injective : Function.Injective Location.place := by
  rintro ⟨a, i⟩ ⟨b, j⟩ h
  obtain ⟨ha, hi⟩ := Prod.mk.inj h
  exact congrArg₂ Location.mk (UInt32.toNat_inj.1 ha) (UInt32.toNat_inj.1 hi)

namespace Relation

/-- the locations that rows are recorded under, those of the table first -/
def rowLocations (r : Relation) : List Location :=
  (match r.table with
    | .owned t => t.records.filterMap fun n => Location.decode? n.payload
    | _ => []) ++ r.nullRows.toList

/-- the row is recorded under this location: among the null rows, or in the table with its hash and its key -/
def HasRow (r : Relation) (l : Location) : StoredRow → Prop
  | none => l ∈ r.nullRows
  | some (hash, key) => ∃ t, r.table = .owned t ∧ ⟨hash, key, l.encode⟩ ∈ t.records

variable {r₀ r : Relation} {hist : List KeyChunk} {stored : List (List StoredRow)}

/-! ## Locations of all rows -/

theorem located_recordsFrom (chunk : UInt32) (i : Nat) (rows : List StoredRow) :
    (recordsFrom chunk i rows).filterMap (fun n => Location.decode? n.payload) =
      ((rows.zipIdx i).filter fun (row, _) => row.isSome).map fun (_, i) => rowLocation chunk i := by
  induction rows generalizing i with
  | nil => rfl
  | cons row rows ih => rcases row with - | ⟨hash, key⟩ <;> simp [recordsFrom, Location.decode?_encode, ih]

theorem located_recordsOf (stored : List (List StoredRow)) :
    (recordsOf stored).filterMap (fun n => Location.decode? n.payload) = locations Option.isSome stored := by
  rw [recordsOf, locations, List.filterMap_flatMap]
  exact List.flatMap_congr fun p _ => located_recordsFrom _ 0 p.1

/-- the rows with a property and the others are all rows -/
theorem locations_perm (p : StoredRow → Bool) (stored : List (List StoredRow)) :
    (locations p stored ++ locations (fun row => !p row) stored).Perm (locations (fun _ => true) stored) := by
  refine (List.flatMap_append_perm _ _ _).trans (List.Perm.flatMap_left _ fun ⟨rows, a⟩ _ => ?_)
  rw [← List.map_append]
  simp only [List.filter_true]
  exact (List.filter_append_perm _ _).map _

/-- the locations in the table and among the null rows are those of all rows, each once -/
theorem perm_of_recorded (h : Recorded r₀ r hist stored) :
    r.rowLocations.Perm (locations (fun _ => true) stored) := by
  obtain ⟨t, ht, hlog, -⟩ := h.table
  have hnot : (Option.isNone : StoredRow → Bool) = fun row => !row.isSome := by
    funext row
    cases row <;> rfl
  simp only [rowLocations, ht, Table.records_of_holds hlog, h.nullRows, located_recordsOf, nullsOf, hnot]
  exact locations_perm Option.isSome stored

/-- every row of every chunk, of these sizes, by the index of its chunk and its number cut to 32 bits -/
def numbered (sizes : List Nat) : List (Nat × Nat) :=
  sizes.zipIdx.flatMap fun (n, a) => (List.range n).map fun i => (a, i % 2 ^ 32)

theorem place_locations_all (hchunks : stored.length ≤ 2 ^ 32) :
    (locations (fun _ => true) stored).map Location.place = numbered (stored.map List.length) := by
  rw [locations, numbered, List.map_flatMap, List.zipIdx_map, List.flatMap_map]
  refine List.flatMap_congr fun p hp => ?_
  have ha : p.2 < stored.length := by simpa using List.snd_lt_of_mem_zipIdx hp
  have hnumbers : List.range p.1.length = p.1.zipIdx.map Prod.snd := by
    rw [List.zipIdx_map_snd, List.range_eq_range']
  simp only [List.filter_true, List.map_map, Prod.map, id, hnumbers]
  refine List.map_congr_left fun q _ => ?_
  simp only [Function.comp, Location.place, rowLocation, UInt32.toNat_ofNat']
  rw [Nat.mod_eq_of_lt (by omega)]

/-- rows get different places exactly if no chunk has more of them than 32 bits number -/
theorem nodup_numbered (sizes : List Nat) : (numbered sizes).Nodup ↔ ∀ n ∈ sizes, n ≤ 2 ^ 32 := by
  have hone (n a : Nat) : ((List.range n).map fun i => (a, i % 2 ^ 32)).Nodup ↔ n ≤ 2 ^ 32 := by
    rw [List.nodup_map_iff_inj_on List.nodup_range]
    constructor
    · intro h
      by_contra hn
      have := h 0 (List.mem_range.2 (by omega)) (2 ^ 32) (List.mem_range.2 (by omega)) rfl
      omega
    · intro hn i hi j hj hij
      have hi := List.mem_range.1 hi
      have hj := List.mem_range.1 hj
      have hcut := (Prod.mk.inj hij).2
      rwa [Nat.mod_eq_of_lt (by omega), Nat.mod_eq_of_lt (by omega)] at hcut
  have hapart : sizes.zipIdx.Pairwise fun p q => p.2 ≠ q.2 := by
    rw [← List.pairwise_map (f := Prod.snd) (R := (· ≠ ·)), List.zipIdx_map_snd]
    exact List.nodup_range'
  rw [numbered, List.nodup_flatMap]
  constructor
  · rintro ⟨hall, -⟩ n hn
    obtain ⟨a, ha⟩ := List.mem_iff_getElem?.1 hn
    exact (hone n a).1 (hall (n, a) (List.mk_mem_zipIdx_iff_getElem?.2 ha))
  · intro hsizes
    refine ⟨fun ⟨n, a⟩ hn => (hone n a).2 (hsizes n (List.fst_mem_of_mem_zipIdx hn)), hapart.imp ?_⟩
    rintro ⟨n, a⟩ ⟨m, b⟩ hne x hx hy
    obtain ⟨i, -, rfl⟩ := List.mem_map.1 hx
    obtain ⟨j, -, hj⟩ := List.mem_map.1 hy
    exact hne (Prod.mk.inj hj).1.symm

/-- the places of what is recorded -/
theorem place_of_recorded (h : Recorded r₀ r hist stored) :
    (r.rowLocations.map Location.place).Perm (numbered (hist.map KeyChunk.rowCount)) := by
  have hsizes : hist.map KeyChunk.rowCount = stored.map List.length := by
    have hrows := h.rows
    clear h
    induction hrows with
    | nil => rfl
    | cons hc _ ih => rw [List.map_cons, List.map_cons, ih, hc.length]
  have hchunks : stored.length ≤ 2 ^ 32 := by
    rw [← h.rows.length_eq, ← h.chunks]
    exact Nat.le_of_lt r.chunks.toNat_lt
  rw [hsizes, ← place_locations_all hchunks]
  exact (perm_of_recorded h).map Location.place

/-! ## One row -/

theorem mem_recordsFrom (chunk : UInt32) (i : Nat) {rows : List StoredRow} {j : Nat} {hash : UInt64} {key : Bytes}
    (h : rows[j]? = some (some (hash, key))) :
    ⟨hash, key, (rowLocation chunk (i + j)).encode⟩ ∈ recordsFrom chunk i rows := by
  induction rows generalizing i j with
  | nil => cases h
  | cons row rows ih =>
    cases j with
    | zero =>
      cases h
      exact List.mem_cons_self
    | succ j =>
      have hrest := ih (i + 1) h
      rw [Nat.add_assoc, Nat.add_comm 1] at hrest
      rcases row with - | ⟨_, _⟩
      · exact hrest
      · exact List.mem_cons_of_mem _ hrest

/-- row `i` of chunk `a` is recorded under these numbers, cut to 32 bits -/
theorem hasRow_of_recorded (h : Recorded r₀ r hist stored) {a i : Nat} {rows : List StoredRow} {row : StoredRow}
    (ha : stored[a]? = some rows) (hi : rows[i]? = some row) : r.HasRow (rowLocation (UInt32.ofNat a) i) row := by
  have hchunk : (rows, a) ∈ stored.zipIdx := List.mk_mem_zipIdx_iff_getElem?.2 ha
  cases row with
  | none =>
    have hrow : ((none : StoredRow), i) ∈ rows.zipIdx := List.mk_mem_zipIdx_iff_getElem?.2 hi
    rw [HasRow, ← Array.mem_toList_iff, h.nullRows]
    exact List.mem_flatMap.2 ⟨_, hchunk, List.mem_map.2 ⟨_, List.mem_filter.2 ⟨hrow, rfl⟩, rfl⟩⟩
  | some p =>
    obtain ⟨hash, key⟩ := p
    obtain ⟨t, ht, hlog, -⟩ := h.table
    refine ⟨t, ht, ?_⟩
    rw [Table.records_of_holds hlog]
    have hrecord := mem_recordsFrom (UInt32.ofNat a) 0 hi
    rw [Nat.zero_add] at hrecord
    exact List.mem_flatMap.2 ⟨_, hchunk, hrecord⟩

/-- with the last index no append is answered -/
theorem added_of_last {call : Call} (hsound : r.Sound) (hlast : r.chunks.toNat + 1 = 2 ^ 32)
    (hcall : call.keyChunk?.isSome) : call.added r = [] := by
  obtain ⟨c, hc⟩ := Option.isSome_iff_exists.1 hcall
  obtain ⟨prepared, hp⟩ := prepare_of_keyChunk hc
  cases hrun : call.act.run r with
  | error s r' => exact added_of_error hrun
  | ok u r' =>
    obtain ⟨t, ht⟩ := owned_of_append hp hrun
    obtain ⟨log, hlog⟩ := hsound t ht
    obtain ⟨_, _, -, -, -, -, hnext⟩ := append_rows ht hlog hp hc hrun
    omega

/-! ## Runs -/

/-- **Where rows are recorded.** Let a relation be made with a table of its own and be built on by any calls, of any
number of chunks and rows, each of them answered or refused. It counts the accepted chunks. Row `i` of accepted chunk
`a` is recorded, and nothing else is: under `a` and the lower 32 bits of `i`. So no two rows share a location exactly if
no accepted chunk has more than 2^32 rows, and a chunk that has no more is recorded row by row under its index and the
number of the row, a null row among the null rows and any other in the table with its hash and its key. Once the last
index is given, no append is answered any more. -/
theorem locations_of_run {k : KeyType} {columns : List Column} {config : Config} {calls : List Call}
    (hnew : new k columns config = .ok r₀) (hbuilds : ∀ call ∈ calls, call.builds) (hsmooth : Smooth r₀ calls) :
    (run r₀ calls).chunks.toNat = (accepted r₀ calls).length ∧
      ((run r₀ calls).rowLocations.map Location.place).Perm
        (numbered ((accepted r₀ calls).map KeyChunk.rowCount)) ∧
      ((run r₀ calls).rowLocations.Nodup ↔ ∀ c ∈ accepted r₀ calls, c.rowCount ≤ 2 ^ 32) ∧
      (∀ (a i : Nat) (c : KeyChunk) (row : StoredRow), (accepted r₀ calls)[a]? = some c → c.rowCount ≤ 2 ^ 32 →
        (c.stored k)[i]? = some row → (run r₀ calls).HasRow ⟨UInt32.ofNat a, UInt32.ofNat i⟩ row) ∧
      ((run r₀ calls).chunks.toNat + 1 = 2 ^ 32 →
        ∀ call : Call, call.keyChunk?.isSome → call.added (run r₀ calls) = []) := by
  obtain ⟨stored, h⟩ := recorded_run (built_new hnew).toRecorded hbuilds hsmooth
  rw [List.nil_append] at h
  have hkey : r₀.keyType = k := by
    obtain ⟨kind, t, -, -, rfl⟩ := new_eq_ok hnew
    rfl
  refine ⟨h.chunks, place_of_recorded h, ?_, fun a i c row ha hs hi => ?_,
    fun hlast call => added_of_last h.sound hlast⟩
  · rw [← List.nodup_map_iff Location.place_injective, (place_of_recorded h).nodup_iff, nodup_numbered]
    simp
  · obtain ⟨rows, hrows, hstored⟩ : ∃ rows, stored[a]? = some rows ∧ c.StoredAs k rows := by
      obtain ⟨hlt, rfl⟩ := List.getElem?_eq_some_iff.1 ha
      have hlt' : a < stored.length := h.rows.length_eq ▸ hlt
      rw [← hkey]
      exact ⟨stored[a], List.getElem?_eq_getElem hlt', (List.forall₂_iff_get.1 h.rows).2 a hlt hlt'⟩
    obtain ⟨rfl, -⟩ := hstored.small hs
    exact hasRow_of_recorded h hrows hi

/-- so many rows without a key -/
def nullKeys (n : Nat) : Chunk := .column .int32 (Array.replicate n none)

theorem nullsFrom_replicate (chunk : UInt32) (i n : Nat) :
    nullsFrom chunk i (List.replicate n none) = (List.range' i n).map (rowLocation chunk) := by
  induction n generalizing i with
  | zero => rfl
  | succ n ih => rw [List.replicate_succ, nullsFrom, ih, List.range'_succ, List.map_cons]

/-- rows without a key are accepted, however many they are -/
theorem append_nullKeys (n : Nat) :
    ∃ t, (Call.appendKeys (nullKeys n) none).act.run smallRelation =
      .ok () { smallRelation.withRows t ((List.range n).map (rowLocation 0)) with chunks := 1 } := by
  have hcreate : Table.create Table.smallConfig = .ok Table.smallTable := by decide +kernel
  have hkeys : keysOf (nullKeys n) = (List.replicate n none).map .ok := by
    simp [keysOf, nullKeys, Key.ofCell?, Key.bytes?]
  have hreserve : reserve (Table.smallTable.withTag 1) (keysOf (nullKeys n)) = .ok () := by
    have hnone : reserve (Table.smallTable.withTag 1) [] = .ok () := by decide +kernel
    rw [hkeys, List.map_replicate, ← List.append_nil (List.replicate n _), reserve, demand_replicate_none]
    exact hnone
  have hholds : (Table.smallTable.withTag 1).Holds [] := (Table.create_holds hcreate).withTag 1
  obtain ⟨t, hrun, -⟩ := appendKeys_of_reserve (r := smallRelation) rfl hholds rfl hkeys hreserve (by decide) (by decide)
  rw [storedFrom_none, List.map_replicate, Option.map_none, nullsFrom_replicate, ← List.range_eq_range'] at hrun
  exact ⟨t, hrun⟩

/-- a chunk of 2^32 rows without a key, and one more, is accepted, and its last row has the location of its first -/
theorem locations_shared :
    new (.single (.column .int32)) [] Table.smallConfig = .ok smallRelation ∧
      ∃ r, (Call.appendKeys (nullKeys (2 ^ 32 + 1)) none).act.run smallRelation = .ok () r ∧
        r.chunks = 1 ∧ r.nullRows.size = 2 ^ 32 + 1 ∧ r.nullRows[0]? = some ⟨0, 0⟩ ∧
        r.nullRows[2 ^ 32]? = some ⟨0, 0⟩ := by
  obtain ⟨t, hrun⟩ := append_nullKeys (2 ^ 32 + 1)
  have hrows (i : Nat) (hi : i < 2 ^ 32 + 1) :
      ((#[] : Array Location) ++ ((List.range (2 ^ 32 + 1)).map (rowLocation 0)).toArray)[i]? =
        some (rowLocation 0 i) := by
    rw [Array.empty_append, List.getElem?_toArray, List.getElem?_map, List.getElem?_range hi, Option.map_some]
  refine ⟨new_small, _, hrun, rfl, ?_, hrows 0 (by omega), hrows (2 ^ 32) (by omega)⟩
  show ((#[] : Array Location) ++ ((List.range (2 ^ 32 + 1)).map (rowLocation 0)).toArray).size = _
  rw [Array.empty_append, List.size_toArray, List.length_map, List.length_range]

/-- a chunk that is accepted, one that is refused, a growth, and a chunk that is accepted again -/
def numberedBuild : List Call :=
  [.appendKeys smallChunk none, .appendKeys largeChunk none, .grow, .appendKeys (.column .int32 #[some 7]) none]

/-- three rows, each under its own location -/
theorem locations_of_run_small :
    Smooth smallRelation numberedBuild ∧ (run smallRelation numberedBuild).chunks.toNat = 2 ∧
      (run smallRelation numberedBuild).rowLocations.Nodup ∧
      ((run smallRelation numberedBuild).rowLocations.map Location.place).Perm [(0, 0), (0, 1), (1, 0)] ∧
      (run smallRelation numberedBuild).HasRow ⟨1, 0⟩ (some (filed (.scalar 7))) := by
  have hbuilds : ∀ call ∈ numberedBuild, call.builds := by decide
  have hsmall : ∀ call ∈ numberedBuild, call.Small := by
    intro call hc c h
    simp only [numberedBuild, List.mem_cons, List.not_mem_nil, or_false] at hc
    rcases hc with rfl | rfl | rfl | rfl <;> cases h <;> decide
  have hsmooth : Smooth smallRelation numberedBuild :=
    smooth_of_builds new_small hbuilds hsmall ⟨by decide, Or.inl (by decide)⟩
  obtain ⟨hchunks, hplaces, hnodup, hrows, -⟩ := locations_of_run new_small hbuilds hsmooth
  have haccepted : (accepted smallRelation numberedBuild).map KeyChunk.rowCount = [2, 1] := by decide +kernel
  have hlength : (accepted smallRelation numberedBuild).length = 2 := by decide +kernel
  have hcounts : ∀ c ∈ accepted smallRelation numberedBuild, c.rowCount ≤ 2 ^ 32 := by
    intro c hc
    have hmem : c.rowCount ∈ [2, 1] := haccepted ▸ List.mem_map_of_mem hc
    simp only [List.mem_cons, List.not_mem_nil, or_false] at hmem
    omega
  refine ⟨hsmooth, hchunks.trans hlength, hnodup.2 hcounts, ?_, ?_⟩
  · rw [haccepted] at hplaces
    exact hplaces
  · have hlast : ((accepted smallRelation numberedBuild)[1]?.bind fun c =>
        (c.stored (.single (.column .int32)))[0]?) = some (some (filed (.scalar 7))) := by decide +kernel
    obtain ⟨c, hc, hrow⟩ := Option.bind_eq_some_iff.1 hlast
    exact hrows 1 0 c _ hc (hcounts c (List.mem_of_getElem? hc)) hrow

end Relation

end EquiJoin
