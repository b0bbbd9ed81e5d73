/-
Where rows stand. A place is a pair of numbers, of the chunk and of the row in it; `places` enumerates the rows with a
property chunk by chunk and row by row. What a table answers to a probe is this enumeration, for the rows that are
stored under the hash and the key.

* `lookup_recordsOf`: the log of recorded chunks, probed, gives the locations of the rows stored so;
* `place_locations`: as long as numbers fit 32 bits, locations are places.
-/
import EquiJoin.Proofs.Relation.Recording
import EquiJoin.Proofs.Table.Multimap
import Mathlib.Data.List.Basic
import Mathlib.Data.List.Induction

namespace EquiJoin

/-- the place that a location names -/
def Location.place (l : Location) : Nat × Nat := (l.chunk.toNat, l.row.toNat)

/-- the places of the rows with a property, chunk by chunk and row by row -/
def places {α : Type} (p : α → Bool) (chunks : List (List α)) : List (Nat × Nat) :=
  chunks.zipIdx.flatMap fun (rows, a) => (rows.zipIdx.filter fun (row, _) => p row).map fun (_, i) => (a, i)

theorem places_map {α β : Type} (p : β → Bool) (f : α → β) (chunks : List (List α)) :
    places p (chunks.map (List.map f)) = places (p ∘ f) chunks := by
  unfold places
  rw [List.zipIdx_map, List.flatMap_map]
  refine List.flatMap_congr fun ⟨rows, a⟩ _ => ?_
  simp only [Prod.map, List.zipIdx_map, List.filter_map, List.map_map, id]
  rfl

theorem places_congr {α : Type} {p q : α → Bool} {chunks : List (List α)}
    (h : ∀ rows ∈ chunks, ∀ row ∈ rows, p row = q row) : places p chunks = places q chunks := by
  unfold places
  refine List.flatMap_congr fun ⟨rows, a⟩ hrows => ?_
  have hmem := h rows (List.fst_mem_of_mem_zipIdx hrows)
  have hfilter : (rows.zipIdx.filter fun (row, _) => p row) = rows.zipIdx.filter fun (row, _) => q row :=
    List.filter_congr fun ⟨row, i⟩ hrow => hmem row (List.fst_mem_of_mem_zipIdx hrow)
  simp only [hfilter]

namespace Relation

/-- the locations of the rows with a property -/
def locations (p : StoredRow → Bool) (chunks : List (List StoredRow)) : List Location :=
  chunks.zipIdx.flatMap fun (rows, a) =>
    (rows.zipIdx.filter fun (row, _) => p row).map fun (_, i) => rowLocation (UInt32.ofNat a) i

/-- the records of all chunks, in order -/
def recordsOf (chunks : List (List StoredRow)) : List Record :=
  chunks.zipIdx.flatMap fun (rows, a) => recordsFrom (UInt32.ofNat a) 0 rows

/-- the bytes that the records of some rows take -/
def volumeOf (rows : List StoredRow) : Nat :=
  (rows.map fun row => row.elim 0 fun p => Entry.size p.2.length Location.width).sum

/-- the locations of all rows with a null key, in order -/
def nullsOf (chunks : List (List StoredRow)) : List Location := locations Option.isNone chunks

/-- as long as numbers fit 32 bits, locations are places -/
theorem place_locations (p : StoredRow → Bool) {chunks : List (List StoredRow)} (hc : chunks.length ≤ 2 ^ 32)
    (hr : ∀ rows ∈ chunks, rows.length ≤ 2 ^ 32) : (locations p chunks).map Location.place = places p chunks := by
  unfold locations places
  rw [List.map_flatMap]
  refine List.flatMap_congr fun ⟨rows, a⟩ hrows => ?_
  have ha : a < chunks.length := by simpa using List.snd_lt_of_mem_zipIdx hrows
  have hsmall := hr rows (List.fst_mem_of_mem_zipIdx hrows)
  rw [List.map_map]
  refine List.map_congr_left fun ⟨row, i⟩ hrow => ?_
  have hi : i < rows.length := by simpa using List.snd_lt_of_mem_zipIdx (List.mem_filter.1 hrow).1
  simp only [Function.comp, Location.place, rowLocation, UInt32.toNat_ofNat']
  rw [Nat.mod_eq_of_lt (by omega), Nat.mod_eq_of_lt (by omega)]

/-! ## One chunk -/

theorem lookup_recordsFrom (chunk : UInt32) (hash : UInt64) (key : Bytes) (i : Nat) (rows : List StoredRow) :
    (payloadsOf (recordsFrom chunk i rows) hash key).filterMap Location.decode? =
      ((rows.zipIdx i).filter fun (row, _) => row = some (hash, key)).map fun (_, i) => rowLocation chunk i := by
  induction rows generalizing i with
  | nil => rfl
  | cons row rows ih =>
    have ih' := ih (i + 1)
    unfold payloadsOf at ih' ⊢
    rw [List.zipIdx_cons]
    cases row with
    | none => simpa [recordsFrom] using ih'
    | some p =>
      obtain ⟨h, k⟩ := p
      by_cases hp : h = hash ∧ k = key
      · obtain ⟨rfl, rfl⟩ := hp
        simp [recordsFrom, Record.carries, Location.decode?_encode, ih']
      · have hne : ¬ (some (h, k) = some (hash, key)) := by simpa using hp
        have hcarries : Record.carries hash key ⟨h, k, (rowLocation chunk i).encode⟩ = false := by
          simpa [Record.carries] using hp
        rw [recordsFrom, List.filter_cons_of_neg (by simp [hcarries]), List.filter_cons_of_neg (by simpa using hne)]
        exact ih'

theorem nullsFrom_eq (chunk : UInt32) (i : Nat) (rows : List StoredRow) :
    nullsFrom chunk i rows =
      ((rows.zipIdx i).filter fun (row, _) => row.isNone).map fun (_, i) => rowLocation chunk i := by
  induction rows generalizing i with
  | nil => rfl
  | cons row rows ih => cases row <;> simp [nullsFrom, ih]

theorem payload_of_mem_recordsFrom {chunk : UInt32} {i : Nat} {rows : List StoredRow} {n : Record}
    (h : n ∈ recordsFrom chunk i rows) : ∃ l : Location, n.payload = l.encode := by
  induction rows generalizing i with
  | nil => cases h
  | cons row rows ih =>
    rcases row with - | ⟨hash, key⟩
    · exact ih h
    · rcases List.mem_cons.1 h with rfl | h
      · exact ⟨_, rfl⟩
      · exact ih h

theorem length_recordsFrom (chunk : UInt32) (i : Nat) (rows : List StoredRow) :
    (recordsFrom chunk i rows).length = rows.countP Option.isSome := by
  induction rows generalizing i with
  | nil => rfl
  | cons row rows ih => rcases row with - | ⟨h, k⟩ <;> simp [recordsFrom, ih]

theorem total_recordsFrom (chunk : UInt32) (i : Nat) (rows : List StoredRow) :
    total (recordsFrom chunk i rows) = volumeOf rows := by
  induction rows generalizing i with
  | nil => rfl
  | cons row rows ih =>
    have ih' := ih (i + 1)
    unfold volumeOf at ih' ⊢
    rcases row with - | ⟨h, k⟩ <;> simp [recordsFrom, Record.size, Location.length_encode, ih']

/-! ## All chunks -/

theorem payloadsOf_flatMap {α : Type} (f : α → List Record) (xs : List α) (hash : UInt64) (key : Bytes) :
    payloadsOf (xs.flatMap f) hash key = xs.flatMap fun x => payloadsOf (f x) hash key := by
  unfold payloadsOf
  rw [List.filter_flatMap, List.map_flatMap]

/-- the log of recorded chunks, probed, gives the locations of the rows stored so -/
theorem lookup_recordsOf (chunks : List (List StoredRow)) (hash : UInt64) (key : Bytes) :
    (payloadsOf (recordsOf chunks) hash key).filterMap Location.decode? =
      locations (fun row => row = some (hash, key)) chunks := by
  unfold recordsOf locations
  rw [payloadsOf_flatMap, List.filterMap_flatMap]
  exact List.flatMap_congr fun ⟨rows, a⟩ _ => lookup_recordsFrom _ hash key 0 rows

/-- every payload in the log of recorded chunks is a location -/
theorem isEmpty_payloadsOf (chunks : List (List StoredRow)) (hash : UInt64) (key : Bytes) :
    (payloadsOf (recordsOf chunks) hash key).isEmpty =
      ((payloadsOf (recordsOf chunks) hash key).filterMap Location.decode?).isEmpty := by
  have hall : ∀ p ∈ payloadsOf (recordsOf chunks) hash key, Location.decode? p ≠ none := by
    intro p hp
    obtain ⟨n, hn, rfl⟩ := List.mem_map.1 hp
    obtain ⟨⟨rows, a⟩, -, hn⟩ := List.mem_flatMap.1 (List.mem_filter.1 hn).1
    obtain ⟨l, hl⟩ := payload_of_mem_recordsFrom hn
    rw [hl, Location.decode?_encode]
    exact Option.some_ne_none l
  cases h : payloadsOf (recordsOf chunks) hash key with
  | nil => rfl
  | cons p ps =>
    cases hd : Location.decode? p with
    | none => exact absurd hd (hall p (h ▸ List.mem_cons_self))
    | some l => rw [List.filterMap_cons_some hd]; rfl

theorem recordsOf_snoc (chunks : List (List StoredRow)) (rows : List StoredRow) :
    recordsOf (chunks ++ [rows]) = recordsOf chunks ++ recordsFrom (UInt32.ofNat chunks.length) 0 rows := by
  simp [recordsOf, List.zipIdx_append]

theorem nullsOf_snoc (chunks : List (List StoredRow)) (rows : List StoredRow) :
    nullsOf (chunks ++ [rows]) = nullsOf chunks ++ nullsFrom (UInt32.ofNat chunks.length) 0 rows := by
  simp [nullsOf, locations, List.zipIdx_append, nullsFrom_eq]

theorem total_recordsOf (chunks : List (List StoredRow)) : total (recordsOf chunks) = (chunks.map volumeOf).sum := by
  induction chunks using List.reverseRecOn with
  | nil => rfl
  | append_singleton chunks rows ih => simp [recordsOf_snoc, ih, total_recordsFrom]

/-- every row that is not null has its record -/
theorem length_recordsOf (chunks : List (List StoredRow)) :
    (recordsOf chunks).length = chunks.flatten.countP Option.isSome := by
  have hlen : ((fun p : List StoredRow × Nat => (recordsFrom (UInt32.ofNat p.2) 0 p.1).length)) =
      (List.countP Option.isSome) ∘ Prod.fst := funext fun _ => length_recordsFrom _ _ _
  rw [recordsOf, List.length_flatMap, hlen, List.countP_flatten, ← List.map_map, List.zipIdx_map_fst]

/-- every null row has its place -/
theorem length_nullsOf (chunks : List (List StoredRow)) :
    (nullsOf chunks).length = chunks.flatten.countP Option.isNone := by
  have hlen : ((fun p : List StoredRow × Nat =>
      ((p.1.zipIdx.filter fun q => q.1.isNone).map fun q => rowLocation (UInt32.ofNat p.2) q.2).length)) =
      (List.countP Option.isNone) ∘ Prod.fst := by
    funext p
    rw [List.length_map, ← List.countP_eq_length_filter, Function.comp, ← List.zipIdx_map_fst 0 p.1, List.countP_map,
      List.zipIdx_map_fst]
    rfl
  rw [nullsOf, locations, List.length_flatMap]
  rw [hlen, List.countP_flatten, ← List.map_map, List.zipIdx_map_fst]

end Relation

end EquiJoin
