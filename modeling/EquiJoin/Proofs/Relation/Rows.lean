/-
The rows of an append of keys. Whatever the key type, a chunk is a list of arrays, and a row takes one cell of each. The
bytes that an append stores for a row are told from its cells by `rowBytes`.

* `rows_of_prepare`: a prepared append has the rows of its arrays, in bytes, and its arrays fit the key;
* `stored_of_prepare`: it is stored as these rows are;
* `storedAs_of_prepare`: with more rows than 32 bits number, it is still stored as so many rows.
-/
import EquiJoin.Proofs.Relation.Calls
import EquiJoin.Proofs.Relation.Places
import EquiJoin.Proofs.Row.Encoder

namespace EquiJoin

/-- the types of the key columns -/
def KeyType.types : KeyType → List DataType
  | single t => [t]
  | composite ts => ts

namespace Relation

/-- what an append of keys is given: one array for each key column, and hashes if the caller brings them -/
structure KeyChunk where
  arrays : List Chunk
  hashes : Option (Array UInt64)

/-- the key bytes of a row, none if one of its cells is null -/
def rowBytes : KeyType → List Key → Option KeyBytes
  | .single _, row => row.head?.bind Key.bytes?
  | .composite ts, row =>
    if row.any Key.isNull then none else (Row.ofKeys ts.length row).toOption.map fun r => .slice r.bytes

namespace KeyChunk

def rowCount (c : KeyChunk) : Nat := (c.arrays.head?.map Chunk.size).getD 0

/-- the cells of the chunk, row by row -/
def rows (c : KeyChunk) : List (List Key) := (List.range c.rowCount).map (rowOf c.arrays)

/-- its rows as they are stored -/
def stored (k : KeyType) (c : KeyChunk) : List StoredRow := storedFrom c.hashes 0 (c.rows.map (rowBytes k))

/-- the bytes that its rows take in the table -/
def volume (k : KeyType) (c : KeyChunk) : Nat := volumeOf (c.stored k)

/-- the arrays have the types of the key columns and one length, and only rows with a null cell have no bytes -/
structure Fits (k : KeyType) (c : KeyChunk) : Prop where
  types : c.arrays.map Chunk.dataType = k.types
  sizes : ∀ a ∈ c.arrays, a.size = c.rowCount
  bytes : ∀ row ∈ c.rows, (rowBytes k row).isNone = row.any Key.isNull

end KeyChunk

namespace Call

/-- the chunk of an append of keys -/
def keyChunk? : Call → Option KeyChunk
  | appendKeys chunk hashes => some ⟨[chunk], hashes⟩
  | appendKeyRows chunks hashes => some ⟨chunks, hashes⟩
  | _ => none

/-- row numbers of the chunk fit 32 bits -/
def Small (call : Call) : Prop := ∀ c ∈ call.keyChunk?, c.rowCount ≤ 2 ^ 32

end Call

variable {r r' : Relation} {call : Call} {c : KeyChunk} {prepared : Act (List RowKey)} {rows : List RowKey}

theorem eq_map_of_map_ok {α β ε : Type} {xs : List α} {ys : List β} {f : α → Except ε β} {g : α → β}
    (h : xs.map f = ys.map .ok) (hf : ∀ x ∈ xs, ∀ y, f x = .ok y → y = g x) : ys = xs.map g := by
  induction xs generalizing ys with
  | nil => simpa using h.symm
  | cons x xs ih =>
    cases ys with
    | nil => cases h
    | cons y ys =>
      simp only [List.map_cons, List.cons.injEq] at h
      rw [List.map_cons, hf x List.mem_cons_self y h.1,
        ← ih h.2 fun x' hx => hf x' (List.mem_cons_of_mem x hx)]

/-- the rows of a single array -/
theorem rows_singleton (t : ColumnType) (cells : Array (Option t.Value)) (hashes : Option (Array UInt64)) :
    (KeyChunk.mk [.column t cells] hashes).rows = cells.toList.map fun cell => [Key.ofCell? t cell] := by
  refine List.ext_getElem (by simp [KeyChunk.rows, KeyChunk.rowCount, Chunk.size]) fun i hi hi' => ?_
  have hlt : i < cells.size := by simpa using hi'
  have hkey : (Chunk.column t cells).key? i = some (Key.ofCell? t cells[i]) := by
    rw [Chunk.key?, Array.getElem?_eq_getElem hlt, Option.map_some]
  simp only [KeyChunk.rows, List.getElem_map, List.getElem_range, rowOf_cons hkey, Array.getElem_toList]
  rfl

theorem checkKeyChunk_eq_ok {chunk : Chunk} (h : checkKeyChunk chunk r = .ok ()) :
    ∃ t, r.keyType = .single t ∧ chunk.dataType = t := by
  unfold checkKeyChunk at h
  cases hk : r.keyType with
  | composite ts => simp [hk] at h
  | single t =>
    simp only [hk] at h
    split_ifs at h with ht
    exact ⟨t, rfl, not_not.1 ht⟩

theorem checkKeyChunks_eq_ok {chunks : List Chunk} (h : checkKeyChunks chunks r = .ok ()) :
    r.keyType = .composite (chunks.map Chunk.dataType) := by
  unfold checkKeyChunks at h
  cases hk : r.keyType with
  | single t => simp [hk] at h
  | composite ts =>
    simp only [hk] at h
    split_ifs at h with ht
    rw [not_not.1 ht]

/-- the keys of an array that is a chunk of a single key -/
theorem rows_of_keyChunk {chunk : Chunk} {hashes : Option (Array UInt64)} (check : checkKeyChunk chunk r = .ok ())
    {keys : List (Option KeyBytes)} (hk : keysOf chunk = keys.map .ok) :
    keys = (KeyChunk.mk [chunk] hashes).rows.map (rowBytes r.keyType) ∧
      (KeyChunk.mk [chunk] hashes).Fits r.keyType := by
  obtain ⟨t, hkey, htype⟩ := checkKeyChunk_eq_ok check
  rw [hkey]
  cases chunk with
  | column t cells =>
    refine ⟨?_, by simp [htype, KeyType.types], by simp [KeyChunk.rowCount], fun row hrow => ?_⟩
    · rw [rows_singleton, List.map_map]
      exact eq_map_of_map_ok hk fun cell _ y hy => (Except.ok.inj hy).symm
    · rw [rows_singleton] at hrow
      obtain ⟨cell, -, rfl⟩ := List.mem_map.1 hrow
      simp [rowBytes, Key.isNull]
  | other n cells =>
    -- rows that have no key are prepared only if there are none
    have hnone : cells.size = 0 := by
      cases hl : cells.toList with
      | nil => simpa using congrArg List.length hl
      | cons x xs => cases keys <;> simp [keysOf, hl] at hk
    have hkeys : keys = [] := by
      have := congrArg List.length hk
      simpa [keysOf, hnone] using this.symm
    have hrows : (KeyChunk.mk [.other n cells] hashes).rows = [] := by
      simp [KeyChunk.rows, KeyChunk.rowCount, Chunk.size, hnone]
    exact ⟨by rw [hkeys, hrows, List.map_nil], by simp [htype, KeyType.types], by simp [KeyChunk.rowCount],
      by simp [hrows]⟩

/-- a row that is encoded has the bytes of its cells -/
theorem rowBytes_of_encodedKey {chunks : List Chunk} {e : RowEncoder} (he : RowEncoder.ofChunks chunks = .ok e)
    (hs : e.rows ≤ 2 ^ 32) {i : Nat} (hi : i < e.rows) {y : Option KeyBytes} (hy : encodedKey e i = .ok y) :
    y = rowBytes (.composite (chunks.map Chunk.dataType)) (rowOf chunks i) ∧
      y.isNone = (rowOf chunks i).any Key.isNull := by
  rw [encodedKey_eq he hi (Nat.lt_of_lt_of_le hi hs)] at hy
  rw [rowBytes, List.length_map]
  split_ifs at hy ⊢ with hnull
  · cases hy
    exact ⟨rfl, hnull.symm⟩
  · cases hr : Row.ofKeys chunks.length (rowOf chunks i) with
    | error s => simp [hr, Except.map] at hy
    | ok row =>
      simp only [hr, Except.map, Except.ok.injEq] at hy
      subst hy
      exact ⟨rfl, by simpa using hnull⟩

/-- the keys of arrays that are a chunk of a composite key -/
theorem rows_of_keyChunks {chunks : List Chunk} {hashes : Option (Array UInt64)} {e : RowEncoder}
    (check : checkKeyChunks chunks r = .ok ()) (he : RowEncoder.ofChunks chunks = .ok e)
    (hs : (KeyChunk.mk chunks hashes).rowCount ≤ 2 ^ 32) {keys : List (Option KeyBytes)}
    (hk : encodedKeys e = keys.map .ok) :
    keys = (KeyChunk.mk chunks hashes).rows.map (rowBytes r.keyType) ∧ (KeyChunk.mk chunks hashes).Fits r.keyType := by
  obtain ⟨hcount, hreads⟩ := RowEncoder.ofChunks_eq_ok he
  have hcount' : e.rows = (KeyChunk.mk chunks hashes).rowCount := hcount
  have hrows : (KeyChunk.mk chunks hashes).rows = (List.range e.rows).map (rowOf chunks) := by
    rw [KeyChunk.rows, ← hcount']
  rw [checkKeyChunks_eq_ok check]
  rw [← hcount'] at hs
  refine ⟨?_, rfl, fun a ha => ?_, fun row hrow => ?_⟩
  · rw [hrows, List.map_map]
    exact eq_map_of_map_ok hk fun i hi y hy => (rowBytes_of_encodedKey he hs (List.mem_range.1 hi) hy).1
  · rw [← hcount']
    exact RowEncoder.size_of_reads hreads ha
  · rw [hrows] at hrow
    obtain ⟨i, hi, rfl⟩ := List.mem_map.1 hrow
    have hmem : encodedKey e i ∈ encodedKeys e := List.mem_map.2 ⟨i, hi, rfl⟩
    rw [hk] at hmem
    obtain ⟨y, -, hy⟩ := List.mem_map.1 hmem
    obtain ⟨h1, h2⟩ := rowBytes_of_encodedKey he hs (List.mem_range.1 hi) hy.symm
    rw [← h1, h2]

/-- what is prepared is a chunk of keys -/
theorem keyChunk_of_prepare (hp : call.prepare = some prepared) : ∃ c, call.keyChunk? = some c := by
  cases call <;> cases hp <;> exact ⟨_, rfl⟩

/-- every chunk of keys is prepared -/
theorem prepare_of_keyChunk (hc : call.keyChunk? = some c) : ∃ prepared, call.prepare = some prepared := by
  cases call <;> cases hc <;> exact ⟨_, rfl⟩

/-- a prepared append has the rows of its arrays, in bytes, and its arrays fit the key -/
theorem rows_of_prepare (hp : call.prepare = some prepared) (hc : call.keyChunk? = some c) (hs : c.rowCount ≤ 2 ^ 32)
    (hrun : prepared.run r = .ok rows r') {keys : List (Option KeyBytes)} (hk : rows = keys.map .ok) :
    keys = c.rows.map (rowBytes r.keyType) ∧ c.Fits r.keyType := by
  cases passed_of_prepare hp hrun with
  | keys _ check _ =>
    cases hc
    exact rows_of_keyChunk check hk
  | keyRows _ check he _ =>
    cases hc
    exact rows_of_keyChunks check he hs hk

/-- a prepared append is stored as its chunk is -/
theorem stored_of_prepare (hp : call.prepare = some prepared) (hc : call.keyChunk? = some c) (hs : c.rowCount ≤ 2 ^ 32)
    (hrun : prepared.run r = .ok rows r') {keys : List (Option KeyBytes)} (hk : rows = keys.map .ok) :
    storedFrom call.hashes 0 keys = c.stored r.keyType ∧ c.Fits r.keyType := by
  obtain ⟨hkeys, hfits⟩ := rows_of_prepare hp hc hs hrun hk
  have hhashes : call.hashes = c.hashes := by
    cases call <;> cases hc <;> rfl
  rw [hkeys, hhashes, KeyChunk.stored]
  exact ⟨rfl, hfits⟩

/-- whatever hashes the caller brings, a row is stored under the bytes of its key -/
theorem map_snd_storedFrom (hashes : Option (Array UInt64)) (i : Nat) (keys : List (Option KeyBytes)) :
    (storedFrom hashes i keys).map (Option.map Prod.snd) = keys.map (Option.map KeyBytes.bytes) := by
  induction keys generalizing i with
  | nil => rfl
  | cons key keys ih =>
    rw [storedFrom, List.map_cons, List.map_cons, ih, Option.map_map]
    rfl

theorem length_stored (k : KeyType) (c : KeyChunk) : (c.stored k).length = c.rowCount := by
  have := congrArg List.length (map_snd_storedFrom c.hashes 0 (c.rows.map (rowBytes k)))
  simpa [KeyChunk.stored, KeyChunk.rows] using this

/-- what is prepared is one row for each row of the chunk -/
theorem length_of_prepare (hp : call.prepare = some prepared) (hc : call.keyChunk? = some c)
    (hrun : prepared.run r = .ok rows r') : rows.length = c.rowCount := by
  cases passed_of_prepare hp hrun with
  | @keys chunk hashes _ _ _ =>
    cases hc
    cases chunk <;> simp [keysOf, KeyChunk.rowCount, Chunk.size]
  | keyRows _ _ he _ =>
    cases hc
    rw [encodedKeys, List.length_map, List.length_range]
    exact (RowEncoder.ofChunks_eq_ok he).1

/-- the chunk is stored as these rows: one for each of its own, and the very rows if their numbers fit 32 bits -/
structure KeyChunk.StoredAs (k : KeyType) (c : KeyChunk) (stored : List StoredRow) : Prop where
  length : stored.length = c.rowCount
  small : c.rowCount ≤ 2 ^ 32 → stored = c.stored k ∧ c.Fits k

/-- whatever the number of its rows, a prepared append is stored as some rows -/
theorem storedAs_of_prepare (hp : call.prepare = some prepared) (hc : call.keyChunk? = some c)
    (hrun : prepared.run r = .ok rows r') {keys : List (Option KeyBytes)} (hk : rows = keys.map .ok) :
    c.StoredAs r.keyType (storedFrom call.hashes 0 keys) where
  length := by
    have hstored := congrArg List.length (map_snd_storedFrom call.hashes 0 keys)
    have hrows := length_of_prepare hp hc hrun
    rw [hk] at hrows
    simp only [List.length_map] at hstored hrows
    exact hstored.trans hrows
  small hs := stored_of_prepare hp hc hs hrun hk

/-- the cells of a row have the domains of the key columns -/
theorem map_domain_rowOf {arrays : List Chunk} {ts : List ColumnType} {i : Nat}
    (ht : arrays.map Chunk.dataType = ts.map DataType.column) (hs : ∀ a ∈ arrays, i < a.size) :
    (rowOf arrays i).map Key.domain = ts.map ColumnType.domain := by
  induction arrays generalizing ts with
  | nil =>
    cases ts with
    | nil => rfl
    | cons t ts => cases ht
  | cons a arrays ih =>
    cases ts with
    | nil => cases ht
    | cons t ts =>
      simp only [List.map_cons, List.cons.injEq] at ht
      cases a with
      | other n cells => cases ht.1
      | column t' cells =>
        cases ht.1
        have hlt : i < cells.size := hs _ List.mem_cons_self
        have hkey : (Chunk.column t cells).key? i = some (Key.ofCell? t cells[i]) := by
          rw [Chunk.key?, Array.getElem?_eq_getElem hlt, Option.map_some]
        have hdomain : (Key.ofCell? t cells[i]).domain = t.domain := by
          cases cells[i] with
          | none => rfl
          | some v => exact Key.domain_ofCell t v
        rw [rowOf_cons hkey, List.map_cons, List.map_cons, hdomain,
          ih ht.2 fun x hx => hs x (List.mem_cons_of_mem _ hx)]

theorem KeyChunk.Fits.domains {k : KeyType} {ts : List ColumnType} (hc : c.Fits k)
    (hk : k.types = ts.map DataType.column) {row : List Key} (hrow : row ∈ c.rows) :
    row.map Key.domain = ts.map ColumnType.domain := by
  obtain ⟨i, hi, rfl⟩ := List.mem_map.1 hrow
  exact map_domain_rowOf (hc.types.trans hk) fun a ha => hc.sizes a ha ▸ List.mem_range.1 hi

end Relation

end EquiJoin
