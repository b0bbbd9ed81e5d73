/-
Recording the rows of a chunk. A row with a null key joins the null rows; any other becomes a record of the table, whose
payload is the location of the row. `recordsFrom` and `nullsFrom` say which records and which locations a chunk gives,
`withRows` is the relation that has them.

* `demand_eq_ok`: a chunk is measured only if every row has its key, and what is measured is the records' bytes;
* `reserve_eq_error`: why a chunk is not granted room;
* `run_recordRows`: in a table with room for the chunk, every row is recorded, in order. The one thing that may come
  between is that the region would not fit the address space; no row is refused;
* `recordChunk_cases`: the same for the whole chunk, which then gets the next index.
-/
import EquiJoin.Proofs.Table.Invariant
import EquiJoin.Relation.Build

namespace EquiJoin

namespace Relation

variable {t : Table} {r : Relation} {log : List Record}

/-- how a row is stored: the hash and the key it stands under, or none of them for a null key -/
abbrev StoredRow := Option (UInt64 × Bytes)

/-- keys of the rows from number `i` on, with the caller's hashes if there are any -/
def storedFrom (hashes : Option (Array UInt64)) : Nat → List (Option KeyBytes) → List StoredRow
  | _, [] => []
  | i, key :: keys =>
    key.map (fun k => ((hashes.bind fun h => h[i]?).getD k.hash, k.bytes)) :: storedFrom hashes (i + 1) keys

/-- the records of the rows from number `i` on -/
def recordsFrom (chunk : UInt32) : Nat → List StoredRow → List Record
  | _, [] => []
  | i, none :: rows => recordsFrom chunk (i + 1) rows
  | i, some (hash, key) :: rows => ⟨hash, key, (rowLocation chunk i).encode⟩ :: recordsFrom chunk (i + 1) rows

/-- the locations of the rows with a null key, from number `i` on -/
def nullsFrom (chunk : UInt32) : Nat → List StoredRow → List Location
  | _, [] => []
  | i, none :: rows => rowLocation chunk i :: nullsFrom chunk (i + 1) rows
  | i, some _ :: rows => nullsFrom chunk (i + 1) rows

/-! ## Admission of a chunk -/

theorem demand_congr {t t' : Table} (h : t'.keySize = t.keySize) (rows : List RowKey) :
    demand t' rows = demand t rows := by
  induction rows with
  | nil => rfl
  | cons row rows ih =>
    rcases row with s | key
    · rfl
    · cases key with
      | none => exact ih
      | some key => rw [demand, demand, Table.entryBytes_congr h, ih]

/-- a row that is not null is measured with the rows behind it -/
theorem demand_some_eq_ok {key : KeyBytes} {rows : List RowKey} {entries bytes : Nat} :
    demand t (.ok (some key) :: rows) = .ok (entries, bytes) ↔
      ∃ size entries' bytes', t.entryBytes key.bytes.length Location.width = .ok size ∧
        demand t rows = .ok (entries', bytes') ∧ entries = entries' + 1 ∧ bytes = cappedAdd size bytes' := by
  rw [demand]
  cases t.entryBytes key.bytes.length Location.width with
  | error e => simp
  | ok size =>
    cases demand t rows with
    | error s => simp [bind, Except.bind]
    | ok p =>
      simp only [bind, Except.bind, pure, Except.pure, Except.ok.injEq, Prod.mk.injEq]
      exact ⟨fun ⟨h1, h2⟩ => ⟨size, p.1, p.2, rfl, rfl, h1.symm, h2.symm⟩,
        fun ⟨_, _, _, hs, hp, h1, h2⟩ => by cases hs; cases hp; exact ⟨h1.symm, h2.symm⟩⟩

/-- a chunk is measured only if every row has its key, and what is measured is the records' bytes -/
theorem demand_eq_ok (chunk : UInt32) (hashes : Option (Array UInt64)) (i : Nat) {rows : List RowKey}
    {entries bytes : Nat} (h : demand t rows = .ok (entries, bytes)) :
    ∃ keys, rows = keys.map .ok ∧ bytes = cappedAdd (total (recordsFrom chunk i (storedFrom hashes i keys))) 0 := by
  induction rows generalizing i entries bytes with
  | nil => cases h; exact ⟨[], rfl, rfl⟩
  | cons row rows ih =>
    rcases row with s | key
    · cases h
    · cases key with
      | none =>
        obtain ⟨keys, rfl, hb⟩ := ih (i + 1) h
        exact ⟨none :: keys, rfl, hb⟩
      | some key =>
        obtain ⟨size, entries', bytes', hsize, hrows, -, rfl⟩ := demand_some_eq_ok.1 h
        obtain ⟨keys, rfl, hb⟩ := ih (i + 1) hrows
        refine ⟨some key :: keys, rfl, ?_⟩
        set n : Record := ⟨(hashes.bind fun h => h[i]?).getD key.hash, key.bytes, (rowLocation chunk i).encode⟩ with hn
        have : size = n.size := (Table.entryBytes_eq_ok (n := n) (by rw [hn, Location.length_encode]; exact hsize)).1
        rw [storedFrom, Option.map_some, recordsFrom, ← hn, total_cons, hb, this, ← Table.cappedAdd_capped]

/-- a chunk that is not measured has a row without a key, or with one that the table cannot store -/
theorem demand_eq_error {rows : List RowKey} {s : Stop Error} (h : demand t rows = .error s) :
    .error s ∈ rows ∨ ∃ key err, .ok (some key) ∈ rows ∧
      t.entryBytes key.bytes.length Location.width = .error err ∧ s = .refused (.table err) := by
  induction rows with
  | nil => cases h
  | cons row rows ih =>
    have hrest (hrest : demand t rows = .error s) : .error s ∈ row :: rows ∨ ∃ key err, .ok (some key) ∈ row :: rows ∧
        t.entryBytes key.bytes.length Location.width = .error err ∧ s = .refused (.table err) := by
      rcases ih hrest with hmem | ⟨key, err, hmem, hbytes⟩
      · exact Or.inl (List.mem_cons_of_mem row hmem)
      · exact Or.inr ⟨key, err, List.mem_cons_of_mem row hmem, hbytes⟩
    rcases row with s' | key
    · cases h
      exact Or.inl List.mem_cons_self
    · cases key with
      | none => exact hrest h
      | some key =>
        rw [demand] at h
        cases hbytes : t.entryBytes key.bytes.length Location.width with
        | error err =>
          simp only [hbytes, Except.error.injEq] at h
          exact Or.inr ⟨key, err, List.mem_cons_self, hbytes, h.symm⟩
        | ok size =>
          cases hd : demand t rows with
          | ok p => simp [hbytes, hd, bind, Except.bind, pure, Except.pure] at h
          | error s' =>
            simp only [hbytes, hd, bind, Except.bind, Except.error.injEq] at h
            exact hrest (h ▸ hd)

theorem reserve_eq_ok {rows : List RowKey} :
    reserve t rows = .ok () ↔
      ∃ entries bytes, demand t rows = .ok (entries, bytes) ∧ t.ensureRoom entries bytes = .ok () := by
  rw [reserve]
  cases demand t rows with
  | error s => simp [bind, Except.bind]
  | ok p =>
    rcases p with ⟨entries, bytes⟩
    simp only [bind, Except.bind]
    cases h : t.ensureRoom entries bytes with
    | error e => simp [throw, throwThe, MonadExceptOf.throw, h]
    | ok u => simp [pure, Except.pure, h]

theorem reserve_of_demand_error {rows : List RowKey} {s : Stop Error} (h : demand t rows = .error s) :
    reserve t rows = .error s := by
  simp only [reserve, h, bind, Except.bind]

theorem reserve_of_ensureRoom_error {rows : List RowKey} {p : Nat × Nat} {err : TableError}
    (h : demand t rows = .ok p) (hroom : t.ensureRoom p.1 p.2 = .error err) :
    reserve t rows = .error (.refused (.table err)) := by
  simp only [reserve, h, hroom, bind, Except.bind, throw, throwThe, MonadExceptOf.throw]

/-- a chunk is not granted room because a row has no key, or because the table cannot store one of them, or not all -/
theorem reserve_eq_error {rows : List RowKey} {s : Stop Error} (h : reserve t rows = .error s) :
    .error s ∈ rows ∨ ∃ err, s = .refused (.table err) ∧
      ((∃ key, .ok (some key) ∈ rows ∧ t.entryBytes key.bytes.length Location.width = .error err) ∨
        ∃ entries bytes, t.ensureRoom entries bytes = .error err) := by
  rw [reserve] at h
  cases hd : demand t rows with
  | error s' =>
    simp only [hd, bind, Except.bind, Except.error.injEq] at h
    subst h
    rcases demand_eq_error hd with hmem | ⟨key, err, hmem, hbytes, rfl⟩
    · exact Or.inl hmem
    · exact Or.inr ⟨err, rfl, Or.inl ⟨key, hmem, hbytes⟩⟩
  | ok p =>
    cases hroom : t.ensureRoom p.1 p.2 with
    | ok u => simp [hd, hroom, bind, Except.bind, pure, Except.pure] at h
    | error err =>
      simp only [hd, hroom, bind, Except.bind, throw, throwThe, MonadExceptOf.throw, Except.error.injEq] at h
      exact Or.inr ⟨err, h.symm, Or.inr ⟨p.1, p.2, hroom⟩⟩

/-! ## One row -/

theorem run_onTable_of_ok {α : Type} {act : Table.Act α} {a : α} {t' : Table} (ht : r.table = .owned t)
    (h : act.run t = .ok a t') : (onTable act).run r = .ok a { r with table := .owned t' } := by
  simp only [EStateM.run, onTable, ht] at *
  simp only [h]

theorem run_onTable_of_error {α : Type} {act : Table.Act α} {s : Stop TableError} {t' : Table}
    (ht : r.table = .owned t) (h : act.run t = .error s t') :
    (onTable act).run r = .error (s.map .table) { r with table := .owned t' } := by
  simp only [EStateM.run, onTable, ht] at *
  simp only [h]

/-- an action on the table is answered only by a table of the relation's own, and changes nothing else -/
theorem onTable_eq_ok {α : Type} {act : Table.Act α} {a : α} {r' : Relation} (h : (onTable act).run r = .ok a r') :
    ∃ t t', r.table = .owned t ∧ act.run t = .ok a t' ∧ r' = { r with table := .owned t' } := by
  cases ht : r.table with
  | absent => simp [EStateM.run, onTable, ht] at h
  | imported v => simp [EStateM.run, onTable, ht] at h
  | owned t =>
    cases hact : act.run t with
    | error s t' => cases (run_onTable_of_error ht hact).symm.trans h
    | ok b t' =>
      cases (run_onTable_of_ok ht hact).symm.trans h
      exact ⟨t, t', rfl, hact, rfl⟩

/-- the relation once these rows are recorded -/
def withRows (r : Relation) (t : Table) (nulls : List Location) : Relation :=
  { r with
    table := .owned t
    nullSeen := r.nullSeen || !nulls.isEmpty
    nullRows := r.nullRows ++ nulls.toArray }

theorem withRows_nil (r : Relation) (ht : r.table = .owned t) : r.withRows t [] = r := by
  cases r
  simp only [withRows, List.isEmpty_nil, Bool.not_true, Bool.or_false] at *
  simp [ht]

theorem withRows_withRows (r : Relation) (t t' : Table) (ls ms : List Location) :
    (r.withRows t ls).withRows t' ms = r.withRows t' (ls ++ ms) := by
  cases ls <;> simp [withRows, Array.append_assoc]

theorem run_noteNull (r : Relation) (l : Location) (ht : r.table = .owned t) :
    (noteNull l).run r = .ok () (r.withRows t [l]) := by
  rw [noteNull, Action.run_modify, withRows]
  simp [ht]

/-- in a table with room for a batch, its first row is recorded and leaves room for the others, unless its end leaves
the word -/
theorem run_recordRow (l : Location) (hash : Option UInt64) (ht : r.table = .owned t) (hh : t.Holds log)
    {key : KeyBytes} {size entries bytes : Nat} (hs : t.entryBytes key.bytes.length Location.width = .ok size)
    (hr : t.ensureRoom (entries + 1) (cappedAdd size bytes) = .ok ()) :
    (∃ t', (recordRow l hash (.ok (some key))).run r = .ok () (r.withRows t' []) ∧
        t'.Holds (log ++ [⟨hash.getD key.hash, key.bytes, l.encode⟩]) ∧ t.Keeps t' ∧ t'.cursor = t.cursor + size ∧
        t'.ensureRoom entries bytes = .ok ()) ∨
      ((recordRow l hash (.ok (some key))).run r = .error .fault r ∧ 2 ^ 64 ≤ t.cursor + size) := by
  set n : Record := ⟨hash.getD key.hash, key.bytes, l.encode⟩
  have hb : t.entryBytes n.key.length n.payload.length = .ok size := by rwa [Location.length_encode]
  have hsize : size = n.size := (Table.entryBytes_eq_ok hb).1
  have hfirst := Table.ensureRoom_first hr
  rw [recordRow, Table.insertLocation]
  by_cases he : t.cursor + size < 2 ^ 64
  · obtain ⟨t', hinsert, hh', hk, hcapacity⟩ := Table.insert_of_room hh hb hfirst he
    have hcursor : t'.cursor = t.cursor + size := by
      rw [hh'.cursor, total_append, hh.cursor, hsize, total_cons, total_nil, Nat.add_zero]
    have hcount : t'.count = t.count + 1 := by
      rw [hh'.count, List.length_append, hh.count]
      rfl
    refine Or.inl ⟨t', ?_, hh', hk, hcursor, ?_⟩
    · rw [run_onTable_of_ok ht hinsert]
      simp [withRows]
    · refine Table.ensureRoom_rest hr ?_ hk.maxBytes hk.loadFactor hcursor hcount hcapacity
      have := hh.count_le
      omega
  · have hinsert := Table.insert_of_overflow hb hfirst (Nat.le_of_not_lt he)
    refine Or.inr ⟨?_, Nat.le_of_not_lt he⟩
    rw [run_onTable_of_error ht hinsert, ← ht]
    rfl

/-! ## All rows of a chunk -/

/-- in a table with room for them the rows are recorded in order, unless the region would not fit the address space -/
theorem run_recordRows (chunk : UInt32) (hashes : Option (Array UInt64)) {keys : List (Option KeyBytes)} (i : Nat)
    (ht : r.table = .owned t) (hh : t.Holds log) {entries bytes : Nat}
    (hd : demand t (keys.map .ok) = .ok (entries, bytes)) (hr : t.ensureRoom entries bytes = .ok ()) :
    (∃ t', (recordRows chunk hashes i (keys.map .ok)).run r =
        .ok () (r.withRows t' (nullsFrom chunk i (storedFrom hashes i keys))) ∧
      t'.Holds (log ++ recordsFrom chunk i (storedFrom hashes i keys)) ∧ t.Keeps t') ∨
    ((∃ r', (recordRows chunk hashes i (keys.map .ok)).run r = .error .fault r') ∧
      2 ^ 64 ≤ t.cursor + total (recordsFrom chunk i (storedFrom hashes i keys))) := by
  -- the induction carries the room: storing the first row leaves room for the others
  induction keys generalizing i r t log entries bytes with
  | nil =>
    refine Or.inl ⟨t, ?_, ?_, Table.Keeps.refl t⟩
    · rw [storedFrom, nullsFrom, withRows_nil r ht]
      rfl
    · rw [storedFrom, recordsFrom, List.append_nil]
      exact hh
  | cons key keys ih =>
    rw [List.map_cons] at hd
    rw [List.map_cons, recordRows, storedFrom]
    cases key with
    | none =>
      have hnull (hash : Option UInt64) : (recordRow (rowLocation chunk i) hash (.ok none)).run r =
          .ok () (r.withRows t [rowLocation chunk i]) := run_noteNull r (rowLocation chunk i) ht
      rw [Option.map_none, recordsFrom, nullsFrom, Action.run_bind_of_ok (hnull _)]
      have := ih (i + 1) (r := r.withRows t [rowLocation chunk i]) rfl hh hd hr
      simpa only [withRows_withRows, List.singleton_append] using this
    | some key =>
      obtain ⟨size, entries', bytes', hs, hd', rfl, rfl⟩ := demand_some_eq_ok.1 hd
      set hash := hashes.bind fun h => h[i]?
      set n : Record := ⟨hash.getD key.hash, key.bytes, (rowLocation chunk i).encode⟩
      have hsize : size = n.size :=
        (Table.entryBytes_eq_ok (n := n) (by rw [Location.length_encode]; exact hs)).1
      have hrecords : recordsFrom chunk i (some (hash.getD key.hash, key.bytes) :: storedFrom hashes (i + 1) keys) =
          n :: recordsFrom chunk (i + 1) (storedFrom hashes (i + 1) keys) := rfl
      rw [Option.map_some, hrecords, total_cons, ← hsize]
      rcases run_recordRow (rowLocation chunk i) hash ht hh hs hr with
        ⟨t₁, hrow, hh₁, hk₁, hcursor, hroom⟩ | ⟨hfault, hover⟩
      · rw [Action.run_bind_of_ok hrow]
        rcases ih (i + 1) (r := r.withRows t₁ []) rfl hh₁ (by rw [demand_congr hk₁.keySize]; exact hd') hroom with
          ⟨t₂, hrows, hh₂, hk₂⟩ | ⟨hfault, hover⟩
        · refine Or.inl ⟨t₂, ?_, by simpa using hh₂, hk₁.trans hk₂⟩
          rw [hrows, withRows_withRows]
          rfl
        · refine Or.inr ⟨hfault, ?_⟩
          rw [← Nat.add_assoc, ← hcursor]
          exact hover
      · exact Or.inr ⟨⟨r, Action.run_bind_of_error hfault⟩, by omega⟩

/-- once a chunk is granted room, it is recorded and the next chunk gets the next index, unless the budget is the whole
address space and the records do not fit it, or the index is the last one -/
theorem recordChunk_cases {rows : List RowKey} (hashes : Option (Array UInt64)) (ht : r.table = .owned t)
    (hh : t.Holds log) (hr : reserve t rows = .ok ()) :
    ∃ keys, rows = keys.map .ok ∧
      ((∃ t', (recordChunk rows hashes).run r =
          .ok () { r.withRows t' (nullsFrom r.chunks 0 (storedFrom hashes 0 keys)) with chunks := r.chunks + 1 } ∧
        t'.Holds (log ++ recordsFrom r.chunks 0 (storedFrom hashes 0 keys)) ∧ t.Keeps t' ∧
        r.chunks.toNat + 1 < 2 ^ 32) ∨
      ((∃ r', (recordChunk rows hashes).run r = .error .fault r') ∧
        (t.maxBytes = 2 ^ 64 - 1 ∧ 2 ^ 64 ≤ t.cursor + total (recordsFrom r.chunks 0 (storedFrom hashes 0 keys)) ∨
          r.chunks.toNat + 1 = 2 ^ 32))) := by
  obtain ⟨entries, bytes, hd, hroom⟩ := reserve_eq_ok.1 hr
  obtain ⟨keys, rfl, hbytes⟩ := demand_eq_ok r.chunks hashes 0 hd
  refine ⟨keys, rfl, ?_⟩
  have hindex : (Action.query fun r => .ok r.chunks : Act UInt32).run r = .ok r.chunks r := rfl
  rw [recordChunk, Action.run_bind_of_ok hindex]
  rcases run_recordRows r.chunks hashes 0 ht hh hd hroom with ⟨t', hrows, hh', hk⟩ | ⟨⟨r', hfault⟩, hover⟩
  · rw [Action.run_bind_of_ok hrows]
    by_cases hn : r.chunks.toNat + 1 < 2 ^ 32
    · refine Or.inl ⟨t', ?_, hh', hk, hn⟩
      exact if_pos hn
    · refine Or.inr ⟨⟨_, if_neg hn⟩, Or.inr ?_⟩
      have := r.chunks.toNat_lt
      omega
  · refine Or.inr ⟨⟨r', Action.run_bind_of_error hfault⟩, Or.inl ⟨?_, hover⟩⟩
    have hbudget := (Table.ensureRoom_eq_ok_iff.1 hroom).1
    rw [hbytes, Table.cappedAdd_capped] at hbudget
    have hmax := hh.maxBytes_lt
    unfold cappedAdd at hbudget
    omega

end Relation

end EquiJoin
