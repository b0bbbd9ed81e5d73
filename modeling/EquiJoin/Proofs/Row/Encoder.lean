/-
Encoding the rows of a chunk. An encoder reads the same cells that `rowOf` lists: it has one column for each array, and
what it writes for a row is the row of these keys.

* `ofChunks_eq_ok`: arrays that make an encoder are columns of equal length;
* `run_encode`: what the encoder writes over a row, whatever the row held;
* `encodedKey_eq`: a row with a null cell has a null key, any other the bytes of its encoded row.
-/
import EquiJoin.Proofs.Row.Decoding
import EquiJoin.Relation.Build

namespace EquiJoin

/-- the cell at `i`, as a key -/
def Chunk.key? : Chunk → Nat → Option Key
  | column t cells, i => cells[i]?.map (Key.ofCell? t)
  | other _ _, _ => none

/-- the cells of a row, one of each array -/
def rowOf (arrays : List Chunk) (i : Nat) : List Key := arrays.filterMap fun a => a.key? i

theorem rowOf_cons {chunk : Chunk} {i : Nat} {k : Key} (h : chunk.key? i = some k) (chunks : List Chunk) :
    rowOf (chunk :: chunks) i = k :: rowOf chunks i :=
  List.filterMap_cons_some (f := fun a : Chunk => a.key? i) h

namespace RowEncoder

/-- the columns of an encoder are its arrays, one chunk each -/
def Reads (rows : Nat) (chunk : Chunk) (column : Column) : Prop :=
  ∃ t cells, chunk = .column t cells ∧ cells.size = rows ∧ column = ⟨t, #[cells]⟩

theorem columnsOf_eq_ok {rows : Nat} {chunks : List Chunk} {columns : List Column}
    (h : columnsOf rows chunks = .ok columns) : List.Forall₂ (Reads rows) chunks columns := by
  induction chunks generalizing columns with
  | nil =>
    cases h
    exact .nil
  | cons chunk chunks ih =>
    rw [columnsOf] at h
    by_cases hs : chunk.size ≠ rows
    · simp [hs, throw, throwThe, MonadExceptOf.throw, bind, Except.bind] at h
    · cases chunk with
      | other n cells => simp [hs, Column.ofType, Chunk.dataType, bind, Except.bind] at h
      | column t cells =>
        cases hrest : columnsOf rows chunks with
        | error e =>
          simp [hs, hrest, Column.ofType, Column.append, Column.empty, Chunk.dataType, bind, Except.bind] at h
        | ok rest =>
          simp [hs, hrest, Column.ofType, Column.append, Column.empty, Chunk.dataType, bind, Except.bind, pure,
            Except.pure] at h
          rw [← h]
          exact .cons ⟨t, cells, rfl, not_not.1 hs, rfl⟩ (ih hrest)

/-- arrays that make an encoder are columns, all of them as long as the first -/
theorem ofChunks_eq_ok {chunks : List Chunk} {e : RowEncoder} (h : ofChunks chunks = .ok e) :
    e.rows = (chunks.head?.map Chunk.size).getD 0 ∧ List.Forall₂ (Reads e.rows) chunks e.columns := by
  unfold ofChunks at h
  cases hc : columnsOf ((chunks.head?.map Chunk.size).getD 0) chunks with
  | error e => simp [hc, bind, Except.bind] at h
  | ok columns =>
    simp only [hc, bind, Except.bind, pure, Except.pure, Except.ok.injEq] at h
    subst h
    exact ⟨rfl, columnsOf_eq_ok hc⟩

variable {rows i : Nat} {chunk : Chunk} {column : Column} {chunks : List Chunk} {columns : List Column}

theorem size_of_reads (h : List.Forall₂ (Reads rows) chunks columns) (hc : chunk ∈ chunks) : chunk.size = rows := by
  induction h with
  | nil => cases hc
  | cons hr _ ih =>
    rcases List.mem_cons.1 hc with rfl | hc
    · obtain ⟨t, cells, rfl, hsize, -⟩ := hr
      exact hsize
    · exact ih hc

/-- within its rows, the column of an array has the array's cell -/
theorem Reads.cell (h : Reads rows chunk column) (hi : i < rows) (hs : i < 2 ^ 32) :
    ∃ cell, column.cell? (location i) = some cell ∧ chunk.key? i = some (Key.ofCell? column.type cell) := by
  obtain ⟨t, cells, rfl, rfl, rfl⟩ := h
  refine ⟨cells[i], ?_, ?_⟩
  · have hrow : (location i).row.toNat = i := by
      rw [location, UInt32.toNat_ofNat', Nat.mod_eq_of_lt hs]
    have hchunk : #[cells][(location i).chunk.toNat]? = some cells := rfl
    simp only [Column.cell?, hchunk, hrow]
    exact Array.getElem?_eq_getElem hi
  · rw [Chunk.key?, Array.getElem?_eq_getElem hi, Option.map_some]

/-- the encoder sees a null in a row exactly if one of its cells is null -/
theorem hasNullAt_eq (h : List.Forall₂ (Reads rows) chunks columns) (hi : i < rows) (hs : i < 2 ^ 32) :
    hasNullAt (location i) columns = some ((rowOf chunks i).any Key.isNull) := by
  induction h with
  | nil => rfl
  | cons hr _ ih =>
    obtain ⟨cell, hcell, hkey⟩ := hr.cell hi hs
    rw [hasNullAt, Column.isNull?, hcell, rowOf_cons hkey, List.any_cons, Key.isNull_ofCell?]
    cases cell with
    | none => rfl
    | some v => exact ih

/-- the encoder writes the cells of a row, one after another -/
theorem forM_appendTo (h : List.Forall₂ (Reads rows) chunks columns) (hi : i < rows) (hs : i < 2 ^ 32) :
    (columns.forM fun c => c.appendTo (location i)) = Row.appendAll (rowOf chunks i) := by
  induction h with
  | nil => rfl
  | cons hr _ ih =>
    obtain ⟨cell, hcell, hkey⟩ := hr.cell hi hs
    rw [rowOf_cons hkey, Row.appendAll_cons, ← ih]
    show (Column.appendTo _ _ >>= fun _ => List.forM _ _) = _
    rw [Column.appendTo, hcell]

/-- whatever the row held, the encoder leaves what appending the cells of its row makes of a new one -/
theorem run_encode {e : RowEncoder} (h : List.Forall₂ (Reads e.rows) chunks e.columns) (hi : i < e.rows)
    (hs : i < 2 ^ 32) {out : Row} (hout : out.Spans chunks.length) :
    (e.encode i).run out = (Row.appendAll (rowOf chunks i)).run (Row.new chunks.length) := by
  have hfields : chunks.length = e.fields := h.length_eq
  rw [hfields] at hout
  rw [run_encode_over hout, if_neg (Nat.not_le_of_lt hi), forM_appendTo h hi hs, newRow, hfields]

/-- row numbers are cut to 32 bits, so a row behind 2^32 others is written as one of them -/
theorem encode_mod {e : RowEncoder} (hi : i < e.rows) : e.encode i = e.encode (i % 2 ^ 32) := by
  have hplace : location i = location (i % 2 ^ 32) := by
    rw [location, location, ← UInt32.ofNat_mod_size]
  have hrow : ¬ e.rows ≤ i := Nat.not_le_of_lt hi
  have hrow' : ¬ e.rows ≤ i % 2 ^ 32 := Nat.not_le_of_lt (Nat.lt_of_le_of_lt (Nat.mod_le i _) hi)
  rw [encode, encode, hplace, if_neg hrow, if_neg hrow']

theorem hasNull?_mod (e : RowEncoder) (i : Nat) : e.hasNull? i = e.hasNull? (i % 2 ^ 32) := by
  rw [hasNull?, hasNull?, location, location, ← UInt32.ofNat_mod_size]

end RowEncoder

namespace Row

theorem appendAll_never_faults {r r' : Row} {ks : List Key} : (appendAll ks).run r ≠ .error .fault r' := by
  induction ks generalizing r with
  | nil => intro h; cases h
  | cons k ks ih =>
    rw [appendAll_cons]
    intro h
    rcases Action.run_bind_eq_error.1 h with hk | ⟨_, _, _, hrest⟩
    · exact append_never_faults hk
    · exact ih hrest

end Row

namespace Relation

/-- a row with a null cell has a null key, any other the bytes of its encoded row -/
theorem encodedKey_eq {chunks : List Chunk} {e : RowEncoder} (h : RowEncoder.ofChunks chunks = .ok e) {i : Nat}
    (hi : i < e.rows) (hs : i < 2 ^ 32) :
    encodedKey e i =
      if (rowOf chunks i).any Key.isNull then .ok none
      else (Row.ofKeys chunks.length (rowOf chunks i)).map fun r => some (.slice r.bytes) := by
  obtain ⟨-, hreads⟩ := RowEncoder.ofChunks_eq_ok h
  rw [encodedKey, RowEncoder.hasNull?, RowEncoder.hasNullAt_eq hreads hi hs]
  cases (rowOf chunks i).any Key.isNull with
  | true => rfl
  | false =>
    have hrun : (e.encode i).run e.newRow = (Row.appendAll (rowOf chunks i)).run (Row.new chunks.length) :=
      RowEncoder.run_encode hreads hi hs (hreads.length_eq ▸ Row.spans_new e.fields)
    simp only [hrun, Bool.false_eq_true, if_false, Row.ofKeys]
    cases (Row.appendAll (rowOf chunks i)).run (Row.new chunks.length) <;> rfl

theorem encodedKey_mod {e : RowEncoder} {i : Nat} (hi : i < e.rows) : encodedKey e i = encodedKey e (i % 2 ^ 32) := by
  rw [encodedKey, encodedKey, RowEncoder.encode_mod hi, RowEncoder.hasNull?_mod e i]

/-- within 32-bit row numbers, an encoder never stops without a refusal -/
theorem encodedKey_never_faults {chunks : List Chunk} {e : RowEncoder} (h : RowEncoder.ofChunks chunks = .ok e)
    {i : Nat} (hi : i < e.rows) (hs : e.rows ≤ 2 ^ 32) : encodedKey e i ≠ .error .fault := by
  rw [encodedKey_eq h hi (Nat.lt_of_lt_of_le hi hs)]
  split_ifs
  · simp
  · unfold Row.ofKeys
    cases hr : (Row.appendAll (rowOf chunks i)).run (Row.new chunks.length) with
    | ok u r => simp [Except.map]
    | error s r =>
      rintro ⟨⟩
      exact Row.appendAll_never_faults hr

end Relation

end EquiJoin
