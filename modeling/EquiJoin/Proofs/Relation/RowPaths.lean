/-
The ways to the bytes of a row. An encoder writes the row of some arrays and has a test for nulls of its own; a relation
writes the payload of one build row by walking its columns at a location. Neither trusts what the row held before.
`Writes` says what all of them come to: an action that leaves in any used row what appending these keys, one after
another, leaves in a new one.

An encoder takes arrays of one length only, while the columns of a relation may hold a location in chunks of different
lengths. So the payload of a build row can be written where no encoder can be made of the chunks.

* `columnsOf_of_columns`, `ofChunks_of_columns`: columns of equal length make an encoder;
* `encode_writes`, `hasNull?_eq`: the encoder writes the cells of a row, and its test for nulls is that of the row;
* `encodeCells_eq`, `encodePayload_writes`: so does the walk over the payload columns;
* `row_paths_agree`: all of them, for any arrays and any relation;
* `row_paths_part`: where they differ.
-/
import EquiJoin.Proofs.Relation.History

namespace EquiJoin

variable {chunks : List Chunk} {rows i n : Nat} {ks : List Key} {l : Location}

/-- a column that has a row of this number -/
def Chunk.HasRow (i : Nat) (chunk : Chunk) : Prop := chunk.dataType.column?.isSome = true ∧ i < chunk.size

theorem Chunk.HasRow.key? {chunk : Chunk} (h : chunk.HasRow i) : ∃ k, chunk.key? i = some k := by
  obtain ⟨hcolumn, hi⟩ := h
  cases chunk with
  | other name cells => cases hcolumn
  | column t cells => exact ⟨_, by rw [Chunk.key?, Array.getElem?_eq_getElem hi, Option.map_some]⟩

/-- columns that have a row have one cell each in it -/
theorem length_rowOf (h : ∀ chunk ∈ chunks, chunk.HasRow i) : (rowOf chunks i).length = chunks.length := by
  induction chunks with
  | nil => rfl
  | cons chunk chunks ih =>
    obtain ⟨k, hk⟩ := (h chunk List.mem_cons_self).key?
    rw [rowOf_cons hk, List.length_cons, List.length_cons, ih fun c hc => h c (List.mem_cons_of_mem chunk hc)]

namespace Row

/-- in any used row of `n` fields the action leaves what appending these keys, one for each field, leaves in a new one;
it is answered exactly if the keys fit their fields -/
structure Writes (n : Nat) (ks : List Key) (act : Act Unit) : Prop where
  length : ks.length = n
  run : ∀ calls, act.run ((new n).run calls) = (appendAll ks).run (new n)
  answered : (∃ r, (appendAll ks).run (new n) = .ok () r) ↔ ∀ k ∈ ks, fitsField k

/-- an action that overwrites the rows of `n` fields overwrites every used row -/
theorem writes_of_run {act : Act Unit} (hlength : ks.length = n)
    (h : ∀ out : Row, out.Spans n → act.run out = (appendAll ks).run (new n)) : Writes n ks act where
  length := hlength
  run calls := by
    obtain ⟨hencodes, hfields⟩ := run_new_encodes n calls
    have hspans := hencodes.spans
    rw [hfields] at hspans
    exact h _ hspans
  answered := appendAll_answered (by rw [new, Nat.zero_add, hlength])

end Row

/-! ## The encoder -/

namespace RowEncoder

/-- columns of one length have an encoder of that many rows -/
theorem columnsOf_of_columns (h : ∀ chunk ∈ chunks, chunk.dataType.column?.isSome = true ∧ chunk.size = rows) :
    ∃ columns, columnsOf rows chunks = .ok columns := by
  induction chunks with
  | nil => exact ⟨[], rfl⟩
  | cons chunk chunks ih =>
    obtain ⟨hcolumn, hsize⟩ := h chunk List.mem_cons_self
    obtain ⟨columns, hrest⟩ := ih fun c hc => h c (List.mem_cons_of_mem chunk hc)
    cases chunk with
    | other name cells => cases hcolumn
    | column t cells =>
      refine ⟨⟨t, #[cells]⟩ :: columns, ?_⟩
      simp [columnsOf, hsize, hrest, Column.ofType, Column.append, Column.empty, Chunk.dataType, bind, Except.bind,
        pure, Except.pure]

/-- columns of equal length make an encoder, which has as many rows as they -/
theorem ofChunks_of_columns (h : ∀ chunk ∈ chunks, chunk.dataType.column?.isSome = true ∧ chunk.size = rows) :
    ∃ e, ofChunks chunks = .ok e ∧ (chunks ≠ [] → e.rows = rows) := by
  cases chunks with
  | nil => exact ⟨⟨[], 0⟩, rfl, fun hne => absurd rfl hne⟩
  | cons chunk chunks =>
    obtain ⟨columns, hcolumns⟩ := columnsOf_of_columns h
    have hrows : (((chunk :: chunks).head?.map Chunk.size).getD 0) = rows := (h chunk List.mem_cons_self).2
    refine ⟨⟨columns, rows⟩, ?_, fun _ => rfl⟩
    rw [ofChunks, hrows, hcolumns]
    rfl

variable {e : RowEncoder}

/-- an encoder writes the cells of a row over whatever it is given -/
theorem encode_writes (he : ofChunks chunks = .ok e) (h : ∀ chunk ∈ chunks, chunk.HasRow i) (hi : i < e.rows)
    (hs : i < 2 ^ 32) : Row.Writes chunks.length (rowOf chunks i) (e.encode i) := by
  obtain ⟨-, hreads⟩ := ofChunks_eq_ok he
  exact Row.writes_of_run (length_rowOf h) fun out hout => run_encode hreads hi hs hout

/-- the encoder's test for nulls is that of the row that it writes -/
theorem hasNull?_eq (he : ofChunks chunks = .ok e) (hi : i < e.rows) (hs : i < 2 ^ 32) {r : Row}
    (hr : (Row.appendAll (rowOf chunks i)).run (Row.new chunks.length) = .ok () r) :
    e.hasNull? i = some (Key.row r).bytes?.isNone := by
  obtain ⟨-, hreads⟩ := ofChunks_eq_ok he
  have hencodes := (Row.appendAll_encodes (Row.new_encodes _) hr).1
  rw [List.nil_append] at hencodes
  rw [hasNull?, hasNullAt_eq hreads hi hs, Row.isNone_bytes?_row hencodes]

/-- the row behind 2^32 others is written as the first of them -/
theorem encode_wraps (h : 2 ^ 32 < e.rows) (out : Row) : (e.encode (2 ^ 32)).run out = (e.encode 0).run out :=
  congrArg (fun act => act.run out) (encode_mod h)

end RowEncoder

/-! ## The payload -/

namespace Relation

/-- the chunks of this index, one of each payload column that has one -/
def chunksAt (r : Relation) (chunk : UInt32) : List Chunk :=
  r.columns.toList.filterMap fun column => column.chunk? chunk.toNat

/-- a column that holds a location has a chunk with a cell there -/
theorem cell_of_contains {column : Column} (h : column.contains l = true) :
    ∃ chunk cell, column.chunk? l.chunk.toNat = some chunk ∧ chunk.HasRow l.row.toNat ∧ column.cell? l = some cell ∧
      chunk.key? l.row.toNat = some (Key.ofCell? column.type cell) := by
  obtain ⟨cell, hcell⟩ := Option.isSome_iff_exists.1 h
  have hread := hcell
  rw [Column.cell?] at hread
  cases hcells : column.chunks[l.chunk.toNat]? with
  | none => simp [hcells] at hread
  | some cells =>
    simp only [hcells] at hread
    refine ⟨.column column.type cells, cell, by rw [Column.chunk?, hcells]; rfl, ⟨rfl, ?_⟩, hcell, ?_⟩
    · exact (Array.getElem?_eq_some_iff.1 hread).1
    · rw [Chunk.key?, hread]
      rfl

/-- where all columns hold a location, the walk appends their cells there -/
theorem encodeCells_eq {columns : List Column} (h : ∀ column ∈ columns, column.contains l = true) :
    encodeCells l columns =
      Row.appendAll (rowOf (columns.filterMap fun column => column.chunk? l.chunk.toNat) l.row.toNat) := by
  induction columns with
  | nil => rfl
  | cons column columns ih =>
    have hcontains := h column List.mem_cons_self
    obtain ⟨chunk, cell, hchunk, -, hcell, hkey⟩ := cell_of_contains hcontains
    have hrest := ih fun c hc => h c (List.mem_cons_of_mem column hc)
    rw [List.filterMap_cons_some (f := fun column : Column => column.chunk? l.chunk.toNat) hchunk, rowOf_cons hkey,
      Row.appendAll_cons, ← hrest, encodeCells, hcontains, Column.appendTo, hcell]
    rfl

variable {r : Relation}

/-- if all columns hold a location, there is one chunk for each of them -/
theorem length_chunksAt (h : ∀ column ∈ r.columns, column.contains l = true) :
    (r.chunksAt l.chunk).length = r.columns.size := by
  have hall : ∀ column ∈ r.columns.toList, (column.chunk? l.chunk.toNat).isSome = true := by
    intro column hcolumn
    obtain ⟨chunk, -, hchunk, -⟩ := cell_of_contains (h column (Array.mem_toList_iff.1 hcolumn))
    rw [hchunk]
    rfl
  rw [chunksAt, List.filterMap_length_eq_length.2 hall, Array.length_toList]

/-- and each of these chunks has the row -/
theorem hasRow_of_mem_chunksAt (h : ∀ column ∈ r.columns, column.contains l = true) {chunk : Chunk}
    (hc : chunk ∈ r.chunksAt l.chunk) : chunk.HasRow l.row.toNat := by
  obtain ⟨column, hcolumn, hchunk⟩ := List.mem_filterMap.1 hc
  obtain ⟨chunk', -, hchunk', hrow, -⟩ := cell_of_contains (h column (Array.mem_toList_iff.1 hcolumn))
  cases hchunk.symm.trans hchunk'
  exact hrow

/-- the payload of a build row is written over whatever the row held -/
theorem encodePayload_writes (h : ∀ column ∈ r.columns, column.contains l = true) :
    Row.Writes r.columns.size (rowOf (r.chunksAt l.chunk) l.row.toNat) (r.encodePayload l) := by
  have hlength : (rowOf (r.chunksAt l.chunk) l.row.toNat).length = r.columns.size :=
    (length_rowOf fun chunk hc => hasRow_of_mem_chunksAt h hc).trans (length_chunksAt h)
  refine Row.writes_of_run hlength fun out hout => ?_
  have hget : (MonadState.get : Row.Act Row).run out = .ok out out := rfl
  have hcells := encodeCells_eq fun column hcolumn => h column (Array.mem_toList_iff.1 hcolumn)
  rw [encodePayload, Action.run_bind_of_ok hget, if_neg (not_not.2 hout.fields), hcells]
  exact Action.run_bind_of_ok hout.run_reset

/-- **All ways to a row agree.** Take any columns of equal length. They make an encoder, and for every row of it whose
number fits 32 bits, the encoder leaves in any row of their number of fields, whatever was called on it before, what
appending the cells of the row in the order of the columns leaves in a new one. That is answered exactly if every cell
fits its field, and then the encoder tells beforehand whether the row is a null key. Take any relation and a location
that all its payload columns hold. Writing the payload comes to the same for the cells at this location; and if there is
a payload column and the chunks are equally long, they make an encoder that leaves the same row. -/
theorem row_paths_agree :
    (∀ (chunks : List Chunk) (rows : Nat),
      (∀ chunk ∈ chunks, chunk.dataType.column?.isSome = true ∧ chunk.size = rows) →
      ∃ e, RowEncoder.ofChunks chunks = .ok e ∧ (chunks ≠ [] → e.rows = rows) ∧
        ∀ i, i < e.rows → i < 2 ^ 32 →
          Row.Writes chunks.length (rowOf chunks i) (e.encode i) ∧
          ∀ row, (Row.appendAll (rowOf chunks i)).run (Row.new chunks.length) = .ok () row →
            e.hasNull? i = some (Key.row row).bytes?.isNone) ∧
    ∀ (r : Relation) (l : Location), (∀ column ∈ r.columns, column.contains l = true) →
      Row.Writes r.columns.size (rowOf (r.chunksAt l.chunk) l.row.toNat) (r.encodePayload l) ∧
      ∀ rows, r.columns ≠ #[] → (∀ chunk ∈ r.chunksAt l.chunk, chunk.size = rows) →
        ∃ e, RowEncoder.ofChunks (r.chunksAt l.chunk) = .ok e ∧ ∀ calls,
          (r.encodePayload l).run ((Row.new r.columns.size).run calls) =
            (e.encode l.row.toNat).run ((Row.new r.columns.size).run calls) := by
  constructor
  · intro chunks rows h
    obtain ⟨e, he, hcount⟩ := RowEncoder.ofChunks_of_columns h
    refine ⟨e, he, hcount, ?_⟩
    intro i hi hs
    have hrow : ∀ chunk ∈ chunks, chunk.HasRow i := by
      intro chunk hc
      obtain ⟨hsupported, hsize⟩ := h chunk hc
      rw [hcount (List.ne_nil_of_mem hc), ← hsize] at hi
      exact ⟨hsupported, hi⟩
    exact ⟨RowEncoder.encode_writes he hrow hi hs, fun row hr => RowEncoder.hasNull?_eq he hi hs hr⟩
  · intro r l h
    refine ⟨encodePayload_writes h, ?_⟩
    intro rows hne hrows
    have hrow : ∀ chunk ∈ r.chunksAt l.chunk, chunk.HasRow l.row.toNat := fun chunk hc => hasRow_of_mem_chunksAt h hc
    obtain ⟨e, he, hcount⟩ := RowEncoder.ofChunks_of_columns fun chunk hc => ⟨(hrow chunk hc).1, hrows chunk hc⟩
    have hlength := length_chunksAt h
    have hnonempty : r.chunksAt l.chunk ≠ [] := by
      intro hnil
      rw [hnil] at hlength
      exact hne (Array.eq_empty_of_size_eq_zero hlength.symm)
    obtain ⟨chunk, hc⟩ := List.exists_mem_of_ne_nil _ hnonempty
    have hi : l.row.toNat < e.rows := by
      rw [hcount hnonempty, ← hrows chunk hc]
      exact (hrow chunk hc).2
    -- both paths are brought to the same appends
    have hencode := RowEncoder.encode_writes he hrow hi l.row.toNat_lt
    rw [hlength] at hencode
    exact ⟨e, he, fun calls => ((encodePayload_writes h).run calls).trans (hencode.run calls).symm⟩

/-- two columns of numbers beside the key -/
def twoColumnRelation : Relation := { smallRelation with columns := #[.empty .int32, .empty .int32] }

/-- one payload row for the first column and two for the second -/
def unevenBuild : List Call :=
  [.appendPayload 0 (.column .int32 #[some 5]), .appendPayload 1 (.column .int32 #[some 7, some 8])]

/-- so many null cells and a number behind them -/
def wideChunk (n : Nat) : Chunk := .column .int8 ((Array.replicate n none).push (some 7))

/-- the cells of the first row and of the last -/
theorem rowOf_wideChunk {n : Nat} (hn : 0 < n) :
    rowOf [wideChunk n] 0 = [.null .signed] ∧ rowOf [wideChunk n] n = [.int8 7] := by
  have hfirst : ((Array.replicate n none).push (some (7 : Int8)))[0]? = some none := by
    rw [Array.getElem?_push_lt (by simpa using hn), Array.getElem_replicate]
  have hlast : ((Array.replicate n none).push (some (7 : Int8)))[n]? = some (some 7) := by
    rw [Array.getElem?_push, if_pos (by simp)]
  constructor
  · rw [wideChunk, rowOf_cons (k := .null .signed) (by rw [Chunk.key?, hfirst]; rfl)]
    rfl
  · rw [wideChunk, rowOf_cons (k := .int8 7) (by rw [Chunk.key?, hlast]; rfl)]
    rfl

/-- of 2^32 null cells and a number behind them, the encoder writes for the number what it writes for the first null -/
theorem encode_wideChunk :
    ∃ e row row', RowEncoder.ofChunks [wideChunk (2 ^ 32)] = .ok e ∧ 2 ^ 32 < e.rows ∧
      (e.encode (2 ^ 32)).run (Row.new 1) = .ok () row ∧ row.bytes = [1] ∧
      (Row.appendAll (rowOf [wideChunk (2 ^ 32)] (2 ^ 32))).run (Row.new 1) = .ok () row' ∧
      row'.bytes = [0, 7, 0, 0, 0, 0, 0, 0, 0] := by
  have hcolumn : ∀ chunk ∈ [wideChunk (2 ^ 32)], chunk.dataType.column?.isSome = true ∧ chunk.size = 2 ^ 32 + 1 := by
    simp [wideChunk, Chunk.dataType, DataType.column?, Chunk.size]
  obtain ⟨hfirst, hlast⟩ := rowOf_wideChunk (n := 2 ^ 32) (by decide)
  obtain ⟨e, he, hrows⟩ := RowEncoder.ofChunks_of_columns hcolumn
  have hcount : e.rows = 2 ^ 32 + 1 := hrows (by simp)
  have hrow : ∀ chunk ∈ [wideChunk (2 ^ 32)], chunk.HasRow 0 := by
    intro chunk hc
    obtain ⟨hsupported, hsize⟩ := hcolumn chunk hc
    exact ⟨hsupported, by omega⟩
  have hrun := (RowEncoder.encode_writes he hrow (by omega) (by decide)).run []
  rw [hfirst] at hrun
  refine ⟨e, _, _, he, by omega, (RowEncoder.encode_wraps (by omega) _).trans (hrun.trans rfl), ?_, by rw [hlast]; rfl,
    ?_⟩
  · decide +kernel
  · decide +kernel

/-- Where the ways part. Two columns hold a location in chunks of different lengths: the payload is written, and there
is no encoder. Without any column the payload is the empty row, and the encoder has no row to write. And behind 2^32
rows the encoder writes the first of them again. -/
theorem row_paths_part :
    (new (.single (.column .int32)) [.empty .int32, .empty .int32] Table.smallConfig = .ok twoColumnRelation ∧
      (∀ column ∈ (run twoColumnRelation unevenBuild).columns, column.contains ⟨0, 0⟩ = true) ∧
      (∃ row, ((run twoColumnRelation unevenBuild).encodePayload ⟨0, 0⟩).run (Row.new 2) = .ok () row ∧
        row.bytes = [0, 5, 0, 0, 0, 0, 0, 0, 0, 7, 0, 0, 0, 0, 0, 0, 0]) ∧
      RowEncoder.ofChunks ((run twoColumnRelation unevenBuild).chunksAt 0) = .error (.columnLengths 2 1)) ∧
    (new (.single (.column .int32)) [] Table.smallConfig = .ok smallRelation ∧
      (∀ column ∈ smallRelation.columns, column.contains ⟨0, 0⟩ = true) ∧
      (smallRelation.encodePayload ⟨0, 0⟩).run (Row.new 0) = .ok () (Row.new 0) ∧
      ∃ e, RowEncoder.ofChunks (smallRelation.chunksAt 0) = .ok e ∧
        (e.encode 0).run (Row.new 0) = .error (.refused (.encoderRow 0 0)) (Row.new 0)) ∧
    ∃ e row row', RowEncoder.ofChunks [wideChunk (2 ^ 32)] = .ok e ∧ 2 ^ 32 < e.rows ∧
      (e.encode (2 ^ 32)).run (Row.new 1) = .ok () row ∧ row.bytes = [1] ∧
      (Row.appendAll (rowOf [wideChunk (2 ^ 32)] (2 ^ 32))).run (Row.new 1) = .ok () row' ∧
      row'.bytes = [0, 7, 0, 0, 0, 0, 0, 0, 0] := by
  refine ⟨⟨new_small_columns _, ?_, ⟨_, rfl, ?_⟩, rfl⟩, ⟨new_small, ?_, rfl, _, rfl, rfl⟩, encode_wideChunk⟩
  · decide +kernel
  · decide +kernel
  · decide +kernel

/-- the same number of payload rows for both columns, one cell of them null -/
def evenBuild : List Call :=
  [.appendPayload 0 (.column .int32 #[some 5, none]), .appendPayload 1 (.column .int32 #[some 7, some 8])]

/-- a complete row, one field of which is null -/
def leftover : List Row.Call := [.appendNull, .append (.text "stale")]

/-- a row with a null and one without, written over a row that is complete -/
theorem row_paths_agree_even :
    (∃ e, RowEncoder.ofChunks [.column .int32 #[some 5, none], .column .binary #[some [97], some [98]]] = .ok e ∧
      (e.encode 1).run ((Row.new 2).run leftover) = .ok () ⟨2, 2, [1], [1, 0, 0, 0, 98]⟩ ∧
      e.hasNull? 1 = some true) ∧
    ∃ e, RowEncoder.ofChunks ((run twoColumnRelation evenBuild).chunksAt 0) = .ok e ∧
      ((run twoColumnRelation evenBuild).encodePayload ⟨0, 0⟩).run ((Row.new 2).run leftover) =
        (e.encode 0).run ((Row.new 2).run leftover) := by
  obtain ⟨harrays, hpayload⟩ := row_paths_agree
  constructor
  · obtain ⟨e, he, hcount, hrow⟩ :=
      harrays [.column .int32 #[some 5, none], .column .binary #[some [97], some [98]]] 2 (by decide)
    have hi : 1 < e.rows := by rw [hcount (by simp)]; decide
    obtain ⟨hwrites, hnull⟩ := hrow 1 hi (by decide)
    exact ⟨e, he, (hwrites.run leftover).trans (by rfl), hnull ⟨2, 2, [1], [1, 0, 0, 0, 98]⟩ (by rfl)⟩
  · obtain ⟨-, hsame⟩ := hpayload (run twoColumnRelation evenBuild) ⟨0, 0⟩ (by decide +kernel)
    obtain ⟨e, he, hrun⟩ := hsame 2 (by decide +kernel) (by decide +kernel)
    exact ⟨e, he, hrun leftover⟩

end Relation

end EquiJoin
