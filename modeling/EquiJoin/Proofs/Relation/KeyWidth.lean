/-
The width of a composite key. A relation that is given no width takes the one that the types of its columns fix, and its
table then holds every key to it, in what is stored and in what is looked for. The width is computed in one place and
checked in two others, and still no key of the relation is ever turned down for it: what is stored and looked for are
complete rows without nulls, and those have the width that was computed, or else none was.

* `reserve_of_refused`: the table refuses an append only when it is asked for room for its rows;
* `misfit_of_append`: an append that is refused for a width has a row of another width than its table is pinned to;
* `full_of_encodedKeys`: the rows of an append are complete rows without nulls, of the types of the key;
* `computed_step`, `computed_run`: every call keeps that the configured width is the computed one;
* `computed_width_admits`: what follows for appends and for probes.
-/
import EquiJoin.Proofs.Relation.Configuration
import EquiJoin.Proofs.Relation.Join
import EquiJoin.Proofs.Row.Width

namespace EquiJoin

/-! ## What a table refuses -/

namespace Table

variable {t : Table}

theorem reach_eq_error {load : Binary64} {wanted capacity : Nat} {e : TableError}
    (h : reach load wanted capacity = .error e) : ∃ last, e = .capacityOverflow last := by
  fun_induction reach load wanted capacity with
  | case1 => cases h
  | case2 _ _ _ ih => exact ih h
  | case3 => cases h; exact ⟨_, rfl⟩

/-- a table that has no room does not speak of a width -/
theorem ensureRoom_ne_keySizeMismatch (entries bytes expected actual : Nat) :
    t.ensureRoom entries bytes ≠ .error (.keySizeMismatch expected actual) := by
  intro h
  unfold ensureRoom at h
  dsimp only at h
  split_ifs at h
  · cases h
  · obtain ⟨last, hlast⟩ := reach_eq_error h
    cases hlast

/-- a key is refused for its width only by a table that is pinned to another one -/
theorem entryBytes_eq_keySizeMismatch {keyLength payloadLength expected actual : Nat}
    (h : t.entryBytes keyLength payloadLength = .error (.keySizeMismatch expected actual)) :
    t.keySize = some expected ∧ expected ≠ keyLength := by
  unfold entryBytes at h
  split at h
  · next w hw =>
    cases h
    obtain ⟨hpinned, hne⟩ := Option.filter_eq_some_iff.1 hw
    exact ⟨hpinned, by simpa using hne⟩
  · split_ifs at h
    cases h

end Table

/-- a key of the width that a view is pinned to, if it is, is looked for in its slot -/
theorem View.matches?_of_width {v : View} {key : Bytes} (h : ∀ width ∈ v.keySize?, width = key.length) (hash : UInt64) :
    v.matches? hash key = v.slots[Slot.index v.header.mask hash]?.map fun slot => ⟨v.bytes, hash, key, slot.head⟩ := by
  have hwidth : ¬ v.keySize?.any (· ≠ key.length) = true := by
    rw [Option.any_eq_true]
    rintro ⟨width, hpinned, hne⟩
    exact of_decide_eq_true hne (h width hpinned)
  rw [matches?, if_neg hwidth]

namespace Relation

variable {r r' r₀ : Relation} {t : Table} {cts : List ColumnType} {calls : List Call} {chunks : List Chunk}
variable {e : RowEncoder} {rows : List RowKey} {key : KeyBytes} {expected actual : Nat}

/-- the call does not stop for a refusal of the table -/
def BesideTable (s : Stop Error) : Prop := ∀ err, s ≠ .refused (.table err)

/-! ## The rows of an append -/

theorem stops_append (k : Key) : Action.Stops BesideTable (Row.append k) := by
  have hnext : Action.Stops BesideTable Row.nextField := by
    intro r r' s hrun
    rw [Row.run_nextField] at hrun
    split_ifs at hrun
    cases hrun
    rintro _ ⟨⟩
  rw [Row.append]
  split
  · exact hnext.bind fun _ => Action.stops_modify _
  · exact hnext.bind fun _ => Action.stops_modify _
  · split_ifs
    · exact Action.stops_throw (by rintro _ ⟨⟩)
    · exact hnext.bind fun _ => Action.stops_modify _

theorem stops_appendTo (columns : List Column) (l : Location) :
    Action.Stops BesideTable (columns.forM fun c => c.appendTo l) := by
  induction columns with
  | nil => exact Action.stops_pure _
  | cons column columns ih =>
    refine Action.Stops.bind ?_ fun _ => ih
    show Action.Stops BesideTable (column.appendTo l)
    rw [Column.appendTo]
    split
    · exact Action.stops_throw (by rintro _ ⟨⟩)
    · exact stops_append _

/-- an encoder does not know of any table -/
theorem stops_encode (e : RowEncoder) (i : Nat) : Action.Stops BesideTable (e.encode i) := by
  have hlast : Action.Stops BesideTable (do
      Row.reset
      e.columns.forM fun c => c.appendTo (RowEncoder.location i)) :=
    (Action.stops_modify _).bind fun _ => stops_appendTo _ _
  have hrow : Action.Stops BesideTable (do
      if e.rows ≤ i then Action.refuse (.encoderRow i e.rows)
      Row.reset
      e.columns.forM fun c => c.appendTo (RowEncoder.location i)) := by
    split_ifs
    · exact Action.Stops.bind (Action.stops_throw (by rintro _ ⟨⟩)) fun _ => hlast
    · exact hlast
  refine Action.Stops.bind (by rintro out out' s ⟨⟩) fun out => ?_
  by_cases hfields : out.fields ≠ e.fields
  · rw [if_pos hfields]
    exact Action.Stops.bind (Action.stops_throw (by rintro _ ⟨⟩)) fun _ => hrow
  · rw [if_neg hfields]
    exact hrow

theorem besideTable_of_encodedKeys {s : Stop Error} (h : .error s ∈ encodedKeys e) : BesideTable s := by
  obtain ⟨i, -, hi⟩ := List.mem_map.1 h
  rw [encodedKey] at hi
  split at hi
  · cases hi
    rintro _ ⟨⟩
  · cases hi
  · split at hi
    · cases hi
    · next hrun =>
      cases hi
      exact stops_encode e i _ _ _ hrun

/-- a row that is encoded is a complete one without nulls, of the types of the arrays -/
theorem full_of_encodedKey (he : RowEncoder.ofChunks chunks = .ok e)
    (htypes : chunks.map Chunk.dataType = cts.map DataType.column) {i : Nat} (hi : i < e.rows) (hs : i < 2 ^ 32)
    (hkey : encodedKey e i = .ok (some key)) :
    ∃ row, Row.Full (cts.map ColumnType.domain) row ∧ key.bytes = row.bytes := by
  rw [encodedKey_eq he hi hs] at hkey
  split_ifs at hkey with hnull
  · cases hkey
  · cases hrow : Row.ofKeys chunks.length (rowOf chunks i) with
    | error s => simp [hrow, Except.map] at hkey
    | ok row =>
      simp only [hrow, Except.map, Except.ok.injEq, Option.some.injEq] at hkey
      have hcount : chunks.length = (cts.map ColumnType.domain).length := by
        simpa using congrArg List.length htypes
      have hsizes : ∀ a ∈ chunks, i < a.size := by
        intro a ha
        rw [RowEncoder.size_of_reads (RowEncoder.ofChunks_eq_ok he).2 ha]
        exact hi
      rw [hcount] at hrow
      exact ⟨row, Row.full_of_ofKeys hrow (map_domain_rowOf htypes hsizes) (Bool.eq_false_iff.2 hnull), hkey ▸ rfl⟩

/-- so are all rows of an append, however many there are -/
theorem full_of_encodedKeys (he : RowEncoder.ofChunks chunks = .ok e)
    (htypes : chunks.map Chunk.dataType = cts.map DataType.column) (hkey : .ok (some key) ∈ encodedKeys e) :
    ∃ row, Row.Full (cts.map ColumnType.domain) row ∧ key.bytes = row.bytes := by
  obtain ⟨i, hi, hencoded⟩ := List.mem_map.1 hkey
  have hi : i < e.rows := List.mem_range.1 hi
  -- of the row number only 32 bits count
  rw [encodedKey_mod hi] at hencoded
  exact full_of_encodedKey he htypes (Nat.lt_of_le_of_lt (Nat.mod_le i _) hi) (Nat.mod_lt i (by decide)) hencoded

/-! ## Refusals for a width -/

/-- if the rows of a chunk do not stop for a table, the table refuses the chunk for a width only where one of its keys
has another -/
theorem misfit_of_reserve (hrows : ∀ s, .error s ∈ rows → BesideTable s)
    (h : reserve t rows = .error (.refused (.table (.keySizeMismatch expected actual)))) :
    ∃ key, .ok (some key) ∈ rows ∧ t.keySize = some expected ∧ expected ≠ key.bytes.length := by
  rcases reserve_eq_error h with hmem | ⟨err, herr, ⟨key, hmem, hbytes⟩ | ⟨entries, bytes, hroom⟩⟩
  · exact absurd rfl (hrows _ hmem _)
  · cases herr
    exact ⟨key, hmem, Table.entryBytes_eq_keySizeMismatch hbytes⟩
  · cases herr
    exact absurd hroom (Table.ensureRoom_ne_keySizeMismatch entries bytes expected actual)

theorem stops_checkHashes (hashes : Option (Array UInt64)) (n : Nat) :
    Action.Stops BesideTable (checkHashes hashes n) := by
  cases hashes with
  | none => exact Action.stops_pure ()
  | some h =>
    rw [checkHashes]
    split_ifs
    · exact Action.stops_throw (by rintro _ ⟨⟩)
    · exact Action.stops_pure ()

theorem stops_checkKeyChunks (chunks : List Chunk) :
    Action.Stops BesideTable (Action.query (checkKeyChunks chunks)) := by
  refine Action.stops_query fun r err h => ?_
  rw [checkKeyChunks] at h
  split at h
  · cases h
    rintro _ ⟨⟩
  · split_ifs at h
    cases h
    rintro _ ⟨⟩

theorem besideTable_of_columnsOf {n : Nat} {err : Error} (h : RowEncoder.columnsOf n chunks = .error err) :
    BesideTable (.refused err) := by
  induction chunks with
  | nil => cases h
  | cons chunk chunks ih =>
    rw [RowEncoder.columnsOf] at h
    by_cases hsize : chunk.size ≠ n
    · simp only [hsize, ne_eq, not_false_eq_true, if_true, throw, throwThe, MonadExceptOf.throw, bind, Except.bind,
        Except.error.injEq] at h
      subst h
      rintro _ ⟨⟩
    · cases chunk with
      | other name cells =>
        simp only [hsize, if_false, Column.ofType, Chunk.dataType, bind, Except.bind, Except.error.injEq] at h
        subst h
        rintro _ ⟨⟩
      | column t cells =>
        cases hrest : RowEncoder.columnsOf n chunks with
        | ok columns =>
          simp [hsize, hrest, Column.ofType, Column.append, Column.empty, Chunk.dataType, bind, Except.bind, pure,
            Except.pure] at h
        | error err' =>
          simp [hsize, hrest, Column.ofType, Column.append, Column.empty, Chunk.dataType, bind, Except.bind] at h
          subst h
          exact ih hrest

theorem stops_ofChunks (chunks : List Chunk) :
    Action.Stops BesideTable (Action.query fun _ : Relation => RowEncoder.ofChunks chunks) := by
  refine Action.stops_query fun r err h => ?_
  rw [RowEncoder.ofChunks] at h
  cases hcolumns : RowEncoder.columnsOf ((chunks.head?.map Chunk.size).getD 0) chunks with
  | ok columns => simp [hcolumns, bind, Except.bind, pure, Except.pure] at h
  | error err' =>
    simp only [hcolumns, bind, Except.bind, Except.error.injEq] at h
    exact h ▸ besideTable_of_columnsOf hcolumns

/-- the table refuses an append only when it is asked for room for its rows -/
theorem reserve_of_refused {hashes : Option (Array UInt64)} {err : TableError} (hs : r.Sound)
    (h : (Call.appendKeyRows chunks hashes).act.run r = .error (.refused (.table err)) r') :
    ∃ t e, r.table = .owned t ∧ checkKeyChunks chunks r = .ok () ∧ RowEncoder.ofChunks chunks = .ok e ∧
      reserve t (encodedKeys e) = .error (.refused (.table err)) := by
  have hp : (Call.appendKeyRows chunks hashes).prepare = some _ := rfl
  rw [act_of_prepare hp] at h
  rcases Action.run_bind_eq_error.1 h with h | ⟨rows, m, hrows, hrecord⟩
  · rcases Action.run_bind_eq_error.1 h with h₁ | ⟨_, m₁, h₁, h⟩
    · exact absurd rfl (stops_checkHashes _ _ _ _ _ h₁ err)
    rcases Action.run_bind_eq_error.1 h with h₂ | ⟨_, m₂, h₂, h⟩
    · exact absurd rfl (stops_checkKeyChunks _ _ _ _ h₂ err)
    rcases Action.run_bind_eq_error.1 h with h₃ | ⟨e, m₃, h₃, h⟩
    · exact absurd rfl (stops_ofChunks _ _ _ _ h₃ err)
    rcases Action.run_bind_eq_error.1 h with h₄ | ⟨_, m₄, h₄, h⟩
    · cases (inert_checkHashes _ _).eq_of_ok h₁
      obtain ⟨hcheck, rfl⟩ := Action.run_query_eq_ok h₂
      obtain ⟨hencoder, rfl⟩ := Action.run_query_eq_ok h₃
      rcases reserveRows_eq_error h₄ with hnone | hnone | ⟨t, ht, hreserve⟩
      · cases hnone
      · cases hnone
      · exact ⟨t, e, ht, hcheck, hencoder, hreserve⟩
    · cases h
  · -- rows that were granted room are not refused any more
    cases (inert_prepare hp).eq_of_ok hrows
    rcases recordChunk_never_refused hs hp hrows with ⟨_, hok⟩ | ⟨⟨_, hfault⟩, -⟩
    · cases hok.symm.trans hrecord
    · cases hfault.symm.trans hrecord

/-- an append that is refused for a width has a row of another width than its table is pinned to -/
theorem misfit_of_append {hashes : Option (Array UInt64)} (hs : r.Sound)
    (h : (Call.appendKeyRows chunks hashes).act.run r =
      .error (.refused (.table (.keySizeMismatch expected actual))) r') :
    ∃ t e key, r.table = .owned t ∧ checkKeyChunks chunks r = .ok () ∧ RowEncoder.ofChunks chunks = .ok e ∧
      .ok (some key) ∈ encodedKeys e ∧ t.keySize = some expected ∧ expected ≠ key.bytes.length := by
  obtain ⟨t, e, ht, hcheck, hencoder, hreserve⟩ := reserve_of_refused hs h
  obtain ⟨key, hkey, hpinned, hne⟩ := misfit_of_reserve (fun s hs => besideTable_of_encodedKeys hs) hreserve
  exact ⟨t, e, key, ht, hcheck, hencoder, hkey, hpinned, hne⟩

/-! ## Relations without a configured width -/

/-- a relation that is made without a width of the caller's, with a table or without one -/
def Unconfigured (k : KeyType) (r : Relation) : Prop :=
  (∃ columns, detached k columns = .ok r) ∨ ∃ columns config, config.keySize = none ∧ new k columns config = .ok r

/-- the width in the configuration is the one that the types of the columns fix, if they do -/
structure Computed (ts : List DataType) (r : Relation) : Prop where
  reachable : r.Reachable
  keyType : r.keyType = .composite ts
  keySize : r.config.keySize = (Row.fixedSize? ts).map UInt64.ofNat

variable {ts : List DataType}

theorem computed_of_unconfigured (h : Unconfigured (.composite ts) r) : Computed ts r := by
  rcases h with ⟨columns, hd⟩ | ⟨columns, config, hnone, hn⟩
  · obtain ⟨kind, -, rfl⟩ := detached_eq_ok hd
    exact ⟨.detached hd, rfl, rfl⟩
  · obtain ⟨kind, t, -, -, rfl⟩ := new_eq_ok hn
    refine ⟨.new hn, rfl, ?_⟩
    show config.keySize.or _ = _
    rw [hnone, Option.none_or]

/-- every call keeps the width -/
theorem computed_step (h : Computed ts r) (call : Call) : Computed ts (call.act.after r) := by
  have hkeyed := keyed_of_reachable h.reachable
  refine ⟨.step call h.reachable, ?_, ?_⟩
  · rw [(keyed_act call _ hkeyed).keyType, h.keyType]
  · rcases config_after hkeyed.sound call with hconfig | ⟨v, -, hconfig⟩
    · rw [hconfig, h.keySize]
    · rw [hconfig]
      exact h.keySize

theorem computed_run (h : Computed ts r) (calls : List Call) : Computed ts (run r calls) := by
  induction calls generalizing r with
  | nil => exact h
  | cons call calls ih => exact ih (computed_step h call)

/-- a width of fewer than 2^60 columns is a word -/
theorem toNat_computed {w : Nat} (hw : Row.fixedSize? ts = some w) (hcolumns : ts.length < 2 ^ 60) :
    (UInt64.ofNat w).toNat = w := by
  obtain ⟨-, rfl⟩ := Row.fixedSize?_eq_some hw
  rw [UInt64.toNat_ofNat', Nat.mod_eq_of_lt]
  unfold Row.nullBytes
  omega

/-- the width that a table is pinned to, whoever made it, is the computed one -/
theorem width_of_view (h : Computed ts r) (hcolumns : ts.length < 2 ^ 60) {v : View} (hv : r.table.view? = some v)
    {width : Nat} (hwidth : v.keySize? = some width) : Row.fixedSize? ts = some width := by
  have hcomputed (hconfig : r.config.keySize.map UInt64.toNat = some width) : Row.fixedSize? ts = some width := by
    rw [h.keySize, Option.map_map] at hconfig
    obtain ⟨w, hw, hword⟩ := Option.map_eq_some_iff.1 hconfig
    rw [hw, ← hword, Function.comp, toNat_computed hw hcolumns]
  rcases ((described_of_reachable h.reachable).view hv).2 with hconfig | ⟨-, hnone⟩
  · exact hcomputed (hconfig.symm.trans hwidth)
  · cases hnone.symm.trans hwidth

theorem width_of_owned (h : Computed ts r) (hcolumns : ts.length < 2 ^ 60) (ht : r.table = .owned t) {width : Nat}
    (hwidth : t.keySize = some width) : Row.fixedSize? ts = some width := by
  obtain ⟨log, hlog⟩ := sound_of_reachable h.reachable t ht
  have hview : r.table.view? = some t.view := by rw [ht]; rfl
  exact width_of_view h hcolumns hview ((Table.keySize?_view hlog).trans hwidth)

/-- no append is refused for a width -/
theorem append_ne_keySizeMismatch (h : Computed (cts.map DataType.column) r) (hcolumns : cts.length < 2 ^ 60)
    (chunks : List Chunk) (hashes : Option (Array UInt64)) (expected actual : Nat) (r' : Relation) :
    (Call.appendKeyRows chunks hashes).act.run r ≠
      .error (.refused (.table (.keySizeMismatch expected actual))) r' := by
  intro hrun
  obtain ⟨t, e, key, ht, hcheck, hencoder, hkey, hpinned, hne⟩ :=
    misfit_of_append (sound_of_reachable h.reachable) hrun
  have htypes : chunks.map Chunk.dataType = cts.map DataType.column := by
    have hkeys := (checkKeyChunks_eq_ok hcheck).symm.trans h.keyType
    exact KeyType.composite.inj hkeys
  obtain ⟨row, hfull, hbytes⟩ := full_of_encodedKeys hencoder htypes hkey
  have hwidth := width_of_owned h (by rwa [List.length_map]) ht hpinned
  have hlength : row.bytes.length = expected := Row.length_of_full hwidth row hfull
  exact hne (by rw [hbytes, hlength])

/-- no row of the key's types is left out for its width when it is looked for -/
theorem matches?_of_full (h : Computed (cts.map DataType.column) r) (hcolumns : cts.length < 2 ^ 60) {v : View}
    (hv : r.view = .ok v) {row : Row} (hfull : Row.Full (cts.map ColumnType.domain) row) (hash : UInt64) :
    v.matches? hash row.bytes =
      v.slots[Slot.index v.header.mask hash]?.map fun slot => ⟨v.bytes, hash, row.bytes, slot.head⟩ := by
  refine View.matches?_of_width ?_ hash
  intro width hwidth
  have hview : r.table.view? = some v := by
    rw [view] at hv
    split at hv
    · next w hw =>
      cases hv
      exact hw
    · cases hv
  exact (Row.length_of_full (width_of_view h (by rwa [List.length_map]) hview hwidth) row hfull).symm

/-- **A computed width turns no row down.** If a width is computed for some types, they are types of columns, and every
complete row without nulls of these types, whatever calls have made it, takes so many bytes; if none is computed for the
types of some columns, two such rows of cells of these columns differ in length. Take a relation on some columns that is
made without a configured width, with a table or without one, and any calls on it, imports among them. (That there are
fewer than 2^60 columns any memory sees to.) Then no append of keys to it, whatever it is given, is refused for the width
of a key; and every complete row without nulls of the types of its columns is looked for in the slot of its hash, and not
passed over for its width. -/
theorem computed_width_admits :
    (∀ (ts : List DataType) (w : Nat), Row.fixedSize? ts = some w →
      ∃ cts : List ColumnType, ts = cts.map DataType.column ∧
        ∀ row, Row.Full (cts.map ColumnType.domain) row → row.bytes.length = w) ∧
    (∀ cts : List ColumnType, Row.fixedSize? (cts.map DataType.column) = none →
      ∃ row row', Row.OfCells cts row ∧ Row.OfCells cts row' ∧ Row.Full (cts.map ColumnType.domain) row ∧
        Row.Full (cts.map ColumnType.domain) row' ∧ row.bytes.length ≠ row'.bytes.length) ∧
    ∀ (cts : List ColumnType) (r₀ : Relation) (calls : List Call), cts.length < 2 ^ 60 →
      Unconfigured (.composite (cts.map DataType.column)) r₀ →
      (∀ chunks hashes expected actual r', (Call.appendKeyRows chunks hashes).act.run (run r₀ calls) ≠
        .error (.refused (.table (.keySizeMismatch expected actual))) r') ∧
      ∀ v row hash, (run r₀ calls).view = .ok v → Row.Full (cts.map ColumnType.domain) row →
        v.matches? hash row.bytes =
          v.slots[Slot.index v.header.mask hash]?.map fun slot => ⟨v.bytes, hash, row.bytes, slot.head⟩ := by
  refine ⟨fun ts w hw => ?_, fun cts hnone => ?_, fun cts r₀ calls hcolumns hmade => ?_⟩
  · obtain ⟨⟨cts, rfl, -⟩, -⟩ := Row.fixedSize?_eq_some hw
    exact ⟨cts, rfl, Row.length_of_full hw⟩
  · obtain ⟨row, row', hrow, hrow', hne⟩ := Row.exists_lengths_ne hnone
    exact ⟨row, row', hrow, hrow', Row.full_of_ofCells hrow, Row.full_of_ofCells hrow', hne⟩
  · have hcomputed := computed_run (computed_of_unconfigured hmade) calls
    exact ⟨append_ne_keySizeMismatch hcomputed hcolumns,
      fun v row hash hv hfull => matches?_of_full hcomputed hcolumns hv hfull hash⟩

/-- two columns of numbers: one byte of null bits and eight bytes for each -/
def numberTypes : List ColumnType := [.int32, .float64]

/-- a relation on them, with the small table -/
def numbersRelation : Relation :=
  { pairRelation with
    keyType := .composite (numberTypes.map .column)
    config := { Table.smallConfig with keySize := some 17 }
    table := .owned
      ({ Table.smallTable with keySize := some 17 }.withTag (KeyType.composite (numberTypes.map .column)).layoutTag) }

theorem new_numbers : new (.composite (numberTypes.map .column)) [] Table.smallConfig = .ok numbersRelation := by
  have hc : Table.create { Table.smallConfig with keySize := some 17 } =
      .ok { Table.smallTable with keySize := some 17 } := by
    decide +kernel
  have hd : detached (.composite (numberTypes.map .column)) [] =
      .ok { numbersRelation with table := .absent, config := resolve (.composite (numberTypes.map .column)) {} } := rfl
  have hr : resolve (.composite (numberTypes.map .column)) Table.smallConfig =
      { Table.smallConfig with keySize := some 17 } := rfl
  rw [new, hd, hr, hc]
  rfl

/-- a row that is stored and one with a null, which has fewer bytes -/
def numbersBuild : List Call :=
  [.appendKeyRows [.column .int32 #[some 5, none], .column .float64 #[some ⟨0⟩, some ⟨0⟩]] none]

theorem computed_width_admits_numbers :
    Row.fixedSize? (numberTypes.map DataType.column) = some 17 ∧ (run numbersRelation numbersBuild).nullCount = 1 ∧
      (∃ row v, Row.ofKeys 2 [.int8 5, .float32 ⟨0⟩] = .ok row ∧ row.bytes.length = 17 ∧
        (run numbersRelation numbersBuild).view = .ok v ∧ v.keySize? = some 17 ∧ v.stats.entries = 1 ∧
        ∀ hash, v.matches? hash row.bytes =
          v.slots[Slot.index v.header.mask hash]?.map fun slot => ⟨v.bytes, hash, row.bytes, slot.head⟩) ∧
      ∃ row row', Row.OfCells pairTypes row ∧ Row.OfCells pairTypes row' ∧ row.bytes.length ≠ row'.bytes.length := by
  have hwidth : Row.fixedSize? (numberTypes.map DataType.column) = some 17 := by decide
  have hmade : Unconfigured (.composite (numberTypes.map DataType.column)) numbersRelation :=
    .inr ⟨[], Table.smallConfig, rfl, new_numbers⟩
  have hrow : Row.ofKeys 2 [.int8 5, .float32 ⟨0⟩] =
      .ok ⟨2, 2, [0], [5, 0, 0, 0, 0, 0, 0, 0, 0, 0, 0, 0, 0, 0, 0, 0]⟩ := by
    decide +kernel
  have hfull : Row.Full (numberTypes.map ColumnType.domain)
      ⟨2, 2, [0], [5, 0, 0, 0, 0, 0, 0, 0, 0, 0, 0, 0, 0, 0, 0, 0]⟩ := Row.full_of_ofKeys hrow rfl rfl
  have hview : (match (run numbersRelation numbersBuild).view with
      | .ok v => v.keySize? == some 17 && v.stats.entries == 1
      | .error _ => false) = true := by
    decide +kernel
  obtain ⟨-, hvariable, hrelation⟩ := computed_width_admits
  obtain ⟨-, hmatches⟩ := hrelation numberTypes numbersRelation numbersBuild (by decide) hmade
  refine ⟨hwidth, by decide +kernel, ?_, ?_⟩
  · cases hv : (run numbersRelation numbersBuild).view with
    | error e => simp [hv] at hview
    | ok v =>
      simp only [hv, Bool.and_eq_true, beq_iff_eq] at hview
      exact ⟨_, v, hrow, rfl, rfl, hview.1, hview.2, fun hash => hmatches v _ hash hv hfull⟩
  · obtain ⟨row, row', hrow, hrow', -, -, hne⟩ := hvariable pairTypes (by decide)
    exact ⟨row, row', hrow, hrow', hne⟩

end Relation

end EquiJoin
