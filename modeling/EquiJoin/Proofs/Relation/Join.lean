/-
From build to probe. A relation is made, chunks of keys are appended to it by any run of calls, refused ones and growth
and payload among them, and then it is probed. The answer is told without a word about bytes, hashes or chains: the
places of the rows whose cells are the probe's by value.

* `standsFor_single`, `standsFor_composite`: a key is looked for where the rows are stored that match it by value;
* `single_build_to_probe`: the answer of a relation on one column;
* `composite_build_to_probe`: the answer of a relation on several.
-/
import EquiJoin.Proofs.Relation.Answers

namespace EquiJoin.Relation

/-- calls that keep the relation's own table and its keys' own hashes -/
def Call.plain (call : Call) : Bool := call.builds && call.hashes.isNone

variable {r r₀ : Relation} {calls : List Call} {columns : List Column} {config : Config}

/-! ## What is accepted -/

theorem exists_of_mem_accepted {c : KeyChunk} (h : c ∈ accepted r calls) : ∃ call ∈ calls, call.keyChunk? = some c := by
  induction calls generalizing r with
  | nil => cases h
  | cons call calls ih =>
    rcases List.mem_append.1 h with h | h
    · refine ⟨call, List.mem_cons_self, ?_⟩
      cases hrun : call.act.run r with
      | error s r' =>
        rw [added_of_error hrun] at h
        cases h
      | ok u r' =>
        rw [added_of_ok hrun] at h
        exact Option.mem_toList.1 h
    · obtain ⟨call', hmem, hc⟩ := ih h
      exact ⟨call', List.mem_cons_of_mem call hmem, hc⟩

theorem builds_of_plain (hplain : ∀ call ∈ calls, call.plain) : ∀ call ∈ calls, call.builds := by
  intro call hc
  have hp := hplain call hc
  rw [Call.plain, Bool.and_eq_true] at hp
  exact hp.1

/-- plain calls bring no hashes -/
theorem hashes_of_plain {call : Call} {c : KeyChunk} (hp : call.plain) (hc : call.keyChunk? = some c) :
    c.hashes = none := by
  simp only [Call.plain, Bool.and_eq_true, Option.isNone_iff_eq_none] at hp
  cases call <;> cases hc <;> exact hp.2

/-! ## Keys and the rows they stand for -/

/-- a key of one column is looked for where the rows are stored whose cell is equal to it by value -/
theorem standsFor_single {t : DataType} {key x : Key} (hd : x.domain = key.domain) :
    standsFor (.single t) key [x] = rowMatches [key] [x] := by
  have hbytes : rowBytes (.single t) [x] = x.bytes? := rfl
  have hvalue : x.value? = key.value? ↔ x.bytes? = key.bytes? := (Key.bytes?_eq_iff hd).symm
  rw [standsFor, rowMatches, hbytes]
  simp only [List.any_cons, List.any_nil, Bool.or_false, List.map_cons, List.map_nil, List.cons.injEq, and_true, hvalue,
    Key.isNull]
  cases hx : x.bytes? with
  | none => cases key.bytes? <;> simp
  | some b =>
    cases hk : key.bytes? with
    | none => simp
    | some b' =>
      have hfiled : filed b = filed b' ↔ b = b' :=
        ⟨fun h => (hd ▸ Key.canonical_of_bytes? hx).eq_of_bytes (Key.canonical_of_bytes? hk) (congrArg Prod.snd h),
          fun h => h ▸ rfl⟩
      simp [hfiled]

/-- a row of fields is looked for where the rows are stored whose cells are equal to the fields by value -/
theorem standsFor_composite {ts : List DataType} {fields row : List Key} {out : Row}
    (hout : Row.ofKeys ts.length fields = .ok out) (hd : row.map Key.domain = fields.map Key.domain)
    (hrow : (rowBytes (.composite ts) row).isNone = row.any Key.isNull) :
    standsFor (.composite ts) (.row out) row = rowMatches fields row := by
  obtain ⟨hencodes, hfields⟩ := Row.ofKeys_encodes hout
  have hbytes : (Key.row out).bytes? = if fields.any Key.isNull then none else some (.slice out.bytes) := by
    rw [Key.bytes?, Row.hasNull_eq hencodes]
  rw [standsFor, rowMatches, hbytes]
  cases hnull : row.any Key.isNull with
  | true =>
    rw [hnull, Option.isNone_iff_eq_none] at hrow
    rw [hrow]
    split_ifs <;> simp
  | false =>
    have hnot : ¬ row.any Key.isNull = true := by simp [hnull]
    rw [rowBytes, if_neg hnot]
    rw [rowBytes, if_neg hnot, hnull] at hrow
    cases hr : Row.ofKeys ts.length row with
    | error s => simp [hr, Except.toOption] at hrow
    | ok stored =>
      obtain ⟨hstored, hstoredFields⟩ := Row.ofKeys_encodes hr
      have hvalue : row.map Key.value? = fields.map Key.value? ↔ stored.bytes = out.bytes := by
        rw [← Key.map_bytes?_eq_iff hd]
        exact (Row.bytes_eq_iff hstored hencodes (hstoredFields.trans hfields.symm) hd).symm
      have hfiled : filed (.slice stored.bytes) = filed (.slice out.bytes) ↔ stored.bytes = out.bytes :=
        ⟨fun h => congrArg Prod.snd h, fun h => h ▸ rfl⟩
      split_ifs with hprobe
      · -- a null field has no value, and no cell of the row is without one
        have hne : ¬ row.map Key.value? = fields.map Key.value? := by
          intro h
          obtain ⟨k, hk, hkn⟩ := List.any_eq_true.1 hprobe
          have hmem : k.value? ∈ row.map Key.value? := h ▸ List.mem_map_of_mem hk
          obtain ⟨x, hx, hxv⟩ := List.mem_map.1 hmem
          rw [Key.isNull_eq, ← hxv, ← Key.isNull_eq] at hkn
          exact hnot (List.any_eq_true.2 ⟨x, hx, hkn⟩)
        simp [hne]
      · simp [Except.toOption, hfiled, hvalue]

/-! ## From build to probe -/

/-- row numbers of what was accepted fit 32 bits if those of what was given do -/
theorem rowCount_le_of_accepted (hsmall : ∀ call ∈ calls, call.Small) :
    ∀ c ∈ accepted r₀ calls, c.rowCount ≤ 2 ^ 32 := by
  intro c hc
  obtain ⟨call, hmem, hchunk⟩ := exists_of_mem_accepted hc
  exact hsmall call hmem c hchunk

/-- after a run of plain calls a new relation has the history of what it accepted -/
theorem built_of_plain {k : KeyType} (hnew : new k columns config = .ok r₀) (hplain : ∀ call ∈ calls, call.plain)
    (hsmall : ∀ call ∈ calls, call.Small) (hsmooth : Smooth r₀ calls) :
    Built r₀ (run r₀ calls) (accepted r₀ calls) ∧ (∀ c ∈ accepted r₀ calls, c.hashes = none) ∧
      ∀ c ∈ accepted r₀ calls, c.rowCount ≤ 2 ^ 32 := by
  refine ⟨built_run (built_new hnew) (builds_of_plain hplain) hsmall hsmooth, fun c hc => ?_,
    rowCount_le_of_accepted hsmall⟩
  obtain ⟨call, hmem, hchunk⟩ := exists_of_mem_accepted hc
  exact hashes_of_plain (hplain call hmem) hchunk

/-- calls that build on a new relation do not fault while the chunks they are given are modest -/
theorem smooth_of_builds {k : KeyType} (hnew : new k columns config = .ok r₀) (hbuilds : ∀ call ∈ calls, call.builds)
    (hsmall : ∀ call ∈ calls, call.Small) (hm : Modest k config.maxBytes.toNat (given calls)) : Smooth r₀ calls := by
  obtain ⟨kind, t, -, ht, rfl⟩ := new_eq_ok hnew
  refine smooth_of_modest (built_new hnew) hbuilds hsmall rfl ?_
  rw [List.nil_append, Table.withTag, Table.maxBytes_of_create ht]
  exact hm

theorem smooth_of_plain {k : KeyType} (hnew : new k columns config = .ok r₀) (hplain : ∀ call ∈ calls, call.plain)
    (hsmall : ∀ call ∈ calls, call.Small) (hm : Modest k config.maxBytes.toNat (given calls)) : Smooth r₀ calls :=
  smooth_of_builds hnew (builds_of_plain hplain) hsmall hm

/-- **Single keys from build to probe.** However keys were appended to a relation on one column, a probe of its domain
finds exactly the rows of accepted chunks that are equal to it by value, in the order of chunks and rows, and a null
probe finds nothing. The relation counts what it accepted. -/
theorem single_build_to_probe {t : ColumnType} (hnew : new (.single (.column t)) columns config = .ok r₀)
    (hplain : ∀ call ∈ calls, call.plain) (hsmall : ∀ call ∈ calls, call.Small) :
    (Modest (.single (.column t)) config.maxBytes.toNat (given calls) → Smooth r₀ calls) ∧
      (Smooth r₀ calls →
        (run r₀ calls).Counts (accepted r₀ calls) ∧
          ∀ key : Key, key.domain = t.domain →
            (run r₀ calls).Finds key (accepted r₀ calls) [key] ∧ (key.isNull → (run r₀ calls).Misses key)) := by
  refine ⟨smooth_of_plain hnew hplain hsmall, fun hsmooth => ?_⟩
  obtain ⟨hbuilt, hhashes, hrows⟩ := built_of_plain hnew hplain hsmall hsmooth
  refine ⟨counts_of_built hbuilt, fun key hd => ?_⟩
  have hkey : r₀.keyType = .single (.column t) ∧ r₀.domain = t.domain := by
    obtain ⟨kind, table, -, -, rfl⟩ := new_eq_ok hnew
    exact ⟨rfl, rfl⟩
  have hd' : key.domain = r₀.domain := hd.trans hkey.2.symm
  refine ⟨answers_by_value hbuilt hd' hhashes hrows fun c hc row hrow => ?_, misses_of_isNull hbuilt hd'⟩
  have hfits := hbuilt.fits c hc
  rw [hkey.1] at hfits ⊢
  have htypes : (KeyType.single (.column t)).types = [t].map DataType.column := rfl
  have hdomains : row.map Key.domain = [t.domain] := hfits.domains htypes hrow
  obtain ⟨x, rfl⟩ : ∃ x, row = [x] := List.length_eq_one_iff.1 (by simpa using congrArg List.length hdomains)
  exact standsFor_single ((List.cons.inj hdomains).1.trans hd.symm)

/-- two chunks that are accepted, one of another type between them, and a growth -/
def smallBuild : List Call :=
  [.appendKeys smallChunk none, .appendKeys (.column .utf8 #[]) none, .grow,
    .appendKeys (.column .int32 #[some 7, some 5]) none]

theorem single_build_to_probe_small :
    Smooth smallRelation smallBuild ∧
      (run smallRelation smallBuild).chunks.toNat = 2 ∧ (run smallRelation smallBuild).nullCount = 1 ∧
      (∃ found, (run smallRelation smallBuild).get (.int8 5) none [⟨9, 9⟩] = .ok (!found.isEmpty, [⟨9, 9⟩] ++ found) ∧
        found.map Location.place = [(0, 1), (1, 1)]) ∧
      (run smallRelation smallBuild).contains (.null .signed) none = .ok false := by
  have hplain : ∀ call ∈ smallBuild, call.plain := by decide
  have hsmall : ∀ call ∈ smallBuild, call.Small := by
    intro call hc c h
    simp only [smallBuild, List.mem_cons, List.not_mem_nil, or_false] at hc
    rcases hc with rfl | rfl | rfl | rfl <;> cases h <;> decide
  have hmodest : Modest (.single (.column .int32)) Table.smallConfig.maxBytes.toNat (given smallBuild) :=
    ⟨by decide, Or.inl (by decide)⟩
  obtain ⟨hsmooth, hbuild⟩ := single_build_to_probe new_small hplain hsmall
  obtain ⟨hcounts, hprobe⟩ := hbuild (hsmooth hmodest)
  have hrows : (accepted smallRelation smallBuild).map KeyChunk.rows =
      [[[.null .signed], [.int32 5]], [[.int32 7], [.int32 5]]] := by
    decide +kernel
  have hchunks := hcounts.chunks
  have hnulls := hcounts.nullCount
  rw [← List.length_map KeyChunk.rows, hrows] at hchunks
  rw [List.flatMap_def, hrows] at hnulls
  obtain ⟨found, hget, -, hplaces⟩ := (hprobe (.int8 5) rfl).1 [⟨9, 9⟩]
  rw [hrows] at hplaces
  exact ⟨hsmooth hmodest, hchunks, hnulls.trans (by decide), ⟨found, hget, hplaces.trans (by decide)⟩,
    ((hprobe (.null .signed) rfl).2 rfl []).2⟩

/-- **Composite keys from build to probe.** However rows were appended to a relation on several columns, a probe row of
as many fields, each of its column's domain, finds exactly the rows of accepted chunks without a null cell whose cells
are equal to the fields by value, in the order of chunks and rows; with a null field it finds nothing. The relation
counts what it accepted. -/
theorem composite_build_to_probe {ts : List ColumnType}
    (hnew : new (.composite (ts.map DataType.column)) columns config = .ok r₀) (hplain : ∀ call ∈ calls, call.plain)
    (hsmall : ∀ call ∈ calls, call.Small) :
    (Modest (.composite (ts.map DataType.column)) config.maxBytes.toNat (given calls) → Smooth r₀ calls) ∧
      (Smooth r₀ calls →
        (run r₀ calls).Counts (accepted r₀ calls) ∧
          ∀ (fields : List Key) (row : Row), fields.map Key.domain = ts.map ColumnType.domain →
            Row.ofKeys ts.length fields = .ok row →
              (run r₀ calls).Finds (.row row) (accepted r₀ calls) fields ∧
                (fields.any Key.isNull → (run r₀ calls).Misses (.row row))) := by
  refine ⟨smooth_of_plain hnew hplain hsmall, fun hsmooth => ?_⟩
  obtain ⟨hbuilt, hhashes, hrows⟩ := built_of_plain hnew hplain hsmall hsmooth
  refine ⟨counts_of_built hbuilt, fun fields out hd hout => ?_⟩
  have hkey : r₀.keyType = .composite (ts.map DataType.column) ∧ r₀.domain = .row := by
    obtain ⟨kind, table, -, -, rfl⟩ := new_eq_ok hnew
    exact ⟨rfl, rfl⟩
  have hd' : (Key.row out).domain = r₀.domain := hkey.2.symm
  have hout' : Row.ofKeys (ts.map DataType.column).length fields = .ok out := by rwa [List.length_map]
  refine ⟨answers_by_value hbuilt hd' hhashes hrows fun c hc row hrow => ?_, fun hn => ?_⟩
  · have hfits := hbuilt.fits c hc
    rw [hkey.1] at hfits ⊢
    exact standsFor_composite hout' ((hfits.domains rfl hrow).trans hd.symm) (hfits.bytes row hrow)
  · refine misses_of_isNull hbuilt hd' ?_
    rw [Key.isNull, Key.bytes?, Row.hasNull_eq (Row.ofKeys_encodes hout).1, if_pos hn]
    rfl

/-- a number and a text -/
def pairTypes : List ColumnType := [.int32, .utf8]

/-- a relation on a number and a text, with the small table -/
def pairRelation : Relation :=
  { smallRelation with
    keyType := .composite (pairTypes.map .column)
    kind := .composite
    domain := .row
    table := .owned (Table.smallTable.withTag (KeyType.composite (pairTypes.map .column)).layoutTag) }

theorem new_pair : new (.composite (pairTypes.map .column)) [] Table.smallConfig = .ok pairRelation := by
  have hc : Table.create Table.smallConfig = .ok Table.smallTable := by decide +kernel
  have hd : detached (.composite (pairTypes.map .column)) [] =
      .ok { pairRelation with table := .absent, config := resolve (.composite (pairTypes.map .column)) {} } := rfl
  have hr : resolve (.composite (pairTypes.map .column)) Table.smallConfig = Table.smallConfig := rfl
  rw [new, hd, hr, hc]
  rfl

/-- two chunks that are accepted, one that lacks a column between them, and a growth -/
def pairBuild : List Call :=
  [.appendKeyRows [.column .int32 #[some 5, some 6, none], .column .utf8 #[some "ab", some "c", some "d"]] none,
    .appendKeyRows [.column .int32 #[some 5]] none, .grow,
    .appendKeyRows [.column .int32 #[some 5], .column .utf8 #[some "ab"]] none]

theorem composite_build_to_probe_pair :
    Smooth pairRelation pairBuild ∧ (run pairRelation pairBuild).nullCount = 1 ∧
      ∃ row, Row.ofKeys 2 [.int8 5, .text "ab"] = .ok row ∧
        ∃ found, (run pairRelation pairBuild).get (.row row) none [] = .ok (!found.isEmpty, [] ++ found) ∧
          found.map Location.place = [(0, 0), (1, 0)] := by
  have hplain : ∀ call ∈ pairBuild, call.plain := by decide
  have hsmall : ∀ call ∈ pairBuild, call.Small := by
    intro call hc c h
    simp only [pairBuild, List.mem_cons, List.not_mem_nil, or_false] at hc
    rcases hc with rfl | rfl | rfl | rfl <;> cases h <;> decide
  have hmodest : Modest (.composite (pairTypes.map .column)) Table.smallConfig.maxBytes.toNat (given pairBuild) :=
    ⟨by decide, Or.inl (by decide)⟩
  obtain ⟨hsmooth, hbuild⟩ := composite_build_to_probe new_pair hplain hsmall
  obtain ⟨hcounts, hprobe⟩ := hbuild (hsmooth hmodest)
  have hrow : Row.ofKeys 2 [.int8 5, .text "ab"] = .ok ⟨2, 2, [0], [5, 0, 0, 0, 0, 0, 0, 0, 2, 0, 0, 0, 97, 98]⟩ := by
    decide +kernel
  have hrows : (accepted pairRelation pairBuild).map KeyChunk.rows =
      [[[.int32 5, .text "ab"], [.int32 6, .text "c"], [.null .signed, .text "d"]], [[.int32 5, .text "ab"]]] := by
    decide +kernel
  have hnulls := hcounts.nullCount
  rw [List.flatMap_def, hrows] at hnulls
  obtain ⟨found, hget, -, hplaces⟩ := (hprobe [.int8 5, .text "ab"] _ rfl hrow).1 []
  rw [hrows] at hplaces
  exact ⟨hsmooth hmodest, hnulls.trans (by decide), _, hrow, found, hget, hplaces.trans (by decide +kernel)⟩

end EquiJoin.Relation
