/-
Rows of any shape as probes. Encoded rows are one domain of keys, whatever the domains of their fields: a row carries
its bytes, not the types that they were written from, and a relation on several columns compares it by content. A probe
row of another shape than the key may therefore find rows: the number 10 as an unsigned field has the bytes of the
number 10 as a signed one, and a single byte string may have those of a number and a text behind it. What a probe row
never finds is a row of other bytes.

* `composite_by_content`: what a probe row of any shape finds, however the relation was built;
* `row_shape_unchecked`: three rows that do not have the shape of the key, and find a row.
-/
import EquiJoin.Proofs.Relation.Join
import Mathlib.Data.List.Flatten

namespace EquiJoin

theorem places_sublist {α : Type} {p q : α → Bool} (h : ∀ row, p row → q row) (chunks : List (List α)) :
    (places p chunks).Sublist (places q chunks) := by
  unfold places
  exact List.Sublist.flatMap_right _ fun ⟨rows, a⟩ _ =>
    (List.monotone_filter_right rows.zipIdx fun ⟨row, i⟩ => h row).map _

namespace Relation

/-- the row has no null cell, the probe has no null field, and encoded they are the same bytes -/
def sameContent (k : KeyType) (probe : Row) (row : List Key) : Bool :=
  !probe.hasNull && (rowBytes k row).map KeyBytes.bytes = some probe.bytes

/-- a probe row is answered these locations, chunk by chunk and row by row, and all of them are rows of its content -/
structure FindsContent (r : Relation) (k : KeyType) (hist : List KeyChunk) (probe : Row) (hash : Option UInt64)
    (found : List Location) : Prop where
  get : ∀ out, r.get (.row probe) hash out = .ok (!found.isEmpty, out ++ found)
  contains : r.contains (.row probe) hash = .ok (!found.isEmpty)
  content : (found.map Location.place).Sublist (places (sameContent k probe) (hist.map KeyChunk.rows))

variable {r₀ r : Relation} {hist : List KeyChunk} {calls : List Call} {columns : List Column} {config : Config}
variable {ts : List DataType} {probe : Row}

/-! ## Answers by content -/

theorem bytes?_row (probe : Row) : (Key.row probe).bytes? = if probe.hasNull then none else some (.slice probe.bytes) :=
  rfl

/-- under the hash that the probe brings, or under its own, only rows of its content are found -/
theorem place_answer_sublist (h : Built r₀ r hist) (hsmall : ∀ c ∈ hist, c.rowCount ≤ 2 ^ 32) (probe : Row)
    (hash : Option UInt64) :
    ((answer r₀.keyType hist (.row probe) hash).map Location.place).Sublist
      (places (sameContent r₀.keyType probe) (hist.map KeyChunk.rows)) := by
  have hbytes : (storedOf r₀.keyType hist).map (List.map (Option.map Prod.snd)) =
      (hist.map KeyChunk.rows).map (List.map fun row => (rowBytes r₀.keyType row).map KeyBytes.bytes) := by
    rw [storedOf, List.map_map, List.map_map]
    refine List.map_congr_left fun c _ => ?_
    rw [Function.comp, KeyChunk.stored, map_snd_storedFrom, List.map_map]
    rfl
  have hcontent : places (sameContent r₀.keyType probe) (hist.map KeyChunk.rows) =
      places (fun row => !probe.hasNull && row.map Prod.snd = some probe.bytes) (storedOf r₀.keyType hist) := by
    have hstored := places_map (fun bytes => !probe.hasNull && decide (bytes = some probe.bytes)) (Option.map Prod.snd)
      (storedOf r₀.keyType hist)
    rw [hbytes, places_map] at hstored
    exact hstored
  rw [place_answer h hsmall, hcontent]
  refine places_sublist (fun row hrow => ?_) _
  rw [bytes?_row] at hrow
  cases hn : probe.hasNull with
  | true => simp [hn] at hrow
  | false =>
    rw [hn, if_neg (by decide), Option.any_some, decide_eq_true_eq] at hrow
    simp [hrow, KeyBytes.bytes]

/-- a row is stored where the probe is looked for exactly if it has its content -/
theorem standsFor_row (probe : Row) (row : List Key) :
    standsFor (.composite ts) (.row probe) row = sameContent (.composite ts) probe row := by
  have hfiled (bs : Bytes) : filed (.slice bs) = filed (.slice probe.bytes) ↔ bs = probe.bytes :=
    ⟨fun h => congrArg Prod.snd h, fun h => h ▸ rfl⟩
  rw [standsFor, sameContent, bytes?_row, rowBytes]
  cases probe.hasNull with
  | true => rfl
  | false =>
    rw [if_neg Bool.false_ne_true, Option.any_some, Bool.not_false, Bool.true_and]
    split_ifs
    · simp
    · cases (Row.ofKeys ts.length row).toOption with
      | none => simp
      | some stored => simp [hfiled, KeyBytes.bytes]

/-- a probe row with a null field finds nothing -/
theorem answer_of_hasNull (k : KeyType) (hist : List KeyChunk) (hash : Option UInt64) (hn : probe.hasNull) :
    answer k hist (.row probe) hash = [] := by
  rw [answer, bytes?_row, if_pos hn]

/-! ## Rows that end early or go on -/

/-- a row of other content than all that is stored finds nothing -/
theorem places_eq_nil {α : Type} {p : α → Bool} {chunks : List (List α)}
    (h : ∀ rows ∈ chunks, ∀ row ∈ rows, p row = false) : places p chunks = [] := by
  have hnever : places p chunks = places (fun _ => false) chunks := places_congr h
  rw [hnever]
  simp [places]

/-- a probe row without nulls does not have the content of a row of fewer or more cells, if their domains agree as far
as both go and their null bits take equally many bytes -/
theorem sameContent_of_length_ne {n : Nat} {fields row : List Key} (hprobe : Row.ofKeys n fields = .ok probe)
    (hbits : Row.nullBytes n = Row.nullBytes ts.length)
    (hd : fields.map Key.domain <+: row.map Key.domain ∨ row.map Key.domain <+: fields.map Key.domain)
    (hlen : fields.length ≠ row.length) : sameContent (.composite ts) probe row = false := by
  obtain ⟨hencodes, hfields⟩ := Row.ofKeys_encodes hprobe
  rw [Bool.eq_false_iff]
  intro hsame
  rw [sameContent, Bool.and_eq_true, Bool.not_eq_true', decide_eq_true_eq, Row.hasNull_eq hencodes] at hsame
  obtain ⟨hnull, hbytes⟩ := hsame
  rw [rowBytes] at hbytes
  split_ifs at hbytes with hcells
  · cases hbytes
  cases hrow : Row.ofKeys ts.length row with
  | error s => simp [hrow, Except.toOption] at hbytes
  | ok stored =>
    obtain ⟨hstored, hwidth⟩ := Row.ofKeys_encodes hrow
    have hsame : stored.bytes = probe.bytes := by simpa [hrow, Except.toOption, KeyBytes.bytes] using hbytes
    exact hlen (Row.length_eq_of_bytes hencodes hstored (by rw [hfields, hwidth, hbits]) hd hnull
      (Bool.eq_false_iff.2 hcells) hsame.symm)

/-! ## From build to probe -/

/-- **A relation on several columns compares rows by content.** However it was built, with hashes of the caller or
without, every probe row is answered, whatever its number of fields, however many of them are written and whatever they
were written from. What it finds are rows of accepted chunks without a null cell whose encoding has the bytes of the
probe, in the order of chunks and rows; with the keys' own hashes on both sides it finds all of these. With a null field
it finds nothing. Nor does it find anything if its written fields are fewer or more than the columns, but have their
domains as far as both go, and its null bits take as many bytes as those of the key. -/
theorem composite_by_content {ts : List ColumnType}
    (hnew : new (.composite (ts.map DataType.column)) columns config = .ok r₀) (hbuilds : ∀ call ∈ calls, call.builds)
    (hsmall : ∀ call ∈ calls, call.Small) :
    (Modest (.composite (ts.map DataType.column)) config.maxBytes.toNat (given calls) → Smooth r₀ calls) ∧
      (Smooth r₀ calls →
        ∀ (n : Nat) (fields : List Key) (probe : Row) (hash : Option UInt64), Row.ofKeys n fields = .ok probe →
          ∃ found,
            (run r₀ calls).FindsContent (.composite (ts.map DataType.column)) (accepted r₀ calls) probe hash found ∧
            ((∀ call ∈ calls, call.plain) → hash = none →
              found.map Location.place = places (sameContent (.composite (ts.map DataType.column)) probe)
                ((accepted r₀ calls).map KeyChunk.rows)) ∧
            (fields.any Key.isNull → found = []) ∧
            (Row.nullBytes n = Row.nullBytes ts.length → fields.length ≠ ts.length →
              (fields.map Key.domain <+: ts.map ColumnType.domain ∨
                ts.map ColumnType.domain <+: fields.map Key.domain) → found = [])) := by
  refine ⟨smooth_of_builds hnew hbuilds hsmall, fun hsmooth n fields probe hash hprobe => ?_⟩
  have hbuilt : Built r₀ (run r₀ calls) (accepted r₀ calls) := built_run (built_new hnew) hbuilds hsmall hsmooth
  have hrows : ∀ c ∈ accepted r₀ calls, c.rowCount ≤ 2 ^ 32 := rowCount_le_of_accepted hsmall
  have hkey : r₀.keyType = .composite (ts.map DataType.column) ∧ r₀.domain = .row := by
    obtain ⟨kind, table, -, -, rfl⟩ := new_eq_ok hnew
    exact ⟨rfl, rfl⟩
  have hd : (Key.row probe).domain = r₀.domain := hkey.2.symm
  have hfound := place_answer_sublist hbuilt hrows probe hash
  refine ⟨answer r₀.keyType (accepted r₀ calls) (.row probe) hash,
    ⟨get_of_built hbuilt hd hash, contains_of_built hbuilt hd hash, hkey.1 ▸ hfound⟩, ?_, fun hnull => ?_,
    fun hbits hlen hdomains => ?_⟩
  · rintro hplain rfl
    obtain ⟨-, hhashes, -⟩ := built_of_plain hnew hplain hsmall hsmooth
    rw [place_answer_of_plain hbuilt hhashes hrows, hkey.1]
    exact places_congr fun _ _ row _ => standsFor_row probe row
  · exact answer_of_hasNull _ _ _ (by rw [Row.hasNull_eq (Row.ofKeys_encodes hprobe).1, hnull])
  · have hnone : places (sameContent r₀.keyType probe) ((accepted r₀ calls).map KeyChunk.rows) = [] := by
      refine places_eq_nil fun rows hmem row hrow => ?_
      obtain ⟨c, hc, rfl⟩ := List.mem_map.1 hmem
      have hfits := hbuilt.fits c hc
      rw [hkey.1] at hfits ⊢
      have hcells : row.map Key.domain = ts.map ColumnType.domain := hfits.domains rfl hrow
      have hwidth : row.length = ts.length := by simpa using congrArg List.length hcells
      exact sameContent_of_length_ne hprobe (by rwa [List.length_map]) (hcells ▸ hdomains) (by rwa [hwidth])
    rw [hnone] at hfound
    exact List.map_eq_nil_iff.1 (List.sublist_nil.1 hfound)

/-- the number 10 and the text `ab`, and a row with a null cell -/
def tenBuild : List Call :=
  [.appendKeyRows [.column .int32 #[some 10, none], .column .utf8 #[some "ab", some "ab"]] none]

/-- the row of `n` fields that is written from these keys finds the first row of the first chunk and no other -/
def FindsFirst (r : Relation) (n : Nat) (fields : List Key) : Prop :=
  ∃ probe, Row.ofKeys n fields = .ok probe ∧ r.get (.row probe) none [] = .ok (true, [⟨0, 0⟩]) ∧
    r.contains (.row probe) none = .ok true

/-- an unsigned number for a signed one, one byte string of two fields, two fields of three: none of them has the shape
of the key, and each of them finds the row -/
theorem row_shape_unchecked :
    pairTypes.map ColumnType.domain = [.signed, .bytes] ∧
      FindsFirst (run pairRelation tenBuild) 2 [.uint8 10, .text "ab"] ∧
      FindsFirst (run pairRelation tenBuild) 2 [.bytes [0, 0, 0, 0, 2, 0, 0, 0, 97, 98]] ∧
      FindsFirst (run pairRelation tenBuild) 3 [.int8 10, .text "ab"] := by
  refine ⟨rfl, ?_, ?_, ?_⟩
  · exact ⟨⟨2, 2, [0], [10, 0, 0, 0, 0, 0, 0, 0, 2, 0, 0, 0, 97, 98]⟩, by decide +kernel, by decide +kernel,
      by decide +kernel⟩
  · exact ⟨⟨2, 1, [0], [10, 0, 0, 0, 0, 0, 0, 0, 2, 0, 0, 0, 97, 98]⟩, by decide +kernel, by decide +kernel,
      by decide +kernel⟩
  · exact ⟨⟨3, 2, [0], [10, 0, 0, 0, 0, 0, 0, 0, 2, 0, 0, 0, 97, 98]⟩, by decide +kernel, by decide +kernel,
      by decide +kernel⟩

/-- an unsigned number is found by its bytes; the first field alone is not -/
theorem composite_by_content_ten :
    Smooth pairRelation tenBuild ∧
      (∃ probe, Row.ofKeys 2 [.uint8 10, .text "ab"] = .ok probe ∧
        ∃ found, (run pairRelation tenBuild).get (.row probe) none [] = .ok (!found.isEmpty, [] ++ found) ∧
          found.map Location.place = [(0, 0)]) ∧
      ∃ probe, Row.ofKeys 2 [.int8 10] = .ok probe ∧
        (run pairRelation tenBuild).contains (.row probe) none = .ok false := by
  have hplain : ∀ call ∈ tenBuild, call.plain := by decide
  have hsmall : ∀ call ∈ tenBuild, call.Small := by
    intro call hc c h
    cases List.mem_singleton.1 hc
    cases h
    decide
  have hmodest : Modest (.composite (pairTypes.map .column)) Table.smallConfig.maxBytes.toNat (given tenBuild) :=
    ⟨by decide, Or.inl (by decide)⟩
  obtain ⟨hsmooth, hbuild⟩ := composite_by_content new_pair (builds_of_plain hplain) hsmall
  have hrows : (accepted pairRelation tenBuild).map KeyChunk.rows =
      [[[.int32 10, .text "ab"], [.null .signed, .text "ab"]]] := by
    decide +kernel
  have hrow : Row.ofKeys 2 [.uint8 10, .text "ab"] =
      .ok ⟨2, 2, [0], [10, 0, 0, 0, 0, 0, 0, 0, 2, 0, 0, 0, 97, 98]⟩ := by
    decide +kernel
  have hshort : Row.ofKeys 2 [.int8 10] = .ok ⟨2, 1, [0], [10, 0, 0, 0, 0, 0, 0, 0]⟩ := by decide +kernel
  obtain ⟨found, hfound, hplaces, -⟩ := hbuild (hsmooth hmodest) 2 _ _ none hrow
  obtain ⟨missed, hmissed, -, -, hends⟩ := hbuild (hsmooth hmodest) 2 _ _ none hshort
  refine ⟨hsmooth hmodest, ⟨_, hrow, found, hfound.get [], ?_⟩, _, hshort, ?_⟩
  · rw [hplaces hplain rfl, hrows]
    decide +kernel
  · rw [hmissed.contains, hends rfl (by decide) (.inl (by decide))]
    rfl

end Relation

end EquiJoin
