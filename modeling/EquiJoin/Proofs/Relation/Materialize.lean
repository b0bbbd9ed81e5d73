/-
From probe to output. A payload column takes chunks of its own, and nothing ties them to the chunks of keys but the
caller, who appends one of each. As long as the sizes agree, what a probe finds can be read back from the column, and
the cells read are those that stand beside the matching rows: the k-th cell belongs to the k-th match in build order.

* `beside`: the cells beside the rows with a property, the specification of the join;
* `columns_run`: a payload column holds what it was made with and then every chunk that was accepted for it;
* `locations_eq`, `map_cell?_grid`: locations enumerate the cells of a column row by row;
* `materialize_beside`: probes and what is read back at the locations they find;
* `materialize_misses`: without any chunk there is nothing to read from, and row numbers end at 32 bits.
-/
import EquiJoin.Proofs.Relation.Join

namespace EquiJoin

/-- the cells that stand beside the rows with a property, in order -/
def beside {α β : Type} (p : α → Bool) (rows : List α) (cells : List β) : List β :=
  ((rows.zip cells).filter fun (row, _) => p row).map Prod.snd

section Beside

variable {α α' β γ : Type} {p q : α → Bool} {rows rows' : List α} {cells cells' : List β}

theorem beside_map_rows (p : α → Bool) (f : α' → α) (rows : List α') (cells : List β) :
    beside p (rows.map f) cells = beside (p ∘ f) rows cells := by
  unfold beside
  rw [List.zip_map_left, List.filter_map, List.map_map]
  rfl

theorem beside_map_cells (p : α → Bool) (f : β → γ) (rows : List α) (cells : List β) :
    beside p rows (cells.map f) = (beside p rows cells).map f := by
  unfold beside
  rw [List.zip_map_right, List.filter_map, List.map_map, List.map_map]
  rfl

theorem beside_append (h : rows.length = cells.length) :
    beside p (rows ++ rows') (cells ++ cells') = beside p rows cells ++ beside p rows' cells' := by
  unfold beside
  rw [List.zip_append h, List.filter_append, List.map_append]

theorem beside_congr (h : ∀ row ∈ rows, p row = q row) : beside p rows cells = beside q rows cells := by
  unfold beside
  have hzip : ((rows.zip cells).filter fun (row, _) => p row) = (rows.zip cells).filter fun (row, _) => q row :=
    List.filter_congr fun ⟨row, cell⟩ hrow => h row (List.of_mem_zip hrow).1
  rw [hzip]

end Beside

namespace Column

/-- the chunks of the column, oldest first -/
def stored (c : Column) : List Chunk := c.chunks.toList.map (Chunk.column c.type)

/-- the cells of the column, row by row -/
def cells (c : Column) : List (Option c.type.Value) := c.chunks.toList.flatMap Array.toList

/-- a chunk that is taken in comes last -/
theorem append_eq_ok {c c' : Column} {chunk : Chunk} (h : c.append chunk = .ok c') :
    c'.type = c.type ∧ c'.stored = c.stored ++ [chunk] := by
  cases chunk with
  | other n cells => cases h
  | column t cells =>
    rw [append] at h
    split_ifs at h with ht
    subst ht
    cases h
    exact ⟨rfl, by simp [stored]⟩

end Column

namespace Relation

/-- one chunk for each chunk of keys, of as many rows -/
def Aligned (c : Column) (hist : List KeyChunk) : Prop := c.stored.map Chunk.size = hist.map KeyChunk.rowCount

namespace Call

/-- the chunk that a call brings for this payload column -/
def payload? (index : Nat) : Call → Option Chunk
  | appendPayload i chunk => if i = index then some chunk else none
  | _ => none

/-- the chunk that the call stores in this payload column, none if it is refused -/
def stores (r : Relation) (index : Nat) (call : Call) : List Chunk :=
  match call.act.run r with
  | .ok _ _ => (call.payload? index).toList
  | .error _ _ => []

end Call

/-- the chunks that a run of calls stored in a payload column, in order -/
def payloads (index : Nat) : Relation → List Call → List Chunk
  | _, [] => []
  | r, call :: calls => call.stores r index ++ payloads index (call.act.after r) calls

/-- the column of this index holds what it held, and these chunks behind it -/
def Extends (r r' : Relation) (index : Nat) (chunks : List Chunk) : Prop :=
  ∀ c, r.columns[index]? = some c →
    ∃ c', r'.columns[index]? = some c' ∧ c'.type = c.type ∧ c'.stored = c.stored ++ chunks

/-- what a probe found can be read back from a payload column: the column stores all of it, and the cells there are
these; a column without chunks refuses -/
structure ReadsBack (r : Relation) (index : Nat) (c : Column) (found : List Location)
    (cells : List (Option c.type.Value)) : Prop where
  contains : ∀ l ∈ found, c.contains l
  read : c.chunks ≠ #[] → r.materialize index found = .ok (.column c.type cells.toArray)
  refused : c.chunks = #[] → found = [] ∧ r.materialize index found = .error (.noChunks c.type)

/-- the cells that a key asks for: the key itself, or the fields that a probe row was written from -/
inductive AsksFor : KeyType → Key → List Key → Prop where
  | single {t : ColumnType} {key : Key} (domain : key.domain = t.domain) : AsksFor (.single (.column t)) key [key]
  | composite {ts : List ColumnType} {fields : List Key} {row : Row}
      (domains : fields.map Key.domain = ts.map ColumnType.domain) (written : Row.ofKeys ts.length fields = .ok row) :
      AsksFor (.composite (ts.map DataType.column)) (.row row) fields

variable {r r' r₀ : Relation} {call : Call} {calls : List Call} {columns : List Column} {config : Config}
variable {c : Column} {hist : List KeyChunk} {found : List Location} {index : Nat}

/-! ## Payload columns -/

theorem stores_of_ok {u : Unit} (h : call.act.run r = .ok u r') : call.stores r index = (call.payload? index).toList := by
  simp only [Call.stores, h]

theorem stores_of_error {s : Stop Error} (h : call.act.run r = .error s r') : call.stores r index = [] := by
  simp only [Call.stores, h]

theorem extends_of_eq (h : r'.columns = r.columns) : Extends r r' index [] := by
  intro c hc
  exact ⟨c, by rw [h, hc], rfl, (List.append_nil _).symm⟩

theorem Extends.trans {r'' : Relation} {chunks chunks' : List Chunk} (h : Extends r r' index chunks)
    (h' : Extends r' r'' index chunks') : Extends r r'' index (chunks ++ chunks') := by
  intro c hc
  obtain ⟨c', hc', htype, hstored⟩ := h c hc
  obtain ⟨c'', hc'', htype', hstored'⟩ := h' c' hc'
  exact ⟨c'', hc'', htype'.trans htype, by rw [hstored', hstored, List.append_assoc]⟩

/-- a payload chunk that is accepted is the last of its column; no other column changes -/
theorem extends_of_appendPayload {i : Nat} {chunk : Chunk} {u : Unit}
    (h : (appendPayload i chunk).run r = .ok u r') :
    r'.columns.size = r.columns.size ∧ Extends r r' index ((Call.appendPayload i chunk).payload? index).toList := by
  obtain ⟨column, m₁, h₁, hrest⟩ := Action.run_bind_eq_ok.1 h
  obtain ⟨column', m₂, h₂, hmodify⟩ := Action.run_bind_eq_ok.1 hrest
  obtain ⟨hcolumn, hm₁⟩ := Action.run_query_eq_ok h₁
  obtain ⟨happend, hm₂⟩ := Action.run_query_eq_ok h₂
  obtain ⟨htype, hstored⟩ := Column.append_eq_ok happend
  subst m₁ m₂
  cases hmodify
  refine ⟨Array.size_setIfInBounds, fun c hc => ?_⟩
  have hget : r.columns[i]? = some column := by
    rw [payloadColumn] at hcolumn
    cases hi : r.columns[i]? with
    | none => simp [hi] at hcolumn
    | some c' =>
      rw [hi] at hcolumn
      exact congrArg some (Except.ok.inj hcolumn)
  by_cases hi : i = index
  · subst hi
    cases hc.symm.trans hget
    refine ⟨column', ?_, htype, by rw [Call.payload?, if_pos rfl, hstored, Option.toList_some]⟩
    exact Array.getElem?_setIfInBounds_self_of_lt (Array.getElem?_eq_some_iff.1 hc).1
  · refine ⟨c, ?_, rfl, by rw [Call.payload?, if_neg hi, Option.toList_none, List.append_nil]⟩
    exact (Array.getElem?_setIfInBounds_ne hi).trans hc

/-- what one call stores in a payload column -/
theorem columns_step (h : r.Reachable) (hs : call.Small) (he : call.Ends r) (index : Nat) :
    (call.act.after r).columns.size = r.columns.size ∧ Extends r (call.act.after r) index (call.stores r index) := by
  have hsound := sound_of_reachable h
  cases hrun : call.act.run r with
  | error s r' =>
    rw [Action.after_of_error hrun, stores_of_error hrun, eq_of_ends hsound he hrun]
    exact ⟨rfl, extends_of_eq rfl⟩
  | ok u r' =>
    rw [Action.after_of_ok hrun, stores_of_ok hrun]
    cases hp : call.prepare with
    | some prepared =>
      obtain ⟨c, hc⟩ := keyChunk_of_prepare hp
      have hnone : call.payload? index = none := by
        cases call <;> cases hp <;> rfl
      obtain ⟨t, ht⟩ := owned_of_append hp hrun
      obtain ⟨log, hlog⟩ := hsound t ht
      obtain ⟨t', rfl, -⟩ := append_eq_ok ht hlog hp hc (hs c hc) hrun
      rw [hnone]
      exact ⟨rfl, extends_of_eq rfl⟩
    | none =>
      cases call with
      | appendKeys chunk hashes => cases hp
      | appendKeyRows chunks hashes => cases hp
      | appendPayload i chunk => exact extends_of_appendPayload hrun
      | grow =>
        obtain ⟨t, t', -, -, rfl⟩ := onTable_eq_ok hrun
        exact ⟨rfl, extends_of_eq rfl⟩
      | release =>
        cases hrun
        exact ⟨rfl, extends_of_eq rfl⟩
      | importTable handles =>
        obtain ⟨_, m₁, h₁, hrun⟩ := Action.run_bind_eq_ok.1 hrun
        obtain ⟨_, m₂, h₂, hrun⟩ := Action.run_bind_eq_ok.1 hrun
        cases (Action.inert_ofExcept _).eq_of_ok h₁
        cases (Action.inert_query _).eq_of_ok h₂
        cases hrun
        exact ⟨rfl, extends_of_eq rfl⟩

/-- a payload column holds what it held before a run and then every chunk that was accepted for it -/
theorem columns_run (h : r.Reachable) (hs : ∀ call ∈ calls, call.Small) (he : Smooth r calls) (index : Nat) :
    (run r calls).columns.size = r.columns.size ∧ Extends r (run r calls) index (payloads index r calls) := by
  induction calls generalizing r with
  | nil => exact ⟨rfl, extends_of_eq rfl⟩
  | cons call calls ih =>
    obtain ⟨hsize, hstep⟩ := columns_step h (hs call List.mem_cons_self) he.1 index
    obtain ⟨hsize', hrest⟩ := ih (.step call h) (fun x hx => hs x (List.mem_cons_of_mem call hx)) he.2
    exact ⟨hsize'.trans hsize, hstep.trans hrest⟩

/-! ## Locations and cells -/

/-- the locations of all rows of chunks of these sizes, in order -/
def grid (sizes : List Nat) : List Location :=
  sizes.zipIdx.flatMap fun (n, a) => (List.range n).map (rowLocation (UInt32.ofNat a))

theorem grid_snoc (sizes : List Nat) (n : Nat) :
    grid (sizes ++ [n]) = grid sizes ++ (List.range n).map (rowLocation (UInt32.ofNat sizes.length)) := by
  simp [grid, List.zipIdx_append]

theorem length_grid (sizes : List Nat) : (grid sizes).length = sizes.sum := by
  induction sizes using List.reverseRecOn with
  | nil => rfl
  | append_singleton sizes n ih => simp [grid_snoc, ih]

/-- the locations of the rows with a property stand beside them in the enumeration of all locations -/
theorem locations_eq (p : StoredRow → Bool) (chunks : List (List StoredRow)) :
    locations p chunks = beside p chunks.flatten (grid (chunks.map List.length)) := by
  induction chunks using List.reverseRecOn with
  | nil => rfl
  | append_singleton chunks rows ih =>
    have hlast : locations p (chunks ++ [rows]) = locations p chunks ++
        beside p rows ((List.range rows.length).map (rowLocation (UInt32.ofNat chunks.length))) := by
      rw [beside_map_cells, beside, List.map_map, List.range_eq_range', ← List.zipIdx_eq_zip_range']
      simp [locations, List.zipIdx_append, Function.comp_def]
    rw [hlast, ih, List.map_append, List.map_singleton, grid_snoc, List.flatten_append, List.length_map,
      beside_append (by rw [length_grid, List.length_flatten]), List.flatten_singleton]

/-- the cells of a column, location by location, as long as numbers fit 32 bits -/
theorem map_cell?_grid (hchunks : c.chunks.size ≤ 2 ^ 32) (hrows : ∀ cells ∈ c.chunks, cells.size ≤ 2 ^ 32) :
    (grid (c.stored.map Chunk.size)).map c.cell? = c.cells.map some := by
  have hsizes : c.stored.map Chunk.size = c.chunks.toList.map Array.size := by
    rw [Column.stored, List.map_map]
    rfl
  have hall : c.cells.map some = c.chunks.toList.zipIdx.flatMap fun (cells, _) => cells.toList.map some := by
    rw [Column.cells, List.map_flatMap]
    nth_rewrite 1 [← List.zipIdx_map_fst 0 c.chunks.toList]
    rw [List.flatMap_map]
  rw [hall, hsizes, grid, List.zipIdx_map, List.flatMap_map, List.map_flatMap]
  refine List.flatMap_congr fun ⟨cells, a⟩ hcells => ?_
  have hget : c.chunks[a]? = some cells := by
    rw [← Array.getElem?_toList]
    exact List.mem_zipIdx_iff_getElem?.1 hcells
  obtain ⟨ha, hmem⟩ := Array.getElem?_eq_some_iff.1 hget
  have hsize := hrows cells (hmem ▸ Array.getElem_mem ha)
  simp only [Prod.map, id, List.map_map]
  refine List.ext_getElem (by simp) fun i hi hi' => ?_
  have hlt : i < cells.size := by simpa using hi'
  simp only [List.getElem_map, List.getElem_range, Function.comp, Column.cell?, rowLocation, UInt32.toNat_ofNat']
  rw [Nat.mod_eq_of_lt (by omega), Nat.mod_eq_of_lt (by omega), hget]
  exact Array.getElem?_eq_getElem hlt

/-- cells are gathered exactly if all locations are stored -/
theorem gather_eq_ok {ls : List Location} {cells : List (Option c.type.Value)} :
    gather c index ls = .ok cells ↔ ls.map c.cell? = cells.map some := by
  induction ls generalizing cells with
  | nil => cases cells <;> simp [gather]
  | cons l ls ih =>
    rw [gather]
    cases hl : c.cell? l with
    | none => cases cells <;> simp [hl]
    | some cell =>
      rw [List.map_cons, hl]
      constructor
      · intro hcells
        cases hg : gather c index ls with
        | error e =>
          rw [hg] at hcells
          cases hcells
        | ok rest =>
          rw [hg] at hcells
          cases hcells
          rw [ih.1 hg, List.map_cons]
      · intro hcells
        cases cells with
        | nil => cases hcells
        | cons first rest =>
          rw [List.map_cons, List.cons.injEq, Option.some_inj] at hcells
          obtain ⟨rfl, hrest⟩ := hcells
          rw [ih.2 hrest]
          rfl

/-- if these are the cells at some locations, they are what a materialization there gives -/
theorem readsBack_of_cells {cells : List (Option c.type.Value)} (hc : r.columns[index]? = some c)
    (h : found.map c.cell? = cells.map some) : ReadsBack r index c found cells := by
  have hcolumn : r.payloadColumn index = .ok c := by simp only [payloadColumn, hc]
  have hcontains : ∀ l ∈ found, c.contains l := by
    intro l hl
    have hmem : c.cell? l ∈ cells.map some := h ▸ List.mem_map_of_mem hl
    obtain ⟨cell, -, hcell⟩ := List.mem_map.1 hmem
    rw [Column.contains, ← hcell]
    rfl
  refine ⟨hcontains, fun hne => ?_, fun hnil => ?_⟩
  · have hchunks : c.toChunks = .ok c.stored := if_neg (by simpa using hne)
    simp only [Relation.materialize, hcolumn, hchunks, gather_eq_ok.2 h, bind, Except.bind, pure, Except.pure]
  · have hchunks : c.toChunks = .error (.noChunks c.type) := if_pos (by simp [hnil])
    refine ⟨List.eq_nil_iff_forall_not_mem.2 fun l hl => ?_, ?_⟩
    · have := hcontains l hl
      simp [Column.contains, Column.cell?, hnil] at this
    · simp only [Relation.materialize, hcolumn, hchunks, bind, Except.bind]

/-! ## Answers read back -/

/-- the row is stored where a probe with this key and this hash looks -/
def sought (key : Key) (hash : Option UInt64) (row : StoredRow) : Bool :=
  key.bytes?.any fun b => row = some (hash.getD b.hash, b.bytes)

/-- an answer, cell by cell -/
theorem map_cell?_answer (h : Built r₀ r hist) (hsmall : ∀ c ∈ hist, c.rowCount ≤ 2 ^ 32) (ha : Aligned c hist)
    (key : Key) (hash : Option UInt64) :
    (answer r₀.keyType hist key hash).map c.cell? =
      (beside (sought key hash) (storedOf r₀.keyType hist).flatten c.cells).map some := by
  have hchunks : c.chunks.size = hist.length := by
    simpa [Column.stored] using congrArg List.length ha
  have hrows : ∀ cells ∈ c.chunks, cells.size ≤ 2 ^ 32 := by
    intro cells hcells
    have hmem : cells.size ∈ c.stored.map Chunk.size :=
      List.mem_map.2 ⟨.column c.type cells, List.mem_map.2 ⟨cells, Array.mem_toList_iff.2 hcells, rfl⟩, rfl⟩
    rw [ha] at hmem
    obtain ⟨k, hk, hsize⟩ := List.mem_map.1 hmem
    exact hsize ▸ hsmall k hk
  have hindex : c.chunks.size ≤ 2 ^ 32 := by
    rw [hchunks, ← h.chunks]
    exact Nat.le_of_lt r.chunks.toNat_lt
  have hgrid : c.stored.map Chunk.size = (storedOf r₀.keyType hist).map List.length := by
    rw [ha, storedOf, List.map_map]
    exact List.map_congr_left fun k _ => (length_stored r₀.keyType k).symm
  have hlocations (p : StoredRow → Bool) : (locations p (storedOf r₀.keyType hist)).map c.cell? =
      (beside p (storedOf r₀.keyType hist).flatten c.cells).map some := by
    rw [locations_eq, ← hgrid, ← beside_map_cells, map_cell?_grid hindex hrows, beside_map_cells]
  cases hb : key.bytes? with
  | none =>
    have hnever : sought key hash = fun _ => false := funext fun row => by rw [sought, hb, Option.any_none]
    rw [answer, hb, hnever]
    simp [beside]
  | some b =>
    have hsought : sought key hash = fun row => decide (row = some (hash.getD b.hash, b.bytes)) :=
      funext fun row => by rw [sought, hb, Option.any_some]
    rw [answer, hb, hsought]
    exact hlocations _

/-- what a key asks for by value is stored where the key is looked for -/
theorem standsFor_of_asksFor {k : KeyType} {key : Key} {fields : List Key} (h : AsksFor k key fields) {c : KeyChunk}
    (hc : c.Fits k) {row : List Key} (hrow : row ∈ c.rows) : standsFor k key row = rowMatches fields row := by
  cases h with
  | @single t key domain =>
    have htypes : (KeyType.single (.column t)).types = [t].map DataType.column := rfl
    have hdomains : row.map Key.domain = [t.domain] := hc.domains htypes hrow
    obtain ⟨x, rfl⟩ : ∃ x, row = [x] := List.length_eq_one_iff.1 (by simpa using congrArg List.length hdomains)
    exact standsFor_single ((List.cons.inj hdomains).1.trans domain.symm)
  | composite domains written =>
    exact standsFor_composite (by rwa [List.length_map]) ((hc.domains rfl hrow).trans domains.symm)
      (hc.bytes row hrow)

/-- with the keys' own hashes the cells beside the stored rows are those beside the rows that match by value -/
theorem beside_of_plain {β : Type} {k : KeyType} {key : Key} {fields : List Key} (hplain : ∀ c ∈ hist, c.hashes = none)
    (hfits : ∀ c ∈ hist, c.Fits k) (h : AsksFor k key fields) (cells : List β) :
    beside (sought key none) (storedOf k hist).flatten cells =
      beside (rowMatches fields) (hist.flatMap KeyChunk.rows) cells := by
  rw [storedOf_of_plain hplain, ← List.map_flatten, beside_map_rows, List.flatMap_def]
  refine beside_congr fun row hrow => ?_
  obtain ⟨rows, hrows, hrow⟩ := List.mem_flatten.1 hrow
  obtain ⟨c, hc, rfl⟩ := List.mem_map.1 hrows
  exact standsFor_of_asksFor h (hfits c hc) hrow

/-- **From probe to output.** However a new relation was built, its payload columns hold what they were made with and
then the chunks that were accepted for them. Let one of them have a chunk for each accepted chunk of keys, of as many
rows. Then all that any probe finds is stored there, and what is read back at the locations found are the cells beside
the rows that are stored under the hash and the bytes of the probe, in the order of chunks and rows; with the keys' own
hashes on both sides these are the rows that match the probe by value. Before the first chunk nothing is found, and
reading back is refused. -/
theorem materialize_beside {k : KeyType} (hnew : new k columns config = .ok r₀) (hbuilds : ∀ call ∈ calls, call.builds)
    (hsmall : ∀ call ∈ calls, call.Small) :
    (Modest k config.maxBytes.toNat (given calls) → Smooth r₀ calls) ∧
      (Smooth r₀ calls →
        ((run r₀ calls).columns.size = columns.length ∧
          ∀ index, Extends r₀ (run r₀ calls) index (payloads index r₀ calls)) ∧
        ∀ (key : Key) (hash : Option UInt64), key.domain = domainOf k →
          ∃ found, (∀ out, (run r₀ calls).get key hash out = .ok (!found.isEmpty, out ++ found)) ∧
            ∀ index c, (run r₀ calls).columns[index]? = some c → Aligned c (accepted r₀ calls) →
              ReadsBack (run r₀ calls) index c found
                (beside (sought key hash) (storedOf k (accepted r₀ calls)).flatten c.cells) ∧
              ∀ fields, (∀ call ∈ calls, call.plain) → hash = none → AsksFor k key fields →
                ReadsBack (run r₀ calls) index c found
                  (beside (rowMatches fields) ((accepted r₀ calls).flatMap KeyChunk.rows) c.cells)) := by
  refine ⟨smooth_of_builds hnew hbuilds hsmall, fun hsmooth => ⟨⟨?_, fun index => ?_⟩, fun key hash hd => ?_⟩⟩
  · obtain ⟨kind, t, -, -, rfl⟩ := new_eq_ok hnew
    simpa using (columns_run (.new hnew) hsmall hsmooth 0).1
  · exact (columns_run (.new hnew) hsmall hsmooth index).2
  have hbuilt : Built r₀ (run r₀ calls) (accepted r₀ calls) := built_run (built_new hnew) hbuilds hsmall hsmooth
  have hrows : ∀ c ∈ accepted r₀ calls, c.rowCount ≤ 2 ^ 32 := rowCount_le_of_accepted hsmall
  have hkey : r₀.keyType = k ∧ r₀.domain = domainOf k := by
    obtain ⟨kind, t, -, -, rfl⟩ := new_eq_ok hnew
    exact ⟨rfl, rfl⟩
  refine ⟨answer r₀.keyType (accepted r₀ calls) key hash,
    get_of_built hbuilt (hd.trans hkey.2.symm) hash, fun index c hc ha => ?_⟩
  have hback := readsBack_of_cells hc (map_cell?_answer hbuilt hrows ha key hash)
  rw [hkey.1] at hback ⊢
  refine ⟨hback, fun fields hplain hnone hasks => ?_⟩
  subst hnone
  obtain ⟨-, hhashes, -⟩ := built_of_plain hnew hplain hsmall hsmooth
  rwa [beside_of_plain hhashes (hkey.1 ▸ hbuilt.fits) hasks] at hback

/-! ## Nothing to read from, and rows without a number -/

/-- the small relation with a payload column of texts -/
def joinRelation : Relation := { smallRelation with columns := #[.empty .utf8] }

theorem new_join : new (.single (.column .int32)) [.empty .utf8] Table.smallConfig = .ok joinRelation :=
  new_small_columns _

/-- so many rows without a key, and one more with the key 5 -/
def sparseKeys (n : Nat) : Chunk := .column .int32 ((Array.replicate n none).push (some 5))

/-- the payload of these rows: only the last is not null -/
def sparseCells (n : Nat) : Array (Option String) := (Array.replicate n none).push (some "z")

/-- a chunk of keys and its payload -/
def sparseBuild (n : Nat) : List Call := [.appendKeys (sparseKeys n) none, .appendPayload 0 (.column .utf8 (sparseCells n))]

/-- the keys of these rows -/
def sparseRows (n : Nat) : List (Option KeyBytes) := List.replicate n none ++ [some (.scalar 5)]

theorem keysOf_sparse (n : Nat) : keysOf (sparseKeys n) = (sparseRows n).map .ok := by
  have hfive : Int64.toUInt64 5 = 5 := by decide
  simp [keysOf, sparseKeys, sparseRows, Key.ofCell?, Key.ofCell, Key.bytes?, hfive]

/-- rows without a key ask for nothing -/
theorem demand_replicate_none (t : Table) (n : Nat) (rows : List RowKey) :
    demand t (List.replicate n (.ok none) ++ rows) = demand t rows := by
  induction n with
  | zero => rfl
  | succ n ih => exact ih

theorem reserve_sparse (n : Nat) : reserve (Table.smallTable.withTag 1) (keysOf (sparseKeys n)) = .ok () := by
  have hone : reserve (Table.smallTable.withTag 1) [.ok (some (.scalar 5))] = .ok () := by decide +kernel
  rw [keysOf_sparse, sparseRows, List.map_append, List.map_replicate, reserve, demand_replicate_none]
  exact hone

theorem storedFrom_sparse (i n : Nat) :
    storedFrom none i (sparseRows n) = List.replicate n none ++ [some (filed (.scalar 5))] := by
  rw [storedFrom_none, sparseRows, List.map_append, List.map_replicate]
  rfl

/-- the last row is the only one that is found -/
theorem filter_sparse (n : Nat) (row : UInt64 × Bytes) :
    ((List.replicate n (none : StoredRow) ++ [some row]).zipIdx.filter fun (x, _) => x = some row) = [(some row, n)] := by
  have hnone : ((List.replicate n (none : StoredRow)).zipIdx.filter fun (x, _) => x = some row) = [] := by
    refine List.filter_eq_nil_iff.2 fun ⟨x, i⟩ hx => ?_
    have hx : x = none := List.eq_of_mem_replicate (List.fst_mem_of_mem_zipIdx hx)
    simp [hx]
  rw [List.zipIdx_append, List.filter_append, hnone]
  simp

/-- the chunk of these rows is accepted, and the table gets one record -/
theorem append_sparse (n : Nat) :
    ∃ t nulls, (Call.appendKeys (sparseKeys n) none).act.run joinRelation =
        .ok () { joinRelation.withRows t nulls with chunks := 1 } ∧
      t.Holds (recordsFrom 0 0 (List.replicate n none ++ [some (filed (.scalar 5))])) := by
  have hholds : (Table.smallTable.withTag 1).Holds [] := by
    have hc : Table.create Table.smallConfig = .ok Table.smallTable := by decide +kernel
    exact (Table.create_holds hc).withTag 1
  obtain ⟨t, hrun, hlog⟩ := appendKeys_of_reserve (r := joinRelation) rfl hholds rfl (keysOf_sparse n)
    (reserve_sparse n) (by decide) (by decide)
  rw [storedFrom_sparse] at hrun hlog
  exact ⟨t, _, hrun, hlog⟩

/-- the row behind the nulls is found, under its number cut to 32 bits -/
theorem run_sparse (n : Nat) :
    accepted joinRelation (sparseBuild n) = [⟨[sparseKeys n], none⟩] ∧
      (run joinRelation (sparseBuild n)).columns = #[⟨.utf8, #[sparseCells n]⟩] ∧
      (run joinRelation (sparseBuild n)).get (.int32 5) none [] = .ok (true, [rowLocation 0 n]) := by
  obtain ⟨t, nulls, hkeys, hlog⟩ := append_sparse n
  set r₁ : Relation := { joinRelation.withRows t nulls with chunks := 1 }
  have hpayload : (Call.appendPayload 0 (.column .utf8 (sparseCells n))).act.run r₁ =
      .ok () { r₁ with columns := #[⟨.utf8, #[sparseCells n]⟩] } := rfl
  have hrun : run joinRelation (sparseBuild n) = { r₁ with columns := #[⟨.utf8, #[sparseCells n]⟩] } := by
    rw [run, sparseBuild, List.foldl_cons, List.foldl_cons, List.foldl_nil, Action.after_of_ok hkeys,
      Action.after_of_ok hpayload]
  refine ⟨?_, by rw [hrun], ?_⟩
  · rw [sparseBuild, accepted, accepted, accepted, added_of_ok hkeys, Action.after_of_ok hkeys, added_of_ok hpayload]
    rfl
  · have hbytes : (Key.int32 5).bytes? = some (.scalar 5) := by decide
    have hfound : (payloadsOf (recordsFrom 0 0 (List.replicate n none ++ [some (filed (.scalar 5))]))
        (KeyBytes.scalar 5).hash (KeyBytes.scalar 5).bytes).filterMap Location.decode? = [rowLocation 0 n] := by
      rw [lookup_recordsFrom]
      exact congrArg (List.map _) (filter_sparse n (filed (.scalar 5)))
    rw [hrun, get_of_holds (r := { r₁ with columns := _ }) rfl hlog rfl hbytes, Option.getD_none, hfound]
    rfl

/-- the payload beside the key 5 is that of the last row -/
theorem beside_sparse (n : Nat) :
    beside (rowMatches [.int32 5]) ((KeyChunk.mk [sparseKeys n] none).rows) (sparseCells n).toList = [some "z"] := by
  have hrows : (KeyChunk.mk [sparseKeys n] none).rows = List.replicate n [.null .signed] ++ [[.int32 5]] := by
    rw [sparseKeys, rows_singleton, Array.toList_push, Array.toList_replicate, List.map_append, List.map_replicate]
    rfl
  have hnull : rowMatches [.int32 5] [.null .signed] = false := by decide
  have hmatch : rowMatches [.int32 5] [.int32 5] = true := by decide
  rw [hrows, sparseCells, Array.toList_push, Array.toList_replicate, beside_append (by simp)]
  simp [beside, hnull, hmatch]

/-- Before the first chunk of keys every payload column has as many chunks as there are, and reading back at the
locations found, none, is refused. Of 2^32 rows without a key and one behind them with a key, this last row is found as
the first, and the payload of the first is read back. -/
theorem materialize_misses :
    (joinRelation.columns[0]? = some (.empty .utf8) ∧ Aligned (.empty .utf8) (accepted joinRelation []) ∧
      joinRelation.get (.int32 5) none [] = .ok (false, []) ∧
      joinRelation.materialize 0 [] = .error (.noChunks .utf8)) ∧
    ∃ c, c.type = .utf8 ∧ (run joinRelation (sparseBuild (2 ^ 32))).columns[0]? = some c ∧
      Aligned c (accepted joinRelation (sparseBuild (2 ^ 32))) ∧
      (run joinRelation (sparseBuild (2 ^ 32))).get (.int32 5) none [] = .ok (true, [⟨0, 0⟩]) ∧
      (run joinRelation (sparseBuild (2 ^ 32))).materialize 0 [⟨0, 0⟩] = .ok (.column .utf8 #[none]) ∧
      (beside (rowMatches [.int32 5]) ((accepted joinRelation (sparseBuild (2 ^ 32))).flatMap KeyChunk.rows)
        (sparseCells (2 ^ 32)).toList) = [some "z"] := by
  obtain ⟨haccepted, hcolumns, hget⟩ := run_sparse (2 ^ 32)
  have hcolumn : (run joinRelation (sparseBuild (2 ^ 32))).columns[0]? = some ⟨.utf8, #[sparseCells (2 ^ 32)]⟩ := by
    rw [hcolumns]
    rfl
  refine ⟨⟨rfl, rfl, by decide +kernel, rfl⟩, _, rfl, hcolumn, ?_, hget, ?_, ?_⟩
  · rw [haccepted]
    simp [Aligned, Column.stored, Chunk.size, sparseCells, KeyChunk.rowCount, sparseKeys]
  · have hcell : (sparseCells (2 ^ 32))[0]? = some none := by
      rw [sparseCells, Array.getElem?_push_lt (by simp)]
      simp
    have hcells : [(⟨0, 0⟩ : Location)].map (Column.cell? ⟨.utf8, #[sparseCells (2 ^ 32)]⟩) = [none].map some :=
      congrArg (fun cell => [cell]) hcell
    exact (readsBack_of_cells hcolumn hcells).read (by simp)
  · rw [haccepted, List.flatMap_singleton]
    exact beside_sparse (2 ^ 32)

/-- chunks that are accepted, payload of another type, payload for a column that is not there, and a growth -/
def joinBuild : List Call :=
  [.appendKeys smallChunk none, .appendPayload 0 (.column .utf8 #[some "a", none]),
    .appendPayload 0 (.column .int32 #[some 1]), .appendPayload 1 (.column .utf8 #[some "x"]), .grow,
    .appendPayload 0 (.column .utf8 #[some "b", some "c"]), .appendKeys (.column .int32 #[some 7, some 5]) none]

theorem materialize_beside_small :
    Smooth joinRelation joinBuild ∧
      ∃ found, (run joinRelation joinBuild).get (.int8 5) none [] = .ok (!found.isEmpty, [] ++ found) ∧
        (run joinRelation joinBuild).materialize 0 found = .ok (.column .utf8 #[none, some "c"]) := by
  have hplain : ∀ call ∈ joinBuild, call.plain := by decide
  have hsmall : ∀ call ∈ joinBuild, call.Small := by
    intro call hc c h
    simp only [joinBuild, List.mem_cons, List.not_mem_nil, or_false] at hc
    rcases hc with rfl | rfl | rfl | rfl | rfl | rfl | rfl <;> cases h <;> decide
  have hmodest : Modest (.single (.column .int32)) Table.smallConfig.maxBytes.toNat (given joinBuild) :=
    ⟨by decide, Or.inl (by decide)⟩
  obtain ⟨hsmooth, hbuild⟩ := materialize_beside new_join (builds_of_plain hplain) hsmall
  obtain ⟨-, hprobe⟩ := hbuild (hsmooth hmodest)
  have hcolumn : (run joinRelation joinBuild).columns[0]? =
      some ⟨.utf8, #[#[some "a", none], #[some "b", some "c"]]⟩ := by
    decide +kernel
  have haligned : Aligned ⟨.utf8, #[#[some "a", none], #[some "b", some "c"]]⟩ (accepted joinRelation joinBuild) := by
    unfold Aligned
    decide +kernel
  have hrows : (accepted joinRelation joinBuild).map KeyChunk.rows =
      [[[.null .signed], [.int32 5]], [[.int32 7], [.int32 5]]] := by
    decide +kernel
  obtain ⟨found, hget, hback⟩ := hprobe (.int8 5) none rfl
  have hjoined := ((hback 0 _ hcolumn haligned).2 [.int8 5] hplain rfl (.single rfl)).read (by decide)
  rw [List.flatMap_def, hrows] at hjoined
  exact ⟨hsmooth hmodest, found, hget [], hjoined.trans (by decide +kernel)⟩

end Relation

end EquiJoin
