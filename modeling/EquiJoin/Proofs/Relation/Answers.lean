/-
What a built relation answers. A probe asks the table, the table answers from its log, and the log is that of the
accepted chunks; so the answer is the places of the rows that are stored under the bytes of the key.

* `get_of_built`, `contains_of_built`: probes answer from the history;
* `place_answer`, `place_answer_of_plain`: the answer as the places of rows, with hashes of the caller and without;
* `answers_by_value`: if a key stands for the rows that match some cells by value, the places of these rows are the
  answer, chunk by chunk and row by row;
* `misses_of_isNull`: a null key finds nothing;
* `counts_of_built`: the relation counts its chunks, its null rows and the others.
-/
import EquiJoin.Proofs.Relation.History
import EquiJoin.Relation.Probe

namespace EquiJoin.Relation

/-- where a key stands in a table that is built with the keys' own hashes -/
def filed (b : KeyBytes) : UInt64 × Bytes := (b.hash, b.bytes)

/-- the row is stored where the key is looked for -/
def standsFor (k : KeyType) (key : Key) (row : List Key) : Bool :=
  key.bytes?.any fun b => (rowBytes k row).map filed = some (filed b)

/-- no cell is null, and the cells are those of the probe by value -/
def rowMatches (probe row : List Key) : Bool := !row.any Key.isNull && row.map Key.value? = probe.map Key.value?

/-- a probe finds the rows that match these cells by value, chunk by chunk and row by row, and says whether there are
any -/
def Finds (r : Relation) (key : Key) (hist : List KeyChunk) (probe : List Key) : Prop :=
  ∀ out, ∃ found, r.get key none out = .ok (!found.isEmpty, out ++ found) ∧ r.contains key none = .ok (!found.isEmpty) ∧
    found.map Location.place = places (rowMatches probe) (hist.map KeyChunk.rows)

/-- a probe finds nothing -/
def Misses (r : Relation) (key : Key) : Prop :=
  ∀ out, r.get key none out = .ok (false, out) ∧ r.contains key none = .ok false

/-- the relation counts its chunks, its null rows and the others -/
structure Counts (r : Relation) (hist : List KeyChunk) : Prop where
  chunks : r.chunks.toNat = hist.length
  nullCount : r.nullCount = (hist.flatMap KeyChunk.rows).countP fun row => row.any Key.isNull
  hasNullKeys : r.hasNullKeys = decide (0 < r.nullCount)
  entries : ∃ s, r.stats = .ok s ∧ s.entries = (hist.flatMap KeyChunk.rows).countP fun row => !row.any Key.isNull

/-- the locations of the rows stored under a key, with the caller's hash if there is one -/
def answer (k : KeyType) (hist : List KeyChunk) (key : Key) (hash : Option UInt64) : List Location :=
  match key.bytes? with
  | none => []
  | some b => locations (fun row => row = some (hash.getD b.hash, b.bytes)) (storedOf k hist)

variable {r₀ r : Relation} {hist : List KeyChunk} {key : Key}

/-! ## Probes -/

/-- a probe with a key that is not null answers from the log of the table -/
theorem get_of_holds {t : Table} {log : List Record} (ht : r.table = .owned t) (hlog : t.Holds log)
    (hd : key.domain = r.domain) {b : KeyBytes} (hb : key.bytes? = some b) (hash : Option UInt64) (out : List Location) :
    r.get key hash out =
      .ok (!((payloadsOf log (hash.getD b.hash) b.bytes).filterMap Location.decode?).isEmpty,
        out ++ (payloadsOf log (hash.getD b.hash) b.bytes).filterMap Location.decode?) := by
  have hview : r.view = .ok t.view := by simp only [view, ht, Backing.view?]
  have hbytes : r.probeBytes key = .ok (some b) := by rw [probeBytes, if_neg (not_not.2 hd), hb]
  simp only [get, probe, hview, hbytes, Table.lookup_of_holds hlog]

theorem contains_of_holds {t : Table} {log : List Record} (ht : r.table = .owned t) (hlog : t.Holds log)
    (hd : key.domain = r.domain) {b : KeyBytes} (hb : key.bytes? = some b) (hash : Option UInt64) :
    r.contains key hash = .ok (!(payloadsOf log (hash.getD b.hash) b.bytes).isEmpty) := by
  have hview : r.view = .ok t.view := by simp only [view, ht, Backing.view?]
  have hbytes : r.probeBytes key = .ok (some b) := by rw [probeBytes, if_neg (not_not.2 hd), hb]
  simp only [contains, probe, hview, hbytes, Table.exists_of_holds hlog]

/-- a null key misses, whatever hash it comes with -/
theorem probe_of_null {t : Table} (ht : r.table = .owned t) (hd : key.domain = r.domain) (hb : key.bytes? = none)
    {α : Type} (miss : α) (ask : View → KeyBytes → Option α) : r.probe key miss ask = .ok miss := by
  have hview : r.view = .ok t.view := by simp only [view, ht, Backing.view?]
  have hbytes : r.probeBytes key = .ok none := by rw [probeBytes, if_neg (not_not.2 hd), hb]
  simp only [probe, hview, hbytes]

/-- a probe answers from the history -/
theorem get_of_built (h : Built r₀ r hist) (hd : key.domain = r₀.domain) (hash : Option UInt64) (out : List Location) :
    r.get key hash out =
      .ok (!(answer r₀.keyType hist key hash).isEmpty, out ++ answer r₀.keyType hist key hash) := by
  obtain ⟨t, ht, hlog, -⟩ := h.table
  have hd' : key.domain = r.domain := hd.trans h.domain.symm
  rw [answer]
  cases hb : key.bytes? with
  | none => simp [get, probe_of_null ht hd' hb]
  | some b => rw [get_of_holds ht hlog hd' hb, lookup_recordsOf]

/-- and so does the question whether there is any row -/
theorem contains_of_built (h : Built r₀ r hist) (hd : key.domain = r₀.domain) (hash : Option UInt64) :
    r.contains key hash = .ok (!(answer r₀.keyType hist key hash).isEmpty) := by
  obtain ⟨t, ht, hlog, -⟩ := h.table
  have hd' : key.domain = r.domain := hd.trans h.domain.symm
  rw [answer]
  cases hb : key.bytes? with
  | none => simp [contains, probe_of_null ht hd' hb]
  | some b => rw [contains_of_holds ht hlog hd' hb, isEmpty_payloadsOf, lookup_recordsOf]

/-! ## Answers by value -/

theorem storedFrom_none (i : Nat) (keys : List (Option KeyBytes)) :
    storedFrom none i keys = keys.map (Option.map filed) := by
  induction keys generalizing i with
  | nil => rfl
  | cons key keys ih =>
    rw [storedFrom, ih, List.map_cons]
    rfl

/-- the answer names the places of the rows that are stored under the bytes of the key and the hash of the probe -/
theorem place_answer (h : Built r₀ r hist) (hsmall : ∀ c ∈ hist, c.rowCount ≤ 2 ^ 32) (key : Key)
    (hash : Option UInt64) :
    (answer r₀.keyType hist key hash).map Location.place =
      places (fun row => key.bytes?.any fun b => row = some (hash.getD b.hash, b.bytes))
        (storedOf r₀.keyType hist) := by
  have hchunks : (storedOf r₀.keyType hist).length ≤ 2 ^ 32 := by
    rw [storedOf, List.length_map, ← h.chunks]
    exact Nat.le_of_lt r.chunks.toNat_lt
  have hrows : ∀ rows ∈ storedOf r₀.keyType hist, rows.length ≤ 2 ^ 32 := by
    intro rows hrows
    obtain ⟨c, hc, rfl⟩ := List.mem_map.1 hrows
    rw [length_stored]
    exact hsmall c hc
  rw [answer]
  cases key.bytes? with
  | none => simp [places]
  | some b => exact place_locations _ hchunks hrows

/-- with the keys' own hashes rows are stored as they are filed -/
theorem storedOf_of_plain {k : KeyType} (hplain : ∀ c ∈ hist, c.hashes = none) :
    storedOf k hist = (hist.map KeyChunk.rows).map (List.map fun row => (rowBytes k row).map filed) := by
  rw [storedOf, List.map_map]
  refine List.map_congr_left fun c hc => ?_
  rw [KeyChunk.stored, hplain c hc, storedFrom_none, List.map_map]
  rfl

/-- with the keys' own hashes these are the rows that the key stands for -/
theorem place_answer_of_plain (h : Built r₀ r hist) (hplain : ∀ c ∈ hist, c.hashes = none)
    (hsmall : ∀ c ∈ hist, c.rowCount ≤ 2 ^ 32) (key : Key) :
    (answer r₀.keyType hist key none).map Location.place =
      places (standsFor r₀.keyType key) (hist.map KeyChunk.rows) := by
  rw [place_answer h hsmall, storedOf_of_plain hplain, places_map]
  rfl

/-- if a key stands for the rows that match some cells by value, the places of these rows are the answer -/
theorem answers_by_value (h : Built r₀ r hist) (hd : key.domain = r₀.domain) (hplain : ∀ c ∈ hist, c.hashes = none)
    (hsmall : ∀ c ∈ hist, c.rowCount ≤ 2 ^ 32) {probe : List Key}
    (hmatch : ∀ c ∈ hist, ∀ row ∈ c.rows, standsFor r₀.keyType key row = rowMatches probe row) :
    r.Finds key hist probe := by
  intro out
  refine ⟨_, get_of_built h hd none out, contains_of_built h hd none, ?_⟩
  rw [place_answer_of_plain h hplain hsmall]
  refine places_congr fun rows hrows row hrow => ?_
  obtain ⟨c, hc, rfl⟩ := List.mem_map.1 hrows
  exact hmatch c hc row hrow

/-- a key without bytes finds nothing -/
theorem misses_of_isNull {hist : List KeyChunk} {key : Key} (h : Built r₀ r hist) (hd : key.domain = r₀.domain)
    (hn : key.isNull) : r.Misses key := by
  intro out
  have hanswer : answer r₀.keyType hist key none = [] := by
    rw [answer, Option.isNone_iff_eq_none.1 hn]
  rw [get_of_built h hd, contains_of_built h hd, hanswer]
  simp

/-! ## Counts -/

theorem countP_stored {k : KeyType} {c : KeyChunk} (hc : c.Fits k) :
    (c.stored k).countP Option.isNone = c.rows.countP (fun row => row.any Key.isNull) ∧
      (c.stored k).countP Option.isSome = c.rows.countP (fun row => !row.any Key.isNull) := by
  have hfrom (p : Bool → Bool) (i : Nat) (keys : List (Option KeyBytes)) :
      (storedFrom c.hashes i keys).countP (fun row => p row.isNone) = keys.countP (fun key => p key.isNone) := by
    induction keys generalizing i with
    | nil => rfl
    | cons key keys ih => cases key <;> simp [storedFrom, List.countP_cons, ih]
  have hrows (p : Bool → Bool) :
      (c.stored k).countP (fun row => p row.isNone) = c.rows.countP (fun row => p (row.any Key.isNull)) := by
    rw [KeyChunk.stored, hfrom, List.countP_map]
    refine List.countP_congr fun row hrow => ?_
    rw [Function.comp, hc.bytes row hrow]
  refine ⟨hrows id, ?_⟩
  have hnot : (Option.isSome : StoredRow → Bool) = fun row => !row.isNone := by
    funext row
    cases row <;> rfl
  rw [hnot]
  exact hrows not

theorem counts_of_built (h : Built r₀ r hist) : r.Counts hist := by
  obtain ⟨t, ht, hlog, -⟩ := h.table
  have hnulls : r.nullCount = (nullsOf (storedOf r₀.keyType hist)).length := by
    rw [nullCount, ← h.nullRows, Array.length_toList]
  refine ⟨h.chunks, ?_, ?_, ⟨t.stats, by simp only [stats, ht, Backing.stats?], ?_⟩⟩
  · rw [hnulls, length_nullsOf, storedOf, List.countP_flatten, List.countP_flatMap, List.map_map]
    refine congrArg List.sum (List.map_congr_left fun c hc => (countP_stored (h.fits c hc)).1)
  · rw [hasNullKeys, h.nullSeen, hnulls]
    cases nullsOf (storedOf r₀.keyType hist) <;> simp
  · rw [Table.stats, hlog.count, length_recordsOf, storedOf, List.countP_flatten, List.countP_flatMap, List.map_map]
    refine congrArg List.sum (List.map_congr_left fun c hc => (countP_stored (h.fits c hc)).2)

end EquiJoin.Relation
