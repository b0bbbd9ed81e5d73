/-
The width of a row. Where all columns are numeric their number fixes how many bytes a complete row without nulls takes;
where one of them is not, the values do. `fixedSize?` tells the two apart and computes the width from the types alone.

* `length_of_full`: a width that is computed is that of every complete row without nulls of these types;
* `full_of_ofKeys`: a row of keys of these domains, none of them null, is one of them;
* `exists_lengths_ne`: where no width is computed, two rows of the same types have different lengths.
-/
import EquiJoin.Proofs.Row.Reuse
import Mathlib.Algebra.Order.BigOperators.Group.List

namespace EquiJoin.Row

variable {ts : List DataType} {cts : List ColumnType} {ds : List KeyDomain} {ks : List Key} {r r' row : Row} {w : Nat}

/-- a complete row without nulls whose fields are of these domains, whatever calls have made it -/
def Full (ds : List KeyDomain) (row : Row) : Prop :=
  ∃ calls, row = (new ds.length).run calls ∧ (fieldsAfter ds.length calls).map Key.domain = ds ∧ row.hasNull = false

/-- the row of one cell of each of these columns, none of them null -/
def OfCells (cts : List ColumnType) (row : Row) : Prop :=
  ∃ cells : List ((t : ColumnType) × t.Value), cells.map Sigma.fst = cts ∧
    ofKeys cts.length (cells.map fun c => Key.ofCell c.1 c.2) = .ok row

/-! ## Rows of a computed width -/

/-- a width is computed where all columns are numeric, from their number -/
theorem fixedSize?_eq_some (h : fixedSize? ts = some w) :
    (∃ cts : List ColumnType, ts = cts.map DataType.column ∧ ∀ t ∈ cts, t.isNumeric = true) ∧
      w = nullBytes ts.length + 8 * ts.length := by
  rw [fixedSize?] at h
  split_ifs at h with hall
  cases h
  refine ⟨?_, rfl⟩
  induction ts with
  | nil => exact ⟨[], rfl, nofun⟩
  | cons t ts ih =>
    rw [List.all_cons, Bool.and_eq_true] at hall
    obtain ⟨cts, hcts, hnumeric⟩ := ih hall.2
    cases t with
    | other name => cases hall.1
    | column t =>
      exact ⟨t :: cts, by rw [hcts, List.map_cons], List.forall_mem_cons.2 ⟨hall.1, hnumeric⟩⟩

/-- a number that is not null takes eight bytes -/
theorem fieldSize_of_isScalar {k : Key} (hd : k.domain.isScalar) (hn : k.isNull = false) : fieldSize k = 8 := by
  rw [fieldSize]
  cases hb : k.bytes? with
  | none => simp [Key.isNull, hb] at hn
  | some b =>
    have hs := (Key.canonical_of_bytes? hb).isScalar_eq.trans hd
    cases b with
    | scalar w => rfl
    | slice bs => cases hs

/-- what a complete row without nulls consists of -/
theorem Full.encodes (h : Full ds row) :
    ∃ ks, row.Encodes ks ∧ row.fields = ds.length ∧ ks.map Key.domain = ds ∧ ∀ k ∈ ks, k.isNull = false := by
  obtain ⟨calls, rfl, hdomains, hnull⟩ := h
  obtain ⟨hencodes, hfields⟩ := run_new_encodes ds.length calls
  refine ⟨_, hencodes, hfields, hdomains, ?_⟩
  intro k hk
  rw [hasNull_eq hencodes, List.any_eq_false] at hnull
  exact Bool.eq_false_iff.2 (hnull k hk)

/-- a width that is computed is that of every complete row without nulls of these types -/
theorem length_of_full (hw : fixedSize? (cts.map DataType.column) = some w) (row : Row)
    (hrow : Full (cts.map ColumnType.domain) row) : row.bytes.length = w := by
  obtain ⟨⟨cts', htypes, hnumeric⟩, rfl⟩ := fixedSize?_eq_some hw
  obtain rfl : cts = cts' := List.map_injective_iff.2 (fun _ _ => DataType.column.inj) htypes
  obtain ⟨ks, hencodes, hfields, hdomains, hnull⟩ := hrow.encodes
  have hcount : ks.length = cts.length := by
    have hlength := congrArg List.length hdomains
    simpa using hlength
  have height : ∀ size ∈ ks.map fieldSize, size = 8 := by
    intro size hsize
    obtain ⟨k, hk, rfl⟩ := List.mem_map.1 hsize
    have hd : k.domain ∈ cts.map ColumnType.domain := hdomains ▸ List.mem_map_of_mem hk
    obtain ⟨t, ht, htd⟩ := List.mem_map.1 hd
    exact fieldSize_of_isScalar (by rw [← htd, t.isScalar_domain, hnumeric t ht]) (hnull k hk)
  have hsum : (ks.map fieldSize).sum = 8 * cts.length := by
    rw [List.eq_replicate_of_mem height, List.sum_replicate_nat, List.length_map, hcount, Nat.mul_comm]
  rw [(shows_of_encodes hencodes hfields).length, hsum, List.length_map, List.length_map, nullBytes]

/-! ## Rows of keys -/

/-- keys that are appended one after another are calls, and the fields that these calls write -/
theorem run_appends {done : List Key} (hr : r.Encodes done) (h : (appendAll ks).run r = .ok () r') :
    r.run (ks.map .append) = r' ∧ (ks.map Call.append).foldl (Call.fields r.fields) done = done ++ ks := by
  induction ks generalizing r done with
  | nil =>
    cases h
    exact ⟨rfl, (List.append_nil done).symm⟩
  | cons k ks ih =>
    rw [appendAll_cons] at h
    obtain ⟨_, m, hk, hrest⟩ := Action.run_bind_eq_ok.1 h
    obtain ⟨hm, hfields⟩ := append_encodes hr hk
    obtain ⟨hlt, hfits, -⟩ := append_eq_ok hk
    obtain ⟨hrun, hwritten⟩ := ih hm hrest
    have hafter : (Call.append k).act.after r = m := Action.after_of_ok hk
    have hstep : (Call.append k).fields r.fields done = done ++ [k] := if_pos ⟨hr.written ▸ hlt, hfits⟩
    constructor
    · rw [List.map_cons, run, List.foldl_cons, hafter]
      exact hrun
    · rw [List.map_cons, List.foldl_cons, hstep, ← hfields, hwritten, List.append_assoc, List.singleton_append]

/-- the row of keys of these domains, none of them null -/
theorem full_of_ofKeys (h : ofKeys ds.length ks = .ok row) (hd : ks.map Key.domain = ds)
    (hnull : ks.any Key.isNull = false) : Full ds row := by
  have hencodes := (ofKeys_encodes h).1
  rw [ofKeys] at h
  cases hrun : (appendAll ks).run (new ds.length) with
  | error s m => simp [hrun] at h
  | ok u m =>
    simp only [hrun, Except.ok.injEq] at h
    subst h
    obtain ⟨hcalls, hfields⟩ := run_appends (new_encodes ds.length) hrun
    have hwritten : fieldsAfter ds.length (ks.map .append) = ks := hfields
    exact ⟨ks.map .append, hcalls.symm, by rw [hwritten, hd], (hasNull_eq hencodes).trans hnull⟩

theorem full_of_ofCells (h : OfCells cts row) : Full (cts.map ColumnType.domain) row := by
  obtain ⟨cells, rfl, hrow⟩ := h
  refine full_of_ofKeys (by rwa [List.length_map]) ?_ ?_
  · rw [List.map_map, List.map_map]
    exact List.map_congr_left fun c _ => Key.domain_ofCell c.1 c.2
  · rw [List.any_map, List.any_eq_false]
    intro c _
    exact Bool.eq_false_iff.1 (Key.isNull_ofCell? c.1 (some c.2))

/-! ## Rows of no computed width -/

/-- a short cell and a longer one, where the column has cells of several lengths -/
def sample (long : Bool) : (t : ColumnType) → t.Value
  | .int8 => (0 : Int8)
  | .int16 => (0 : Int16)
  | .int32 | .date32 => (0 : Int32)
  | .int64 | .date64 => (0 : Int64)
  | .uint8 => (0 : UInt8)
  | .uint16 => (0 : UInt16)
  | .uint32 => (0 : UInt32)
  | .uint64 => (0 : UInt64)
  | .float32 => (⟨0⟩ : Binary32)
  | .float64 => (⟨0⟩ : Binary64)
  | .utf8 | .largeUtf8 => if long then "a" else ""
  | .binary | .largeBinary => if long then [97] else []

theorem fieldSize_sample (long : Bool) (t : ColumnType) :
    fieldSize (Key.ofCell t (sample long t)) = if t.isNumeric then 8 else if long then 5 else 4 := by
  cases long <;> cases t <;> decide +kernel

theorem fitsField_sample (long : Bool) (t : ColumnType) : fitsField (Key.ofCell t (sample long t)) = true := by
  cases long <;> cases t <;> decide +kernel

/-- the samples of these columns are a row -/
theorem ofCells_sample (long : Bool) (cts : List ColumnType) :
    ∃ row, OfCells cts row ∧ row.bytes.length =
      (cts.length + 7) / 8 + (cts.map fun t => fieldSize (Key.ofCell t (sample long t))).sum := by
  let cells : List ((t : ColumnType) × t.Value) := cts.map fun t => ⟨t, sample long t⟩
  have hkeys : (cells.map fun c => Key.ofCell c.1 c.2) = cts.map fun t => Key.ofCell t (sample long t) := List.map_map
  have hroom : (new cts.length).written + (cells.map fun c => Key.ofCell c.1 c.2).length ≤ (new cts.length).fields := by
    simp [hkeys, new]
  have hfits : ∀ k ∈ cells.map fun c => Key.ofCell c.1 c.2, fitsField k = true := by
    rw [hkeys]
    exact List.forall_mem_map.2 fun t _ => fitsField_sample long t
  obtain ⟨row, hrun⟩ := (appendAll_answered hroom).2 hfits
  have hrow : ofKeys cts.length (cells.map fun c => Key.ofCell c.1 c.2) = .ok row := by rw [ofKeys, hrun]
  obtain ⟨hencodes, hfields⟩ := ofKeys_encodes hrow
  have htypes : cells.map Sigma.fst = cts := by
    rw [List.map_map]
    exact List.map_id cts
  refine ⟨row, ⟨cells, htypes, hrow⟩, ?_⟩
  rw [(shows_of_encodes hencodes hfields).length, hkeys, List.map_map]
  rfl

/-- where no width is computed, two rows of cells of the same columns have different lengths -/
theorem exists_lengths_ne (h : fixedSize? (cts.map DataType.column) = none) :
    ∃ row row', OfCells cts row ∧ OfCells cts row' ∧ row.bytes.length ≠ row'.bytes.length := by
  obtain ⟨t, ht, hvariable⟩ : ∃ t ∈ cts, t.isNumeric = false := by
    rw [fixedSize?] at h
    split_ifs at h with hall
    by_contra hnone
    push Not at hnone
    refine hall (List.all_eq_true.2 ?_)
    intro t ht
    obtain ⟨c, hc, rfl⟩ := List.mem_map.1 ht
    simpa [DataType.column?] using hnone c hc
  obtain ⟨row, hrow, hlength⟩ := ofCells_sample false cts
  obtain ⟨row', hrow', hlength'⟩ := ofCells_sample true cts
  refine ⟨row, row', hrow, hrow', ?_⟩
  have hlt : (cts.map fun t => fieldSize (Key.ofCell t (sample false t))).sum <
      (cts.map fun t => fieldSize (Key.ofCell t (sample true t))).sum := by
    refine List.sum_lt_sum _ _ ?_ ⟨t, ht, ?_⟩
    · intro t _
      rw [fieldSize_sample, fieldSize_sample]
      split_ifs <;> simp_all
    · rw [fieldSize_sample, fieldSize_sample, hvariable]
      decide
  omega

end EquiJoin.Row
