/-
One sequence of entries under two hash functions. The slots and the chains of the two tables have nothing in common, but
what a table admits, how far it has grown and which payloads it answers depend on lengths and on keys alone.

* `Mirrors`: two tables that store the same keys with the same payloads, each under its own hash function;
* `agree_insert`, `agree_grow`: inserting the same entry and growing are answered alike and keep this;
* `payloadsOf_under`: a key is answered the payloads of its entries, whatever the function.
-/
import EquiJoin.Proofs.Key.Value
import EquiJoin.Proofs.Table.Multimap

namespace EquiJoin

/-- the record of a key and a payload under a hash function -/
def Record.under (g : KeyBytes → UInt64) (e : KeyBytes × Bytes) : Record := ⟨g e.1, e.1.bytes, e.2⟩

theorem total_under (g g' : KeyBytes → UInt64) (entries : List (KeyBytes × Bytes)) :
    total (entries.map (Record.under g')) = total (entries.map (Record.under g)) := by
  rw [total, total, List.map_map, List.map_map]
  rfl

/-- a key is answered the payloads of its entries, whatever the hash function -/
theorem payloadsOf_under {d : KeyDomain} {entries : List (KeyBytes × Bytes)} (hall : ∀ e ∈ entries, e.1.Canonical d)
    {key : KeyBytes} (hkey : key.Canonical d) (g : KeyBytes → UInt64) :
    payloadsOf (entries.map (Record.under g)) (g key) key.bytes =
      (entries.filter fun e => e.1 = key).map Prod.snd := by
  rw [payloadsOf, List.filter_map, List.map_map]
  have hsame : entries.filter (Record.carries (g key) key.bytes ∘ Record.under g) =
      entries.filter fun e => e.1 = key := by
    refine List.filter_congr fun e he => ?_
    rw [Function.comp, Record.carries, Record.under, Bool.eq_iff_iff, Bool.and_eq_true, beq_iff_eq, beq_iff_eq,
      decide_eq_true_eq]
    constructor
    · intro hcarries
      exact (hall e he).eq_of_bytes hkey hcarries.2
    · rintro rfl
      exact ⟨rfl, rfl⟩
  rw [hsame]
  rfl

namespace Table

/-- both tables store the same keys of a domain with the same payloads in the same order, each under its own hash
function, and they have grown alike -/
structure Mirrors (d : KeyDomain) (g g' : KeyBytes → UInt64) (t t' : Table) : Prop where
  keeps : t.Keeps t'
  capacity : t'.capacity = t.capacity
  entries : ∃ entries : List (KeyBytes × Bytes), (∀ e ∈ entries, e.1.Canonical d) ∧
    t.Holds (entries.map (Record.under g)) ∧ t'.Holds (entries.map (Record.under g'))

variable {d : KeyDomain} {g g' : KeyBytes → UInt64} {t t' : Table}

namespace Mirrors

theorem count (h : Mirrors d g g' t t') : t'.count = t.count := by
  obtain ⟨entries, -, hlog, hlog'⟩ := h.entries
  rw [hlog.count, hlog'.count, List.length_map, List.length_map]

theorem cursor (h : Mirrors d g g' t t') : t'.cursor = t.cursor := by
  obtain ⟨entries, -, hlog, hlog'⟩ := h.entries
  rw [hlog.cursor, hlog'.cursor, total_under]

theorem stats (h : Mirrors d g g' t t') : t'.stats = t.stats := by
  rw [Table.stats, Table.stats, h.capacity, h.count, h.cursor, h.keeps.maxBytes]

/-- both tables have room for the same batches -/
theorem ensureRoom (h : Mirrors d g g' t t') (entries bytes : Nat) :
    t'.ensureRoom entries bytes = t.ensureRoom entries bytes := by
  rw [Table.ensureRoom, Table.ensureRoom, h.cursor, h.count, h.capacity, h.keeps.maxBytes, h.keeps.loadFactor]

/-- both tables answer a key the same payloads -/
theorem payloads (h : Mirrors d g g' t t') {key : KeyBytes} (hkey : key.Canonical d) :
    ∃ log log', t.Holds log ∧ t'.Holds log' ∧
      payloadsOf log' (g' key) key.bytes = payloadsOf log (g key) key.bytes := by
  obtain ⟨entries, hall, hlog, hlog'⟩ := h.entries
  exact ⟨_, _, hlog, hlog', by rw [payloadsOf_under hall hkey, payloadsOf_under hall hkey]⟩

end Mirrors

/-- the same table, empty, mirrors itself -/
theorem mirrors_of_empty (h : t.Holds []) : Mirrors d g g' t t :=
  ⟨Keeps.refl t, rfl, [], by simp, h, h⟩

/-- growing is answered alike -/
theorem agree_grow : Action.Agree (Mirrors d g g') grow grow := by
  intro t t' h
  obtain ⟨entries, hall, hlog, hlog'⟩ := h.entries
  cases hd : double t.capacity with
  | error e =>
    have hstop {t : Table} (hd : double t.capacity = .error e) : grow.run t = .error (.refused e) t := by
      simp only [grow, EStateM.run, hd]
    exact Action.agree_of_error (hstop hd) (hstop (h.capacity ▸ hd)) h
  | ok capacity =>
    obtain ⟨t₁, hrun, hlog₁, hkeeps, hcapacity, -⟩ := grow_of_double hlog hd
    obtain ⟨t₁', hrun', hlog₁', hkeeps', hcapacity', -⟩ := grow_of_double hlog' (h.capacity ▸ hd)
    refine Action.agree_of_ok hrun hrun' ⟨?_, hcapacity'.trans hcapacity.symm, entries, hall, hlog₁, hlog₁'⟩
    exact h.keeps.congr hkeeps hkeeps'

/-- inserting the same entry is answered alike, each table under its own hash -/
theorem agree_insert {key : KeyBytes} (hkey : key.Canonical d) (payload : Bytes) :
    Action.Agree (Mirrors d g g') (insert (g key) key.bytes payload) (insert (g' key) key.bytes payload) := by
  intro t t' h
  obtain ⟨entries, hall, hlog, hlog'⟩ := h.entries
  set n := Record.under g (key, payload)
  set n' := Record.under g' (key, payload)
  have hbytes : t'.entryBytes n'.key.length n'.payload.length = t.entryBytes n.key.length n.payload.length :=
    entryBytes_congr h.keeps.keySize _ _
  cases hb : t.entryBytes n.key.length n.payload.length with
  | error e =>
    exact Action.agree_of_error (insert_of_entryBytes_error (n := n) hb)
      (insert_of_entryBytes_error (n := n') (hbytes.trans hb)) h
  | ok size =>
    have hb' := hbytes.trans hb
    cases hr : t.ensureRoom 1 size with
    | error e =>
      exact Action.agree_of_error (insert_of_ensureRoom_error (n := n) hb hr)
        (insert_of_ensureRoom_error (n := n') hb' ((h.ensureRoom 1 size).trans hr)) h
    | ok u =>
      have hr' := (h.ensureRoom 1 size).trans hr
      by_cases he : t.cursor + size < 2 ^ 64
      · obtain ⟨t₁, hrun, hlog₁, hkeeps, hcapacity⟩ := insert_of_room hlog hb hr he
        obtain ⟨t₁', hrun', hlog₁', hkeeps', hcapacity'⟩ := insert_of_room hlog' hb' hr' (h.cursor ▸ he)
        have hsame : t'.capacityFor = t.capacityFor := by
          rw [capacityFor, capacityFor, h.keeps.loadFactor, h.capacity, h.count]
        refine Action.agree_of_ok hrun hrun' ⟨h.keeps.congr hkeeps hkeeps', ?_, entries ++ [(key, payload)], ?_, ?_, ?_⟩
        · rw [hcapacity', hsame, hcapacity]
        · exact List.forall_mem_append.2 ⟨hall, List.forall_mem_singleton.2 hkey⟩
        · rwa [List.map_append, List.map_singleton]
        · rwa [List.map_append, List.map_singleton]
      · exact Action.agree_of_error (insert_of_overflow (n := n) hb hr (Nat.le_of_not_lt he))
          (insert_of_overflow (n := n') hb' hr' (h.cursor ▸ Nat.le_of_not_lt he)) h

end Table

end EquiJoin
