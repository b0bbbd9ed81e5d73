/-
Asking whether a key is stored, and looking it up. Both walk the same payloads. The question whether anything is stored
is answered by the first payload, whatever it is; a lookup counts those payloads only that are locations. A payload of
another length than eight bytes therefore makes the two differ, unless a location is stored beside it.

* `eq_of_attach_extents`: a view that is attached over a table's regions is the table's own;
* `exists_and_lookup`: what each of the two says of the records that were accepted, and exactly when they agree;
* `exists_without_lookup`: they may not.
-/
import EquiJoin.Proofs.Table.Attach
import EquiJoin.Proofs.Table.Reachable

namespace EquiJoin

namespace View

/-- wherever the regions of a view lie, if a view is attached over them, it is the same view -/
theorem eq_of_attach_extents {v w : View} {p : Placement} (h : attach (v.extents p) = .ok w) : w = v := by
  obtain ⟨control, slots, overflow, hhandles, -, -, hheader, hslots, hbytes⟩ := attach_eq_ok.1 h
  cases hhandles
  obtain ⟨-, -, hcontrol, -⟩ := readHeader_eq_ok.1 hheader
  obtain ⟨-, -, -, hwords⟩ := readSlots_eq_ok.1 hslots
  obtain ⟨-, -, hregion⟩ := readOverflow_eq_ok.1 hbytes
  rw [Header.decode_encode] at hcontrol
  rw [Slot.decode_encode] at hwords
  cases w
  cases v
  simp only at hcontrol hwords hregion
  rw [hcontrol, hwords, hregion]

end View

/-- some payload is a location exactly if some payload has the length of one -/
theorem filterMap_decode?_ne_nil {ps : List Bytes} :
    ps.filterMap Location.decode? ≠ [] ↔ ∃ p ∈ ps, p.length = Location.width := by
  rw [ne_eq, List.filterMap_eq_nil_iff, not_forall]
  constructor
  · rintro ⟨p, hp⟩
    obtain ⟨hmem, hsome⟩ := Classical.not_imp.1 hp
    exact ⟨p, hmem, not_not.1 fun hlength => hsome (Location.decode?_eq_none_iff.2 hlength)⟩
  · rintro ⟨p, hmem, hlength⟩
    exact ⟨p, fun hnone => Location.decode?_eq_none_iff.1 (hnone hmem) hlength⟩

namespace Table

variable {t : Table} {log : List Record}

/-- **Asking and looking up.** Take any table that calls have led to, any view that is attached over its regions, and any
hash and key. The question whether anything is stored is answered by yes exactly if some record was accepted under them.
A lookup says that it found something exactly if the payload of some such record has the length of a location. So what a
lookup finds is stored, and the two agree exactly if nothing is stored or some location is; they always agree on a table
that stores nothing but locations. -/
theorem exists_and_lookup (h : t.Logged log) {p : Placement} {v : View} (hv : View.attach (t.view.extents p) = .ok v)
    (hash : UInt64) (key : Bytes) (out : List Location) :
    ∃ stored found more, v.exists? hash key = some stored ∧ v.lookup? hash key out = some (found, out ++ more) ∧
      (stored = true ↔ payloadsOf log hash key ≠ []) ∧
      (found = true ↔ ∃ payload ∈ payloadsOf log hash key, payload.length = Location.width) ∧
      (found = true → stored = true) ∧
      ((stored = true ↔ found = true) ↔
        payloadsOf log hash key = [] ∨ ∃ payload ∈ payloadsOf log hash key, payload.length = Location.width) ∧
      ((∀ n ∈ log, n.payload.length = Location.width) → (stored = true ↔ found = true)) := by
  have hexists := exists_of_holds h.holds hash key
  have hlookup := lookup_of_holds h.holds hash key out
  have hstored : (!(payloadsOf log hash key).isEmpty) = true ↔ payloadsOf log hash key ≠ [] := by
    rw [Bool.not_eq_true', Bool.eq_false_iff, ne_eq, List.isEmpty_iff]
  have hfound : (!((payloadsOf log hash key).filterMap Location.decode?).isEmpty) = true ↔
      ∃ payload ∈ payloadsOf log hash key, payload.length = Location.width := by
    rw [← filterMap_decode?_ne_nil, Bool.not_eq_true', Bool.eq_false_iff, ne_eq, List.isEmpty_iff]
  have hsub : (∃ payload ∈ payloadsOf log hash key, payload.length = Location.width) →
      payloadsOf log hash key ≠ [] := by
    rintro ⟨payload, hmem, -⟩
    exact List.ne_nil_of_mem hmem
  cases View.eq_of_attach_extents hv
  refine ⟨_, _, _, hexists, hlookup, hstored, hfound, fun hf => hstored.2 (hsub (hfound.1 hf)), ?_, fun hall => ?_⟩
  · rw [hstored, hfound]
    constructor
    · intro hsame
      by_cases hnone : payloadsOf log hash key = []
      · exact .inl hnone
      · exact .inr (hsame.1 hnone)
    · rintro (hnone | hsome)
      · exact ⟨fun hne => absurd hnone hne, hsub⟩
      · exact ⟨fun _ => hsome, hsub⟩
  · rw [hstored, hfound]
    refine ⟨fun hne => ?_, hsub⟩
    obtain ⟨payload, hmem⟩ := List.exists_mem_of_ne_nil _ hne
    obtain ⟨n, hn, rfl⟩ := List.mem_map.1 hmem
    exact ⟨n.payload, hmem, hall n ((List.mem_filter.1 hn).1)⟩

/-- a payload of one byte, and under another key one of one byte and a location -/
def mixedCalls : List Call := [.insert 4 [1] [7], .insert 5 [2] [8], .insertLocation 5 [2] ⟨3, 5⟩]

theorem logged_mixed :
    (run smallTable mixedCalls).Logged
      [⟨4, [1], [7]⟩, ⟨5, [2], [8]⟩, ⟨5, [2], Location.encode ⟨3, 5⟩⟩] := by
  have hc : create smallConfig = .ok smallTable := by decide +kernel
  have hlog : accepted smallTable mixedCalls = [⟨4, [1], [7]⟩, ⟨5, [2], [8]⟩, ⟨5, [2], Location.encode ⟨3, 5⟩⟩] := by
    decide +kernel
  have := logged_run (.create hc) mixedCalls
  rwa [List.nil_append, hlog] at this

/-- the regions of that table can be attached -/
theorem attach_mixed :
    View.attach ((run smallTable mixedCalls).view.extents ⟨64, 128, 192⟩) = .ok (run smallTable mixedCalls).view :=
  View.attach_extents (valid_view logged_mixed.holds (by decide +kernel))
    ⟨by decide, by decide, by decide, by decide, by decide⟩

/-- under the first key something is stored, and nothing is found -/
theorem exists_without_lookup :
    ∃ v, View.attach ((run smallTable mixedCalls).view.extents ⟨64, 128, 192⟩) = .ok v ∧
      v.exists? 4 [1] = some true ∧ v.lookup? 4 [1] [] = some (false, []) :=
  ⟨_, attach_mixed, by decide +kernel, by decide +kernel⟩

/-- under the second key a location is found beside the other payload, and the two agree -/
theorem exists_and_lookup_mixed :
    ∃ log v, (run smallTable mixedCalls).Logged log ∧
      View.attach ((run smallTable mixedCalls).view.extents ⟨64, 128, 192⟩) = .ok v ∧
      ∃ stored found more, v.exists? 5 [2] = some stored ∧ v.lookup? 5 [2] [⟨0, 0⟩] = some (found, [⟨0, 0⟩] ++ more) ∧
        stored = true ∧ found = true := by
  obtain ⟨stored, found, more, hexists, hlookup, hstored, hfound, -⟩ :=
    exists_and_lookup logged_mixed attach_mixed 5 [2] [⟨0, 0⟩]
  exact ⟨_, _, logged_mixed, attach_mixed, stored, found, more, hexists, hlookup, hstored.2 (by decide),
    hfound.2 (by decide)⟩

end Table

end EquiJoin
