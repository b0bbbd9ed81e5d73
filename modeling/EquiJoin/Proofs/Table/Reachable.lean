/-
The states of a table. `Reachable` tables are made by `create`, may be marked with a tag, and are changed by any calls,
also by calls that were refused or stopped; `Logged` says the same and keeps beside the table the log of what it stored.
Such a table holds the records of its log, and its entries are served: the slot array is large enough for their number,
or doubling leads to one that is. With a small load factor the latter is all there is, since an insertion doubles the
slot array once at most.

* `insert_eq_ok`: what a successful insertion was asked and what it leaves behind;
* `reach_of_double`, `reach_next`: what can be reached before a doubling and after it;
* `reachable_iff_logged`, `logged_run`: every reachable table has a log, and after a run it is that of the accepted
  records;
* `Logged.holds`, `served_of_reachable`: both properties of every reachable table.
-/
import EquiJoin.Proofs.Table.Multimap

namespace EquiJoin.Table

/-- tables that some calls lead to, whatever the outcomes of the calls -/
inductive Reachable : Table → Prop where
  | create {c : Config} {t : Table} : create c = .ok t → Reachable t
  | withTag {t : Table} (tag : UInt64) : Reachable t → Reachable (t.withTag tag)
  | step {t : Table} (call : Call) : Reachable t → Reachable (call.act.after t)

/-- tables that some calls lead to, each with the records of the insertions that succeeded, in their order -/
inductive Logged : Table → List Record → Prop where
  | create {c : Config} {t : Table} : create c = .ok t → Logged t []
  | withTag {t : Table} {log : List Record} (tag : UInt64) : Logged t log → Logged (t.withTag tag) log
  | step {t : Table} {log : List Record} (call : Call) :
      Logged t log → Logged (call.act.after t) (log ++ call.stored t)

/-- some capacity from the present one on serves as many entries as there are -/
def Served (t : Table) : Prop := reach t.loadFactor t.count t.capacity = .ok ()

variable {t t' : Table} {log : List Record} {lf : Binary64} {wanted capacity : Nat}

theorem Logged.holds (h : t.Logged log) : t.Holds log := by
  induction h with
  | create hc => exact create_holds hc
  | withTag tag _ ih => exact ih.withTag tag
  | step call _ ih => exact (call_holds ih call).1

theorem reachable_iff_logged : t.Reachable ↔ ∃ log, t.Logged log := by
  constructor
  · intro h
    induction h with
    | create hc => exact ⟨[], .create hc⟩
    | withTag tag _ ih =>
      obtain ⟨log, hlog⟩ := ih
      exact ⟨log, hlog.withTag tag⟩
    | step call _ ih =>
      obtain ⟨log, hlog⟩ := ih
      exact ⟨_, hlog.step call⟩
  · rintro ⟨log, h⟩
    induction h with
    | create hc => exact .create hc
    | withTag tag _ ih => exact ih.withTag tag
    | step call _ ih => exact ih.step call

theorem holds_of_reachable (h : t.Reachable) : ∃ log, t.Holds log := by
  obtain ⟨log, hlog⟩ := reachable_iff_logged.1 h
  exact ⟨log, hlog.holds⟩

/-- a run appends to the log what it accepted -/
theorem logged_run (h : t.Logged log) (calls : List Call) : (run t calls).Logged (log ++ accepted t calls) := by
  induction calls generalizing t log with
  | nil => simpa [run, accepted] using h
  | cons call calls ih =>
    have := ih (h.step call)
    rwa [List.append_assoc] at this

/-! ## Doubling and the load bound -/

theorem threshold_mono {more : Nat} (h : capacity ≤ more) : threshold lf capacity ≤ threshold lf more := by
  have hscale : lf.scaleFloor capacity ≤ lf.scaleFloor more :=
    Nat.div_le_div_right (Nat.mul_le_mul_right lf.magnitude h)
  unfold threshold
  omega

/-- what the doubled capacity leads to, the capacity itself leads to -/
theorem reach_of_double (hpos : 0 < capacity) (hd : double capacity = .ok (capacity * 2))
    (h : reach lf wanted (capacity * 2) = .ok ()) : reach lf wanted capacity = .ok () := by
  have hroom : capacity * 2 * 2 < 1 <<< 64 := by
    by_contra hroom
    rw [double, if_neg hroom] at hd
    cases hd
  by_cases hserved : wanted ≤ threshold lf capacity
  · exact reach_of_le hserved
  · rw [reach, if_neg hserved, dif_pos ⟨hpos, hroom⟩]
    exact h

/-- what a capacity leads to, the doubled one still leads to -/
theorem reach_next (h : reach lf wanted capacity = .ok ()) : reach lf wanted (capacity * 2) = .ok () := by
  by_cases hserved : wanted ≤ threshold lf capacity
  · exact reach_of_le (Nat.le_trans hserved (threshold_mono (by omega)))
  · exact (reach_double (Nat.lt_of_not_le hserved) h).2

/-! ## Single calls -/

/-- a successful insertion was admitted and given room -/
theorem insert_eq_ok (h : t.Holds log) {n : Record} (hrun : (insert n.hash n.key n.payload).run t = .ok () t') :
    ∃ size, t.entryBytes n.key.length n.payload.length = .ok size ∧ t.ensureRoom 1 size = .ok () ∧
      t'.Holds (log ++ [n]) ∧ t.Keeps t' ∧ t'.capacity = t.capacityFor := by
  cases hb : t.entryBytes n.key.length n.payload.length with
  | error e => cases (insert_of_entryBytes_error hb).symm.trans hrun
  | ok size =>
    cases hr : t.ensureRoom 1 size with
    | error e => cases (insert_of_ensureRoom_error hb hr).symm.trans hrun
    | ok u =>
      by_cases he : t.cursor + size < 2 ^ 64
      · obtain ⟨t₁, hok, hlog, hkeeps, hcapacity⟩ := insert_of_room h hb hr he
        cases hok.symm.trans hrun
        exact ⟨size, rfl, hr, hlog, hkeeps, hcapacity⟩
      · cases (insert_of_overflow hb hr (Nat.le_of_not_lt he)).symm.trans hrun

/-- the number of entries is far from the end of its word, so counting one more is exact -/
theorem Holds.cappedAdd_count (h : t.Holds log) : cappedAdd t.count 1 = t.count + 1 := by
  have := h.count_le
  have := h.cursor_le_maxBytes
  have := h.maxBytes_lt
  unfold cappedAdd
  omega

theorem served_of_insert (h : t.Holds log) {n : Record} (hrun : (insert n.hash n.key n.payload).run t = .ok () t') :
    t'.Served := by
  obtain ⟨size, -, hroom, hlog, hkeeps, hcapacity⟩ := insert_eq_ok h hrun
  have hreach : reach t.loadFactor (t.count + 1) t.capacity = .ok () := by
    rw [← h.cappedAdd_count]
    exact (ensureRoom_eq_ok_iff.1 hroom).2
  have hcount : t'.count = t.count + 1 := by
    rw [hlog.count, h.count, List.length_append, List.length_singleton]
  rw [Served, hkeeps.loadFactor, hcount, hcapacity, capacityFor]
  split_ifs
  · exact reach_next hreach
  · exact hreach

theorem served_of_grow (h : t.Holds log) (hs : t.Served) (hrun : grow.run t = .ok () t') : t'.Served := by
  cases hd : double t.capacity with
  | error e =>
    simp only [grow, EStateM.run, hd] at hrun
    cases hrun
  | ok capacity =>
    obtain ⟨t₁, hok, -, hkeeps, hcapacity, hcount, -⟩ := grow_of_double h hd
    cases hok.symm.trans hrun
    rw [Served, hkeeps.loadFactor, hcount, hcapacity, (double_eq_ok hd).1]
    exact reach_next hs

/-- one call keeps the entries served -/
theorem served_step (h : t.Holds log) (hs : t.Served) (call : Call) : (call.act.after t).Served := by
  have insertion (n : Record) : (Action.after (insert n.hash n.key n.payload) t).Served := by
    rcases insert_cases h n with ⟨s, he⟩ | ⟨t', hok, -⟩
    · rwa [Action.after_of_error he]
    · rw [Action.after_of_ok hok]
      exact served_of_insert h hok
  cases call with
  | insert hash key payload => exact insertion ⟨hash, key, payload⟩
  | insertLocation hash key l => exact insertion ⟨hash, key, l.encode⟩
  | grow =>
    rw [Call.act]
    rcases grow_cases h with ⟨e, he⟩ | ⟨t', hok, -⟩
    · rwa [Action.after_of_error he]
    · rw [Action.after_of_ok hok]
      exact served_of_grow h hs hok

/-- the entries of every reachable table are served -/
theorem served_of_reachable (h : t.Reachable) : t.Served := by
  induction h with
  | @create c t hc =>
    have hcount : t.count = 0 := (create_holds hc).count
    rw [Served, hcount]
    exact reach_of_le (Nat.zero_le _)
  | withTag tag _ ih => exact ih
  | step call hreach ih =>
    obtain ⟨log, hlog⟩ := holds_of_reachable hreach
    exact served_step hlog ih call

end EquiJoin.Table
