/-
How full a slot array gets. The load bound of a capacity (`Table.threshold`) is the load factor's share of it, one entry
at least. An insertion that would break the bound doubles the slot array once and then goes on, so it keeps the bound
only if a single doubling raises it. It does as soon as the share of the capacity is a whole entry. Below that the bound
stays at one entry while the capacity doubles, and the entries run ahead of it, one with each doubling.

* `threshold_double`, `threshold_of_no_share`: what one doubling makes of the bound;
* `resized_step`: what one call makes of the number of entries and of the capacity;
* `Within.resized`, `Lagging.resized`: which bounds a call keeps, and `within_run`, `lagging_run`: a run of calls;
* `load_of_run`: how many entries a table has after any calls, and exactly which tables keep to the load bound;
* `load_bound_broken`: a table that does not.
-/
import EquiJoin.Proofs.Key.Float
import EquiJoin.Proofs.Table.Batch

namespace EquiJoin.Table

variable {t t' t₀ : Table} {log : List Record} {lf : Binary64} {capacity : Nat}

/-! ## The bound and a doubling -/

/-- a capacity whose share is a whole entry can take one more entry at least when it is doubled -/
theorem threshold_double (h : 0 < lf.scaleFloor capacity) :
    threshold lf capacity + 1 ≤ threshold lf (capacity * 2) := by
  have hshare : 2 * lf.scaleFloor capacity ≤ lf.scaleFloor (capacity * 2) := by
    have := Nat.mul_div_le_mul_div_assoc 2 (capacity * lf.magnitude) Binary64.unit
    rwa [← Nat.mul_assoc, Nat.mul_comm 2 capacity] at this
  unfold threshold
  omega

/-- a capacity whose share is less than an entry may serve one entry, and so may its double -/
theorem threshold_of_no_share (h : lf.scaleFloor capacity = 0) :
    threshold lf capacity = 1 ∧ threshold lf (capacity * 2) = 1 := by
  have hless : capacity * lf.magnitude < Binary64.unit := (Nat.div_eq_zero_iff_lt Binary64.unit_pos).1 h
  have hshare : lf.scaleFloor (capacity * 2) < 2 := by
    refine Nat.div_lt_of_lt_mul ?_
    calc capacity * 2 * lf.magnitude = capacity * lf.magnitude * 2 := Nat.mul_right_comm _ _ _
      _ < Binary64.unit * 2 := Nat.mul_lt_mul_of_pos_right hless (by decide)
  unfold threshold
  omega

theorem scaleFloor_mono {more : Nat} (h : capacity ≤ more) : lf.scaleFloor capacity ≤ lf.scaleFloor more :=
  Nat.div_le_div_right (Nat.mul_le_mul_right lf.magnitude h)

/-! ## One call -/

/-- what a call may make of the number of entries and of the capacity -/
inductive Resized (t t' : Table) : Prop where
  | unchanged : t'.count = t.count → t'.capacity = t.capacity → Resized t t'
  | doubled : t'.count = t.count → t'.capacity = t.capacity * 2 → Resized t t'
  | inserted : t'.count = t.count + 1 → t'.capacity = t.capacityFor → Resized t t'

theorem resized_of_insert (h : t.Holds log) {n : Record} (hrun : (insert n.hash n.key n.payload).run t = .ok () t') :
    t'.count = t.count + 1 ∧ t'.capacity = t.capacityFor ∧ t.Keeps t' := by
  obtain ⟨size, hsize, -, hlog, hkeeps, hcapacity⟩ := insert_eq_ok h hrun
  exact ⟨(count_of_insert h hsize hlog).1, hcapacity, hkeeps⟩

/-- one call inserts an entry, doubles the capacity, or leaves both as they are -/
theorem resized_step (h : t.Holds log) (call : Call) : t.Resized (call.act.after t) := by
  have insertion (n : Record) : t.Resized (Action.after (insert n.hash n.key n.payload) t) := by
    rcases insert_cases h n with ⟨s, he⟩ | ⟨t', hok, -⟩
    · rw [Action.after_of_error he]
      exact .unchanged rfl rfl
    · rw [Action.after_of_ok hok]
      obtain ⟨hcount, hcapacity, -⟩ := resized_of_insert h hok
      exact .inserted hcount hcapacity
  cases call with
  | insert hash key payload => exact insertion ⟨hash, key, payload⟩
  | insertLocation hash key l => exact insertion ⟨hash, key, l.encode⟩
  | grow =>
    rw [Call.act]
    cases hd : double t.capacity with
    | error e =>
      have herror : grow.run t = .error (.refused e) t := by simp only [grow, EStateM.run, hd]
      rw [Action.after_of_error herror]
      exact .unchanged rfl rfl
    | ok capacity =>
      obtain ⟨t', hok, -, -, hcapacity, hcount, -⟩ := grow_of_double h hd
      rw [Action.after_of_ok hok]
      exact .doubled hcount (hcapacity.trans (double_eq_ok hd).1)

/-! ## Which bounds are kept -/

/-- the load factor's share of the capacity is a whole entry, and the entries are within the load bound -/
structure Within (t : Table) : Prop where
  share : 0 < t.loadFactor.scaleFloor t.capacity
  count : t.count ≤ threshold t.loadFactor t.capacity

/-- the capacity was doubled some times since it was `start`, and the entries are within the load bound or at most one
more than the doublings -/
def Lagging (start : Nat) (t : Table) : Prop :=
  ∃ doublings, t.capacity = start * 2 ^ doublings ∧
    t.count ≤ max (threshold t.loadFactor t.capacity) (doublings + 1)

/-- where the share is a whole entry, one doubling is enough for one more entry -/
theorem Within.resized (h : t.Within) (hr : t.Resized t') (hk : t.Keeps t') : t'.Within := by
  have hshare := h.share
  have hcount := h.count
  have hdouble := threshold_double hshare
  have hmore : t.loadFactor.scaleFloor t.capacity ≤ t.loadFactor.scaleFloor (t.capacity * 2) :=
    scaleFloor_mono (by omega)
  cases hr with
  | unchanged hn hc => exact ⟨by rwa [hk.loadFactor, hc], by rwa [hk.loadFactor, hc, hn]⟩
  | doubled hn hc => exact ⟨by rw [hk.loadFactor, hc]; omega, by rw [hk.loadFactor, hc, hn]; omega⟩
  | inserted hn hc =>
    rw [capacityFor] at hc
    split_ifs at hc with hfull
    · exact ⟨by rw [hk.loadFactor, hc]; omega, by rw [hk.loadFactor, hc, hn]; omega⟩
    · exact ⟨by rwa [hk.loadFactor, hc], by rw [hk.loadFactor, hc, hn]; omega⟩

/-- wherever the bound is passed, there was a doubling for every entry but one -/
theorem Lagging.resized {start : Nat} (h : t.Lagging start) (hr : t.Resized t') (hk : t.Keeps t') :
    t'.Lagging start := by
  obtain ⟨d, hcapacity, hcount⟩ := h
  have hnext : t.capacity * 2 = start * 2 ^ (d + 1) := by rw [hcapacity, Nat.pow_succ, Nat.mul_assoc]
  have hmono : threshold t.loadFactor t.capacity ≤ threshold t.loadFactor (t.capacity * 2) :=
    threshold_mono (by omega)
  cases hr with
  | unchanged hn hc => exact ⟨d, hc.trans hcapacity, by rwa [hk.loadFactor, hc, hn]⟩
  | doubled hn hc => exact ⟨d + 1, hc.trans hnext, by rw [hk.loadFactor, hc, hn]; omega⟩
  | inserted hn hc =>
    rw [capacityFor] at hc
    split_ifs at hc with hfull
    · refine ⟨d + 1, hc.trans hnext, ?_⟩
      rw [hk.loadFactor, hc, hn]
      rcases Nat.eq_zero_or_pos (t.loadFactor.scaleFloor t.capacity) with hzero | hshare
      · have hone := (threshold_of_no_share hzero).1
        omega
      · have hdouble := threshold_double hshare
        omega
    · exact ⟨d, hc.trans hcapacity, by rw [hk.loadFactor, hc, hn]; omega⟩

/-! ## Runs -/

theorem within_run (h : t.Holds log) (hw : t.Within) (calls : List Call) : (run t calls).Within := by
  induction calls generalizing t log with
  | nil => exact hw
  | cons call calls ih =>
    obtain ⟨hlog, hkeeps⟩ := call_holds h call
    exact ih hlog (hw.resized (resized_step h call) hkeeps)

theorem lagging_run {start : Nat} (h : t.Holds log) (hl : t.Lagging start) (calls : List Call) :
    (run t calls).Lagging start := by
  induction calls generalizing t log with
  | nil => exact hl
  | cons call calls ih =>
    obtain ⟨hlog, hkeeps⟩ := call_holds h call
    exact ih hlog (hl.resized (resized_step h call) hkeeps)

/-- two insertions into a new table whose share is less than an entry break the bound -/
theorem broken_of_no_share (h : t.Holds []) (hzero : t.loadFactor.scaleFloor t.capacity = 0) {n m : Record}
    {t₁ t₂ : Table} (h₁ : (insert n.hash n.key n.payload).run t = .ok () t₁)
    (h₂ : (insert m.hash m.key m.payload).run t₁ = .ok () t₂) :
    t₂.count = 2 ∧ threshold t₂.loadFactor t₂.capacity = 1 := by
  obtain ⟨hone, htwo⟩ := threshold_of_no_share hzero
  have hempty : t.count = 0 := h.count
  obtain ⟨-, -, -, hlog₁, -⟩ := insert_eq_ok h h₁
  obtain ⟨hcount₁, hcapacity₁, hkeeps₁⟩ := resized_of_insert h h₁
  obtain ⟨hcount₂, hcapacity₂, hkeeps₂⟩ := resized_of_insert hlog₁ h₂
  have hfits : ¬ threshold t.loadFactor t.capacity < t.count + 1 := by omega
  rw [capacityFor, if_neg hfits] at hcapacity₁
  have hfull : threshold t₁.loadFactor t₁.capacity < t₁.count + 1 := by
    rw [hkeeps₁.loadFactor, hcapacity₁]
    omega
  rw [capacityFor, if_pos hfull, hcapacity₁] at hcapacity₂
  rw [hkeeps₂.loadFactor, hkeeps₁.loadFactor, hcapacity₂]
  exact ⟨by omega, htwo⟩

/-- **How full a table gets.** After any calls on a new table, its entries are within the load bound of its capacity, or
at most one more than the times that the capacity was doubled. If the share of the first capacity is a whole entry, they
are within the load bound. An insertion that ends outside the bound has doubled the capacity, and doubled it once. If
the share of the first capacity is less than an entry, the second entry ends outside. -/
theorem load_of_run {c : Config} (hc : create c = .ok t₀) (calls : List Call) :
    (run t₀ calls).Lagging t₀.capacity ∧
      (0 < t₀.loadFactor.scaleFloor t₀.capacity →
        (run t₀ calls).count ≤ threshold (run t₀ calls).loadFactor (run t₀ calls).capacity) ∧
      (∀ (n : Record) t', (insert n.hash n.key n.payload).run (run t₀ calls) = .ok () t' →
        threshold t'.loadFactor t'.capacity < t'.count → t'.capacity = (run t₀ calls).capacity * 2) ∧
      (t₀.loadFactor.scaleFloor t₀.capacity = 0 →
        ∀ (n m : Record) t₁ t₂, (insert n.hash n.key n.payload).run t₀ = .ok () t₁ →
          (insert m.hash m.key m.payload).run t₁ = .ok () t₂ →
            t₂.count = 2 ∧ threshold t₂.loadFactor t₂.capacity = 1) := by
  have hnew : t₀.Holds [] := create_holds hc
  have hempty : t₀.count = 0 := hnew.count
  have hrun := run_holds hnew calls
  refine ⟨lagging_run hnew ⟨0, by rw [Nat.pow_zero, Nat.mul_one], by omega⟩ calls, fun hshare => ?_,
    fun n t' hinsert hbroken => ?_, fun hzero n m t₁ t₂ h₁ h₂ => broken_of_no_share hnew hzero h₁ h₂⟩
  · exact (within_run hnew ⟨hshare, by omega⟩ calls).count
  · obtain ⟨hcount, hcapacity, hkeeps⟩ := resized_of_insert hrun hinsert
    rw [capacityFor] at hcapacity
    split_ifs at hcapacity with hfull
    · exact hcapacity
    · rw [hkeeps.loadFactor, hcapacity, hcount] at hbroken
      exact absurd hbroken hfull

/-- one slot, and the default load factor of one half -/
def loneConfig : Config := { initialCapacity := 1, maxBytes := 4096, initialBytes := 64 }

def loneTable : Table := ⟨1, 4096, none, 0, loneConfig.loadFactor, 0, 0, emptySlots 1, Region.zeros 64⟩

def twoEntries : List Call := [.insert 1 [1] [], .insert 2 [2] []]

/-- both entries are accepted, and two slots hold them, of which one half may be filled -/
theorem load_bound_broken :
    create loneConfig = .ok loneTable ∧ (accepted loneTable twoEntries).length = 2 ∧
      (run loneTable twoEntries).capacity = 2 ∧ (run loneTable twoEntries).count = 2 ∧
      threshold loneConfig.loadFactor 2 = 1 := by
  decide +kernel

/-- an insertion that stored its record was answered -/
theorem run_of_stored {n : Record} (h : (Call.insert n.hash n.key n.payload).stored t ≠ []) :
    (insert n.hash n.key n.payload).run t = .ok () (Action.after (insert n.hash n.key n.payload) t) := by
  rw [Call.stored, Call.act] at h
  cases hrun : (insert n.hash n.key n.payload).run t with
  | ok u t' => rw [Action.after_of_ok hrun]
  | error s t' => exact absurd (by rw [hrun]) h

/-- with two slots the bound is kept; with one slot it is broken by the second entry, and with one slot of which a
sixteenth may be filled, three entries stand against two doublings -/
theorem load_of_run_small :
    (run smallTable smallCalls).count ≤
        threshold (run smallTable smallCalls).loadFactor (run smallTable smallCalls).capacity ∧
      (run lagTable (lagBatch.map fun n => .insert n.hash n.key n.payload)).Lagging 1 ∧
      (run lagTable (lagBatch.map fun n => .insert n.hash n.key n.payload)).count = 3 ∧
      (run lagTable (lagBatch.map fun n => .insert n.hash n.key n.payload)).capacity = 1 * 2 ^ 2 ∧
      ∃ t₁ t₂, (insert 1 [1] []).run loneTable = .ok () t₁ ∧ (insert 2 [2] []).run t₁ = .ok () t₂ ∧
        t₂.count = 2 ∧ t₂.capacity = 2 ∧ threshold t₂.loadFactor t₂.capacity = 1 := by
  have hsmall : create smallConfig = .ok smallTable := by decide +kernel
  have hlag : create lagConfig = .ok lagTable := by decide +kernel
  have hlone : create loneConfig = .ok loneTable := by decide +kernel
  obtain ⟨-, hwithin, -, -⟩ := load_of_run hsmall smallCalls
  obtain ⟨hlagging, -, -, -⟩ := load_of_run hlag (lagBatch.map fun n => .insert n.hash n.key n.payload)
  obtain ⟨-, -, hdoubled, hbroken⟩ := load_of_run hlone [.insert 1 [1] []]
  have h₁ : (insert 1 [1] []).run loneTable = .ok () (run loneTable [.insert 1 [1] []]) :=
    run_of_stored (n := ⟨1, [1], []⟩) (by decide +kernel)
  have h₂ : (insert 2 [2] []).run (run loneTable [.insert 1 [1] []]) = .ok () (run loneTable twoEntries) :=
    run_of_stored (n := ⟨2, [2], []⟩) (by decide +kernel)
  obtain ⟨hcount, hthreshold⟩ := hbroken (by decide +kernel) ⟨1, [1], []⟩ ⟨2, [2], []⟩ _ _ h₁ h₂
  have hcapacity := hdoubled ⟨2, [2], []⟩ _ h₂ (by omega)
  refine ⟨hwithin (by decide +kernel), hlagging, by decide +kernel, by decide +kernel, _, _, h₁, h₂, hcount, ?_,
    hthreshold⟩
  rw [hcapacity]
  decide +kernel

end EquiJoin.Table
