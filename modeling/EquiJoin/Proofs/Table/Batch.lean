/-
Room for a batch. Before a batch of records is inserted, the table is asked once for all of them: whether the budget has
the bytes that they take together, and whether doubling leads to a slot array that may serve them all. Each insertion
then asks again for itself and doubles the slot array once at most, so the capacity lags behind what the question found.
The two agree all the same, because the search for a capacity starts from wherever the last insertion left it.

* `search_reach`: the search is the doubling loop, round by round, and it ends within 63 rounds;
* `insertAll_of_room`, `room_of_insertAll`: room for a batch lets every record of it in, and records that are all let in
  had room as a batch;
* `ensureRoom_iff_insertAll`: in every reachable table the question is exact.
-/
import EquiJoin.Proofs.Table.Reachable
import Mathlib.Data.List.Forall2

namespace EquiJoin.Table

variable {t t' : Table} {log : List Record} {lf : Binary64} {wanted capacity : Nat}

/-! ## The doubling loop -/

/-- the search for a capacity, round by round: it ends at one that serves enough entries or cannot be doubled -/
inductive Search (lf : Binary64) (wanted : Nat) : Nat → Nat → Except TableError Unit → Prop where
  | served {capacity : Nat} : wanted ≤ threshold lf capacity → Search lf wanted capacity 0 (.ok ())
  | refused {capacity : Nat} {e : TableError} :
      threshold lf capacity < wanted → double capacity = .error e → Search lf wanted capacity 0 (.error e)
  | round {capacity next rounds : Nat} {outcome : Except TableError Unit} :
      threshold lf capacity < wanted → double capacity = .ok next → Search lf wanted next rounds outcome →
        Search lf wanted capacity (rounds + 1) outcome

/-- the search ends, with the outcome of `reach`; the capacity it ends at is below 2^63 -/
theorem search_reach (hpos : 0 < capacity) (hlt : capacity < 2 ^ 63) :
    ∃ rounds, capacity * 2 ^ rounds < 2 ^ 63 ∧ Search lf wanted capacity rounds (reach lf wanted capacity) := by
  fun_induction reach lf wanted capacity with
  | case1 capacity hserved => exact ⟨0, by omega, .served hserved⟩
  | case2 capacity hserved hroom ih =>
    obtain ⟨rounds, hbound, hsearch⟩ := ih (by omega) (by omega)
    refine ⟨rounds + 1, ?_, .round (Nat.lt_of_not_le hserved) (if_pos hroom.2) hsearch⟩
    calc capacity * 2 ^ (rounds + 1) = capacity * 2 * 2 ^ rounds := by rw [Nat.pow_succ', Nat.mul_assoc]
      _ < 2 ^ 63 := hbound
  | case3 capacity hserved hroom =>
    have hfull : double capacity = .error (.capacityOverflow capacity) := if_neg fun h => hroom ⟨hpos, h⟩
    exact ⟨0, by omega, .refused (Nat.lt_of_not_le hserved) hfull⟩

/-- no search takes more than 62 rounds -/
theorem search_ends (hpos : 0 < capacity) (hlt : capacity < 2 ^ 63) :
    ∃ rounds < 63, Search lf wanted capacity rounds (reach lf wanted capacity) := by
  obtain ⟨rounds, hbound, hsearch⟩ : ∃ rounds, capacity * 2 ^ rounds < 2 ^ 63 ∧
      Search lf wanted capacity rounds (reach lf wanted capacity) := search_reach hpos hlt
  refine ⟨rounds, ?_, hsearch⟩
  have hpow : 2 ^ rounds < 2 ^ 63 := Nat.lt_of_le_of_lt (Nat.le_mul_of_pos_left _ hpos) hbound
  exact (Nat.pow_lt_pow_iff_right (by omega)).1 hpow

/-! ## Batches -/

/-- insert records one after another, until one is refused -/
def insertAll : List Record → Act Unit
  | [] => pure ()
  | n :: ns => do
    insert n.hash n.key n.payload
    insertAll ns

/-- the bytes that each record of a batch would take; none of them is refused for its own lengths -/
def Measured (t : Table) : List Record → List Nat → Prop :=
  List.Forall₂ fun n size => t.entryBytes n.key.length n.payload.length = .ok size

/-- a sum of many sizes, at most the largest 64-bit word -/
def cappedSum (sizes : List Nat) : Nat := sizes.foldl cappedAdd 0

theorem cappedSum_eq (sizes : List Nat) : cappedSum sizes = min sizes.sum (2 ^ 64 - 1) := by
  have hfold (start : Nat) (hs : start ≤ 2 ^ 64 - 1) :
      sizes.foldl cappedAdd start = min (start + sizes.sum) (2 ^ 64 - 1) := by
    induction sizes generalizing start with
    | nil => simp only [List.foldl_nil, List.sum_nil]; omega
    | cons size sizes ih =>
      rw [List.foldl_cons, ih _ (by unfold cappedAdd; omega), List.sum_cons]
      unfold cappedAdd
      omega
  rw [cappedSum, hfold 0 (by omega), Nat.zero_add]

theorem cappedSum_cons (size : Nat) (sizes : List Nat) :
    cappedSum (size :: sizes) = cappedAdd size (cappedSum sizes) := by
  rw [cappedSum_eq, cappedSum_eq, List.sum_cons]
  unfold cappedAdd
  omega

/-- an insertion leaves the measures of other records as they are -/
theorem Measured.of_keeps {batch : List Record} {sizes : List Nat} (h : t.Measured batch sizes) (hk : t.Keeps t') :
    t'.Measured batch sizes :=
  h.imp fun _ _ hs => (entryBytes_congr hk.keySize _ _).trans hs

/-- what a successful insertion leaves behind, in numbers -/
theorem count_of_insert (h : t.Holds log) {n : Record} {size : Nat}
    (hb : t.entryBytes n.key.length n.payload.length = .ok size) (h' : t'.Holds (log ++ [n])) :
    t'.count = t.count + 1 ∧ t'.cursor = t.cursor + size := by
  have hsize : size = n.size := (entryBytes_eq_ok hb).1
  refine ⟨?_, ?_⟩
  · rw [h'.count, h.count, List.length_append, List.length_singleton]
  · rw [h'.cursor, h.cursor, hsize, total_append, total_cons, total_nil, Nat.add_zero]

/-- room for a batch lets every record of it in -/
theorem insertAll_of_room (h : t.Holds log) (hmax : t.maxBytes < 2 ^ 64 - 1) {batch : List Record} {sizes : List Nat}
    (hb : t.Measured batch sizes) (hr : t.ensureRoom batch.length (cappedSum sizes) = .ok ()) :
    ∃ t', (insertAll batch).run t = .ok () t' := by
  induction batch generalizing t log sizes with
  | nil => exact ⟨t, rfl⟩
  | cons n batch ih =>
    rcases hb with _ | @⟨_, size, _, sizes, hsize, hrest⟩
    rw [List.length_cons, cappedSum_cons] at hr
    have hfirst := ensureRoom_first hr
    have hend : t.cursor + size < 2 ^ 64 := by
      have := (ensureRoom_eq_ok_iff.1 hfirst).1
      unfold cappedAdd at this
      omega
    obtain ⟨t₁, hinsert, hlog, hkeeps, hcapacity⟩ := insert_of_room h hsize hfirst hend
    obtain ⟨hcount, hcursor⟩ := count_of_insert h hsize hlog
    have hnext : t.count + 1 < 2 ^ 64 := by
      have := h.count_le
      have := h.cursor_le_maxBytes
      omega
    have hroom : t₁.ensureRoom batch.length (cappedSum sizes) = .ok () :=
      ensureRoom_rest hr hnext hkeeps.maxBytes hkeeps.loadFactor hcursor hcount hcapacity
    obtain ⟨t', hall⟩ := ih hlog (hkeeps.maxBytes ▸ hmax) (Measured.of_keeps hrest hkeeps) hroom
    exact ⟨t', by rw [insertAll, Action.run_bind_of_ok hinsert, hall]⟩

/-- room for the rest of a batch, once its first record is in, is room for the batch before -/
theorem ensureRoom_of_rest (h : t.Holds log) {n : Record} {size entries bytes : Nat}
    (hb : t.entryBytes n.key.length n.payload.length = .ok size) (hfirst : t.ensureRoom 1 size = .ok ())
    (h' : t'.Holds (log ++ [n])) (hk : t.Keeps t') (hcapacity : t'.capacity = t.capacityFor)
    (hr : t'.ensureRoom entries bytes = .ok ()) : t.ensureRoom (entries + 1) (cappedAdd size bytes) = .ok () := by
  obtain ⟨hcount, hcursor⟩ := count_of_insert h hb h'
  obtain ⟨hbytes, hreach⟩ := ensureRoom_eq_ok_iff.1 hr
  have hone := (ensureRoom_eq_ok_iff.1 hfirst).2
  rw [h.cappedAdd_count] at hone
  rw [hcursor, hk.maxBytes, ← cappedAdd_capped] at hbytes
  rw [hk.loadFactor, hcount, cappedAdd_succ, hcapacity, capacityFor] at hreach
  refine ensureRoom_eq_ok_iff.2 ⟨hbytes, ?_⟩
  split_ifs at hreach with hfull
  · exact reach_of_double h.capacity_pos (reach_double hfull hone).1 hreach
  · exact hreach

/-- records that are all let in had room as a batch -/
theorem room_of_insertAll (h : t.Holds log) (hs : t.Served) {batch : List Record} {sizes : List Nat}
    (hb : t.Measured batch sizes) (hrun : (insertAll batch).run t = .ok () t') :
    t.ensureRoom batch.length (cappedSum sizes) = .ok () := by
  induction batch generalizing t log sizes with
  | nil =>
    rcases hb with _ | _
    -- no records at all still ask whether those that are there are served
    have hbudget := h.cursor_le_maxBytes
    refine ensureRoom_eq_ok_iff.2 ⟨?_, reach_mono ?_ hs⟩
    · simp only [cappedSum, List.foldl_nil, cappedAdd]; omega
    · simp only [List.length_nil, cappedAdd]; omega
  | cons n batch ih =>
    rcases hb with _ | @⟨_, size, _, sizes, hsize, hrest⟩
    obtain ⟨_, t₁, hinsert, hall⟩ := Action.run_bind_eq_ok.1 hrun
    obtain ⟨size', hsize', hfirst, hlog, hkeeps, hcapacity⟩ := insert_eq_ok h hinsert
    cases hsize.symm.trans hsize'
    rw [List.length_cons, cappedSum_cons]
    exact ensureRoom_of_rest h hsize hfirst hlog hkeeps hcapacity
      (ih hlog (served_of_insert h hinsert) (Measured.of_keeps hrest hkeeps) hall)

/-- **Admission of a batch is exact.** In every reachable table whose budget is not all of the address space, and for
every batch of records that could be stored one by one, there is room for the batch exactly when inserting its records
one after another succeeds for all of them. The search for a capacity that the question runs is the doubling loop, and
the loop ends, whatever the load factor. -/
theorem ensureRoom_iff_insertAll (h : t.Reachable) (hmax : t.maxBytes < 2 ^ 64 - 1) :
    (∀ batch sizes, t.Measured batch sizes →
      (t.ensureRoom batch.length (cappedSum sizes) = .ok () ↔ ∃ t', (insertAll batch).run t = .ok () t')) ∧
    ∀ entries bytes, ∃ rounds < 63, ∃ outcome,
      Search t.loadFactor (cappedAdd t.count entries) t.capacity rounds outcome ∧
        t.ensureRoom entries bytes =
          if t.maxBytes < cappedAdd t.cursor bytes then .error (.capacity (cappedAdd t.cursor bytes) t.maxBytes)
          else outcome := by
  obtain ⟨log, hlog⟩ := holds_of_reachable h
  refine ⟨fun batch sizes hb => ⟨insertAll_of_room hlog hmax hb, ?_⟩, fun entries bytes => ?_⟩
  · rintro ⟨t', hrun⟩
    exact room_of_insertAll hlog (served_of_reachable h) hb hrun
  · obtain ⟨rounds, hrounds, hsearch⟩ := search_ends hlog.capacity_pos hlog.capacity_lt
    exact ⟨rounds, hrounds, _, hsearch, rfl⟩

/-- one slot, a sixteenth of which may be filled, and a budget of three small entries -/
def lagConfig : Config :=
  { initialCapacity := 1, maxBytes := 96, initialBytes := 8, loadFactor := ⟨0x3fb0000000000000⟩ }

def lagTable : Table := ⟨1, 96, none, 0, lagConfig.loadFactor, 0, 0, emptySlots 1, Region.zeros 8⟩

/-- only 64 slots may serve three entries; inserting them leads to four slots -/
def lagBatch : List Record := [⟨7, [1], []⟩, ⟨7, [1], []⟩, ⟨9, [2], []⟩]

theorem ensureRoom_iff_insertAll_lagging :
    lagTable.Reachable ∧ lagTable.maxBytes < 2 ^ 64 - 1 ∧ lagTable.Measured lagBatch [32, 32, 32] ∧
      (∃ t', (insertAll lagBatch).run lagTable = .ok () t') ∧
      (¬ ∃ t', (insertAll (⟨5, [3], []⟩ :: lagBatch)).run lagTable = .ok () t') ∧
      ∃ rounds < 63, ∃ outcome, Search lagTable.loadFactor 3 1 rounds outcome ∧ lagTable.ensureRoom 3 96 = outcome := by
  have hreach : lagTable.Reachable := .create (c := lagConfig) (by decide +kernel)
  have hmax : lagTable.maxBytes < 2 ^ 64 - 1 := by decide
  have hthree : lagTable.Measured lagBatch [32, 32, 32] := .cons rfl (.cons rfl (.cons rfl .nil))
  have hfour : lagTable.Measured (⟨5, [3], []⟩ :: lagBatch) [32, 32, 32, 32] := .cons rfl hthree
  obtain ⟨hexact, hends⟩ := ensureRoom_iff_insertAll hreach hmax
  refine ⟨hreach, hmax, hthree, (hexact _ _ hthree).1 (by decide +kernel), fun hin => ?_, hends 3 96⟩
  have hroom := (hexact _ _ hfour).2 hin
  have hfull : lagTable.ensureRoom 4 (cappedSum [32, 32, 32, 32]) = .error (.capacity 128 96) := by decide +kernel
  cases hfull.symm.trans hroom

end EquiJoin.Table
