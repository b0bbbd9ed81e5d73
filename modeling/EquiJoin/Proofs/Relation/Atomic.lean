/-
A call that is refused leaves the relation as it was. For most calls nothing is written before the last check. An append
of keys writes row by row, and the null rows among them are noted at once, so it must not be refused once it has begun:
what its preparation asks for, room for all rows together, is enough for every single row.

* `recordChunk_never_refused`: recording prepared rows is not refused; where indices and budget leave the words some
  space, it does not stop at all;
* `refused_leaves_no_trace`: in every reachable relation a refused call changes nothing.
-/
import EquiJoin.Proofs.Relation.Calls
import EquiJoin.Proofs.Table.Multimap

namespace EquiJoin.Relation

variable {r r' : Relation} {call : Call} {prepared : Act (List RowKey)}

/-- there is a chunk index after the next one, and the budget is not all of the address space -/
structure Roomy (r : Relation) : Prop where
  chunks : r.chunks.toNat < 2 ^ 32 - 1
  budget : ∀ t, r.table = .owned t → t.maxBytes < 2 ^ 64 - 1

/-- recording prepared rows ends well or leaves a word, and it cannot leave one in a roomy relation -/
theorem recordChunk_never_refused (hs : r.Sound) (hp : call.prepare = some prepared) {rows : List RowKey}
    (hrun : prepared.run r = .ok rows r) :
    (∃ r', (recordChunk rows call.hashes).run r = .ok () r') ∨
      (∃ r', (recordChunk rows call.hashes).run r = .error .fault r') ∧ ¬ r.Roomy := by
  obtain ⟨t, ht, hr⟩ := reserve_of_prepare hp hrun
  obtain ⟨log, hlog⟩ := hs t ht
  obtain ⟨keys, -, ⟨t', hok, -⟩ | ⟨hfault, hend⟩⟩ := recordChunk_cases call.hashes ht hlog hr
  · exact Or.inl ⟨_, hok⟩
  · refine Or.inr ⟨hfault, fun hroomy => ?_⟩
    have hchunks := hroomy.chunks
    have hbudget := hroomy.budget t ht
    omega

/-- an append that stops after its preparation left a word -/
theorem eq_of_append_error (hs : r.Sound) (hp : call.prepare = some prepared) {s : Stop Error}
    (hrun : call.act.run r = .error s r') (hstop : (∃ e, s = .refused e) ∨ r.Roomy) : r' = r := by
  rw [act_of_prepare hp] at hrun
  refine (inert_prepare hp).eq_of_bind_error (fun rows hrows hrecord => ?_) hrun
  rcases recordChunk_never_refused hs hp hrows with ⟨_, hok⟩ | ⟨⟨_, hfault⟩, hroomy⟩
  · cases hok.symm.trans hrecord
  · rcases hstop with ⟨e, rfl⟩ | hr
    · cases hfault.symm.trans hrecord
    · exact absurd hr hroomy

/-- calls other than appends of keys write nothing before their last check -/
theorem eq_of_error (hs : r.Sound) (hp : call.prepare = none) {s : Stop Error} (hrun : call.act.run r = .error s r') :
    r' = r := by
  cases call with
  | appendKeys chunk hashes => cases hp
  | appendKeyRows chunks hashes => cases hp
  | appendPayload index chunk =>
    refine (Action.inert_query _).eq_of_bind_error (fun _ _ => ?_) hrun
    refine (Action.inert_query _).eq_of_bind_error fun _ _ hmodify => ?_
    cases hmodify
  | grow =>
    cases ht : r.table with
    | absent =>
      simp only [Call.act, growTable, EStateM.run, onTable, ht] at hrun
      cases hrun
      rfl
    | imported v =>
      simp only [Call.act, growTable, EStateM.run, onTable, ht] at hrun
      cases hrun
      rfl
    | owned t =>
      obtain ⟨log, hlog⟩ := hs t ht
      rcases Table.grow_cases hlog with ⟨e, he⟩ | ⟨t', hok, -⟩
      · have := (run_onTable_of_error ht he).symm.trans hrun
        cases this
        rw [← ht]
      · cases (run_onTable_of_ok ht hok).symm.trans hrun
  | release => cases hrun
  | importTable handles =>
    refine (Action.inert_ofExcept _).eq_of_bind_error (fun _ _ => ?_) hrun
    refine (Action.inert_query _).eq_of_bind_error fun _ _ hrest => ?_
    cases hrest

/-- **A refused call leaves no trace.** Whatever a call is given, if it is refused, the relation is what it was: its
table, its chunk count, its null rows, its configuration and its payload columns. In a roomy relation no call stops
half-way for any reason, and an append of keys that has prepared its rows records them all. -/
theorem refused_leaves_no_trace (h : r.Reachable) (call : Call) :
    (∀ e r', call.act.run r = .error (.refused e) r' → r' = r) ∧
      (r.Roomy →
        (∀ s r', call.act.run r = .error s r' → r' = r) ∧
          ∀ prepared, call.prepare = some prepared →
            call.act = (prepared >>= fun rows => recordChunk rows call.hashes) ∧
              ∀ rows r', prepared.run r = .ok rows r' → ∃ r'', (recordChunk rows call.hashes).run r' = .ok () r'') := by
  have hs := sound_of_reachable h
  have unchanged {s : Stop Error} {r' : Relation} (hrun : call.act.run r = .error s r')
      (hstop : (∃ e, s = .refused e) ∨ r.Roomy) : r' = r := by
    cases hp : call.prepare with
    | some prepared => exact eq_of_append_error hs hp hrun hstop
    | none => exact eq_of_error hs hp hrun
  refine ⟨fun e r' hrun => unchanged hrun (Or.inl ⟨e, rfl⟩), fun hroomy =>
    ⟨fun s r' hrun => unchanged hrun (Or.inr hroomy), fun prepared hp => ⟨act_of_prepare hp, fun rows r' hrun => ?_⟩⟩⟩
  cases (inert_prepare hp).eq_of_ok hrun
  rcases recordChunk_never_refused hs hp hrun with hok | ⟨-, hnot⟩
  · exact hok
  · exact absurd hroomy hnot

/-- a relation on one integer column, with the small table -/
def smallRelation : Relation :=
  ⟨.single (.column .int32), .numeric, .signed, Table.smallConfig, .owned (Table.smallTable.withTag 1), #[], 0, false,
    #[]⟩

theorem new_small_columns (columns : List Column) :
    new (.single (.column .int32)) columns Table.smallConfig =
      .ok { smallRelation with columns := columns.toArray } := by
  have hc : Table.create Table.smallConfig = .ok Table.smallTable := by decide +kernel
  have hd : detached (.single (.column .int32)) columns =
      .ok { smallRelation with
        table := .absent, config := resolve (.single (.column .int32)) {}, columns := columns.toArray } := rfl
  have hr : resolve (.single (.column .int32)) Table.smallConfig = Table.smallConfig := rfl
  rw [new, hd, hr, hc]
  rfl

theorem new_small : new (.single (.column .int32)) [] Table.smallConfig = .ok smallRelation := new_small_columns []

/-- a null row and a row that fits -/
def smallChunk : Chunk := .column .int32 #[none, some 5]

/-- a null row and too many others -/
def largeChunk : Chunk := .column .int32 #[none, some 1, some 2, some 3, some 4, some 5, some 6]

theorem refused_leaves_no_trace_small :
    smallRelation.Reachable ∧ smallRelation.Roomy ∧
      (∃ e r', (Call.appendKeys largeChunk none).act.run smallRelation = .error (.refused e) r' ∧ r' = smallRelation) ∧
      ∃ prepared, (Call.appendKeys smallChunk none).prepare = some prepared ∧
        ∃ rows, prepared.run smallRelation = .ok rows smallRelation ∧
          ∃ r', (recordChunk rows none).run smallRelation = .ok () r' := by
  have hreach : smallRelation.Reachable := .new new_small
  have hroomy : smallRelation.Roomy := ⟨by decide, by rintro t ⟨⟩; decide⟩
  have hlarge : reserve (Table.smallTable.withTag 1) (keysOf largeChunk) =
      .error (.refused (.table (.capacity 240 200))) := by
    decide +kernel
  have hsmall : reserve (Table.smallTable.withTag 1) (keysOf smallChunk) = .ok () := by decide +kernel
  have hrefused : (Call.appendKeys largeChunk none).act.run smallRelation =
      .error (.refused (.table (.capacity 240 200))) smallRelation := by
    have hreserve : (reserveRows (keysOf largeChunk)).run smallRelation =
        .error (.refused (.table (.capacity 240 200))) smallRelation := by
      simp only [EStateM.run, reserveRows, smallRelation, hlarge]
    show (appendRows (keysOf largeChunk) none).run smallRelation = _
    exact Action.run_bind_of_error hreserve
  have hprepared : (do
      checkHashes none smallChunk.size
      Action.query (checkKeyChunk smallChunk)
      reserveRows (keysOf smallChunk)
      return keysOf smallChunk : Act (List RowKey)).run smallRelation = .ok (keysOf smallChunk) smallRelation := by
    have hreserve : (reserveRows (keysOf smallChunk)).run smallRelation = .ok () smallRelation := by
      simp only [EStateM.run, reserveRows, smallRelation, hsmall]
    exact Action.run_bind_of_ok hreserve
  have hatomic := refused_leaves_no_trace hreach
  have hunchanged := (hatomic (.appendKeys largeChunk none)).1 _ _ hrefused
  refine ⟨hreach, hroomy, ⟨_, _, hrefused, hunchanged⟩, _, rfl, _, hprepared, ?_⟩
  exact (((hatomic (.appendKeys smallChunk none)).2 hroomy).2 _ rfl).2 _ _ hprepared

end EquiJoin.Relation
