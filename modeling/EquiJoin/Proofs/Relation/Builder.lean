/-
A builder and its relation. A builder does with one row and with counting what its relation is said to do with a new
row for every key and with adding up. Over whatever row of as many fields a key is encoded, it is the same key; numbers
all take the same, so adding up is multiplying. The one thing to see to is that counting asks for the size of an entry
even where there is none: a table that pins its keys to another width would refuse, but no single key is ever pinned.

* `demand_keysOf`: a chunk of numbers takes as many times the size of one as it has cells that are not null;
* `demandOver_eq`, `agree_recordRows`: both passes over a chunk, encoded over one row;
* `agree_act`: every call is answered alike, and keeps the builder beside the relation;
* `run_ofRelation`: so is every run of calls.
-/
import EquiJoin.Proofs.Relation.Configuration
import EquiJoin.Proofs.Relation.History
import EquiJoin.Relation.Builder

namespace EquiJoin

theorem cappedAdd_cappedMul (n size : Nat) : cappedAdd size (cappedMul n size) = cappedMul (n + 1) size := by
  unfold cappedAdd cappedMul
  rw [Nat.succ_mul]
  omega

namespace Relation

variable {k : KeyType} {r : Relation} {t : Table}

/-! ## Chunks of numbers -/

/-- keys of eight bytes take as many times the size of one as there are -/
theorem demand_eq_counted {size : Nat} (hsize : t.entryBytes 8 Location.width = .ok size)
    {keys : List (Option KeyBytes)} (hkeys : ∀ key, some key ∈ keys → key.bytes.length = 8) :
    demand t (keys.map .ok) = .ok (keys.countP Option.isSome, cappedMul (keys.countP Option.isSome) size) := by
  induction keys with
  | nil => simp [demand, cappedMul]
  | cons key keys ih =>
    have hrest := ih fun key' hkey' => hkeys key' (List.mem_cons_of_mem key hkey')
    cases key with
    | none => exact hrest
    | some key =>
      rw [List.countP_cons_of_pos rfl, ← cappedAdd_cappedMul]
      refine demand_some_eq_ok.2 ⟨size, _, _, ?_, hrest, rfl, rfl⟩
      rw [hkeys key List.mem_cons_self, hsize]

/-- in a table without a pinned width, counting a chunk of numbers comes to the same as measuring its keys -/
theorem demand_keysOf {ct : ColumnType} (hnumeric : ct.isNumeric = true) (hpinned : t.keySize = none)
    (cells : Array (Option ct.Value)) :
    demand t (keysOf (.column ct cells)) =
      countedDemand t ((Chunk.column ct cells).size - (Chunk.column ct cells).nullCount) := by
  have hsize : t.entryBytes 8 Location.width = .ok (Entry.size 8 Location.width) := by
    rw [Table.entryBytes, hpinned]
    rfl
  have hkeys : ∀ key, some key ∈ cells.toList.map (fun cell => (Key.ofCell? ct cell).bytes?) →
      key.bytes.length = 8 := by
    intro key hkey
    obtain ⟨cell, -, hcell⟩ := List.mem_map.1 hkey
    cases cell with
    | none => cases hcell
    | some v =>
      have hscalar := (Key.canonical_of_bytes? hcell).isScalar_eq
      rw [Key.ofCell?, Key.domain_ofCell, ct.isScalar_domain, hnumeric] at hscalar
      cases key with
      | scalar w => exact LittleEndian.length_encode 8 w.toNat
      | slice bs => cases hscalar
  have hcount : (cells.toList.map fun cell => (Key.ofCell? ct cell).bytes?).countP Option.isSome =
      cells.size - cells.countP Option.isNone := by
    have hsome (cell : Option ct.Value) : (Key.ofCell? ct cell).bytes?.isSome = !cell.isNone := by
      rw [← Key.isNull_ofCell? ct cell, Key.isNull, Option.not_isNone]
    have hsplit := List.length_eq_countP_add_countP (l := cells.toList) Option.isNone
    rw [List.countP_map]
    simp only [Function.comp_def, hsome]
    simp only [Array.length_toList, Array.countP_toList, Bool.not_eq_true, Bool.decide_eq_false] at hsplit
    rw [Array.countP_toList]
    omega
  rw [countedDemand, hsize]
  have hrows : keysOf (.column ct cells) = (cells.toList.map fun cell => (Key.ofCell? ct cell).bytes?).map .ok :=
    List.map_map.symm
  rw [hrows, demand_eq_counted hsize hkeys, hcount]
  rfl

/-! ## What calls keep -/

/-- the relation has this key, and a table of its own does not pin a single key to a width -/
structure Settled (k : KeyType) (r : Relation) : Prop where
  sound : r.Sound
  keyType : r.keyType = k
  kind : k.kind = .ok r.kind
  unpinned : ∀ t type, r.table = .owned t → k = .single type → t.keySize = none

theorem stable_settled : Stable (Settled k) where
  sound := Settled.sound
  table h ht hlog hkeeps := by
    refine { h with sound := ?_, unpinned := ?_ }
    · rintro _ ⟨⟩
      exact ⟨_, hlog⟩
    · rintro _ type ⟨⟩ hk
      exact hkeeps.keySize.trans (h.unpinned _ type ht hk)
  rest _ _ _ _ h := { h with }
  release h := { h with sound := nofun, unpinned := nofun }

theorem settled_act (call : Call) : Action.Preserves (Settled k) call.act := by
  refine preserves_act stable_settled call fun handles _ r hr => ?_
  rcases after_importTable handles r with h | ⟨v, -, -, h⟩ <;> rw [h]
  · exact hr
  · exact { hr with sound := nofun, unpinned := nofun }

theorem settled_of_reachable (h : r.Reachable) : r.Settled r.keyType := by
  have hsettled : ∃ k, r.Settled k := by
    induction h with
    | @detached k columns r hd =>
      obtain ⟨kind, hkind, rfl⟩ := detached_eq_ok hd
      exact ⟨k, nofun, rfl, hkind, nofun⟩
    | @new k columns c r hn =>
      obtain ⟨kind, t, hkind, ht, rfl⟩ := new_eq_ok hn
      refine ⟨k, ?_, rfl, hkind, ?_⟩
      · rintro _ ⟨⟩
        exact ⟨[], (Table.create_holds ht).withTag _⟩
      · rintro _ type ⟨⟩ rfl
        exact (Table.create_eq_ok ht).2.2
    | step call _ ih =>
      obtain ⟨k, hk⟩ := ih
      exact ⟨k, settled_act call _ hk⟩
  obtain ⟨k, hk⟩ := hsettled
  exact hk.keyType ▸ hk

theorem preserves_recordChunk (rows : List RowKey) (hashes : Option (Array UInt64)) :
    Action.Preserves (Settled k) (recordChunk rows hashes) :=
  (Action.inert_query _).preserves.bind fun _ =>
    (preserves_recordRows (fun row _ l _ => preserves_recordRow stable_settled l _ row) 0).bind fun _ =>
      preserves_nextChunk stable_settled.rest

end Relation

namespace Builder

open EquiJoin.Relation (RowKey Call)

variable {k : KeyType} {r : Relation} {b : Builder} {t : Table} {e : RowEncoder} {out : Row} {α : Type}

/-- a relation and its builder, whose row is as wide as the key -/
structure Beside (k : KeyType) (r : Relation) (b : Builder) : Prop where
  relation : b.relation = r
  settled : r.Settled k
  row : b.row.Spans (width k)

theorem beside_ofRelation (h : r.Settled k) : Beside k r (ofRelation r) :=
  ⟨rfl, h, h.keyType ▸ Row.spans_new _⟩

theorem run_onRelation_of_ok {act : Relation.Act α} {a : α} {r' : Relation} (h : act.run b.relation = .ok a r') :
    (onRelation act).run b = .ok a { b with relation := r' } := by
  simp only [EStateM.run, onRelation] at *
  simp only [h]

theorem run_onRelation_of_error {act : Relation.Act α} {s : Stop Error} {r' : Relation}
    (h : act.run b.relation = .error s r') : (onRelation act).run b = .error s { b with relation := r' } := by
  simp only [EStateM.run, onRelation] at *
  simp only [h]

theorem run_onRow_of_ok {act : Row.Act α} {a : α} {row : Row} (h : act.run b.row = .ok a row) :
    (onRow act).run b = .ok a { b with row } := by
  simp only [EStateM.run, onRow] at *
  simp only [h]

theorem run_onRow_of_error {act : Row.Act α} {s : Stop Error} {row : Row} (h : act.run b.row = .error s row) :
    (onRow act).run b = .error s { b with row } := by
  simp only [EStateM.run, onRow] at *
  simp only [h]

/-- an action on the relation, made by its builder -/
theorem agree_onRelation {act : Relation.Act α} (hact : Action.Preserves (Relation.Settled k) act) :
    Action.Agree (Beside k) act (onRelation act) := by
  intro r b hb
  obtain rfl := hb.relation
  have hafter := hact b.relation hb.settled
  cases hrun : act.run b.relation with
  | ok a r' =>
    rw [Action.after_of_ok hrun] at hafter
    exact Action.agree_of_ok hrun (run_onRelation_of_ok hrun) ⟨rfl, hafter, hb.row⟩
  | error s r' =>
    rw [Action.after_of_error hrun] at hafter
    exact Action.agree_of_error hrun (run_onRelation_of_error hrun) ⟨rfl, hafter, hb.row⟩

/-- what a builder does with its row leaves it beside its relation, if the row stays as wide -/
theorem onRow_beside {act : Row.Act α} (hb : Beside k r b) (hact : (act.after b.row).Spans (width k)) :
    (onRow act).answer b = act.answer b.row ∧ Beside k r ((onRow act).after b) := by
  cases hrow : act.run b.row with
  | ok a row =>
    have hrun := run_onRow_of_ok hrow
    rw [Action.after_of_ok hrow] at hact
    rw [Action.answer_of_ok hrun, Action.after_of_ok hrun, Action.answer_of_ok hrow]
    exact ⟨rfl, hb.relation, hb.settled, hact⟩
  | error s row =>
    have hrun := run_onRow_of_error hrow
    rw [Action.after_of_error hrow] at hact
    rw [Action.answer_of_error hrun, Action.after_of_error hrun, Action.answer_of_error hrow]
    exact ⟨rfl, hb.relation, hb.settled, hact⟩

/-! ## Measuring a chunk -/

/-- measuring rows over one row gives what measuring their keys gives -/
theorem demandOver_eq (h : out.Spans e.fields) (rows : List Nat) :
    (demandOver t e rows).answer out = Relation.demand t (rows.map (Relation.encodedKey e)) ∧
      ((demandOver t e rows).after out).Spans e.fields := by
  induction rows generalizing out with
  | nil => exact ⟨rfl, h⟩
  | cons i rows ih =>
    obtain ⟨hkey, hspans⟩ := Relation.keyOver_eq h i
    rw [List.map_cons, ← hkey, demandOver]
    cases hrun : (Relation.keyOver e i).run out with
    | error s out' =>
      rw [Action.after_of_error hrun] at hspans
      rw [Action.answer_of_error (Action.run_bind_of_error hrun), Action.after_bind_of_error hrun,
        Action.answer_of_error hrun]
      exact ⟨rfl, hspans⟩
    | ok key out' =>
      rw [Action.after_of_ok hrun] at hspans
      rw [Action.answer_bind_of_ok hrun, Action.after_bind_of_ok hrun, Action.answer_of_ok hrun]
      cases key with
      | none => exact ih hspans
      | some key =>
        cases hbytes : t.entryBytes key.bytes.length Location.width with
        | error err =>
          simp only [Relation.demand, hbytes]
          exact ⟨rfl, hspans⟩
        | ok size =>
          obtain ⟨hrest, hafter⟩ := ih hspans
          simp only [Relation.demand, hbytes, ← hrest]
          cases hrows : (demandOver t e rows).run out' with
          | error s out'' =>
            rw [Action.after_of_error hrows] at hafter
            rw [Action.answer_of_error (Action.run_bind_of_error hrows), Action.after_bind_of_error hrows,
              Action.answer_of_error hrows]
            exact ⟨rfl, hafter⟩
          | ok p out'' =>
            rw [Action.after_of_ok hrows] at hafter
            rw [Action.answer_bind_of_ok hrows, Action.after_bind_of_ok hrows, Action.answer_of_ok hrows]
            exact ⟨rfl, hafter⟩

theorem run_ownTable_of_owned (ht : b.relation.table = .owned t) : ownTable.run b = .ok t b := by
  simp only [EStateM.run, ownTable, onRelation, Action.query, ht]

/-- after measuring, whether there is room decides -/
theorem run_reserve_of_ok {measure : Table → Act (Nat × Nat)} {b' : Builder} {p : Nat × Nat}
    (ht : b.relation.table = .owned t) (hrun : (measure t).run b = .ok p b') (hroom : t.ensureRoom p.1 p.2 = .ok ()) :
    (reserve measure).run b = .ok () b' := by
  rw [reserve, Action.run_bind_of_ok (run_ownTable_of_owned ht), Action.run_bind_of_ok hrun]
  simp only [hroom]
  rfl

theorem run_reserve_of_error {measure : Table → Act (Nat × Nat)} {b' : Builder} {p : Nat × Nat} {err : TableError}
    (ht : b.relation.table = .owned t) (hrun : (measure t).run b = .ok p b')
    (hroom : t.ensureRoom p.1 p.2 = .error err) :
    (reserve measure).run b = .error (.refused (.table err)) b' := by
  rw [reserve, Action.run_bind_of_ok (run_ownTable_of_owned ht), Action.run_bind_of_ok hrun]
  simp only [hroom]
  rfl

/-- a builder that measures as its relation does asks for the same room -/
theorem agree_reserve {rows : List RowKey} {measure : Table → Act (Nat × Nat)}
    (hmeasure : ∀ r b t, Beside k r b → r.table = .owned t →
      (measure t).answer b = Relation.demand t rows ∧ Beside k r ((measure t).after b)) :
    Action.Agree (Beside k) (Relation.reserveRows rows) (reserve measure) := by
  intro r b hb
  obtain rfl := hb.relation
  cases ht : b.relation.table with
  | absent =>
    have hown : ownTable.run b = .error (.refused .builtWithoutTable) b := by
      simp only [EStateM.run, ownTable, onRelation, Action.query, ht]
    exact Action.agree_of_error (Relation.run_reserveRows_of_absent ht) (Action.run_bind_of_error hown) hb
  | imported v =>
    have hown : ownTable.run b = .error (.refused .importedTable) b := by
      simp only [EStateM.run, ownTable, onRelation, Action.query, ht]
    exact Action.agree_of_error (Relation.run_reserveRows_of_imported ht) (Action.run_bind_of_error hown) hb
  | owned t =>
    obtain ⟨hanswer, hafter⟩ := hmeasure b.relation b t hb ht
    cases hrun : (measure t).run b with
    | error s b' =>
      rw [Action.answer_of_error hrun] at hanswer
      rw [Action.after_of_error hrun] at hafter
      have hreserve := Relation.reserve_of_demand_error hanswer.symm
      have hbuilder : (reserve measure).run b = .error s b' := by
        rw [reserve, Action.run_bind_of_ok (run_ownTable_of_owned ht), Action.run_bind_of_error hrun]
      exact Action.agree_of_error (Relation.run_reserveRows_of_error ht hreserve) hbuilder hafter
    | ok p b' =>
      rw [Action.answer_of_ok hrun] at hanswer
      rw [Action.after_of_ok hrun] at hafter
      cases hroom : t.ensureRoom p.1 p.2 with
      | error err =>
        have hreserve := Relation.reserve_of_ensureRoom_error hanswer.symm hroom
        exact Action.agree_of_error (Relation.run_reserveRows_of_error ht hreserve) (run_reserve_of_error ht hrun hroom)
          hafter
      | ok u =>
        have hreserve := Relation.reserve_eq_ok.2 ⟨p.1, p.2, hanswer.symm, hroom⟩
        exact Action.agree_of_ok (Relation.run_reserveRows_of_ok ht hreserve) (run_reserve_of_ok ht hrun hroom) hafter

/-! ## Recording a chunk -/

/-- a row that is encoded once more is recorded as its key is -/
theorem agree_recordRow (he : e.fields = width k) (l : Location) (hash : Option UInt64) (i : Nat) :
    Action.Agree (Beside k) (Relation.recordRow l hash (Relation.encodedKey e i)) (recordRow e l hash i) := by
  intro r b hb
  have hspans := hb.row
  rw [← he] at hspans
  obtain ⟨hkey, hafter⟩ := Relation.keyOver_eq hspans i
  rw [he] at hafter
  obtain ⟨hanswer, hbeside⟩ := onRow_beside hb hafter
  rw [hkey] at hanswer
  cases hrun : (onRow (Relation.keyOver e i)).run b with
  | error s b' =>
    rw [Action.answer_of_error hrun] at hanswer
    rw [Action.after_of_error hrun] at hbeside
    have hrefused : (Relation.recordRow l hash (.error s)).run r = .error s r := rfl
    rw [← hanswer]
    exact Action.agree_of_error hrefused (Action.run_bind_of_error hrun) hbeside
  | ok key b' =>
    rw [Action.answer_of_ok hrun] at hanswer
    rw [Action.after_of_ok hrun] at hbeside
    rw [← hanswer, recordRow, Action.answer_bind_of_ok hrun, Action.after_bind_of_ok hrun]
    exact agree_onRelation (Relation.preserves_recordRow Relation.stable_settled l hash (.ok key)) r b' hbeside

/-- the second pass over the rows from number `i` on -/
theorem agree_recordRows (he : e.fields = width k) (chunk : UInt32) (hashes : Option (Array UInt64)) (i n : Nat) :
    Action.Agree (Beside k)
      (Relation.recordRows chunk hashes i ((List.range' i n).map (Relation.encodedKey e)))
      (recordRows e chunk hashes (List.range' i n)) := by
  induction n generalizing i with
  | zero => exact Action.agree_pure ()
  | succ n ih =>
    rw [List.range'_succ, List.map_cons]
    exact (agree_recordRow he _ _ i).bind fun _ _ _ _ _ _ => ih (i + 1)

/-! ## Appends -/

/-- counting the numbers of a chunk, or measuring its keys one by one, is measuring its keys -/
theorem demandOf_eq (h : r.Settled k) (ht : r.table = .owned t) {chunk : Chunk} (hk : k = .single chunk.dataType) :
    demandOf chunk t r.kind = Relation.demand t (Relation.keysOf chunk) := by
  have hkind := h.kind
  have hunpinned := h.unpinned t _ ht hk
  rw [hk] at hkind
  generalize r.kind = kind at hkind
  cases kind with
  | stringLike => rfl
  | composite => rfl
  | numeric =>
    cases chunk with
    | other n cells => cases hkind
    | column ct cells =>
      have hnumeric : ct.isNumeric = true := by
        by_contra hne
        simp [KeyType.kind, Chunk.dataType, DataType.kind?, DataType.column?, ColumnType.kind, hne] at hkind
      exact (Relation.demand_keysOf hnumeric hunpinned cells).symm

/-- what the relation answers about itself, its builder passes on -/
theorem run_query (f : Relation → α) (b : Builder) :
    (onRelation (Action.query fun r => .ok (f r))).run b = .ok (f b.relation) b := rfl

theorem agree_appendKeys (chunk : Chunk) (hashes : Option (Array UInt64)) :
    Action.Agree (Beside k) (Relation.appendKeys chunk hashes) (appendKeys chunk hashes) := by
  refine (agree_onRelation (Relation.inert_checkHashes _ _).preserves).bind fun _ _ _ _ _ _ => ?_
  refine (agree_onRelation (Action.inert_query _).preserves).bind fun _ r b m hb hcheck => ?_
  obtain ⟨type, hkey, rfl⟩ := Relation.checkKeyChunk_eq_ok (Action.run_query_eq_ok hcheck).1
  have hk : k = .single chunk.dataType := hb.settled.keyType.symm.trans hkey
  refine (agree_reserve fun r' b' t hb' ht => ?_).bind fun _ _ _ _ _ _ =>
    agree_onRelation (Relation.preserves_recordChunk _ _)
  rw [← demandOf_eq hb'.settled ht hk, Action.answer_bind_of_ok (run_query Relation.kind b'),
    Action.after_bind_of_ok (run_query Relation.kind b'), hb'.relation, Action.inert_ofExcept]
  exact ⟨by cases demandOf chunk t r'.kind <;> rfl, hb'⟩

/-- both passes over the rows of a chunk, each row encoded over the one at hand -/
theorem agree_appendKeyRows (chunks : List Chunk) (hashes : Option (Array UInt64)) :
    Action.Agree (Beside k) (Relation.appendKeyRows chunks hashes) (appendKeyRows chunks hashes) := by
  refine (agree_onRelation (Relation.inert_checkHashes _ _).preserves).bind fun _ _ _ _ _ _ => ?_
  refine (agree_onRelation (Action.inert_query _).preserves).bind fun _ r b m hb hcheck => ?_
  refine (agree_onRelation (Action.inert_query _).preserves).bind fun e _ _ _ _ hencoder => ?_
  have hkey := Relation.checkKeyChunks_eq_ok (Action.run_query_eq_ok hcheck).1
  have hk : k = .composite (chunks.map Chunk.dataType) := hb.settled.keyType.symm.trans hkey
  have hreads := (RowEncoder.ofChunks_eq_ok (Action.run_query_eq_ok hencoder).1).2
  have he : e.fields = width k := by
    rw [hk, width, List.length_map]
    exact hreads.length_eq.symm
  refine (agree_reserve fun r' b' t hb' _ => ?_).bind fun _ _ _ _ _ _ => ?_
  · have hspans := hb'.row
    rw [← he] at hspans
    obtain ⟨hanswer, hafter⟩ := demandOver_eq (t := t) hspans (List.range e.rows)
    rw [he] at hafter
    obtain ⟨hmeasured, hbeside⟩ := onRow_beside hb' hafter
    exact ⟨hmeasured.trans hanswer, hb'.relation ▸ hbeside⟩
  · refine (agree_onRelation (Action.inert_query _).preserves).bind fun chunk _ _ _ _ _ => ?_
    rw [Relation.encodedKeys, List.range_eq_range']
    exact (agree_recordRows he chunk hashes 0 e.rows).bind fun _ _ _ _ _ _ =>
      agree_onRelation (Relation.preserves_nextChunk Relation.stable_settled.rest)

/-! ## Calls and runs -/

/-- a call, made on a builder -/
def act : Call → Act Unit
  | .appendKeys chunk hashes => appendKeys chunk hashes
  | .appendKeyRows chunks hashes => appendKeyRows chunks hashes
  | call => onRelation call.act

/-- the builder after some calls, whatever their outcomes -/
def run (b : Builder) (calls : List Call) : Builder := calls.foldl (fun b call => (act call).after b) b

def answers : Builder → List Call → List (Except (Stop Error) Unit)
  | _, [] => []
  | b, call :: calls => (act call).answer b :: answers ((act call).after b) calls

/-- every call is answered alike, and leaves the builder beside the relation -/
theorem agree_act (call : Call) : Action.Agree (Beside k) call.act (act call) := by
  cases call with
  | appendKeys chunk hashes => exact agree_appendKeys chunk hashes
  | appendKeyRows chunks hashes => exact agree_appendKeyRows chunks hashes
  | appendPayload index chunk => exact agree_onRelation (Relation.settled_act _)
  | grow => exact agree_onRelation (Relation.settled_act _)
  | release => exact agree_onRelation (Relation.settled_act _)
  | importTable handles => exact agree_onRelation (Relation.settled_act _)

theorem agree_run (hb : Beside k r b) (calls : List Call) :
    answers b calls = Relation.answers r calls ∧ Beside k (Relation.run r calls) (run b calls) := by
  induction calls generalizing r b with
  | nil => exact ⟨rfl, hb⟩
  | cons call calls ih =>
    obtain ⟨hanswer, hafter⟩ := agree_act call r b hb
    obtain ⟨hanswers, hrun⟩ := ih hafter
    exact ⟨congrArg₂ List.cons hanswer.symm hanswers, hrun⟩

/-- a builder answers every run of calls as its relation does, and ends up with the same relation -/
theorem run_ofRelation (h : r.Reachable) (calls : List Call) :
    (run (ofRelation r) calls).relation = Relation.run r calls ∧
      answers (ofRelation r) calls = Relation.answers r calls := by
  obtain ⟨hanswers, hbeside⟩ := agree_run (beside_ofRelation (Relation.settled_of_reachable h)) calls
  exact ⟨hbeside.relation, hanswers⟩

end Builder

end EquiJoin
