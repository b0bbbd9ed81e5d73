/-
Building a relation. `accepted` lists the chunks of keys that a run of calls was answered for; a chunk that was refused
is not among them. `Recorded r₀ r hist stored` says that `r` came out of `r₀` by accepting the chunks in `hist`, which
are stored as the rows in `stored`: its table holds their records, its null rows are theirs, and it counts them. `Built`
says that these are the rows as they are given, which is so as long as 32 bits number the rows of every chunk.

* `append_rows`: what an append that is answered leaves behind, whatever the number of its rows;
* `recorded_step`, `recorded_run`: what one call and a run of calls add to the history;
* `built_step`, `built_run`: the same if 32 bits number the rows;
* `smooth_of_modest`: a run of fewer than 2^32 appends, whose records fit the address space, never faults.
-/
import EquiJoin.Proofs.Relation.Atomic
import EquiJoin.Proofs.Relation.Places
import EquiJoin.Proofs.Relation.Rows
import Mathlib.Algebra.Order.BigOperators.Group.List

namespace EquiJoin.Relation

namespace Call

/-- calls that build on the table that is there -/
def builds : Call → Bool
  | release | importTable _ => false
  | _ => true

/-- the chunk that the call adds to the relation, none if it is refused -/
def added (r : Relation) (call : Call) : List KeyChunk :=
  match call.act.run r with
  | .ok _ _ => call.keyChunk?.toList
  | .error _ _ => []

/-- the call is answered or refused -/
def Ends (r : Relation) (call : Call) : Prop := ∀ r', call.act.run r ≠ .error .fault r'

end Call

/-- the relation after some calls, whatever their outcomes -/
def run (r : Relation) (calls : List Call) : Relation := calls.foldl (fun r call => call.act.after r) r

/-- the answers of a run of calls, one after another -/
def answers : Relation → List Call → List (Except (Stop Error) Unit)
  | _, [] => []
  | r, call :: calls => call.act.answer r :: answers (call.act.after r) calls

/-- the chunks that a run of calls was answered for, in order -/
def accepted : Relation → List Call → List KeyChunk
  | _, [] => []
  | r, call :: calls => call.added r ++ accepted (call.act.after r) calls

/-- every call of the run is answered or refused -/
def Smooth : Relation → List Call → Prop
  | _, [] => True
  | r, call :: calls => call.Ends r ∧ Smooth (call.act.after r) calls

variable {r r' r₀ : Relation} {call : Call} {c : KeyChunk} {prepared : Act (List RowKey)} {rows : List RowKey}

/-! ## Calls that fault -/

theorem reserveRows_never_faults (h : ∀ row ∈ rows, row ≠ .error .fault) :
    (reserveRows rows).run r ≠ .error .fault r' := by
  intro hrun
  rcases reserveRows_eq_error hrun with hnone | hnone | ⟨t, -, hreserve⟩
  · cases hnone
  · cases hnone
  · rcases reserve_eq_error hreserve with hmem | ⟨err, herr, -⟩
    · exact h _ hmem rfl
    · cases herr

theorem checkHashes_never_faults {hashes : Option (Array UInt64)} {n : Nat} :
    (checkHashes hashes n).run r ≠ .error .fault r' := by
  cases hashes with
  | none => rintro ⟨⟩
  | some h =>
    rw [checkHashes]
    split_ifs
    · rintro ⟨⟩
    · rintro ⟨⟩

theorem keysOf_never_fault (chunk : Chunk) : ∀ row ∈ keysOf chunk, row ≠ .error .fault := by
  intro row hrow
  cases chunk with
  | column t cells =>
    obtain ⟨cell, -, rfl⟩ := List.mem_map.1 hrow
    simp
  | other n cells =>
    obtain ⟨cell, -, rfl⟩ := List.mem_map.1 hrow
    simp

theorem encodedKeys_never_fault {chunks : List Chunk} {e : RowEncoder} (he : RowEncoder.ofChunks chunks = .ok e)
    (hs : e.rows ≤ 2 ^ 32) : ∀ row ∈ encodedKeys e, row ≠ .error .fault := by
  intro row hrow
  obtain ⟨i, hi, rfl⟩ := List.mem_map.1 hrow
  exact encodedKey_never_faults he (List.mem_range.1 hi) hs

/-- taking the keys of a chunk and asking for room does not fault -/
theorem prepare_never_faults (hp : call.prepare = some prepared) (hs : call.Small) :
    prepared.run r ≠ .error .fault r' := by
  intro hrun
  cases call with
  | appendKeys chunk hashes =>
    cases hp
    rcases Action.run_bind_eq_error.1 hrun with h | ⟨_, m₁, h₁, hrun⟩
    · exact checkHashes_never_faults h
    rcases Action.run_bind_eq_error.1 hrun with h | ⟨_, m₂, h₂, hrun⟩
    · exact Action.query_never_faults h
    rcases Action.run_bind_eq_error.1 hrun with h | ⟨_, m₃, h₃, hrun⟩
    · exact reserveRows_never_faults (keysOf_never_fault chunk) h
    · cases hrun
  | appendKeyRows chunks hashes =>
    cases hp
    rcases Action.run_bind_eq_error.1 hrun with h | ⟨_, m₁, h₁, hrun⟩
    · exact checkHashes_never_faults h
    rcases Action.run_bind_eq_error.1 hrun with h | ⟨_, m₂, h₂, hrun⟩
    · exact Action.query_never_faults h
    rcases Action.run_bind_eq_error.1 hrun with h | ⟨e, m₃, h₃, hrun⟩
    · exact Action.query_never_faults h
    rcases Action.run_bind_eq_error.1 hrun with h | ⟨_, m₄, h₄, hrun⟩
    · have he := (Action.run_query_eq_ok h₃).1
      have hsmall : e.rows ≤ 2 ^ 32 := (RowEncoder.ofChunks_eq_ok he).1 ▸ hs ⟨chunks, hashes⟩ rfl
      exact reserveRows_never_faults (encodedKeys_never_fault he hsmall) h
    · cases hrun
  | _ => cases hp

/-- there is a chunk index after the next one, and the records of the chunk fit the address space -/
structure HasRoom (r : Relation) (c : KeyChunk) : Prop where
  chunks : r.chunks.toNat + 1 < 2 ^ 32
  bytes : ∀ t, r.table = .owned t → t.maxBytes < 2 ^ 64 - 1 ∨ t.cursor + c.volume r.keyType < 2 ^ 64

/-- calls that build do not fault while there is room -/
theorem ends_of_room (hsound : r.Sound) (hs : call.Small) (hb : call.builds)
    (hroom : ∀ c, call.keyChunk? = some c → r.HasRoom c) : call.Ends r := by
  intro r' hrun
  cases hp : call.prepare with
  | some prepared =>
    rw [act_of_prepare hp] at hrun
    rcases Action.run_bind_eq_error.1 hrun with h | ⟨rows, m, h, hrecord⟩
    · exact prepare_never_faults hp hs h
    · cases (inert_prepare hp).eq_of_ok h
      obtain ⟨c, hc⟩ := keyChunk_of_prepare hp
      obtain ⟨t, ht, hr⟩ := reserve_of_prepare hp h
      obtain ⟨log, hlog⟩ := hsound t ht
      obtain ⟨keys, hrows, ⟨_, hok, -⟩ | ⟨-, hend⟩⟩ := recordChunk_cases call.hashes ht hlog hr
      · cases hok.symm.trans hrecord
      · rw [(stored_of_prepare hp hc (hs c hc) h hrows).1, total_recordsFrom] at hend
        have hchunks := (hroom c hc).chunks
        have hbytes := (hroom c hc).bytes t ht
        rw [KeyChunk.volume] at hbytes
        omega
  | none =>
    cases call with
    | appendKeys chunk hashes => cases hp
    | appendKeyRows chunks hashes => cases hp
    | appendPayload index chunk =>
      rcases Action.run_bind_eq_error.1 hrun with h | ⟨_, m₁, h₁, hrun⟩
      · exact Action.query_never_faults h
      rcases Action.run_bind_eq_error.1 hrun with h | ⟨_, m₂, h₂, hrun⟩
      · exact Action.query_never_faults h
      · cases hrun
    | grow =>
      cases ht : r.table with
      | absent => simp [Call.act, growTable, EStateM.run, onTable, ht] at hrun
      | imported v => simp [Call.act, growTable, EStateM.run, onTable, ht] at hrun
      | owned t =>
        obtain ⟨log, hlog⟩ := hsound t ht
        rcases Table.grow_cases hlog with ⟨e, he⟩ | ⟨t', hok, -⟩
        · cases (run_onTable_of_error ht he).symm.trans hrun
        · cases (run_onTable_of_ok ht hok).symm.trans hrun
    | release => cases hb
    | importTable handles => cases hb

/-! ## Histories -/

/-- the rows of a history, as they are stored -/
def storedOf (k : KeyType) (hist : List KeyChunk) : List (List StoredRow) := hist.map (KeyChunk.stored k)

/-- `r` came out of `r₀` by accepting these chunks, which are stored as these rows -/
structure Recorded (r₀ r : Relation) (hist : List KeyChunk) (stored : List (List StoredRow)) : Prop where
  table : ∃ t, r.table = .owned t ∧ t.Holds (recordsOf stored) ∧ ∀ t₀, r₀.table = .owned t₀ → t₀.Keeps t
  chunks : r.chunks.toNat = hist.length
  nullRows : r.nullRows.toList = nullsOf stored
  nullSeen : r.nullSeen = !(nullsOf stored).isEmpty
  keyType : r.keyType = r₀.keyType
  domain : r.domain = r₀.domain
  config : r.config = r₀.config
  rows : List.Forall₂ (KeyChunk.StoredAs r₀.keyType) hist stored

/-- `r` came out of `r₀` by accepting these chunks, and every row is stored as it is given -/
structure Built (r₀ r : Relation) (hist : List KeyChunk) : Prop extends
    Recorded r₀ r hist (storedOf r₀.keyType hist) where
  fits : ∀ c ∈ hist, c.Fits r₀.keyType

variable {hist : List KeyChunk} {stored : List (List StoredRow)}

theorem Recorded.sound (h : Recorded r₀ r hist stored) : r.Sound := by
  intro t ht
  obtain ⟨t', ht', hlog, -⟩ := h.table
  cases ht.symm.trans ht'
  exact ⟨_, hlog⟩

/-- a relation that has just been made has accepted nothing -/
theorem built_new {k : KeyType} {columns : List Column} {config : Config} (h : new k columns config = .ok r) :
    Built r r [] := by
  obtain ⟨kind, t, -, ht, rfl⟩ := new_eq_ok h
  refine ⟨⟨⟨_, rfl, (Table.create_holds ht).withTag _, ?_⟩, rfl, rfl, rfl, rfl, rfl, rfl, .nil⟩, by simp⟩
  rintro t₀ ⟨⟩
  exact Table.Keeps.refl _

theorem added_of_ok {u : Unit} (h : call.act.run r = .ok u r') : call.added r = call.keyChunk?.toList := by
  simp only [Call.added, h]

theorem added_of_error {s : Stop Error} (h : call.act.run r = .error s r') : call.added r = [] := by
  simp only [Call.added, h]

/-- an append is answered only by a relation with a table of its own -/
theorem owned_of_append (hp : call.prepare = some prepared) {u : Unit} (hrun : call.act.run r = .ok u r') :
    ∃ t, r.table = .owned t := by
  rw [act_of_prepare hp] at hrun
  obtain ⟨rows, m, hprepared, -⟩ := Action.run_bind_eq_ok.1 hrun
  obtain ⟨t, ht, -⟩ := reserve_of_prepare hp hprepared
  exact ⟨t, ht⟩

/-- an append that is answered records as many rows as its chunk has, under the next index -/
theorem append_rows {t : Table} {log : List Record} (ht : r.table = .owned t) (hlog : t.Holds log)
    (hp : call.prepare = some prepared) (hc : call.keyChunk? = some c) {u : Unit}
    (hrun : call.act.run r = .ok u r') :
    ∃ t' rows, c.StoredAs r.keyType rows ∧
      r' = { r.withRows t' (nullsFrom r.chunks 0 rows) with chunks := r.chunks + 1 } ∧
      t'.Holds (log ++ recordsFrom r.chunks 0 rows) ∧ t.Keeps t' ∧ r.chunks.toNat + 1 < 2 ^ 32 := by
  rw [act_of_prepare hp] at hrun
  obtain ⟨rows, m, hprepared, hrecord⟩ := Action.run_bind_eq_ok.1 hrun
  cases (inert_prepare hp).eq_of_ok hprepared
  obtain ⟨t₁, ht₁, hreserve⟩ := reserve_of_prepare hp hprepared
  cases ht.symm.trans ht₁
  obtain ⟨keys, hrows, ⟨t', hok, hlog', hkeeps, hnext⟩ | ⟨⟨_, hfault⟩, -⟩⟩ :=
    recordChunk_cases call.hashes ht hlog hreserve
  · cases hok.symm.trans hrecord
    exact ⟨t', _, storedAs_of_prepare hp hc hprepared hrows, rfl, hlog', hkeeps, hnext⟩
  · cases hfault.symm.trans hrecord

/-- a chunk of a single key that is granted room is accepted, if the budget leaves a byte of the address space and its
index is not the last -/
theorem appendKeys_of_reserve {t : Table} {log : List Record} {chunk : Chunk} {keys : List (Option KeyBytes)}
    (ht : r.table = .owned t) (hlog : t.Holds log) (hcheck : checkKeyChunk chunk r = .ok ())
    (hkeys : keysOf chunk = keys.map .ok) (hreserve : reserve t (keysOf chunk) = .ok ())
    (hbudget : t.maxBytes ≠ 2 ^ 64 - 1) (hnext : r.chunks.toNat + 1 ≠ 2 ^ 32) :
    ∃ t', (Call.appendKeys chunk none).act.run r =
        .ok () { r.withRows t' (nullsFrom r.chunks 0 (storedFrom none 0 keys)) with chunks := r.chunks + 1 } ∧
      t'.Holds (log ++ recordsFrom r.chunks 0 (storedFrom none 0 keys)) := by
  obtain ⟨keys', hkeys', ⟨t', hrecord, hlog', -⟩ | ⟨-, ⟨hmax, -⟩ | hlast⟩⟩ := recordChunk_cases none ht hlog hreserve
  · obtain rfl : keys' = keys :=
      List.map_injective_iff.2 (fun _ _ h => Except.ok.inj h) (hkeys'.symm.trans hkeys)
    have hroom := run_reserveRows_of_ok ht hreserve
    have hchecked : (Action.query (checkKeyChunk chunk)).run r = .ok () r := Action.run_query_of_ok hcheck
    refine ⟨t', ?_, hlog'⟩
    have hrows : (appendRows (keysOf chunk) none).run r = _ := (Action.run_bind_of_ok hroom).trans hrecord
    exact (Action.run_bind_of_ok hchecked).trans hrows
  · exact absurd hmax hbudget
  · exact absurd hlast hnext

/-- if row numbers fit 32 bits, these are the rows of the chunk, and the chunk fits the key -/
theorem append_eq_ok {t : Table} {log : List Record} (ht : r.table = .owned t) (hlog : t.Holds log)
    (hp : call.prepare = some prepared) (hc : call.keyChunk? = some c) (hs : c.rowCount ≤ 2 ^ 32) {u : Unit}
    (hrun : call.act.run r = .ok u r') :
    ∃ t', r' = { r.withRows t' (nullsFrom r.chunks 0 (c.stored r.keyType)) with chunks := r.chunks + 1 } ∧
      t'.Holds (log ++ recordsFrom r.chunks 0 (c.stored r.keyType)) ∧ t.Keeps t' ∧ r.chunks.toNat + 1 < 2 ^ 32 ∧
      c.Fits r.keyType := by
  obtain ⟨t', rows, hstored, hr', hlog', hkeeps, hnext⟩ := append_rows ht hlog hp hc hrun
  obtain ⟨rfl, hfits⟩ := hstored.small hs
  exact ⟨t', hr', hlog', hkeeps, hnext, hfits⟩

/-- an append that is answered adds its chunk to the history -/
theorem recorded_append (h : Recorded r₀ r hist stored) (hp : call.prepare = some prepared)
    (hc : call.keyChunk? = some c) {u : Unit} (hrun : call.act.run r = .ok u r') :
    ∃ rows, c.StoredAs r₀.keyType rows ∧ Recorded r₀ r' (hist ++ [c]) (stored ++ [rows]) := by
  obtain ⟨t, ht, hlog, hkeeps⟩ := h.table
  obtain ⟨t', rows, hstored, rfl, hlog', hkeeps', hnext⟩ := append_rows ht hlog hp hc hrun
  have hindex : r.chunks = UInt32.ofNat stored.length := by
    rw [← h.rows.length_eq, ← h.chunks, UInt32.ofNat_toNat]
  rw [h.keyType] at hstored
  rw [hindex, ← recordsOf_snoc] at hlog'
  have hnulls : nullsOf (stored ++ [rows]) = nullsOf stored ++ nullsFrom r.chunks 0 rows := by
    rw [nullsOf_snoc, hindex]
  refine ⟨rows, hstored, ⟨t', rfl, hlog', fun t₀ h₀ => (hkeeps t₀ h₀).trans hkeeps'⟩, ?_, ?_, ?_, h.keyType, h.domain,
    h.config, List.rel_append h.rows (.cons hstored .nil)⟩
  · have hone : (r.chunks + 1).toNat = r.chunks.toNat + 1 := by
      rw [UInt32.toNat_add, UInt32.toNat_one, Nat.mod_eq_of_lt hnext]
    simp only [hone, h.chunks, List.length_append, List.length_singleton]
  · rw [hnulls, ← h.nullRows]
    simp [withRows]
  · simp only [withRows, h.nullSeen]
    rw [hnulls]
    cases nullsOf stored <;> rfl

/-- a call that does not fault and is not answered changes nothing -/
theorem eq_of_ends (hsound : r.Sound) (he : call.Ends r) {s : Stop Error} (hrun : call.act.run r = .error s r') :
    r' = r := by
  cases s with
  | fault => exact absurd hrun (he r')
  | refused e =>
    cases hp : call.prepare with
    | some prepared => exact eq_of_append_error hsound hp hrun (Or.inl ⟨e, rfl⟩)
    | none => exact eq_of_error hsound hp hrun

/-- what one call adds to the history -/
theorem recorded_step (h : Recorded r₀ r hist stored) (hb : call.builds) (he : call.Ends r) :
    ∃ more, List.Forall₂ (KeyChunk.StoredAs r₀.keyType) (call.added r) more ∧
      Recorded r₀ (call.act.after r) (hist ++ call.added r) (stored ++ more) := by
  cases hrun : call.act.run r with
  | error s r' =>
    rw [Action.after_of_error hrun, added_of_error hrun, eq_of_ends h.sound he hrun]
    exact ⟨[], .nil, by simpa using h⟩
  | ok u r' =>
    rw [Action.after_of_ok hrun, added_of_ok hrun]
    cases call with
    | appendKeys chunk hashes =>
      obtain ⟨rows, hstored, hr'⟩ := recorded_append h rfl rfl hrun
      exact ⟨[rows], .cons hstored .nil, hr'⟩
    | appendKeyRows chunks hashes =>
      obtain ⟨rows, hstored, hr'⟩ := recorded_append h rfl rfl hrun
      exact ⟨[rows], .cons hstored .nil, hr'⟩
    | appendPayload index chunk =>
      obtain ⟨columns, rfl⟩ := appendPayload_eq_ok hrun
      refine ⟨[], .nil, ?_⟩
      show Recorded r₀ _ (hist ++ []) _
      rw [List.append_nil, List.append_nil]
      exact { h with }
    | grow =>
      obtain ⟨t, ht, hlog, hkeeps⟩ := h.table
      refine ⟨[], .nil, ?_⟩
      show Recorded r₀ r' (hist ++ []) _
      rw [List.append_nil, List.append_nil]
      rcases Table.grow_cases hlog with ⟨e, he⟩ | ⟨t', hok, hlog', hkeeps'⟩
      · cases (run_onTable_of_error ht he).symm.trans hrun
      · cases (run_onTable_of_ok ht hok).symm.trans hrun
        exact { h with table := ⟨t', rfl, hlog', fun t₀ h₀ => (hkeeps t₀ h₀).trans hkeeps'⟩ }
    | release => cases hb
    | importTable handles => cases hb

/-- what a run of calls adds to the history -/
theorem recorded_run {calls : List Call} (h : Recorded r₀ r hist stored) (hb : ∀ call ∈ calls, call.builds)
    (he : Smooth r calls) : ∃ stored', Recorded r₀ (run r calls) (hist ++ accepted r calls) stored' := by
  induction calls generalizing r hist stored with
  | nil => exact ⟨stored, by simpa [run, accepted] using h⟩
  | cons call calls ih =>
    obtain ⟨more, -, hstep⟩ := recorded_step h (hb call List.mem_cons_self) he.1
    obtain ⟨stored', hrun⟩ := ih hstep (fun x hx => hb x (List.mem_cons_of_mem call hx)) he.2
    rw [List.append_assoc] at hrun
    exact ⟨stored', hrun⟩

/-- a call adds its own chunk if any -/
theorem mem_added (h : c ∈ call.added r) : call.keyChunk? = some c := by
  cases hrun : call.act.run r with
  | error s r' => simp [added_of_error hrun] at h
  | ok u r' => simpa [added_of_ok hrun] using h

/-- if row numbers fit 32 bits, chunks are stored as they are given -/
theorem storedOf_of_small {k : KeyType} (hs : ∀ c ∈ hist, c.rowCount ≤ 2 ^ 32)
    (h : List.Forall₂ (KeyChunk.StoredAs k) hist stored) : stored = storedOf k hist ∧ ∀ c ∈ hist, c.Fits k := by
  induction h with
  | nil => exact ⟨rfl, by simp⟩
  | @cons c rows hist stored hc _ ih =>
    obtain ⟨rfl, hfits⟩ := hc.small (hs c List.mem_cons_self)
    obtain ⟨rfl, hrest⟩ := ih fun x hx => hs x (List.mem_cons_of_mem c hx)
    exact ⟨rfl, List.forall_mem_cons.2 ⟨hfits, hrest⟩⟩

/-- if row numbers fit 32 bits, the call adds its chunk with the rows as they are given -/
theorem built_step (h : Built r₀ r hist) (hb : call.builds) (hs : call.Small) (he : call.Ends r) :
    Built r₀ (call.act.after r) (hist ++ call.added r) := by
  obtain ⟨more, hmore, hstep⟩ := recorded_step h.toRecorded hb he
  have hsmall : ∀ c ∈ call.added r, c.rowCount ≤ 2 ^ 32 := fun c hc => hs c (mem_added hc)
  obtain ⟨rfl, hfits⟩ := storedOf_of_small hsmall hmore
  rw [storedOf, storedOf, ← List.map_append] at hstep
  exact ⟨hstep, List.forall_mem_append.2 ⟨h.fits, hfits⟩⟩

/-- what a run of calls adds to the history -/
theorem built_run {calls : List Call} (h : Built r₀ r hist) (hb : ∀ call ∈ calls, call.builds)
    (hs : ∀ call ∈ calls, call.Small) (he : Smooth r calls) : Built r₀ (run r calls) (hist ++ accepted r calls) := by
  induction calls generalizing r hist with
  | nil => simpa [run, accepted] using h
  | cons call calls ih =>
    have hstep := built_step h (hb call List.mem_cons_self) (hs call List.mem_cons_self) he.1
    have := ih hstep (fun x hx => hb x (List.mem_cons_of_mem call hx))
      (fun x hx => hs x (List.mem_cons_of_mem call hx)) he.2
    rwa [List.append_assoc] at this

/-- the chunks of keys that the calls are given, accepted or not -/
def given (calls : List Call) : List KeyChunk := calls.filterMap Call.keyChunk?

/-- chunks that are numbered by 32 bits and whose records fit the address space, if the budget does not see to that -/
structure Modest (k : KeyType) (maxBytes : Nat) (hist : List KeyChunk) : Prop where
  chunks : hist.length < 2 ^ 32
  bytes : maxBytes < 2 ^ 64 - 1 ∨ (hist.map (KeyChunk.volume k)).sum < 2 ^ 64

theorem Modest.of_sublist {k : KeyType} {maxBytes : Nat} {hist' : List KeyChunk} (hm : Modest k maxBytes hist)
    (hs : hist'.Sublist hist) : Modest k maxBytes hist' := by
  have hsum : (hist'.map (KeyChunk.volume k)).sum ≤ (hist.map (KeyChunk.volume k)).sum :=
    (hs.map _).sum_le_sum fun _ _ => Nat.zero_le _
  exact ⟨Nat.lt_of_le_of_lt hs.length_le hm.chunks, hm.bytes.imp_right (Nat.lt_of_le_of_lt hsum)⟩

theorem given_cons (call : Call) (calls : List Call) :
    given (call :: calls) = call.keyChunk?.toList ++ given calls := by
  cases hc : call.keyChunk? <;> simp [given, hc]

/-- a call adds its chunk or nothing -/
theorem added_sublist (r : Relation) (call : Call) : (call.added r).Sublist call.keyChunk?.toList := by
  cases hrun : call.act.run r with
  | ok u r' => rw [added_of_ok hrun]
  | error s r' =>
    rw [added_of_error hrun]
    exact List.nil_sublist _

/-- the bytes in use are those of the history -/
theorem Built.cursor_eq {t : Table} (h : Built r₀ r hist) (ht : r.table = .owned t) :
    t.cursor = (hist.map (KeyChunk.volume r₀.keyType)).sum := by
  obtain ⟨t', ht', hlog, -⟩ := h.table
  cases ht.symm.trans ht'
  rw [hlog.cursor, total_recordsOf, storedOf, List.map_map]
  rfl

/-- while the history is modest there is room for its next chunk -/
theorem hasRoom_of_modest {t₀ : Table} (h : Built r₀ r hist) (h₀ : r₀.table = .owned t₀)
    (hm : Modest r₀.keyType t₀.maxBytes (hist ++ [c])) : r.HasRoom c := by
  obtain ⟨hcount, hbytes⟩ := hm
  simp only [List.map_append, List.sum_append, List.length_append, List.length_singleton, List.map_singleton,
    List.sum_singleton] at hcount hbytes
  refine ⟨by rw [h.chunks]; exact hcount, fun t ht => ?_⟩
  obtain ⟨t', ht', -, hkeeps⟩ := h.table
  cases ht.symm.trans ht'
  rw [(hkeeps t₀ h₀).maxBytes, h.cursor_eq ht, h.keyType]
  exact hbytes

/-- appends of modest chunks do not fault -/
theorem smooth_of_modest {calls : List Call} {t₀ : Table} (h : Built r₀ r hist) (hb : ∀ call ∈ calls, call.builds)
    (hs : ∀ call ∈ calls, call.Small) (h₀ : r₀.table = .owned t₀)
    (hm : Modest r₀.keyType t₀.maxBytes (hist ++ given calls)) : Smooth r calls := by
  induction calls generalizing r hist with
  | nil => trivial
  | cons call calls ih =>
    rw [given_cons] at hm
    have hends : call.Ends r := by
      refine ends_of_room h.sound (hs call List.mem_cons_self) (hb call List.mem_cons_self) fun c hc => ?_
      rw [hc] at hm
      exact hasRoom_of_modest h h₀ (hm.of_sublist ((List.sublist_append_left [c] _).append_left hist))
    have hstep := built_step h (hb call List.mem_cons_self) (hs call List.mem_cons_self) hends
    refine ⟨hends, ih hstep (fun x hx => hb x (List.mem_cons_of_mem call hx))
      (fun x hx => hs x (List.mem_cons_of_mem call hx)) (hm.of_sublist ?_)⟩
    rw [List.append_assoc]
    exact ((added_sublist r call).append_right _).append_left hist

end EquiJoin.Relation
