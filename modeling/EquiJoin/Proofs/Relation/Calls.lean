/-
Calls that change a relation, and the states they lead to. `Reachable` relations are made by `detached` or `new` and
changed by any calls, also by calls that were refused or stopped. A table that such a relation owns always holds the
records of some log, under the tag of the relation's key.

An append of keys has two parts, kept apart by `prepare`: what it does before its first row, and the recording of rows.

* `act_of_prepare`: an append is its preparation and then the recording;
* `inert_prepare`, `passed_of_prepare`: preparing changes nothing, and what is prepared has passed every check;
* `importTable_eq_ok`: what is asked of handles, and what an import leaves behind;
* `preserves_call`: what every call keeps that keeps it row by row, in growth, release and import;
* `preserves_act`: what a change of rows, of payload and of the table's log keeps, every call keeps;
* `keyed_of_reachable`: a reachable relation keeps its key, and its table holds a log under the tag of this key.
-/
import EquiJoin.Proofs.Relation.Recording
import EquiJoin.Relation.Handoff
import EquiJoin.Relation.Payload

namespace EquiJoin.Relation

/-- a call that may change a relation -/
inductive Call where
  | appendKeys (chunk : Chunk) (hashes : Option (Array UInt64))
  | appendKeyRows (chunks : List Chunk) (hashes : Option (Array UInt64))
  | appendPayload (index : Nat) (chunk : Chunk)
  | grow
  | release
  | importTable (handles : List Extent)

namespace Call

def act : Call → Act Unit
  | appendKeys chunk hashes => Relation.appendKeys chunk hashes
  | appendKeyRows chunks hashes => Relation.appendKeyRows chunks hashes
  | appendPayload index chunk => Relation.appendPayload index chunk
  | grow => growTable
  | release => Relation.release
  | importTable handles => Relation.importTable handles

/-- the caller's hashes -/
def hashes : Call → Option (Array UInt64)
  | appendKeys _ hashes | appendKeyRows _ hashes => hashes
  | _ => none

/-- what an append of keys does before it records the first row: it takes the keys and asks for room -/
def prepare : Call → Option (Act (List RowKey))
  | appendKeys chunk hashes => some do
    checkHashes hashes chunk.size
    Action.query (checkKeyChunk chunk)
    reserveRows (keysOf chunk)
    return keysOf chunk
  | appendKeyRows chunks hashes => some do
    checkHashes hashes ((chunks.head?.map Chunk.size).getD 0)
    Action.query (checkKeyChunks chunks)
    let encoder ← Action.query fun _ => RowEncoder.ofChunks chunks
    reserveRows (encodedKeys encoder)
    return encodedKeys encoder
  | _ => none

end Call

/-- relations that some calls lead to, whatever the outcomes of the calls -/
inductive Reachable : Relation → Prop where
  | detached {k : KeyType} {columns : List Column} {r : Relation} : detached k columns = .ok r → Reachable r
  | new {k : KeyType} {columns : List Column} {c : Config} {r : Relation} : new k columns c = .ok r → Reachable r
  | step {r : Relation} (call : Call) : Reachable r → Reachable (call.act.after r)

/-- a table of its own holds the records of some log -/
def Sound (r : Relation) : Prop := ∀ t, r.table = .owned t → ∃ log, t.Holds log

/-- a relation with this key takes probes from its domain, and a table of its own holds a log under its tag -/
structure Keyed (k : KeyType) (r : Relation) : Prop where
  keyType : r.keyType = k
  domain : r.domain = domainOf k
  table : ∀ t, r.table = .owned t → (∃ log, t.Holds log) ∧ t.tag = k.layoutTag

variable {r : Relation} {call : Call} {prepared : Act (List RowKey)} {k : KeyType}

/-! ## Appends -/

theorem inert_checkHashes (hashes : Option (Array UInt64)) (rows : Nat) : Action.Inert (checkHashes hashes rows) := by
  cases hashes with
  | none => exact Action.inert_pure ()
  | some h =>
    rw [checkHashes]
    split_ifs
    · exact Action.inert_throw _
    · exact Action.inert_pure ()

theorem inert_reserveRows (rows : List RowKey) : Action.Inert (reserveRows rows) := by
  intro r
  simp only [Action.after, EStateM.run, reserveRows]
  cases r.table with
  | absent => rfl
  | imported v => rfl
  | owned t => cases hr : reserve t rows <;> simp only [hr]

theorem run_reserveRows_of_absent {rows : List RowKey} (ht : r.table = .absent) :
    (reserveRows rows).run r = .error (.refused .builtWithoutTable) r := by
  simp only [EStateM.run, reserveRows, ht]

theorem run_reserveRows_of_imported {v : View} {rows : List RowKey} (ht : r.table = .imported v) :
    (reserveRows rows).run r = .error (.refused .importedTable) r := by
  simp only [EStateM.run, reserveRows, ht]

theorem run_reserveRows_of_ok {t : Table} {rows : List RowKey} (ht : r.table = .owned t) (h : reserve t rows = .ok ()) :
    (reserveRows rows).run r = .ok () r := by
  simp only [EStateM.run, reserveRows, ht, h]

theorem run_reserveRows_of_error {t : Table} {rows : List RowKey} {s : Stop Error} (ht : r.table = .owned t)
    (h : reserve t rows = .error s) : (reserveRows rows).run r = .error s r := by
  simp only [EStateM.run, reserveRows, ht, h]

/-- rows are granted room only in a table of the relation's own -/
theorem reserveRows_eq_ok {rows : List RowKey} {r' : Relation} (h : (reserveRows rows).run r = .ok () r') :
    ∃ t, r.table = .owned t ∧ reserve t rows = .ok () := by
  simp only [EStateM.run, reserveRows] at h
  cases ht : r.table with
  | absent => simp [ht] at h
  | imported v => simp [ht] at h
  | owned t =>
    cases hr : reserve t rows with
    | error s => simp [ht, hr] at h
    | ok u => exact ⟨t, rfl, hr⟩

/-- rows are not granted room for want of such a table, or because the table does not grant it -/
theorem reserveRows_eq_error {rows : List RowKey} {s : Stop Error} {r' : Relation}
    (h : (reserveRows rows).run r = .error s r') :
    s = .refused .importedTable ∨ s = .refused .builtWithoutTable ∨
      ∃ t, r.table = .owned t ∧ reserve t rows = .error s := by
  simp only [EStateM.run, reserveRows] at h
  cases ht : r.table with
  | absent =>
    simp only [ht, EStateM.Result.error.injEq] at h
    exact Or.inr (Or.inl h.1.symm)
  | imported v =>
    simp only [ht, EStateM.Result.error.injEq] at h
    exact Or.inl h.1.symm
  | owned t =>
    cases hr : reserve t rows with
    | ok u => simp [ht, hr] at h
    | error s' =>
      simp only [ht, hr, EStateM.Result.error.injEq] at h
      exact Or.inr (Or.inr ⟨t, rfl, h.1 ▸ hr⟩)

/-- an append of keys prepares itself and then records the rows -/
theorem act_of_prepare (h : call.prepare = some prepared) :
    call.act = prepared >>= fun rows => recordChunk rows call.hashes := by
  cases call with
  | appendKeys chunk hashes =>
    cases h
    simp only [Call.act, appendKeys, appendRows, Call.hashes, bind_assoc, pure_bind]
  | appendKeyRows chunks hashes =>
    cases h
    simp only [Call.act, appendKeyRows, appendRows, Call.hashes, bind_assoc, pure_bind]
  | _ => cases h

/-- preparing changes nothing -/
theorem inert_prepare (h : call.prepare = some prepared) : Action.Inert prepared := by
  cases call with
  | appendKeys chunk hashes =>
    cases h
    exact (inert_checkHashes _ _).bind fun _ => (Action.inert_query _).bind fun _ =>
      (inert_reserveRows _).bind fun _ => Action.inert_pure _
  | appendKeyRows chunks hashes =>
    cases h
    exact (inert_checkHashes _ _).bind fun _ => (Action.inert_query _).bind fun _ =>
      (Action.inert_query _).bind fun _ => (inert_reserveRows _).bind fun _ => Action.inert_pure _
  | _ => cases h

/-- what an append of keys has passed once its rows are prepared -/
inductive Passed (r : Relation) : Call → List RowKey → Prop where
  | keys {chunk : Chunk} {hashes : Option (Array UInt64)} (count : ∀ h ∈ hashes, h.size = chunk.size)
      (check : checkKeyChunk chunk r = .ok ()) (room : (reserveRows (keysOf chunk)).run r = .ok () r) :
      Passed r (.appendKeys chunk hashes) (keysOf chunk)
  | keyRows {chunks : List Chunk} {hashes : Option (Array UInt64)} {e : RowEncoder}
      (count : ∀ h ∈ hashes, h.size = (chunks.head?.map Chunk.size).getD 0) (check : checkKeyChunks chunks r = .ok ())
      (encoder : RowEncoder.ofChunks chunks = .ok e) (room : (reserveRows (encodedKeys e)).run r = .ok () r) :
      Passed r (.appendKeyRows chunks hashes) (encodedKeys e)

theorem checkHashes_eq_ok {hashes : Option (Array UInt64)} {rows : Nat} {r' : Relation}
    (h : (checkHashes hashes rows).run r = .ok () r') : ∀ x ∈ hashes, x.size = rows := by
  rintro x ⟨⟩
  rw [checkHashes] at h
  split_ifs at h with hx
  · cases h
  · exact not_not.1 hx

theorem passed_of_prepare (h : call.prepare = some prepared) {rows : List RowKey} {r' : Relation}
    (hp : prepared.run r = .ok rows r') : Passed r call rows := by
  cases call with
  | appendKeys chunk hashes =>
    cases h
    obtain ⟨_, m₁, h₁, hp⟩ := Action.run_bind_eq_ok.1 hp
    obtain ⟨_, m₂, h₂, hp⟩ := Action.run_bind_eq_ok.1 hp
    obtain ⟨_, m₃, h₃, hret⟩ := Action.run_bind_eq_ok.1 hp
    cases (inert_checkHashes _ _).eq_of_ok h₁
    obtain ⟨hcheck, rfl⟩ := Action.run_query_eq_ok h₂
    cases (inert_reserveRows _).eq_of_ok h₃
    cases hret
    exact .keys (checkHashes_eq_ok h₁) hcheck h₃
  | appendKeyRows chunks hashes =>
    cases h
    obtain ⟨_, m₁, h₁, hp⟩ := Action.run_bind_eq_ok.1 hp
    obtain ⟨_, m₂, h₂, hp⟩ := Action.run_bind_eq_ok.1 hp
    obtain ⟨e, m₃, h₃, hp⟩ := Action.run_bind_eq_ok.1 hp
    obtain ⟨_, m₄, h₄, hret⟩ := Action.run_bind_eq_ok.1 hp
    cases (inert_checkHashes _ _).eq_of_ok h₁
    obtain ⟨hcheck, rfl⟩ := Action.run_query_eq_ok h₂
    obtain ⟨hencoder, rfl⟩ := Action.run_query_eq_ok h₃
    cases (inert_reserveRows _).eq_of_ok h₄
    cases hret
    exact .keyRows (checkHashes_eq_ok h₁) hcheck hencoder h₄
  | _ => cases h

/-- what was prepared has been granted room in the relation's own table -/
theorem reserve_of_prepare (h : call.prepare = some prepared) {rows : List RowKey} {r' : Relation}
    (hp : prepared.run r = .ok rows r') : ∃ t, r.table = .owned t ∧ reserve t rows = .ok () := by
  cases passed_of_prepare h hp with
  | keys _ _ room => exact reserveRows_eq_ok room
  | keyRows _ _ _ room => exact reserveRows_eq_ok room

/-- a payload chunk that is stored changes the payload columns only -/
theorem appendPayload_eq_ok {index : Nat} {chunk : Chunk} {u : Unit} {r' : Relation}
    (h : (appendPayload index chunk).run r = .ok u r') : ∃ columns, r' = { r with columns } := by
  obtain ⟨_, m₁, h₁, h⟩ := Action.run_bind_eq_ok.1 h
  obtain ⟨_, m₂, h₂, h⟩ := Action.run_bind_eq_ok.1 h
  cases (Action.inert_query _).eq_of_ok h₁
  cases (Action.inert_query _).eq_of_ok h₂
  cases h
  exact ⟨_, rfl⟩

/-! ## Imports -/

variable {r' : Relation} {v : View} {handles : List Extent}

theorem accepts_eq_ok :
    r.accepts v = .ok () ↔ v.tag = r.keyType.layoutTag ∧ v.keySize? = r.config.keySize.map UInt64.toNat := by
  rw [accepts]
  split_ifs with htag hsize
  · simp [htag]
  · simp [hsize]
  · simp [not_not.1 htag, not_not.1 hsize]

/-- the relation after an import: only its table and what the configuration says of it are new -/
def withView (r : Relation) (v : View) : Relation := { r with config := configAfter r.config v, table := .imported v }

/-- an import attaches the regions, asks whether the relation can use the table, and only then takes it -/
theorem run_importTable (handles : List Extent) (r : Relation) :
    (importTable handles).run r =
      match View.attach handles with
      | .error s => .error (s.map .table) r
      | .ok v =>
        match r.accepts v with
        | .error e => .error (.refused e) r
        | .ok () => .ok () (r.withView v) := by
  simp only [importTable, EStateM.run, bind, EStateM.bind, Action.ofExcept, Action.query]
  cases View.attach handles with
  | error s => rfl
  | ok v =>
    simp only [Except.mapError]
    cases r.accepts v with
    | error e => rfl
    | ok u => rfl

theorem importTable_eq_ok :
    (importTable handles).run r = .ok () r' ↔
      ∃ v, View.attach handles = .ok v ∧ r.accepts v = .ok () ∧ r' = r.withView v := by
  rw [run_importTable]
  cases View.attach handles with
  | error s => simp
  | ok v => cases haccepts : r.accepts v <;> simp [haccepts, eq_comm]

/-- an import that is not answered changes nothing -/
theorem after_importTable (handles : List Extent) (r : Relation) :
    (importTable handles).after r = r ∨
      ∃ v, View.attach handles = .ok v ∧ r.accepts v = .ok () ∧ (importTable handles).after r = r.withView v := by
  have hrun := run_importTable handles r
  cases hv : View.attach handles with
  | error s =>
    simp only [hv] at hrun
    exact Or.inl (Action.after_of_error hrun)
  | ok v =>
    cases haccepts : r.accepts v with
    | error e =>
      simp only [hv, haccepts] at hrun
      exact Or.inl (Action.after_of_error hrun)
    | ok u =>
      simp only [hv, haccepts] at hrun
      exact Or.inr ⟨v, rfl, haccepts, Action.after_of_ok hrun⟩

/-! ## What calls preserve -/

variable {p : Relation → Prop}

/-- a property that has nothing to do with payload, null rows and the numbering of chunks -/
def IgnoresRest (p : Relation → Prop) : Prop :=
  ∀ {r} columns chunks nullSeen nullRows, p r → p { r with columns, chunks, nullSeen, nullRows }

/-- an action on the table keeps a property if it does with the table that the action leaves -/
theorem preserves_onTable {α : Type} {act : Table.Act α}
    (h : ∀ r t, p r → r.table = .owned t → p { r with table := .owned (act.after t) }) :
    Action.Preserves p (onTable act) := by
  intro r hr
  cases ht : r.table with
  | absent =>
    have : (onTable act).run r = .error (.refused .builtWithoutTable) r := by simp only [EStateM.run, onTable, ht]
    rwa [Action.after_of_error this]
  | imported v =>
    have : (onTable act).run r = .error (.refused .importedTable) r := by simp only [EStateM.run, onTable, ht]
    rwa [Action.after_of_error this]
  | owned t =>
    have hafter := h r t hr ht
    cases hact : act.run t with
    | ok a t' =>
      rw [Action.after_of_ok hact] at hafter
      rwa [Action.after_of_ok (run_onTable_of_ok ht hact)]
    | error s t' =>
      rw [Action.after_of_error hact] at hafter
      rwa [Action.after_of_error (run_onTable_of_error ht hact)]

/-- rows keep a property if each of them does, with whatever hash the caller gave for it -/
theorem preserves_recordRows {chunk : UInt32} {hashes : Option (Array UInt64)} {rows : List RowKey}
    (hrow : ∀ row ∈ rows, ∀ (l : Location) (i : Nat),
      Action.Preserves p (recordRow l (hashes.bind fun h => h[i]?) row)) (i : Nat) :
    Action.Preserves p (recordRows chunk hashes i rows) := by
  induction rows generalizing i with
  | nil => exact (Action.inert_pure ()).preserves
  | cons row rows ih =>
    have hrest := ih fun row' hmem => hrow row' (List.mem_cons_of_mem row hmem)
    exact (hrow row List.mem_cons_self _ _).bind fun _ => hrest (i + 1)

theorem preserves_nextChunk (hrest : IgnoresRest p) : Action.Preserves p nextChunk := by
  intro r hr
  simp only [Action.after, EStateM.run, nextChunk]
  split_ifs
  · exact hrest r.columns (r.chunks + 1) r.nullSeen r.nullRows hr
  · exact hr

/-- every call keeps a property if growth, release, an import and the rows of an append do; the rows of an append have
passed its checks -/
theorem preserves_call (call : Call) (hrest : IgnoresRest p) (hgrow : Action.Preserves p growTable)
    (hrelease : Action.Preserves p release)
    (himport : ∀ handles, call = .importTable handles → Action.Preserves p (importTable handles))
    (hrow : ∀ r rows, p r → Passed r call rows → ∀ row ∈ rows, ∀ (l : Location) (i : Nat),
      Action.Preserves p (recordRow l (call.hashes.bind fun h => h[i]?) row)) : Action.Preserves p call.act := by
  cases hprepare : call.prepare with
  | some prepared =>
    rw [act_of_prepare hprepare]
    intro r hr
    cases hprepared : prepared.run r with
    | error s r' =>
      cases (inert_prepare hprepare).eq_of_error hprepared
      rwa [Action.after_bind_of_error hprepared]
    | ok rows r' =>
      cases (inert_prepare hprepare).eq_of_ok hprepared
      rw [Action.after_bind_of_ok hprepared]
      have hrows : Action.Preserves p (recordRows r.chunks call.hashes 0 rows) :=
        preserves_recordRows (hrow r rows hr (passed_of_prepare hprepare hprepared)) 0
      have hchunk : Action.Preserves p (recordRows r.chunks call.hashes 0 rows >>= fun _ => nextChunk) :=
        hrows.bind fun _ => preserves_nextChunk hrest
      exact hchunk r hr
  | none =>
    cases call with
    | appendKeys chunk hashes => cases hprepare
    | appendKeyRows chunks hashes => cases hprepare
    | appendPayload index chunk =>
      exact (Action.inert_query _).preserves.bind fun _ => (Action.inert_query _).preserves.bind fun _ r hr =>
        hrest _ r.chunks r.nullSeen r.nullRows hr
    | grow => exact hgrow
    | release => exact hrelease
    | importTable handles => exact himport handles rfl

/-- a property that has nothing to do with rows and payload, and of a table only with what insertions and growth keep -/
structure Stable (p : Relation → Prop) : Prop where
  sound : ∀ {r}, p r → r.Sound
  table : ∀ {r t t' log}, p r → r.table = .owned t → t'.Holds log → t.Keeps t' → p { r with table := .owned t' }
  rest : ∀ {r} columns chunks nullSeen nullRows, p r → p { r with columns, chunks, nullSeen, nullRows }
  release : ∀ {r}, p r → p { r with table := .absent }

/-- every row of whatever key and hash keeps a stable property -/
theorem preserves_recordRow (hp : Stable p) (l : Location) (hash : Option UInt64) (row : RowKey) :
    Action.Preserves p (recordRow l hash row) := by
  rcases row with s | key
  · exact (Action.inert_throw s).preserves
  · cases key with
    | none => exact fun r hr => hp.rest r.columns r.chunks true (r.nullRows.push l) hr
    | some key =>
      refine preserves_onTable fun r t hr ht => ?_
      obtain ⟨log, hlog⟩ := hp.sound hr t ht
      rw [Table.insertLocation]
      rcases Table.insert_cases hlog ⟨hash.getD key.hash, key.bytes, l.encode⟩ with ⟨s, he⟩ | ⟨t', hok, h', hkeeps⟩
      · rw [Action.after_of_error he]
        exact hp.table hr ht hlog (.refl t)
      · rw [Action.after_of_ok hok]
        exact hp.table hr ht h' hkeeps

/-- every call keeps a stable property, if an import does -/
theorem preserves_act (hp : Stable p) (call : Call)
    (himport : ∀ handles, call = .importTable handles → Action.Preserves p (importTable handles)) :
    Action.Preserves p call.act := by
  refine preserves_call call hp.rest ?_ (fun r hr => hp.release hr) himport
    fun _ _ _ _ row _ l i => preserves_recordRow hp l _ row
  refine preserves_onTable fun r t hr ht => ?_
  obtain ⟨log, hlog⟩ := hp.sound hr t ht
  rcases Table.grow_cases hlog with ⟨e, he⟩ | ⟨t', hok, h', hkeeps⟩
  · rw [Action.after_of_error he]
    exact hp.table hr ht hlog (.refl t)
  · rw [Action.after_of_ok hok]
    exact hp.table hr ht h' hkeeps

/-! ## Reachable relations -/

theorem detached_eq_ok {k : KeyType} {columns : List Column} (h : detached k columns = .ok r) :
    ∃ kind, k.kind = .ok kind ∧
      r = ⟨k, kind, domainOf k, resolve k {}, .absent, columns.toArray, 0, false, #[]⟩ := by
  unfold detached at h
  cases hk : k.kind with
  | error e => simp [hk, bind, Except.bind] at h
  | ok kind =>
    simp only [hk, bind, Except.bind, pure, Except.pure, Except.ok.injEq] at h
    exact ⟨kind, rfl, h.symm⟩

/-- a new relation owns a new table -/
theorem new_eq_ok {k : KeyType} {columns : List Column} {c : Config} (h : new k columns c = .ok r) :
    ∃ kind t, k.kind = .ok kind ∧ Table.create (resolve k c) = .ok t ∧
      r = ⟨k, kind, domainOf k, resolve k c, .owned (t.withTag k.layoutTag), columns.toArray, 0, false, #[]⟩ := by
  unfold new at h
  cases hd : detached k columns with
  | error e => simp [hd] at h
  | ok r₀ =>
    obtain ⟨kind, hk, rfl⟩ := detached_eq_ok hd
    cases ht : Table.create (resolve k c) with
    | error s => simp [hd, ht] at h
    | ok t =>
      simp only [hd, ht, Except.ok.injEq] at h
      exact ⟨kind, t, hk, rfl, h.symm⟩

theorem Keyed.sound (h : r.Keyed k) : r.Sound := fun t ht => (h.table t ht).1

theorem stable_keyed (k : KeyType) : Stable (Keyed k) where
  sound := Keyed.sound
  table h ht hlog hkeeps := ⟨h.keyType, h.domain, by rintro _ ⟨⟩; exact ⟨⟨_, hlog⟩, hkeeps.tag.trans (h.table _ ht).2⟩⟩
  rest _ _ _ _ h := ⟨h.keyType, h.domain, h.table⟩
  release h := ⟨h.keyType, h.domain, nofun⟩

/-- every call keeps the key -/
theorem keyed_act (call : Call) : Action.Preserves (Keyed k) call.act := by
  refine preserves_act (stable_keyed k) call fun handles _ r hr => ?_
  rcases after_importTable handles r with h | ⟨v, -, -, h⟩ <;> rw [h]
  · exact hr
  · exact ⟨hr.keyType, hr.domain, nofun⟩

theorem keyed_of_reachable (h : r.Reachable) : r.Keyed r.keyType := by
  have hkeyed : ∃ k, r.Keyed k := by
    induction h with
    | @detached k columns r hd =>
      obtain ⟨kind, -, rfl⟩ := detached_eq_ok hd
      exact ⟨k, rfl, rfl, nofun⟩
    | @new k columns c r hn =>
      obtain ⟨kind, t, -, ht, rfl⟩ := new_eq_ok hn
      refine ⟨k, rfl, rfl, ?_⟩
      rintro _ ⟨⟩
      exact ⟨⟨[], (Table.create_holds ht).withTag _⟩, rfl⟩
    | step call _ ih =>
      obtain ⟨k, hk⟩ := ih
      exact ⟨k, keyed_act call _ hk⟩
  obtain ⟨k, hk⟩ := hkeyed
  exact hk.keyType ▸ hk

theorem sound_of_reachable (h : r.Reachable) : r.Sound := (keyed_of_reachable h).sound

end EquiJoin.Relation
