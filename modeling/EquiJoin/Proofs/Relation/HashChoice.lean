/-
The choice of a hash function. A caller may hash keys in a way of their own, if they do so for every row they append and
for every probe. The table then has other slots and other chains, all entries in one chain at the worst, and the
relation answers the same: hashes only pick where to look, and it is the bytes of keys that are compared.

* `agree_act`: calls that differ in their hashes only are answered alike, and keep the two relations side by side;
* `agree_run`: so do runs of such calls;
* `answers_of_any_hash`: with hashes of any function on both sides a relation cannot be told from one without.
-/
import EquiJoin.Proofs.Relation.Join
import EquiJoin.Proofs.Relation.NullFlag
import EquiJoin.Proofs.Table.Rehash

namespace EquiJoin.Relation

/-- the rows from number `i` on are stored under the hashes of this function, given by the caller or not -/
def HashedBy (g : KeyBytes → UInt64) (hashes : Option (Array UInt64)) (i : Nat) (rows : List RowKey) : Prop :=
  ∀ j key, rows[j]? = some (.ok (some key)) → (hashes.bind fun h => h[i + j]?).getD key.hash = g key

/-- every row with a key has the hash of the bytes of its key; other rows may have any -/
def Hashes (h : Bytes → UInt64) (hashes : Array UInt64) (rows : List RowKey) : Prop :=
  ∀ (i : Nat) (key : KeyBytes), rows[i]? = some (.ok (some key)) → hashes[i]? = some (h key.bytes)

/-- the second call is the first, with hashes of this function -/
inductive Rehashed (h : Bytes → UInt64) : Call → Call → Prop where
  | appendKeys {chunk : Chunk} {hashes : Array UInt64} (count : hashes.size = chunk.size)
      (hashed : Hashes h hashes (keysOf chunk)) : Rehashed h (.appendKeys chunk none) (.appendKeys chunk (some hashes))
  | appendKeyRows {chunks : List Chunk} {hashes : Array UInt64}
      (count : hashes.size = (chunks.head?.map Chunk.size).getD 0)
      (hashed : ∀ e, RowEncoder.ofChunks chunks = .ok e → Hashes h hashes (encodedKeys e)) :
      Rehashed h (.appendKeyRows chunks none) (.appendKeyRows chunks (some hashes))
  | appendPayload (index : Nat) (chunk : Chunk) : Rehashed h (.appendPayload index chunk) (.appendPayload index chunk)
  | grow : Rehashed h .grow .grow
  | release : Rehashed h .release .release

/-- two relations with the same key and the same of everything but the table, and tables side by side -/
structure Mirrors (k : KeyType) (g g' : KeyBytes → UInt64) (r r' : Relation) : Prop where
  keyType : r.keyType = k
  domain : r.domain = domainOf k
  rest : r' = { r with table := r'.table }
  table : r.table = .absent ∧ r'.table = .absent ∨
    ∃ t t', r.table = .owned t ∧ r'.table = .owned t' ∧ Table.Mirrors (domainOf k) g g' t t'

/-- with hashes of this function on the second side, the two relations cannot be told apart: they have the same chunks,
null rows, payload and counts, and every probe is answered alike -/
structure Indistinct (h : Bytes → UInt64) (r r' : Relation) : Prop where
  chunks : r'.chunks = r.chunks
  nullRows : r'.nullRows = r.nullRows
  hasNullKeys : r'.hasNullKeys = r.hasNullKeys
  columns : r'.columns = r.columns
  stats : r'.stats = r.stats
  get : ∀ key hash out, (∀ b ∈ key.bytes?, hash = h b.bytes) →
    r'.get key (some hash) out = r.get key none out ∧ r.get key none out ≠ .error .fault
  contains : ∀ key hash, (∀ b ∈ key.bytes?, hash = h b.bytes) →
    r'.contains key (some hash) = r.contains key none ∧ r.contains key none ≠ .error .fault

variable {k : KeyType} {g g' : KeyBytes → UInt64} {h : Bytes → UInt64} {r r' r₀ : Relation} {call call' : Call}
variable {calls calls' : List Call} {rows : List RowKey} {hashes hashes' : Option (Array UInt64)}

/-! ## Two relations side by side -/

/-- what depends on everything but the table is the same -/
theorem Mirrors.congr {α : Type} (hr : Mirrors k g g' r r') {f : Relation → α} (hf : ∀ r t, f { r with table := t } = f r) :
    f r' = f r := by
  rw [hr.rest, hf]

/-- a change of everything but the table, made to both -/
theorem Mirrors.update (hr : Mirrors k g g' r r') {f : Relation → Relation} (hkey : (f r).keyType = r.keyType)
    (hdomain : (f r).domain = r.domain) (htable : ∀ r, (f r).table = r.table)
    (hf : ∀ r t, f { r with table := t } = { f r with table := t }) : Mirrors k g g' (f r) (f r') := by
  refine ⟨hkey.trans hr.keyType, hdomain.trans hr.domain, ?_, ?_⟩
  · rw [htable r']
    conv_lhs => rw [hr.rest]
    exact hf r _
  · rw [htable r, htable r']
    exact hr.table

/-- an action on the tables of both -/
theorem agree_onTable {α : Type} {act act' : Table.Act α}
    (hact : Action.Agree (Table.Mirrors (domainOf k) g g') act act') :
    Action.Agree (Mirrors k g g') (onTable act) (onTable act') := by
  intro r r' hr
  have hrest := hr.rest
  rcases hr.table with ⟨ht, ht'⟩ | ⟨t, t', ht, ht', hmirrors⟩
  · have hrefused {r : Relation} {act : Table.Act α} (ht : r.table = .absent) :
        (onTable act).run r = .error (.refused .builtWithoutTable) r := by
      simp only [EStateM.run, onTable, ht]
    exact Action.agree_of_error (hrefused ht) (hrefused ht') hr
  · obtain ⟨hanswer, hafter⟩ := hact t t' hmirrors
    have hboth {u u' : Table} (h : Table.Mirrors (domainOf k) g g' u u') :
        Mirrors k g g' { r with table := .owned u } { r' with table := .owned u' } :=
      ⟨hr.keyType, hr.domain, by rw [hrest], .inr ⟨u, u', rfl, rfl, h⟩⟩
    cases hrun : act.run t with
    | ok a u =>
      cases hrun' : act'.run t' with
      | error s u' => cases (Action.answer_of_ok hrun).symm.trans (hanswer.trans (Action.answer_of_error hrun'))
      | ok a' u' =>
        cases (Action.answer_of_ok hrun).symm.trans (hanswer.trans (Action.answer_of_ok hrun'))
        rw [Action.after_of_ok hrun, Action.after_of_ok hrun'] at hafter
        exact Action.agree_of_ok (run_onTable_of_ok ht hrun) (run_onTable_of_ok ht' hrun') (hboth hafter)
    | error s u =>
      cases hrun' : act'.run t' with
      | ok a' u' => cases (Action.answer_of_error hrun).symm.trans (hanswer.trans (Action.answer_of_ok hrun'))
      | error s' u' =>
        cases (Action.answer_of_error hrun).symm.trans (hanswer.trans (Action.answer_of_error hrun'))
        rw [Action.after_of_error hrun, Action.after_of_error hrun'] at hafter
        exact Action.agree_of_error (run_onTable_of_error ht hrun) (run_onTable_of_error ht' hrun') (hboth hafter)

/-! ## Appends of keys -/

/-- both relations measure a chunk alike -/
theorem agree_reserveRows (rows : List RowKey) : Action.Agree (Mirrors k g g') (reserveRows rows) (reserveRows rows) := by
  intro r r' hr
  rcases hr.table with ⟨ht, ht'⟩ | ⟨t, t', ht, ht', hmirrors⟩
  · exact Action.agree_of_error (run_reserveRows_of_absent ht) (run_reserveRows_of_absent ht') hr
  · have hsame : reserve t' rows = reserve t rows := by
      rw [reserve, reserve, demand_congr hmirrors.keeps.keySize]
      simp only [hmirrors.ensureRoom]
    cases hreserve : reserve t rows with
    | error s =>
      exact Action.agree_of_error (run_reserveRows_of_error ht hreserve)
        (run_reserveRows_of_error ht' (hsame.trans hreserve)) hr
    | ok u =>
      exact Action.agree_of_ok (run_reserveRows_of_ok ht hreserve) (run_reserveRows_of_ok ht' (hsame.trans hreserve)) hr

/-- one row, under the hashes of both functions -/
theorem agree_recordRow (l : Location) {hash hash' : Option UInt64} {row : RowKey}
    (hcanonical : ∀ key, row = .ok (some key) → key.Canonical (domainOf k))
    (hg : ∀ key, row = .ok (some key) → hash.getD key.hash = g key)
    (hg' : ∀ key, row = .ok (some key) → hash'.getD key.hash = g' key) :
    Action.Agree (Mirrors k g g') (recordRow l hash row) (recordRow l hash' row) := by
  rcases row with s | key
  · exact Action.agree_throw s
  · cases key with
    | none =>
      refine Action.agree_modify fun r r' hr => ?_
      exact hr.update (f := fun r => { r with nullSeen := true, nullRows := r.nullRows.push l }) rfl rfl (fun _ => rfl)
        fun _ _ => rfl
    | some key =>
      rw [recordRow, recordRow, hg key rfl, hg' key rfl]
      exact agree_onTable (Table.agree_insert (hcanonical key rfl) _)

theorem agree_recordRows (chunk : UInt32) (i : Nat)
    (hcanonical : ∀ key, .ok (some key) ∈ rows → key.Canonical (domainOf k)) (hg : HashedBy g hashes i rows)
    (hg' : HashedBy g' hashes' i rows) :
    Action.Agree (Mirrors k g g') (recordRows chunk hashes i rows) (recordRows chunk hashes' i rows) := by
  induction rows generalizing i with
  | nil => exact Action.agree_pure ()
  | cons row rows ih =>
    have hhead {g : KeyBytes → UInt64} {hashes : Option (Array UInt64)} (hg : HashedBy g hashes i (row :: rows)) (key)
        (hrow : row = .ok (some key)) : (hashes.bind fun h => h[i]?).getD key.hash = g key := by
      subst hrow
      exact hg 0 key rfl
    have htail {g : KeyBytes → UInt64} {hashes : Option (Array UInt64)} (hg : HashedBy g hashes i (row :: rows)) :
        HashedBy g hashes (i + 1) rows := by
      intro j key hj
      rw [Nat.add_right_comm]
      exact hg (j + 1) key (by rwa [List.getElem?_cons_succ])
    refine (agree_recordRow _ (fun key hrow => ?_) (hhead hg) (hhead hg')).bind fun _ _ _ _ _ _ => ?_
    · exact hcanonical key (hrow ▸ List.mem_cons_self)
    · exact ih (i + 1) (fun key hkey => hcanonical key (List.mem_cons_of_mem row hkey)) (htail hg) (htail hg')

theorem agree_nextChunk : Action.Agree (Mirrors k g g') nextChunk nextChunk := by
  intro r r' hr
  have hchunks : r'.chunks = r.chunks := hr.congr fun _ _ => rfl
  by_cases hlast : r.chunks.toNat + 1 < 1 <<< 32
  · have hrun {r : Relation} (h : r.chunks.toNat + 1 < 1 <<< 32) :
        nextChunk.run r = .ok () { r with chunks := r.chunks + 1 } := if_pos h
    refine Action.agree_of_ok (hrun hlast) (hrun (hchunks ▸ hlast)) ?_
    exact hr.update (f := fun r => { r with chunks := r.chunks + 1 }) rfl rfl (fun _ => rfl) fun _ _ => rfl
  · have hrun {r : Relation} (h : ¬ r.chunks.toNat + 1 < 1 <<< 32) : nextChunk.run r = .error .fault r := if_neg h
    exact Action.agree_of_error (hrun hlast) (hrun (hchunks ▸ hlast)) hr

/-- a chunk of keys of the domain, under the hashes of both functions -/
theorem agree_appendRows (hcanonical : ∀ key, .ok (some key) ∈ rows → key.Canonical (domainOf k))
    (hg : HashedBy g hashes 0 rows) (hg' : HashedBy g' hashes' 0 rows) :
    Action.Agree (Mirrors k g g') (appendRows rows hashes) (appendRows rows hashes') := by
  refine (agree_reserveRows rows).bind fun _ _ _ _ _ _ => ?_
  refine (Action.agree_query fun r r' hr => ?_).bind fun chunk _ _ _ _ _ => ?_
  · exact congrArg Except.ok (hr.congr (f := Relation.chunks) fun _ _ => rfl).symm
  · exact (agree_recordRows chunk 0 hcanonical hg hg').bind fun _ _ _ _ _ _ => agree_nextChunk

/-- without hashes of the caller, rows have the hashes of their keys -/
theorem hashedBy_none (i : Nat) (rows : List RowKey) : HashedBy KeyBytes.hash none i rows := fun _ _ _ => rfl

theorem hashedBy_some {hashes : Array UInt64} (hashed : Hashes h hashes rows) :
    HashedBy (h ∘ KeyBytes.bytes) (some hashes) 0 rows := by
  intro j key hj
  rw [Option.bind_some, Nat.zero_add, hashed j key hj]
  rfl

/-- the right number of hashes, or none, is accepted -/
theorem agree_checkHashes {hashes : Array UInt64} {n : Nat} (count : hashes.size = n) :
    Action.Agree (Mirrors k g g') (checkHashes none n) (checkHashes (some hashes) n) := by
  rw [checkHashes, checkHashes, if_neg (not_not.2 count)]
  exact Action.agree_pure ()

/-- the keys of a chunk of a single key are of its domain -/
theorem canonical_of_keysOf {chunk : Chunk} {t : DataType} (ht : chunk.dataType = t) {key : KeyBytes}
    (hkey : .ok (some key) ∈ keysOf chunk) : key.Canonical (domainOf (.single t)) := by
  cases chunk with
  | other n cells =>
    obtain ⟨cell, -, hcell⟩ := List.mem_map.1 hkey
    cases hcell
  | column t' cells =>
    subst ht
    obtain ⟨cell, -, hcell⟩ := List.mem_map.1 hkey
    cases cell with
    | none => cases hcell
    | some v =>
      have hbytes : (Key.ofCell t' v).bytes? = some key := Except.ok.inj hcell
      have := Key.canonical_of_bytes? hbytes
      rwa [Key.domain_ofCell] at this

/-- the keys of a chunk of a composite key are encoded rows -/
theorem canonical_of_encodedKeys {e : RowEncoder} {ts : List DataType} {key : KeyBytes}
    (hkey : .ok (some key) ∈ encodedKeys e) : key.Canonical (domainOf (.composite ts)) := by
  obtain ⟨i, -, hi⟩ := List.mem_map.1 hkey
  rw [encodedKey] at hi
  split at hi
  · cases hi
  · cases hi
  · split at hi
    · cases hi
      exact ⟨_, rfl⟩
    · cases hi

/-! ## Calls and runs -/

/-- calls that differ in their hashes only are answered alike -/
theorem agree_act (hpair : Rehashed h call call') :
    Action.Agree (Mirrors k KeyBytes.hash (h ∘ KeyBytes.bytes)) call.act call'.act := by
  cases hpair with
  | @appendKeys chunk hashes count hashed =>
    refine (agree_checkHashes count).bind fun _ _ _ _ _ _ => ?_
    refine (Action.agree_query fun r r' hr => ?_).bind fun _ r r' m hr hrun => ?_
    · exact (hr.congr (f := checkKeyChunk chunk) fun _ _ => rfl).symm
    · obtain ⟨t, hkey, htype⟩ := checkKeyChunk_eq_ok (Action.run_query_eq_ok hrun).1
      cases hr.keyType.symm.trans hkey
      exact agree_appendRows (fun key => canonical_of_keysOf htype) (hashedBy_none _ _) (hashedBy_some hashed)
  | @appendKeyRows chunks hashes count hashed =>
    refine (agree_checkHashes count).bind fun _ _ _ _ _ _ => ?_
    refine (Action.agree_query fun r r' hr => ?_).bind fun _ r r' m hr hrun => ?_
    · exact (hr.congr (f := checkKeyChunks chunks) fun _ _ => rfl).symm
    · have hkey := checkKeyChunks_eq_ok (Action.run_query_eq_ok hrun).1
      cases hr.keyType.symm.trans hkey
      refine (Action.agree_query fun _ _ _ => rfl).bind fun e _ _ _ _ he => ?_
      have hencoder := (Action.run_query_eq_ok he).1
      exact agree_appendRows (fun key => canonical_of_encodedKeys) (hashedBy_none _ _)
        (hashedBy_some (hashed e hencoder))
  | appendPayload index chunk =>
    refine (Action.agree_query fun r r' hr => ?_).bind fun column _ _ _ _ _ => ?_
    · exact (hr.congr (f := fun r => r.payloadColumn index) fun _ _ => rfl).symm
    · refine (Action.agree_query fun _ _ _ => rfl).bind fun column _ _ _ _ _ => ?_
      refine Action.agree_modify fun r r' hr => ?_
      exact hr.update (f := fun r => { r with columns := r.columns.setIfInBounds index column }) rfl rfl (fun _ => rfl)
        fun _ _ => rfl
  | grow => exact agree_onTable Table.agree_grow
  | release =>
    exact Action.agree_modify fun r r' hr =>
      ⟨hr.keyType, hr.domain, by rw [hr.rest], .inl ⟨rfl, rfl⟩⟩

/-- and so are runs of such calls -/
theorem agree_run (hr : Mirrors k KeyBytes.hash (h ∘ KeyBytes.bytes) r r')
    (hpair : List.Forall₂ (Rehashed h) calls calls') :
    answers r' calls' = answers r calls ∧
      Mirrors k KeyBytes.hash (h ∘ KeyBytes.bytes) (run r calls) (run r' calls') := by
  induction hpair generalizing r r' with
  | nil => exact ⟨rfl, hr⟩
  | cons hcall _ ih =>
    obtain ⟨hanswer, hafter⟩ := agree_act hcall r r' hr
    obtain ⟨hanswers, hrun⟩ := ih hafter
    exact ⟨by rw [answers, answers, hanswer, hanswers], hrun⟩

/-- a relation that has just been made stands beside itself -/
theorem mirrors_of_fresh (hfresh : r.Fresh) : Mirrors r.keyType g g' r r := by
  rcases hfresh with ⟨k, columns, hd⟩ | ⟨k, columns, config, hn⟩
  · obtain ⟨kind, -, rfl⟩ := detached_eq_ok hd
    exact ⟨rfl, rfl, rfl, .inl ⟨rfl, rfl⟩⟩
  · obtain ⟨kind, t, -, ht, rfl⟩ := new_eq_ok hn
    exact ⟨rfl, rfl, rfl, .inr ⟨_, _, rfl, rfl, Table.mirrors_of_empty ((Table.create_holds ht).withTag _)⟩⟩

/-! ## Probes -/

/-- a probe answers alike in both relations, if the tables do for the bytes of its key -/
theorem Mirrors.probe (hr : Mirrors k g g' r r') {key : Key} {α : Type} {miss : α} {ask ask' : View → KeyBytes → Option α}
    (hask : ∀ t t' b, Table.Mirrors (domainOf k) g g' t t' → key.bytes? = some b → b.Canonical (domainOf k) →
      ∃ a, ask t.view b = some a ∧ ask' t'.view b = some a) :
    r'.probe key miss ask' = r.probe key miss ask ∧ r.probe key miss ask ≠ .error .fault := by
  have hbytes : r'.probeBytes key = r.probeBytes key := hr.congr (f := fun r => r.probeBytes key) fun _ _ => rfl
  rcases hr.table with ⟨ht, ht'⟩ | ⟨t, t', ht, ht', hmirrors⟩
  · have hview {r : Relation} (ht : r.table = .absent) : r.view = .error .probedWithoutTable := by
      simp only [view, ht, Backing.view?]
    simp [Relation.probe, hview ht, hview ht']
  · have hview {r : Relation} {t : Table} (ht : r.table = .owned t) : r.view = .ok t.view := by
      simp only [view, ht, Backing.view?]
    simp only [Relation.probe, hview ht, hview ht', hbytes]
    cases hb : r.probeBytes key with
    | error e => simp
    | ok bytes =>
      cases bytes with
      | none => simp
      | some b =>
        have hkey : key.bytes? = some b ∧ key.domain = domainOf k := by
          rw [probeBytes] at hb
          split_ifs at hb with hd
          exact ⟨Except.ok.inj hb, (not_not.1 hd).trans hr.domain⟩
        obtain ⟨a, ha, ha'⟩ := hask t t' b hmirrors hkey.1 (hkey.2 ▸ Key.canonical_of_bytes? hkey.1)
        simp [ha, ha']

/-- two relations side by side cannot be told apart -/
theorem Mirrors.indistinct (hr : Mirrors k KeyBytes.hash (h ∘ KeyBytes.bytes) r r') : Indistinct h r r' where
  chunks := hr.congr fun _ _ => rfl
  nullRows := hr.congr fun _ _ => rfl
  hasNullKeys := hr.congr fun _ _ => rfl
  columns := hr.congr fun _ _ => rfl
  stats := by
    rcases hr.table with ⟨ht, ht'⟩ | ⟨t, t', ht, ht', hmirrors⟩
    · simp only [stats, ht, ht']
    · simp only [stats, ht, ht', Backing.stats?, hmirrors.stats]
  get key hash out hhash := by
    refine hr.probe fun t t' b hmirrors hb hcanonical => ?_
    obtain ⟨log, log', hlog, hlog', hsame⟩ := hmirrors.payloads hcanonical
    refine ⟨_, Table.lookup_of_holds hlog _ _ _, ?_⟩
    rw [hhash b hb, Table.lookup_of_holds hlog']
    exact congrArg (fun ps : List Bytes => some (!(ps.filterMap Location.decode?).isEmpty,
      out ++ ps.filterMap Location.decode?)) hsame
  contains key hash hhash := by
    refine hr.probe fun t t' b hmirrors hb hcanonical => ?_
    obtain ⟨log, log', hlog, hlog', hsame⟩ := hmirrors.payloads hcanonical
    refine ⟨_, Table.exists_of_holds hlog _ _, ?_⟩
    rw [hhash b hb, Table.exists_of_holds hlog']
    exact congrArg (fun ps : List Bytes => some (!ps.isEmpty)) hsame

/-- **Answers do not depend on the hash function.** Take any function of key bytes, a constant one among them, any new
relation, and any calls that build on it without hashes, whether they are accepted or not. Give each append of keys the
hashes of this function, and any hash where a row has no key. Then call by call the answers are the same, and in the end
so are the chunks, the null rows, the payload and the counts, and every probe that brings the hash of its key is
answered what it is answered without. -/
theorem answers_of_any_hash (hfresh : r₀.Fresh) (h : Bytes → UInt64) (hpair : List.Forall₂ (Rehashed h) calls calls') :
    answers r₀ calls' = answers r₀ calls ∧ Indistinct h (run r₀ calls) (run r₀ calls') := by
  obtain ⟨hanswers, hmirrors⟩ := agree_run (h := h) (mirrors_of_fresh hfresh) hpair
  exact ⟨hanswers, hmirrors.indistinct⟩

/-- the calls of `smallBuild` with one hash for all keys, and another one for the null row -/
def oneChainBuild : List Call :=
  [.appendKeys smallChunk (some #[0, 7]), .appendKeys (.column .utf8 #[]) (some #[]), .grow,
    .appendKeys (.column .int32 #[some 7, some 5]) (some #[7, 7])]

theorem rehashed_oneChain : List.Forall₂ (Rehashed fun _ => 7) smallBuild oneChainBuild := by
  have hfirst : Hashes (fun _ => 7) #[0, 7] (keysOf smallChunk) := by
    intro i key hi
    rcases i with - | - | i
    · cases hi
    · rfl
    · cases hi
  have hlast : Hashes (fun _ => 7) #[7, 7] (keysOf (.column .int32 #[some 7, some 5])) := by
    intro i key hi
    rcases i with - | - | i
    · rfl
    · rfl
    · cases hi
  have hnone : Hashes (fun _ => 7) #[] (keysOf (.column .utf8 #[])) := by
    intro i key hi
    cases hi
  exact .cons (.appendKeys rfl hfirst) (.cons (.appendKeys rfl hnone) (.cons .grow (.cons (.appendKeys rfl hlast) .nil)))

/-- with a constant function all entries stand in one chain, and the same rows are found -/
theorem answers_of_any_hash_constant :
    smallRelation.Fresh ∧ List.Forall₂ (Rehashed fun _ => 7) smallBuild oneChainBuild ∧
      answers smallRelation oneChainBuild = answers smallRelation smallBuild ∧
      (run smallRelation oneChainBuild).get (.int8 5) (some 7) [] = .ok (true, [⟨0, 1⟩, ⟨1, 1⟩]) ∧
      (run smallRelation oneChainBuild).contains (.int8 6) (some 7) = .ok false := by
  have hfresh : smallRelation.Fresh := .inr ⟨_, _, _, new_small⟩
  obtain ⟨hanswers, hsame⟩ := answers_of_any_hash hfresh (fun _ => 7) rehashed_oneChain
  have hget : (run smallRelation smallBuild).get (.int8 5) none [] = .ok (true, [⟨0, 1⟩, ⟨1, 1⟩]) := by decide +kernel
  have hcontains : (run smallRelation smallBuild).contains (.int8 6) none = .ok false := by decide +kernel
  exact ⟨hfresh, rehashed_oneChain, hanswers, (hsame.get _ _ _ fun _ _ => rfl).1.trans hget,
    (hsame.contains _ _ fun _ _ => rfl).1.trans hcontains⟩

end EquiJoin.Relation
