/-
Numbers under the hashes of their own. A number is hashed as a word, and the hash of a word is a permutation of the
words. A relation on one numeric column whose callers bring no hashes therefore holds entries that their hashes tell
apart as well as their keys do, and comparing keys never turns down an entry of the right hash.

* `Table.OwnHashed`: the keys of a table are of its domain, each stored under the hash that is its own;
* `ownHashed_act`, `ownHashed_run`: every call without hashes keeps this, accepted or not, and so do runs of them;
* `hash_eq_iff`: words have equal hashes exactly if they have equal bytes;
* `own_hashes_tell_keys`: what follows for the entries of a table.
-/
import EquiJoin.Proofs.Hash.Scalar
import EquiJoin.Proofs.Relation.HashChoice
import EquiJoin.Proofs.Table.Representation

namespace EquiJoin

/-- keys that are hashed as words have equal hashes exactly if they have equal bytes -/
theorem KeyBytes.Canonical.hash_eq_iff {d : KeyDomain} {a b : KeyBytes} (ha : a.Canonical d) (hb : b.Canonical d)
    (hd : d.isScalar) : a.hash = b.hash ↔ a.bytes = b.bytes := by
  constructor
  · intro h
    rw [← ha.isScalar_eq] at hd
    have hs : b.isScalar = a.isScalar := hb.isScalar_eq.trans ha.isScalar_eq.symm
    cases a with
    | slice bs => cases hd
    | scalar v =>
      cases b with
      | slice bs => cases hs
      | scalar w => rw [Hash.scalar_injective h]
  · intro h
    rw [ha.eq_of_bytes hb h]

namespace Table

/-- the table stores keys of a domain, each under the hash that is its own -/
def OwnHashed (d : KeyDomain) (t : Table) : Prop :=
  ∃ entries : List (KeyBytes × Bytes), (∀ e ∈ entries, e.1.Canonical d) ∧
    t.Holds (entries.map (Record.under KeyBytes.hash))

variable {d : KeyDomain}

theorem ownHashed_of_empty {t : Table} (h : t.Holds []) : t.OwnHashed d := ⟨[], nofun, h⟩

/-- an insertion under the key's own hash keeps this, whether it is accepted or not -/
theorem preserves_insert {key : KeyBytes} (hkey : key.Canonical d) (payload : Bytes) :
    Action.Preserves (OwnHashed d) (insert key.hash key.bytes payload) := by
  rintro t ⟨entries, hall, hlog⟩
  rcases insert_cases hlog (Record.under KeyBytes.hash (key, payload)) with ⟨s, he⟩ | ⟨t', hok, h', -⟩
  · have hafter : (insert key.hash key.bytes payload).after t = t := Action.after_of_error he
    rw [hafter]
    exact ⟨entries, hall, hlog⟩
  · have hafter : (insert key.hash key.bytes payload).after t = t' := Action.after_of_ok hok
    rw [hafter]
    refine ⟨entries ++ [(key, payload)], List.forall_mem_append.2 ⟨hall, List.forall_mem_singleton.2 hkey⟩, ?_⟩
    rwa [List.map_append, List.map_singleton]

theorem preserves_grow : Action.Preserves (OwnHashed d) grow := by
  rintro t ⟨entries, hall, hlog⟩
  rcases grow_cases hlog with ⟨e, he⟩ | ⟨t', hok, h', -⟩
  · rw [Action.after_of_error he]
    exact ⟨entries, hall, hlog⟩
  · rw [Action.after_of_ok hok]
    exact ⟨entries, hall, h'⟩

/-- equal hashes are equal keys, among the entries of a table and between an entry and a key that is looked for -/
structure HashesTell (d : KeyDomain) (es : List (Nat × Entry)) : Prop where
  stored : ∀ p ∈ es, ∀ q ∈ es, p.2.hash = q.2.hash ↔ p.2.key = q.2.key
  /-- an entry is a match as soon as it carries the hash -/
  probed : ∀ p ∈ es, ∀ (key : Key) (b : KeyBytes), key.domain = d → key.bytes? = some b →
    Matches.hit b.hash b.bytes p.2 = (p.2.hash == b.hash)

/-- the entries of a table of numbers are told apart by their hashes -/
theorem hashesTell_of_ownHashed {t : Table} (ht : t.OwnHashed d) (hd : d.isScalar) :
    ∃ es, t.WellFormed es ∧ HashesTell d es := by
  obtain ⟨entries, hall, hlog⟩ := ht
  refine ⟨_, wellFormed_of_holds hlog, ?_⟩
  have hentry : ∀ p ∈ placed t.mask (layout 0 (entries.map (Record.under KeyBytes.hash))),
      ∃ b : KeyBytes, b.Canonical d ∧ p.2.hash = b.hash ∧ p.2.key = b.bytes := by
    intro p hp
    have hrecord : p.2.record ∈ entries.map (Record.under KeyBytes.hash) := by
      have hmem := List.mem_map_of_mem (f := fun p : Nat × Entry => p.2.record) hp
      rwa [records_placed] at hmem
    obtain ⟨e, he, heq⟩ := List.mem_map.1 hrecord
    exact ⟨e.1, hall e he, (congrArg Record.hash heq).symm, (congrArg Record.key heq).symm⟩
  constructor
  · intro p hp q hq
    obtain ⟨a, ha, hhash, hkey⟩ := hentry p hp
    obtain ⟨b, hb, hhash', hkey'⟩ := hentry q hq
    rw [hhash, hhash', hkey, hkey']
    exact ha.hash_eq_iff hb hd
  · intro p hp key b hdomain hbytes
    obtain ⟨a, ha, hhash, hkey⟩ := hentry p hp
    have hb : b.Canonical d := hdomain ▸ Key.canonical_of_bytes? hbytes
    have hiff : a.hash = b.hash ↔ a.bytes = b.bytes := ha.hash_eq_iff hb hd
    rw [Matches.hit, hhash, hkey, Bool.eq_iff_iff, Bool.and_eq_true, beq_iff_eq, beq_iff_eq]
    exact ⟨fun h => h.1, fun h => ⟨h, hiff.1 h⟩⟩

end Table

namespace Relation

/-- a table of the relation's own stores keys of its domain under the hashes that are their own -/
structure OwnHashed (k : KeyType) (r : Relation) : Prop where
  keyType : r.keyType = k
  table : ∀ t, r.table = .owned t → t.OwnHashed (domainOf k)

variable {k : KeyType} {r r₀ : Relation} {call : Call} {rows : List RowKey} {calls : List Call}
variable {columns : List Column} {config : Config}

/-! ## One call -/

/-- the keys of an append that has passed its checks are of the relation's domain -/
theorem canonical_of_passed (h : Passed r call rows) {key : KeyBytes} (hkey : .ok (some key) ∈ rows) :
    key.Canonical (domainOf r.keyType) := by
  cases h with
  | keys _ check _ =>
    obtain ⟨t, htype, hchunk⟩ := checkKeyChunk_eq_ok check
    rw [htype]
    exact canonical_of_keysOf hchunk hkey
  | keyRows _ check _ _ =>
    rw [checkKeyChunks_eq_ok check]
    exact canonical_of_encodedKeys hkey

/-- an action on the table keeps this if it does for the table alone -/
theorem ownHashed_onTable {α : Type} {act : Table.Act α}
    (hact : Action.Preserves (Table.OwnHashed (domainOf k)) act) : Action.Preserves (OwnHashed k) (onTable act) := by
  refine preserves_onTable fun r t hr ht => ?_
  refine ⟨hr.keyType, ?_⟩
  rintro _ ⟨⟩
  exact hact t (hr.table t ht)

/-- every call that brings no hashes keeps this, accepted or not -/
theorem ownHashed_act (hown : call.hashes = none) : Action.Preserves (OwnHashed k) call.act := by
  have hrest : IgnoresRest (OwnHashed k) := fun _ _ _ _ hr => ⟨hr.keyType, hr.table⟩
  refine preserves_call call hrest (ownHashed_onTable Table.preserves_grow) (fun r hr => ⟨hr.keyType, nofun⟩) ?_ ?_
  · intro handles _ r hr
    rcases after_importTable handles r with h | ⟨v, -, -, h⟩ <;> rw [h]
    · exact hr
    · exact ⟨hr.keyType, nofun⟩
  · intro r rows hr hpassed row hrow l i
    rw [hown, Option.bind_none]
    rcases row with s | key
    · exact (Action.inert_throw s).preserves
    · cases key with
      | none => exact fun r hr => hrest r.columns r.chunks true (r.nullRows.push l) hr
      | some key =>
        have hkey : key.Canonical (domainOf k) := hr.keyType ▸ canonical_of_passed hpassed hrow
        exact ownHashed_onTable (Table.preserves_insert hkey l.encode)

/-! ## Runs -/

theorem ownHashed_run (hr : OwnHashed k r) (hown : ∀ call ∈ calls, call.hashes = none) :
    OwnHashed k (run r calls) := by
  induction calls generalizing r with
  | nil => exact hr
  | cons call calls ih =>
    have hstep := ownHashed_act (hown call List.mem_cons_self) r hr
    exact ih hstep fun call' hmem => hown call' (List.mem_cons_of_mem call hmem)

theorem ownHashed_new (hnew : new k columns config = .ok r₀) : OwnHashed k r₀ := by
  obtain ⟨kind, t, -, ht, rfl⟩ := new_eq_ok hnew
  refine ⟨rfl, ?_⟩
  rintro _ ⟨⟩
  exact Table.ownHashed_of_empty ((Table.create_holds ht).withTag _)

/-- numeric keys are hashed as words -/
theorem isScalar_of_numeric (hk : k.kind = .ok .numeric) : (domainOf k).isScalar := by
  cases k with
  | composite ts =>
    rw [KeyType.kind] at hk
    split_ifs at hk
    split at hk <;> cases hk
  | single t =>
    cases t with
    | other n => cases hk
    | column t => cases t <;> first | rfl | cases hk

/-- **Own hashes tell numbers apart.** The hash of a word is a permutation of the words. Take a new relation on one
numeric column and any calls that bring no hashes, whether they are accepted or not. If the relation has a table of its
own in the end, any two entries in its memory carry equal hashes exactly if their keys are equal; and of any key of the
domain that is looked for, an entry that carries the hash carries the key, so that comparing keys decides nothing that
comparing hashes has not. -/
theorem own_hashes_tell_keys :
    Function.Bijective Hash.scalar ∧
    ∀ {k : KeyType} {columns : List Column} {config : Config} {r₀ : Relation} {calls : List Call} {t : Table},
      k.kind = .ok .numeric → new k columns config = .ok r₀ → (∀ call ∈ calls, call.hashes = none) →
      (run r₀ calls).table = .owned t →
      ∃ es, t.WellFormed es ∧ Table.HashesTell (domainOf k) es := by
  refine ⟨⟨fun v w => Hash.scalar_injective, fun hash => ⟨_, Hash.scalar_unscalar hash⟩⟩, ?_⟩
  intro k columns config r₀ calls t hkind hnew hown ht
  have htable := (ownHashed_run (ownHashed_new hnew) hown).table t ht
  exact Table.hashesTell_of_ownHashed htable (isScalar_of_numeric hkind)

/-- after two chunks of numbers, one of another type that was refused, and a growth -/
theorem own_hashes_tell_keys_small :
    ∃ t es, (run smallRelation smallBuild).table = .owned t ∧ t.WellFormed es ∧ es.length = 3 ∧
      Table.HashesTell .signed es := by
  have hown : ∀ call ∈ smallBuild, call.hashes = none := by decide
  have hthree : (run smallRelation smallBuild).table.name = "owned" ∧
      (run smallRelation smallBuild).table.stats?.map Stats.entries = some 3 := by
    decide +kernel
  cases ht : (run smallRelation smallBuild).table with
  | owned t =>
    rw [ht] at hthree
    obtain ⟨es, hformed, htell⟩ := own_hashes_tell_keys.2 rfl new_small hown ht
    exact ⟨t, es, rfl, hformed, hformed.count.symm.trans (Option.some.inj hthree.2), htell⟩
  | absent => simp [ht, Backing.name] at hthree
  | imported v => simp [ht, Backing.name] at hthree

end Relation

end EquiJoin
