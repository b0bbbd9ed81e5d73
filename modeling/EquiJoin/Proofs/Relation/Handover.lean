/-
Handing a table over. A receiver reads the very table that the sender built, so it answers every probe as the sender
does, and it can hand the same table on. The tag of a table tells from which domain its probes come, so two relations
that agree on the tag also refuse the same probe keys.

* `domainOf_eq`: the tag of a key decides its domain;
* `importTable_extents`: of a valid table an import asks only whether the relation can use it;
* `shows_of_holder`: a table that is handed on any number of times stays the same;
* `handover_preserves_answers`: who can import it, and what its holders answer.
-/
import EquiJoin.Proofs.Relation.Atomic
import EquiJoin.Proofs.Table.Attach
import EquiJoin.Relation.Probe

namespace EquiJoin.Relation

/-! ## Tags -/

/-- the domain of the keys under a tag -/
def domainOfTag (tag : UInt64) : KeyDomain :=
  if tag = 1 ∨ tag = 4 ∨ tag = 5 then .signed
  else if tag = 2 then .unsigned
  else if tag = 3 then .float
  else if tag = 6 ∨ tag = 7 then .bytes
  else .row

theorem domainOf_single (t : DataType) : domainOf (.single t) = domainOfTag t.encodingMark.toUInt64 := by
  rw [domainOf, KeyType.domain?, DataType.domain?, DataType.encodingMark]
  cases t.column? with
  | none => rfl
  | some c => cases c <;> rfl

/-- a tag with the highest bit is none of the marks of single columns -/
theorem domainOfTag_composite (hash : UInt64) : domainOfTag (hash ||| KeyType.compositeBit) = .row := by
  have hlarge : 2 ^ 63 ≤ (hash ||| KeyType.compositeBit).toNat := by
    rw [UInt64.toNat_or]
    exact Nat.right_le_or
  have hne (mark : UInt64) (hm : mark.toNat < 2 ^ 63) : hash ||| KeyType.compositeBit ≠ mark := by
    rintro h
    rw [h] at hlarge
    omega
  simp only [domainOfTag, hne 1 (by decide), hne 2 (by decide), hne 3 (by decide), hne 4 (by decide),
    hne 5 (by decide), hne 6 (by decide), hne 7 (by decide), or_self, ↓reduceIte]

/-- the tag of a key decides its domain -/
theorem domainOf_eq (k : KeyType) : domainOf k = domainOfTag k.layoutTag := by
  cases k with
  | single t => exact domainOf_single t
  | composite ts => exact (domainOfTag_composite _).symm

/-! ## Imports -/

variable {s m r r' : Relation} {t : Table} {v : View} {p : Placement} {handles : List Extent}

theorem exportTable_eq_ok (hv : m.table.view? = some v) (p : Placement) : m.exportTable p = .ok (v.extents p) := by
  simp only [exportTable, hv]

/-- of a valid table that is handed over, an import asks only whether the relation can use it -/
theorem importTable_extents (hv : v.Valid) (hp : p.Sound) :
    (importTable (v.extents p)).run r = .ok () r' ↔ r.accepts v = .ok () ∧ r' = r.withView v := by
  rw [importTable_eq_ok, View.attach_extents hv hp]
  constructor
  · rintro ⟨w, hw, haccepts, hr'⟩
    cases hw
    exact ⟨haccepts, hr'⟩
  · rintro ⟨haccepts, hr'⟩
    exact ⟨v, rfl, haccepts, hr'⟩

/-! ## Holders -/

/-- relations that hold the table of `s`: `s` itself, and any that imported it from a holder -/
inductive Holder (s : Relation) : Relation → Prop where
  | sender : Holder s s
  | receiver {m r r' : Relation} {p : Placement} {handles : List Extent} :
      Holder s m → p.Sound → m.exportTable p = .ok handles → r.Reachable →
        (importTable handles).run r = .ok () r' → Holder s r'

/-- what a probe sees of a relation, and what its size is taken from -/
structure Shows (m : Relation) (v : View) (d : KeyDomain) : Prop where
  view : m.table.view? = some v
  stats : m.table.stats? = some v.stats
  domain : m.domain = d

/-- a probe's answer; of a refusal only the kind counts, since its message names the key type of the relation -/
def outcome {α : Type} (answer : Except (Stop Error) α) : Except (Stop ErrorKind) α :=
  answer.mapError (Stop.map Error.kind)

/-- two relations answer every probe alike, with the hashes of the keys or with any others, and have the same size -/
structure Agrees (s m : Relation) : Prop where
  get : ∀ key hash out, outcome (m.get key hash out) = outcome (s.get key hash out)
  contains : ∀ key hash, outcome (m.contains key hash) = outcome (s.contains key hash)
  stats : m.stats = s.stats

/-- what a probe answers depends on what it sees only -/
theorem outcome_probe {α : Type} {d : KeyDomain} (hs : s.Shows v d) (hm : m.Shows v d) (key : Key) (miss : α)
    (ask : View → KeyBytes → Option α) : outcome (m.probe key miss ask) = outcome (s.probe key miss ask) := by
  have hview (r : Relation) (hr : r.Shows v d) : r.view = .ok v := by simp only [Relation.view, hr.view]
  rw [probe, probe, hview s hs, hview m hm]
  by_cases hd : key.domain = d
  · simp only [probeBytes, hs.domain, hm.domain, hd, ne_eq, not_true_eq_false, ↓reduceIte]
  · simp only [probeBytes, hs.domain, hm.domain, hd, ne_eq, not_false_eq_true, ↓reduceIte]
    rfl

/-- every holder shows the sender's table and takes the same probes -/
theorem shows_of_holder (hs : s.Reachable) (ht : s.table = .owned t)
    (ha : Table.allocatable (slotWidth * t.capacity)) (hm : Holder s m) : m.Shows t.view s.domain := by
  have hkeyed := keyed_of_reachable hs
  obtain ⟨⟨log, hlog⟩, htag⟩ := hkeyed.table t ht
  induction hm with
  | sender =>
    have hstats : t.stats = t.view.stats := (Table.stats_view hlog).symm
    refine ⟨by rw [ht]; rfl, ?_, rfl⟩
    rw [ht, ← hstats]
    rfl
  | @receiver m r r' p handles _ hp hexport hr himport ih =>
    rw [exportTable_eq_ok ih.view] at hexport
    cases hexport
    obtain ⟨haccepts, rfl⟩ := (importTable_extents (Table.valid_view hlog ha) hp).1 himport
    refine ⟨rfl, rfl, ?_⟩
    have htags : t.tag = r.keyType.layoutTag := (accepts_eq_ok.1 haccepts).1
    show r.domain = s.domain
    rw [(keyed_of_reachable hr).domain, hkeyed.domain, domainOf_eq, domainOf_eq, ← htags, htag]

theorem agrees_of_holder (hs : s.Reachable) (ht : s.table = .owned t)
    (ha : Table.allocatable (slotWidth * t.capacity)) (hm : Holder s m) : s.Agrees m := by
  have hsender := shows_of_holder hs ht ha .sender
  have hholder := shows_of_holder hs ht ha hm
  refine ⟨?_, ?_, ?_⟩
  · intro key hash out
    exact outcome_probe hsender hholder key _ _
  · intro key hash
    exact outcome_probe hsender hholder key _ _
  · simp only [stats, hsender.stats, hholder.stats]

/-- **A handover preserves every answer.** Take a reachable relation with a table of its own, full or empty, whose slot
array can be allocated, and any relation that holds this table: the sender, a receiver, a receiver of a receiver. It
answers every probe as the sender does, with whatever hash, and reports the same size. It can hand the table on, and a
reachable relation of whatever state can import it if and only if the two agree on the tag of their keys and on the
width that keys are pinned to; it then holds the table as well, and answers as the sender does. -/
theorem handover_preserves_answers (hs : s.Reachable) (ht : s.table = .owned t)
    (ha : Table.allocatable (slotWidth * t.capacity)) (hm : Holder s m) :
    s.Agrees m ∧ ∀ p : Placement, p.Sound → ∃ handles, m.exportTable p = .ok handles ∧ ∀ r, r.Reachable →
      ((∃ r', (importTable handles).run r = .ok () r') ↔
        s.keyType.layoutTag = r.keyType.layoutTag ∧ t.keySize = r.config.keySize.map UInt64.toNat) ∧
      ∀ r', (importTable handles).run r = .ok () r' → Holder s r' ∧ s.Agrees r' := by
  have hholder := shows_of_holder hs ht ha hm
  obtain ⟨⟨log, hlog⟩, htag⟩ := (keyed_of_reachable hs).table t ht
  refine ⟨agrees_of_holder hs ht ha hm, ?_⟩
  intro p hp
  have hexport := exportTable_eq_ok hholder.view p
  refine ⟨t.view.extents p, hexport, ?_⟩
  intro r hr
  have hreceiver : ∀ r', (importTable (t.view.extents p)).run r = .ok () r' → Holder s r' ∧ s.Agrees r' := by
    intro r' hrun
    have hm' : Holder s r' := .receiver hm hp hexport hr hrun
    exact ⟨hm', agrees_of_holder hs ht ha hm'⟩
  refine ⟨?_, hreceiver⟩
  have haccepts : r.accepts t.view = .ok () ↔
      s.keyType.layoutTag = r.keyType.layoutTag ∧ t.keySize = r.config.keySize.map UInt64.toNat := by
    rw [accepts_eq_ok, Table.keySize?_view hlog, ← htag]
    rfl
  have himport (r' : Relation) : (importTable (t.view.extents p)).run r = .ok () r' ↔
      r.accepts t.view = .ok () ∧ r' = r.withView t.view := importTable_extents (Table.valid_view hlog ha) hp
  rw [← haccepts]
  constructor
  · rintro ⟨r', hrun⟩
    exact ((himport r').1 hrun).1
  · intro hok
    exact ⟨_, (himport _).2 ⟨hok, rfl⟩⟩

/-- the small relation after a chunk of a null and a number -/
def sentRelation : Relation := (Call.appendKeys smallChunk none).act.after smallRelation

/-- the table that the number is in -/
def sentTable : Table :=
  (Table.insertLocation (Hash.scalar 5) (LittleEndian.encode 8 5) ⟨0, 1⟩).after (Table.smallTable.withTag 1)

/-- a relation without a table, on a narrower column of the same encoding -/
def awaiting : Relation :=
  ⟨.single (.column .int16), .numeric, .signed, {}, .absent, #[], 0, false, #[]⟩

def somewhere : Placement := ⟨64, 128, 192⟩

theorem table_sent : sentRelation.table = .owned sentTable := by
  have hsame : (match sentRelation.table with | .owned t => decide (t = sentTable) | _ => false) = true := by
    decide +kernel
  cases ht : sentRelation.table with
  | owned t =>
    rw [ht] at hsame
    rw [of_decide_eq_true hsame]
  | _ => simp [ht] at hsame

theorem reachable_sent : sentRelation.Reachable := .step _ (.new new_small)

theorem reachable_awaiting : awaiting.Reachable :=
  have hdetached : detached (.single (.column .int16)) [] = .ok awaiting := rfl
  .detached hdetached

theorem sound_somewhere : somewhere.Sound := ⟨by decide, by decide, by decide, by decide, by decide⟩

theorem handover_preserves_answers_small :
    sentRelation.Reachable ∧ sentRelation.table = .owned sentTable ∧ awaiting.Reachable ∧
      ∃ handles m, sentRelation.exportTable somewhere = .ok handles ∧ (importTable handles).run awaiting = .ok () m ∧
        outcome (m.get (.int64 5) none []) = .ok (true, [⟨0, 1⟩]) ∧ m.stats = sentRelation.stats ∧
        ∃ handles' m', m.exportTable somewhere = .ok handles' ∧ (importTable handles').run awaiting = .ok () m' ∧
          sentRelation.Agrees m' := by
  have hsize : Table.allocatable (slotWidth * sentTable.capacity) := by decide +kernel
  have hcan : sentRelation.keyType.layoutTag = awaiting.keyType.layoutTag ∧
      sentTable.keySize = awaiting.config.keySize.map UInt64.toNat := by decide +kernel
  obtain ⟨-, hsend⟩ := handover_preserves_answers reachable_sent table_sent hsize .sender
  obtain ⟨handles, hexport, himport⟩ := hsend somewhere sound_somewhere
  obtain ⟨hiff, hreceiver⟩ := himport awaiting reachable_awaiting
  obtain ⟨m, hm⟩ := hiff.2 hcan
  obtain ⟨hholder, hagrees⟩ := hreceiver m hm
  -- the receiver hands the table on
  obtain ⟨-, hresend⟩ := handover_preserves_answers reachable_sent table_sent hsize hholder
  obtain ⟨handles', hexport', himport'⟩ := hresend somewhere sound_somewhere
  obtain ⟨hiff', hreceiver'⟩ := himport' awaiting reachable_awaiting
  obtain ⟨m', hm'⟩ := hiff'.2 hcan
  have hget : sentRelation.get (.int64 5) none [] = .ok (true, [⟨0, 1⟩]) := by decide +kernel
  refine ⟨reachable_sent, table_sent, reachable_awaiting, handles, m, hexport, hm, ?_, hagrees.stats, handles', m',
    hexport', hm', (hreceiver' m' hm').2⟩
  rw [hagrees.get, hget]
  rfl

end EquiJoin.Relation
