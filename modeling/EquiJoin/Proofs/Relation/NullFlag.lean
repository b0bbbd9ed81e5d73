/-
The null flag of a relation. It belongs to the relation and not to its table: it tells whether any chunk that this
relation accepted had a row with a null key. The regions of a table do not carry it, so an import leaves the receiver
with the flag of its own past. The flag of the sender is lost, and one that the receiver had set before stays set.

* `nullSeen_step`, `nullSeen_run`: what a call and a run of calls make of the flag, releases and imports included;
* `hasNullKeys_of_import`: after an import the two flags agree exactly if the two pasts do;
* `hasNullKeys_lost`: they may not.
-/
import EquiJoin.Proofs.Relation.Answers
import EquiJoin.Proofs.Relation.Handover

namespace EquiJoin.Relation

/-- some row of the chunk has a null cell -/
def KeyChunk.hasNull (c : KeyChunk) : Bool := c.rows.any fun row => row.any Key.isNull

/-- a relation that has just been made, with a table of its own or without any -/
def Fresh (r : Relation) : Prop :=
  (∃ k columns, detached k columns = .ok r) ∨ ∃ k columns config, new k columns config = .ok r

variable {s₀ r₀ r r' : Relation} {call : Call} {c : KeyChunk} {prepared : Act (List RowKey)} {p : Placement}

theorem Fresh.reachable (h : r.Fresh) : r.Reachable := by
  rcases h with ⟨k, columns, h⟩ | ⟨k, columns, config, h⟩
  · exact .detached h
  · exact .new h

theorem Fresh.nullSeen (h : r.Fresh) : r.nullSeen = false := by
  rcases h with ⟨k, columns, h⟩ | ⟨k, columns, config, h⟩
  · obtain ⟨kind, -, rfl⟩ := detached_eq_ok h
    rfl
  · obtain ⟨kind, t, -, -, rfl⟩ := new_eq_ok h
    rfl

/-! ## The flag of one relation -/

theorem isEmpty_nullsFrom (chunk : UInt32) (i : Nat) (rows : List StoredRow) :
    (nullsFrom chunk i rows).isEmpty = !rows.any Option.isNone := by
  induction rows generalizing i with
  | nil => rfl
  | cons row rows ih =>
    cases row with
    | none => rfl
    | some key =>
      rw [nullsFrom, ih, List.any_cons]
      rfl

/-- the rows that a chunk stores without a key are those with a null cell -/
theorem any_isNone_stored {k : KeyType} (hc : c.Fits k) : (c.stored k).any Option.isNone = c.hasNull := by
  have hcount := (countP_stored hc).1
  rw [KeyChunk.hasNull, Bool.eq_iff_iff, List.any_eq_true, List.any_eq_true, ← List.countP_pos_iff,
    ← List.countP_pos_iff, hcount]

/-- an append that is answered sets the flag if its chunk has a null -/
theorem nullSeen_append (hsound : r.Sound) (hp : call.prepare = some prepared) (hc : call.keyChunk? = some c)
    (hs : c.rowCount ≤ 2 ^ 32) {u : Unit} (hrun : call.act.run r = .ok u r') :
    r'.nullSeen = (r.nullSeen || c.hasNull) := by
  obtain ⟨t, ht⟩ := owned_of_append hp hrun
  obtain ⟨log, hlog⟩ := hsound t ht
  obtain ⟨t', rfl, -, -, -, hfits⟩ := append_eq_ok ht hlog hp hc hs hrun
  show (r.nullSeen || !(nullsFrom r.chunks 0 (c.stored r.keyType)).isEmpty) = (r.nullSeen || c.hasNull)
  rw [isEmpty_nullsFrom, Bool.not_not, any_isNone_stored hfits]

/-- no other call touches the flag -/
theorem nullSeen_of_not_append (hp : call.prepare = none) {u : Unit} (hrun : call.act.run r = .ok u r') :
    r'.nullSeen = r.nullSeen ∧ call.keyChunk? = none := by
  cases call with
  | appendKeys chunk hashes => cases hp
  | appendKeyRows chunks hashes => cases hp
  | appendPayload index chunk =>
    obtain ⟨columns, rfl⟩ := appendPayload_eq_ok hrun
    exact ⟨rfl, rfl⟩
  | grow =>
    obtain ⟨t, t', -, -, rfl⟩ := onTable_eq_ok hrun
    exact ⟨rfl, rfl⟩
  | release =>
    cases hrun
    exact ⟨rfl, rfl⟩
  | importTable handles =>
    obtain ⟨v, -, -, rfl⟩ := importTable_eq_ok.1 hrun
    exact ⟨rfl, rfl⟩

/-- what one call makes of the flag -/
theorem nullSeen_step (h : r.Reachable) (hs : call.Small) (he : call.Ends r) :
    (call.act.after r).nullSeen = (r.nullSeen || (call.added r).any KeyChunk.hasNull) := by
  have hsound := sound_of_reachable h
  cases hrun : call.act.run r with
  | error s r' =>
    rw [Action.after_of_error hrun, added_of_error hrun, eq_of_ends hsound he hrun, List.any_nil, Bool.or_false]
  | ok u r' =>
    rw [Action.after_of_ok hrun, added_of_ok hrun]
    cases hp : call.prepare with
    | none =>
      obtain ⟨hflag, hnone⟩ := nullSeen_of_not_append hp hrun
      rw [hflag, hnone, Option.toList_none, List.any_nil, Bool.or_false]
    | some prepared =>
      obtain ⟨c, hc⟩ := keyChunk_of_prepare hp
      rw [nullSeen_append hsound hp hc (hs c hc) hrun, hc, Option.toList_some, List.any_cons, List.any_nil,
        Bool.or_false]

/-- the flag of a relation tells whether it was set before or any accepted chunk had a null -/
theorem nullSeen_run {calls : List Call} (h : r.Reachable) (hs : ∀ call ∈ calls, call.Small) (he : Smooth r calls) :
    (run r calls).nullSeen = (r.nullSeen || (accepted r calls).any KeyChunk.hasNull) := by
  induction calls generalizing r with
  | nil => simp [run, accepted]
  | cons call calls ih =>
    have hstep := nullSeen_step h (hs call List.mem_cons_self) he.1
    have hrest := ih (.step call h) (fun x hx => hs x (List.mem_cons_of_mem call hx)) he.2
    rw [hstep, Bool.or_assoc, ← List.any_append] at hrest
    exact hrest

theorem hasNullKeys_run {calls : List Call} (h : r.Fresh) (hs : ∀ call ∈ calls, call.Small) (he : Smooth r calls) :
    (run r calls).hasNullKeys = (accepted r calls).any KeyChunk.hasNull := by
  rw [hasNullKeys, nullSeen_run h.reachable hs he, h.nullSeen, Bool.false_or]

/-! ## The flags of two relations -/

/-- the regions of one relation's table, wherever they lie, are imported by another -/
def Handed (s r r' : Relation) : Prop :=
  ∃ (p : Placement) (handles : List Extent), s.exportTable p = .ok handles ∧ (importTable handles).run r = .ok () r'

/-- a valid table that the receiver can use can be handed over -/
theorem handed_of_valid {s : Relation} {v : View} (hs : s.table.view? = some v) (hv : v.Valid)
    (ha : r.accepts v = .ok ()) : Handed s r (r.withView v) :=
  ⟨somewhere, v.extents somewhere, exportTable_eq_ok hs somewhere, (importTable_extents hv sound_somewhere).2 ⟨ha, rfl⟩⟩

/-- **The null flag stays behind.** Let one relation hand its table to another, each in a state that any calls led to
from a new one. The receiver's flag afterwards tells of the chunks that the receiver accepted, and the sender's of those
that the sender did. So the flags agree exactly if both or none of the two ever accepted a row with a null key, whatever
rows the table holds. -/
theorem hasNullKeys_of_import {sent received : List Call} (hs : s₀.Fresh) (hr : r₀.Fresh)
    (hsent : ∀ call ∈ sent, call.Small) (hreceived : ∀ call ∈ received, call.Small) (hs' : Smooth s₀ sent)
    (hr' : Smooth r₀ received) (h : Handed (run s₀ sent) (run r₀ received) r') :
    (run s₀ sent).hasNullKeys = (accepted s₀ sent).any KeyChunk.hasNull ∧
      r'.hasNullKeys = (accepted r₀ received).any KeyChunk.hasNull ∧
      (r'.hasNullKeys = (run s₀ sent).hasNullKeys ↔
        (accepted r₀ received).any KeyChunk.hasNull = (accepted s₀ sent).any KeyChunk.hasNull) := by
  have hsender := hasNullKeys_run hs hsent hs'
  have hreceiver : r'.hasNullKeys = (accepted r₀ received).any KeyChunk.hasNull := by
    obtain ⟨p, handles, -, himport⟩ := h
    obtain ⟨v, -, -, rfl⟩ := importTable_eq_ok.1 himport
    exact hasNullKeys_run hr hreceived hr'
  exact ⟨hsender, hreceiver, by rw [hsender, hreceiver]⟩

/-- an empty table without a past comes to a relation that has seen a null -/
theorem hasNullKeys_of_import_stale :
    Smooth smallRelation [.appendKeys smallChunk none] ∧
      ∃ m, Handed smallRelation sentRelation m ∧ smallRelation.hasNullKeys = false ∧ m.hasNullKeys = true := by
  have hfresh : smallRelation.Fresh := .inr ⟨_, _, _, new_small⟩
  have hsmall : ∀ call ∈ [Call.appendKeys smallChunk none], call.Small := by
    intro call hc c h
    rw [List.mem_singleton.1 hc] at h
    cases h
    decide
  have hmodest : Modest smallRelation.keyType (Table.smallTable.withTag 1).maxBytes
      ([] ++ given [.appendKeys smallChunk none]) := ⟨by decide, .inl (by decide)⟩
  have hsmooth : Smooth smallRelation [.appendKeys smallChunk none] :=
    smooth_of_modest (built_new new_small) (by decide) hsmall rfl hmodest
  have hvalid : (Table.smallTable.withTag 1).view.Valid := by
    obtain ⟨⟨log, hlog⟩, -⟩ := (keyed_of_reachable (.new new_small)).table _ rfl
    exact Table.valid_view hlog (by decide)
  have haccepts : sentRelation.accepts (Table.smallTable.withTag 1).view = .ok () :=
    accepts_eq_ok.2 ⟨by decide +kernel, by decide +kernel⟩
  have hhanded : Handed (run smallRelation []) (run smallRelation [.appendKeys smallChunk none])
      (sentRelation.withView (Table.smallTable.withTag 1).view) := handed_of_valid rfl hvalid haccepts
  have hnone : ∀ call ∈ ([] : List Call), call.Small := by simp
  have hstill : Smooth smallRelation [] := trivial
  obtain ⟨hsender, hreceiver, -⟩ := hasNullKeys_of_import hfresh hfresh hnone hsmall hstill hsmooth hhanded
  have hpast : (accepted smallRelation [.appendKeys smallChunk none]).any KeyChunk.hasNull = true := by decide +kernel
  exact ⟨hsmooth, _, hhanded, hsender, hreceiver.trans hpast⟩

/-- a table with a past of one null row comes to a relation without any -/
theorem hasNullKeys_lost :
    sentRelation.hasNullKeys = true ∧ ∃ m, Handed sentRelation awaiting m ∧ m.hasNullKeys = false := by
  have hvalid : sentTable.view.Valid := by
    obtain ⟨⟨log, hlog⟩, -⟩ := (keyed_of_reachable reachable_sent).table _ table_sent
    exact Table.valid_view hlog (by decide +kernel)
  have hview : sentRelation.table.view? = some sentTable.view := by
    rw [table_sent]
    rfl
  have haccepts : awaiting.accepts sentTable.view = .ok () :=
    accepts_eq_ok.2 ⟨by decide +kernel, by decide +kernel⟩
  exact ⟨by decide +kernel, _, handed_of_valid hview hvalid haccepts, rfl⟩

end EquiJoin.Relation
