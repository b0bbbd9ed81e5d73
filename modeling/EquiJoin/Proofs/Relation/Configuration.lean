/-
The configuration of a relation and its table. A relation with a table of its own was made from a configuration that
passed the check, and its table was sized by it. An import writes the capacity and the budget of the foreign table into
the configuration; the size of the first region stays the receiver's, and nothing checks the two against each other.

* `stable_described`: what the configuration says of the table, kept by every change of the table;
* `described_act`: kept by imports too, which change the capacity and the budget only;
* `config_of_reachable`: when the configuration of a reachable relation passes the check, and what it says of its table;
* `config_misleads`: a receiver whose configuration fails the check, and a width that the table does not have.
-/
import EquiJoin.Proofs.Relation.Handover

namespace EquiJoin

/-! ## What a new table takes from its configuration -/

/-- the width that a table pins its keys to; all ones stands for none -/
def Config.pinned? (c : Config) : Option Nat := c.keySize.bind fun k => if k = allOnes then none else some k.toNat

theorem Config.pinned?_eq (c : Config) :
    c.pinned? = c.keySize.map UInt64.toNat ∨ c.keySize = some allOnes ∧ c.pinned? = none := by
  rw [pinned?]
  cases c.keySize with
  | none => exact Or.inl rfl
  | some k =>
    by_cases hk : k = allOnes
    · subst hk
      exact Or.inr ⟨rfl, rfl⟩
    · left
      simp [hk]

theorem Table.create_eq_ok {c : Config} {t : Table} (h : create c = .ok t) :
    c.Valid ∧ t.maxBytes = c.maxBytes.toNat ∧ t.keySize = c.pinned? := by
  have hmax := maxBytes_of_create h
  unfold create at h
  split at h
  · cases h
  · next hcheck =>
    dsimp only at h
    split_ifs at h
    cases h
    exact ⟨(Config.check_eq_ok_iff c).1 hcheck, hmax, rfl⟩

namespace Relation

variable {r : Relation} {v : View} {k : KeyType}

/-! ## The width of a key -/

/-- the null bits and eight bytes for each column are a width that 64 bits hold, and not zero -/
theorem pinnedSize_default_ne {kind : KeyKind} (hk : k.kind = .ok kind) (hcolumns : k.columns < 2 ^ 60) :
    pinnedSize k {} ≠ some 0 := by
  cases k with
  | single t => nofun
  | composite ts =>
    have hpos : 0 < ts.length := by
      rw [List.length_pos_iff]
      rintro rfl
      cases hk
    show (Option.map UInt64.ofNat (Row.fixedSize? ts)) ≠ some 0
    rw [Row.fixedSize?, Row.nullBytes]
    split_ifs
    · have hlt : ts.length < 2 ^ 60 := hcolumns
      intro hzero
      have := congrArg UInt64.toNat (Option.some.inj hzero)
      rw [UInt64.toNat_ofNat', Nat.mod_eq_of_lt (by omega)] at this
      have : (ts.length + 7) / 8 + 8 * ts.length = 0 := this
      omega
    · nofun

/-! ## What calls keep -/

/-- the configuration passes the check but for the size of the first region, and says how large the table may get and
to which width it pins its keys; if the relation made the table, it passes the check -/
structure Described (r : Relation) : Prop where
  sound : r.Sound
  capacity_ne : r.config.initialCapacity ≠ 0
  bytes_ne : r.config.initialBytes ≠ 0
  load : r.config.loadFactor.isProportion = true
  key_ne : r.keyType.columns < 2 ^ 60 → r.config.keySize ≠ some 0
  owned : ∀ t, r.table = .owned t →
    r.config.Valid ∧ t.maxBytes = r.config.maxBytes.toNat ∧ t.keySize = r.config.pinned?
  imported : ∀ v, r.table = .imported v →
    v.header.maxBytes = r.config.maxBytes ∧ v.keySize? = r.config.keySize.map UInt64.toNat

theorem stable_described : Stable Described where
  sound := Described.sound
  table h ht hlog hkeeps := by
    obtain ⟨hvalid, hmax, hkey⟩ := h.owned _ ht
    refine { h with sound := ?_, owned := ?_, imported := nofun }
    · rintro _ ⟨⟩
      exact ⟨_, hlog⟩
    · rintro _ ⟨⟩
      exact ⟨hvalid, hkeeps.maxBytes.trans hmax, hkeeps.keySize.trans hkey⟩
  rest _ _ _ _ h := { h with }
  release h := { h with sound := nofun, owned := nofun, imported := nofun }

/-- an import that is answered changes the capacity and the budget only -/
theorem config_withView (h : r.accepts v = .ok ()) :
    (r.withView v).config =
      { r.config with initialCapacity := v.header.capacity, maxBytes := v.header.maxBytes } := by
  have hkey : v.keySize?.map UInt64.ofNat = r.config.keySize := by
    rw [(accepts_eq_ok.1 h).2, Option.map_map]
    cases r.config.keySize with
    | none => rfl
    | some k => exact congrArg some UInt64.ofNat_toNat
  rw [withView, configAfter, hkey]

/-- every call keeps what the configuration says, and only an import changes what it says -/
theorem described_act (call : Call) : Action.Preserves Described call.act := by
  refine preserves_act stable_described call fun handles _ r hr => ?_
  rcases after_importTable handles r with h | ⟨v, hattach, haccepts, h⟩ <;> rw [h]
  · exact hr
  · have hconfig := config_withView haccepts
    have hcapacity : v.header.capacity ≠ 0 := fun hzero => by
      have hpow := (Header.check_eq_ok_iff.1 (View.valid_of_attach hattach).check).capacity
      rw [hzero] at hpow
      exact absurd (Nat.pos_of_isPowerOfTwo hpow) (Nat.lt_irrefl 0)
    exact {
      sound := nofun
      capacity_ne := by rw [hconfig]; exact hcapacity
      bytes_ne := by rw [hconfig]; exact hr.bytes_ne
      load := by rw [hconfig]; exact hr.load
      key_ne := by rw [hconfig]; exact hr.key_ne
      owned := nofun
      imported := by
        rintro _ ⟨⟩
        rw [hconfig]
        exact ⟨rfl, (accepts_eq_ok.1 haccepts).2⟩ }

theorem config_of_not_import (call : Call) (hcall : ∀ handles, call ≠ .importTable handles) (hr : r.Sound) :
    (call.act.after r).config = r.config := by
  have hp : Stable fun r' => r'.Sound ∧ r'.config = r.config := {
    sound := And.left
    table := fun h _ hlog _ => ⟨by rintro _ ⟨⟩; exact ⟨_, hlog⟩, h.2⟩
    rest := fun _ _ _ _ h => ⟨h.1, h.2⟩
    release := fun h => ⟨nofun, h.2⟩ }
  exact (preserves_act hp call (fun handles h => absurd h (hcall handles)) r ⟨hr, rfl⟩).2

/-- an import that is answered is the only call that changes the configuration -/
theorem config_after (hr : r.Sound) (call : Call) :
    (call.act.after r).config = r.config ∨ ∃ v, (call.act.after r).table = .imported v ∧
      (call.act.after r).config =
        { r.config with initialCapacity := v.header.capacity, maxBytes := v.header.maxBytes } := by
  by_cases hcall : ∃ handles, call = .importTable handles
  · obtain ⟨handles, rfl⟩ := hcall
    rcases after_importTable handles r with hafter | ⟨v, -, haccepts, hafter⟩
    · exact Or.inl (congrArg Relation.config hafter)
    · refine Or.inr ⟨v, congrArg Relation.table hafter, ?_⟩
      show ((importTable handles).after r).config = _
      rw [hafter, config_withView haccepts]
  · exact Or.inl (config_of_not_import call (fun handles he => hcall ⟨handles, he⟩) hr)

/-- what the configuration says of the table, whoever made it -/
theorem Described.view (h : r.Described) (hv : r.table.view? = some v) :
    v.header.maxBytes = r.config.maxBytes ∧
      (v.keySize? = r.config.keySize.map UInt64.toNat ∨ r.config.keySize = some allOnes ∧ v.keySize? = none) := by
  cases ht : r.table with
  | absent => simp [ht, Backing.view?] at hv
  | imported w =>
    obtain rfl : w = v := by simpa [ht, Backing.view?] using hv
    exact ⟨(h.imported w ht).1, Or.inl (h.imported w ht).2⟩
  | owned t =>
    obtain rfl : t.view = v := by simpa [ht, Backing.view?] using hv
    obtain ⟨-, hmax, hkey⟩ := h.owned t ht
    obtain ⟨log, hlog⟩ := h.sound t ht
    have hbudget : UInt64.ofNat t.maxBytes = r.config.maxBytes := by rw [hmax, UInt64.ofNat_toNat]
    refine ⟨hbudget, ?_⟩
    rw [Table.keySize?_view hlog, hkey]
    exact r.config.pinned?_eq

theorem described_of_reachable (h : r.Reachable) : r.Described := by
  induction h with
  | @detached k columns r hd =>
    obtain ⟨kind, hk, rfl⟩ := detached_eq_ok hd
    exact {
      sound := nofun
      capacity_ne := by simp only [resolve]; decide
      bytes_ne := by simp only [resolve]; decide
      load := by simp only [resolve]; decide +kernel
      key_ne := pinnedSize_default_ne hk
      owned := nofun
      imported := nofun }
  | @new k columns c r hn =>
    obtain ⟨kind, t, -, ht, rfl⟩ := new_eq_ok hn
    obtain ⟨hvalid, hmax, hkey⟩ := Table.create_eq_ok ht
    exact {
      sound := by
        rintro _ ⟨⟩
        exact ⟨[], (Table.create_holds ht).withTag _⟩
      capacity_ne := hvalid.capacity_ne
      bytes_ne := hvalid.bytes_ne
      load := hvalid.load
      key_ne := fun _ => hvalid.key_ne
      owned := by
        rintro _ ⟨⟩
        exact ⟨hvalid, hmax, hkey⟩
      imported := nofun }
  | step call _ ih => exact described_act call _ ih

/-! ## Reachable relations -/

/-- **What a configuration says.** Take a relation that `new` or `detached` made and any calls changed: appends, growth,
releases and imports of whatever handles, also those that other relations exported. While its table is its own, its
configuration passes the check. In every state the one thing that can be wrong with it is a first region larger than
the budget (if the key has fewer than 2^60 columns, which any memory sees to). The configuration gives the budget of the
table, and the width that keys are pinned to, unless this is configured as all ones, which a table takes for none. And
no call changes it but an import, which takes the capacity and the budget from the imported table and keeps the rest. -/
theorem config_of_reachable (h : r.Reachable) :
    (∀ t, r.table = .owned t → r.config.check = .ok ()) ∧
      (r.keyType.columns < 2 ^ 60 → (r.config.check = .ok () ↔ r.config.initialBytes ≤ r.config.maxBytes)) ∧
      (∀ v, r.table.view? = some v → v.header.maxBytes = r.config.maxBytes ∧
        (v.keySize? = r.config.keySize.map UInt64.toNat ∨ r.config.keySize = some allOnes ∧ v.keySize? = none)) ∧
      ∀ call : Call, (call.act.after r).config = r.config ∨ ∃ v, (call.act.after r).table = .imported v ∧
        (call.act.after r).config =
          { r.config with initialCapacity := v.header.capacity, maxBytes := v.header.maxBytes } := by
  have hr := described_of_reachable h
  refine ⟨fun t ht => (Config.check_eq_ok_iff _).2 (hr.owned t ht).1, fun hcolumns => ?_, fun v hv => hr.view hv,
    config_after hr.sound⟩
  rw [Config.check_eq_ok_iff]
  exact ⟨fun hvalid => hvalid.bytes_le, fun hle => ⟨hr.capacity_ne, hr.bytes_ne, hle, hr.load, hr.key_ne hcolumns⟩⟩

/-- the width that stands for none -/
def widestConfig : Config := { Table.smallConfig with keySize := some allOnes }

/-- a relation on one number column as a composite key, pinned to that width -/
def widestRelation : Relation :=
  ⟨.composite [.column .int32], .composite, .row, widestConfig,
    .owned (Table.smallTable.withTag (KeyType.layoutTag (.composite [.column .int32]))), #[], 0, false, #[]⟩

theorem new_widest : new (.composite [.column .int32]) [] widestConfig = .ok widestRelation := by
  have hcreate : Table.create widestConfig = .ok Table.smallTable := by decide +kernel
  have hdetached : detached (.composite [.column .int32]) [] =
      .ok { widestRelation with table := .absent, config := resolve (.composite [.column .int32]) {} } := rfl
  have hresolve : resolve (.composite [.column .int32]) widestConfig = widestConfig := rfl
  rw [new, hdetached, hresolve, hcreate]
  rfl

/-- what the receiver has after it imported the table that was sent -/
def receiving : Relation := awaiting.withView sentTable.view

theorem exported_sent : sentRelation.exportTable somewhere = .ok (sentTable.view.extents somewhere) :=
  exportTable_eq_ok (by rw [table_sent]; rfl) somewhere

theorem run_receiving : (importTable (sentTable.view.extents somewhere)).run awaiting = .ok () receiving := by
  obtain ⟨log, hlog⟩ := sound_of_reachable reachable_sent _ table_sent
  have hvalid : sentTable.view.Valid := Table.valid_view hlog (by decide +kernel)
  exact (importTable_extents hvalid sound_somewhere).2 ⟨by decide +kernel, rfl⟩

/-- a receiver with the default configuration takes a table with a small budget; and a table does not know the width of
all ones -/
theorem config_misleads :
    (∃ handles r, sentRelation.Reachable ∧ awaiting.Reachable ∧ sentRelation.exportTable somewhere = .ok handles ∧
        (importTable handles).run awaiting = .ok () r ∧
        r.config.check = .error (.initialBytesOverBudget 1048576 200)) ∧
      ∃ r v, new (.composite [.column .int32]) [] widestConfig = .ok r ∧ r.table.view? = some v ∧
        r.config.keySize = some allOnes ∧ v.keySize? = none :=
  ⟨⟨_, receiving, reachable_sent, reachable_awaiting, exported_sent, run_receiving, by decide +kernel⟩,
    widestRelation, _, new_widest, rfl, rfl, by decide +kernel⟩

/-- the sender's configuration passes the check and gives the budget of its table; the receiver's does not pass, and
gives the same budget -/
theorem config_of_reachable_sent :
    sentRelation.config.check = .ok () ∧ sentTable.view.header.maxBytes = sentRelation.config.maxBytes ∧
      receiving.config.check ≠ .ok () ∧ sentTable.view.header.maxBytes = receiving.config.maxBytes := by
  have hreceiving : receiving.Reachable := by
    have := Reachable.step (.importTable (sentTable.view.extents somewhere)) reachable_awaiting
    rwa [show (Call.importTable (sentTable.view.extents somewhere)).act.after awaiting = receiving from
      Action.after_of_ok run_receiving] at this
  obtain ⟨hcheck, -, hsent, -⟩ := config_of_reachable reachable_sent
  obtain ⟨-, hbudget, hreceived, -⟩ := config_of_reachable hreceiving
  refine ⟨hcheck _ table_sent, (hsent _ (by rw [table_sent]; rfl)).1, ?_, (hreceived _ rfl).1⟩
  rw [ne_eq, hbudget (by decide)]
  decide +kernel

end Relation

end EquiJoin
