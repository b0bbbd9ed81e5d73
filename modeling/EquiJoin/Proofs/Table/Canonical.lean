/-
Two tables side by side. What a table hands over is fixed by its log, its capacity, its budget, its key size and its
tag. How large it was at first, how often its slots and its region were enlarged and when, which load it allowed and
what it refused leave no trace in it.

* `view_eq`: tables that agree in these show their readers the same view;
* `log_eq`: and the bytes that they show have one log only;
* `sameImage_iff`: the regions of two tables are the same word for word exactly if the tables agree in these.
-/
import EquiJoin.Proofs.Table.Representation

namespace EquiJoin

theorem Header.words_injective {h h' : Header} (heq : h.words = h'.words) : h = h' := by
  cases h
  cases h'
  simpa [words] using heq

namespace Table

variable {t t' : Table} {log log' : List Record}

/-! ## From the log to the image -/

/-- tables of one log and one capacity have the same slots and the same used bytes -/
theorem view_eq (h : t.Holds log) (h' : t'.Holds log) (hcapacity : t.capacity = t'.capacity)
    (hmax : t.maxBytes = t'.maxBytes) (hkey : t.keySize = t'.keySize) (htag : t.tag = t'.tag) : t.view = t'.view := by
  have hmask : t.mask = t'.mask := by rw [mask, mask, hcapacity]
  have hheader : t.header = t'.header := by
    rw [header, header, hcapacity, hmax, hkey, htag, h.cursor, h'.cursor, h.count, h'.count]
  have hslots : t.slots = t'.slots := by rw [h.slots, h'.slots, hcapacity, hmask]
  have hbytes : t.view.bytes = t'.view.bytes :=
    Array.toList_inj.1 (by rw [toList_view_bytes h, toList_view_bytes h', hmask])
  exact View.mk.injEq .. ▸ ⟨hheader, hslots, hbytes⟩

/-! ## And back -/

/-- the used bytes read back as the log -/
theorem entriesFrom_view (h : t.Holds log) :
    entriesFrom t.view.bytes t.view.bytes.size 0 = some (placed t.mask (layout 0 log)) := by
  have hcursor : t.view.bytes.size = total log := (size_view_bytes h).trans h.cursor
  have hbytes : t.view.bytes.toList = [] ++ (image t.mask (layout ([] : Bytes).length log) ++ []) := by
    simpa using toList_view_bytes h
  have := entriesFrom_image log h.fits hbytes
  simpa [hcursor] using this

theorem log_eq (h : t.Holds log) (h' : t'.Holds log') (hbytes : t.view.bytes = t'.view.bytes) : log = log' := by
  have hread := entriesFrom_view h
  rw [hbytes, entriesFrom_view h', Option.some_inj] at hread
  rw [← records_placed t.mask 0 log, ← hread, records_placed]

/-! ## Two tables -/

/-- the regions that two tables hand over are the same word for word, wherever they lie -/
structure SameImage (t t' : Table) : Prop where
  control : t.view.header.words = t'.view.header.words
  slots : Slot.words t.view.slots = Slot.words t'.view.slots
  bytes : t.view.bytes = t'.view.bytes
  regions : ∀ p p', (t.view.extents p).map Extent.bytes = (t'.view.extents p').map Extent.bytes

/-- **The image of a table carries no history.** Take two tables that any calls have led to, each from its own
configuration. Their control blocks, their slots and the used bytes of their regions are the same word for word exactly
if both have stored the same records in the same order and have the same capacity, budget, key size and tag. -/
theorem sameImage_iff (h : t.Logged log) (h' : t'.Logged log') :
    t.SameImage t' ↔
      log = log' ∧ t.capacity = t'.capacity ∧ t.maxBytes = t'.maxBytes ∧ t.keySize = t'.keySize ∧ t.tag = t'.tag := by
  constructor
  · intro himage
    have hheader : t.header = t'.header := Header.words_injective himage.control
    obtain ⟨hcapacity, hmax, -, -⟩ := toNat_header h.holds
    obtain ⟨hcapacity', hmax', -, -⟩ := toNat_header h'.holds
    refine ⟨log_eq h.holds h'.holds himage.bytes, ?_, ?_, ?_, ?_⟩
    · rw [← hcapacity, hheader, hcapacity']
    · rw [← hmax, hheader, hmax']
    · rw [← keySize?_view h.holds, ← keySize?_view h'.holds]
      exact congrArg Header.keySize? hheader
    · exact congrArg Header.tag hheader
  · rintro ⟨rfl, hcapacity, hmax, hkey, htag⟩
    have hview := view_eq h.holds h'.holds hcapacity hmax hkey htag
    exact {
      control := by rw [hview]
      slots := by rw [hview]
      bytes := by rw [hview]
      regions := fun p p' => by
        rw [hview]
        rfl }

/-- as many slots as `smallTable` ends up with, every one of which may be filled -/
def roomyConfig : Config :=
  { initialCapacity := 16, maxBytes := 200, initialBytes := 200, loadFactor := ⟨0x3ff0000000000000⟩ }

def roomyTable : Table := ⟨16, 200, none, 0, roomyConfig.loadFactor, 0, 0, emptySlots 16, Region.zeros 200⟩

/-- what `smallCalls` store, one call for each record -/
def roomyCalls : List Call := smallLog.map fun n => .insert n.hash n.key n.payload

/-- three growths, an enlarged region and a refusal on one side, none of these on the other -/
theorem sameImage_iff_small :
    (run smallTable smallCalls).Logged smallLog ∧ (run roomyTable roomyCalls).Logged smallLog ∧
      (run smallTable smallCalls).SameImage (run roomyTable roomyCalls) := by
  have hc : create roomyConfig = .ok roomyTable := by decide +kernel
  have hlog : accepted roomyTable roomyCalls = smallLog := by decide +kernel
  have hroomy : (run roomyTable roomyCalls).Logged smallLog := by
    have := logged_run (.create hc) roomyCalls
    rwa [List.nil_append, hlog] at this
  have hcapacity : (run smallTable smallCalls).capacity = 16 ∧ (run roomyTable roomyCalls).capacity = 16 := by
    decide +kernel
  have hkept : smallTable.Keeps (run smallTable smallCalls) := keeps_run (create_holds create_small) smallCalls
  have hkept' : roomyTable.Keeps (run roomyTable roomyCalls) := keeps_run (create_holds hc) roomyCalls
  refine ⟨logged_small, hroomy, (sameImage_iff logged_small hroomy).2 ⟨rfl, ?_, ?_, ?_, ?_⟩⟩
  · rw [hcapacity.1, hcapacity.2]
  · rw [hkept.maxBytes, hkept'.maxBytes]
    rfl
  · rw [hkept.keySize, hkept'.keySize]
    rfl
  · rw [hkept.tag, hkept'.tag]
    rfl

end Table

end EquiJoin
