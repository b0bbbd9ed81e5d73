/-
The memory of a table as a function of what was inserted into it. The records lie one after another in the order of
their insertion (`layout`); those of one slot form its `bucket`. `image` gives the bytes: every record is linked with
the next one of its bucket, the last one ends the chain, and the padding is zero. `slotArray` gives the slots: the first
and the last record of every bucket. Nothing else enters, so a table whose memory is the image of its log carries no
trace of how it grew.

* `image_snoc_of_bucket_eq_nil`, `image_snoc_of_getLast?`: one more record at the end adds its bytes, and where its
  bucket had a last record, that record's link;
* `link_snoc`: linking an unlinked record that lies behind an image gives the image with that record;
* `relink_eq`: relinking the image for one mask under another mask gives the image for the other.
-/
import EquiJoin.Proofs.Table.Codec
import EquiJoin.Table.Basic
import Mathlib.Tactic.Common

namespace EquiJoin

/-- what one insertion stores -/
structure Record where
  hash : UInt64
  key : Bytes
  payload : Bytes
  deriving DecidableEq, Repr

namespace Record

/-- bytes that a record takes in the region, padding included -/
def size (n : Record) : Nat := Entry.size n.key.length n.payload.length

def entry (n : Record) (next : Link) : Entry := ⟨next, n.hash, n.key, n.payload⟩

/-- the slot that a record belongs to; which one it is matters only where slots are picked by a hash -/
@[irreducible] def slot (mask : UInt64) (n : Record) : Nat := Slot.index mask n.hash

theorem slot_eq (mask : UInt64) (n : Record) : n.slot mask = Slot.index mask n.hash := by rw [slot]

def padding (n : Record) : Bytes := List.replicate (n.size - Entry.bareSize n.key n.payload) 0

/-- the bytes of a record, padding included -/
def image (n : Record) (next : Link) : Bytes := (n.entry next).encode ++ n.padding

/-- the bytes of a record after its link -/
def body (n : Record) : Bytes :=
  LittleEndian.encode 8 n.hash.toNat ++ LittleEndian.encode 4 n.key.length ++
    LittleEndian.encode 4 n.payload.length ++ n.key ++ n.payload ++ n.padding

theorem image_eq (n : Record) (next : Link) : n.image next = LittleEndian.encode 8 next.toNat ++ n.body := by
  simp [image, entry, Entry.encode, body]

/-- lengths that the header of an entry can hold -/
structure Fits (n : Record) : Prop where
  key_lt : n.key.length < 2 ^ 32
  payload_lt : n.payload.length < 2 ^ 32

theorem bareSize_le_size (n : Record) : Entry.bareSize n.key n.payload ≤ n.size := by
  unfold size Entry.size Entry.alignUp Entry.bareSize
  omega

theorem headerSize_le_size (n : Record) : Entry.headerSize ≤ n.size :=
  Nat.le_trans (by unfold Entry.bareSize; omega) n.bareSize_le_size

@[simp] theorem length_image (n : Record) (next : Link) : (n.image next).length = n.size := by
  have h := n.bareSize_le_size
  simp only [image, List.length_append, Entry.length_encode, padding, List.length_replicate, entry]
  omega

end Record

/-! ## Records in their places -/

/-- the records from `off` on, one after another, each with its offset -/
def layout : Nat → List Record → List (Nat × Record)
  | _, [] => []
  | off, n :: ns => (off, n) :: layout (off + n.size) ns

/-- bytes that records take together -/
def total (ns : List Record) : Nat := (ns.map Record.size).sum

/-- the records of one slot, in their order -/
def bucket (mask : UInt64) (b : Nat) (ps : List (Nat × Record)) : List (Nat × Record) :=
  ps.filter fun p => p.2.slot mask = b

/-- the link that leads to a record; without one it ends the chain -/
def linkTo : Option (Nat × Record) → Link
  | none => allOnes
  | some p => UInt64.ofNat p.1

/-- the bytes of records in their places, linked bucket by bucket -/
def image (mask : UInt64) : List (Nat × Record) → Bytes
  | [] => []
  | p :: ps => p.2.image (linkTo (bucket mask (p.2.slot mask) ps).head?) ++ image mask ps

/-- the first and the last record of every bucket -/
def slotArray (capacity : Nat) (mask : UInt64) (ps : List (Nat × Record)) : Array Slot :=
  Array.ofFn fun b : Fin capacity => ⟨linkTo (bucket mask b ps).head?, linkTo (bucket mask b ps).getLast?⟩

@[simp] theorem total_nil : total [] = 0 := rfl

@[simp] theorem total_cons (n : Record) (ns : List Record) : total (n :: ns) = n.size + total ns := by
  simp [total]

@[simp] theorem total_append (ns ms : List Record) : total (ns ++ ms) = total ns + total ms := by
  simp [total]

theorem layout_append (off : Nat) (ns ms : List Record) :
    layout off (ns ++ ms) = layout off ns ++ layout (off + total ns) ms := by
  induction ns generalizing off with
  | nil => simp [layout]
  | cons n ns ih => simp [layout, ih, Nat.add_assoc]

theorem bounds_of_mem_layout {off : Nat} {ns : List Record} {p : Nat × Record} (h : p ∈ layout off ns) :
    off ≤ p.1 ∧ p.1 + p.2.size ≤ off + total ns := by
  induction ns generalizing off with
  | nil => simp [layout] at h
  | cons n ns ih =>
    rw [total_cons]
    rcases List.mem_cons.1 h with rfl | h
    · exact ⟨Nat.le_refl _, by simp only; omega⟩
    · have := ih h; omega

theorem bucket_append (mask : UInt64) (b : Nat) (ps qs : List (Nat × Record)) :
    bucket mask b (ps ++ qs) = bucket mask b ps ++ bucket mask b qs := List.filter_append ..

theorem bucket_cons_of_eq {mask : UInt64} {b : Nat} {p : Nat × Record} (h : p.2.slot mask = b)
    (ps : List (Nat × Record)) : bucket mask b (p :: ps) = p :: bucket mask b ps :=
  List.filter_cons_of_pos (by simpa using h)

theorem bucket_cons_of_ne {mask : UInt64} {b : Nat} {p : Nat × Record} (h : p.2.slot mask ≠ b)
    (ps : List (Nat × Record)) : bucket mask b (p :: ps) = bucket mask b ps :=
  List.filter_cons_of_neg (by simpa using h)

/-- a record at the end joins its own bucket only -/
theorem bucket_snoc_of_ne {mask : UInt64} {b : Nat} {p : Nat × Record} (h : p.2.slot mask ≠ b)
    (ps : List (Nat × Record)) : bucket mask b (ps ++ [p]) = bucket mask b ps := by
  rw [bucket_append, bucket_cons_of_ne h]
  exact List.append_nil _

theorem bucket_snoc_of_eq {mask : UInt64} {b : Nat} {p : Nat × Record} (h : p.2.slot mask = b)
    (ps : List (Nat × Record)) : bucket mask b (ps ++ [p]) = bucket mask b ps ++ [p] := by
  rw [bucket_append, bucket_cons_of_eq h]; rfl

theorem mem_of_mem_bucket {mask : UInt64} {b : Nat} {p : Nat × Record} {ps : List (Nat × Record)}
    (h : p ∈ bucket mask b ps) : p ∈ ps := (List.mem_filter.1 h).1

@[simp] theorem length_image (mask : UInt64) (off : Nat) (ns : List Record) :
    (image mask (layout off ns)).length = total ns := by
  induction ns generalizing off with
  | nil => rfl
  | cons n ns ih => simp [layout, image, ih]

@[simp] theorem size_slotArray (capacity : Nat) (mask : UInt64) (ps : List (Nat × Record)) :
    (slotArray capacity mask ps).size = capacity := by
  simp [slotArray]

theorem getElem?_slotArray {capacity : Nat} {mask : UInt64} {b : Nat} (h : b < capacity) (ps : List (Nat × Record)) :
    (slotArray capacity mask ps)[b]? =
      some ⟨linkTo (bucket mask b ps).head?, linkTo (bucket mask b ps).getLast?⟩ := by
  simp [slotArray, h]

theorem slotArray_nil (capacity : Nat) (mask : UInt64) : slotArray capacity mask [] = Table.emptySlots capacity := by
  apply Array.ext_getElem?
  intro b
  by_cases h : b < capacity
  · rw [getElem?_slotArray h]
    simp [Table.emptySlots, h, bucket, linkTo, Slot.empty]
  · rw [Array.getElem?_eq_none (by simpa using h), Array.getElem?_eq_none (by simpa [Table.emptySlots] using h)]

/-! ## One more record -/

/-- a bucket with a record in it keeps its first one -/
theorem head?_bucket_snoc {mask : UInt64} {p : Nat × Record} {ps : List (Nat × Record)}
    (h : bucket mask (p.2.slot mask) ps ≠ []) (b : Nat) :
    (bucket mask b (ps ++ [p])).head? = (bucket mask b ps).head? := by
  by_cases hb : p.2.slot mask = b
  · subst hb
    rw [bucket_snoc_of_eq rfl, List.head?_append, Option.or_of_isSome (by simpa using h)]
  · rw [bucket_snoc_of_ne hb]

/-- the first record of its bucket changes no byte before it -/
theorem image_snoc_of_bucket_eq_nil {mask : UInt64} {p : Nat × Record} {ps : List (Nat × Record)}
    (h : bucket mask (p.2.slot mask) ps = []) : image mask (ps ++ [p]) = image mask ps ++ p.2.image allOnes := by
  induction ps with
  | nil => simp [image, bucket, linkTo]
  | cons q ps ih =>
    have hq : q.2.slot mask ≠ p.2.slot mask := by
      intro hq
      rw [bucket_cons_of_eq hq] at h
      cases h
    rw [bucket_cons_of_ne hq] at h
    rw [List.cons_append, image, image, bucket_snoc_of_ne (Ne.symm hq), ih h, List.append_assoc]

/-- any other record changes one link before it: that of the last record of its bucket -/
theorem image_snoc_of_getLast? {mask : UInt64} {p q : Nat × Record} {off : Nat} {ns : List Record}
    (h : (bucket mask (p.2.slot mask) (layout off ns)).getLast? = some q) :
    ∃ pre post, off + pre.length = q.1 ∧
      image mask (layout off ns) = pre ++ LittleEndian.encode 8 allOnes.toNat ++ post ∧
      image mask (layout off ns ++ [p]) =
        pre ++ LittleEndian.encode 8 (UInt64.ofNat p.1).toNat ++ (post ++ p.2.image allOnes) := by
  induction ns generalizing off with
  | nil => simp [layout, bucket] at h
  | cons n ns ih =>
    rw [layout] at h ⊢
    cases hb : (bucket mask (p.2.slot mask) (layout (off + n.size) ns)).getLast? with
    | some q' =>
      have hne : bucket mask (p.2.slot mask) (layout (off + n.size) ns) ≠ [] := by
        intro he; rw [he] at hb; cases hb
      have hq : q = q' := by
        by_cases hn : n.slot mask = p.2.slot mask
        · rw [bucket_cons_of_eq hn, List.getLast?_cons, hb] at h
          simpa using h.symm
        · rw [bucket_cons_of_ne hn, hb] at h
          simpa using h.symm
      obtain ⟨pre, post, hoff, himage, hsnoc⟩ := ih (hq ▸ hb)
      refine ⟨n.image (linkTo (bucket mask (n.slot mask) (layout (off + n.size) ns)).head?) ++ pre, post, ?_, ?_, ?_⟩
      · rw [← hoff, List.length_append, Record.length_image, Nat.add_assoc]
      · simp only [image, himage, List.append_assoc]
      · rw [List.cons_append, image, head?_bucket_snoc hne, hsnoc]
        simp only [List.append_assoc]
    | none =>
      have hnil : bucket mask (p.2.slot mask) (layout (off + n.size) ns) = [] := List.getLast?_eq_none_iff.1 hb
      have hn : n.slot mask = p.2.slot mask := by
        by_contra hn
        rw [bucket_cons_of_ne hn, hb] at h
        cases h
      rw [bucket_cons_of_eq hn, hnil] at h
      cases h
      refine ⟨[], n.body ++ image mask (layout (off + n.size) ns), rfl, ?_, ?_⟩
      · rw [image, hn, hnil, Record.image_eq]
        simp [linkTo]
      · rw [List.cons_append, image, hn, bucket_snoc_of_eq rfl, hnil, image_snoc_of_bucket_eq_nil hnil, Record.image_eq]
        simp [linkTo]

/-- one more record becomes the last one of its slot, and the first one too if there was none -/
theorem slotArray_snoc {capacity : Nat} {mask : UInt64} {p : Nat × Record} (ps : List (Nat × Record)) :
    slotArray capacity mask (ps ++ [p]) =
      (slotArray capacity mask ps).setIfInBounds (p.2.slot mask)
        ⟨linkTo (bucket mask (p.2.slot mask) (ps ++ [p])).head?, UInt64.ofNat p.1⟩ := by
  apply Array.ext_getElem?
  intro b
  rw [Array.getElem?_setIfInBounds, size_slotArray]
  by_cases h : b < capacity
  · rw [getElem?_slotArray h]
    by_cases hb : p.2.slot mask = b
    · subst hb
      rw [if_pos rfl, if_pos h, bucket_snoc_of_eq rfl]
      simp [linkTo]
    · rw [if_neg hb, getElem?_slotArray h, bucket_snoc_of_ne hb]
  · rw [Array.getElem?_eq_none (by simpa using h)]
    by_cases hb : p.2.slot mask = b
    · rw [if_pos hb, if_neg (hb ▸ h)]
    · rw [if_neg hb, Array.getElem?_eq_none (by simpa using h)]

theorem layout_snoc (ns : List Record) (n : Record) : layout 0 (ns ++ [n]) = layout 0 ns ++ [(total ns, n)] := by
  rw [layout_append]
  simp [layout]

theorem ofNat_ne_allOnes {off : Nat} (h : off + 24 ≤ 2 ^ 64) : UInt64.ofNat off ≠ allOnes := by
  intro he
  have := congrArg UInt64.toNat he
  rw [UInt64.toNat_ofNat', Nat.mod_eq_of_lt (by omega)] at this
  have : allOnes.toNat = 2 ^ 64 - 1 := rfl
  omega

/-- linking an unlinked record that lies behind an image gives the image with that record -/
theorem link_snoc {capacity : Nat} {mask : UInt64} {ns : List Record} {n : Record} {r : Region} {rest : Bytes}
    (hm : n.slot mask < capacity) (hb : total ns + n.size ≤ 2 ^ 64)
    (hr : r.toList = image mask (layout 0 ns) ++ n.image allOnes ++ rest) :
    Slot.linkable (slotArray capacity mask (layout 0 ns)) r mask n.hash = true ∧
      ∃ r', Slot.link (slotArray capacity mask (layout 0 ns)) r mask n.hash (UInt64.ofNat (total ns)) =
          (slotArray capacity mask (layout 0 (ns ++ [n])), r') ∧
        r'.toList = image mask (layout 0 (ns ++ [n])) ++ rest := by
  have hsize : r.size = total ns + n.size + rest.length := by
    rw [← Array.length_toList, hr]; simp [Nat.add_assoc]
  rw [Slot.linkable, Slot.link, ← Record.slot_eq, getElem?_slotArray hm, layout_snoc, slotArray_snoc]
  cases hl : (bucket mask (n.slot mask) (layout 0 ns)).getLast? with
  | none =>
    have hnil : bucket mask (n.slot mask) (layout 0 ns) = [] := List.getLast?_eq_none_iff.1 hl
    refine ⟨by simp [linkTo], r, ?_, ?_⟩
    · simp only [linkTo, ↓reduceIte, bucket_snoc_of_eq, hnil]
      rfl
    · rw [hr, image_snoc_of_bucket_eq_nil hnil]
  | some q =>
    have hne : bucket mask (n.slot mask) (layout 0 ns) ≠ [] := by
      intro he; rw [he] at hl; cases hl
    have hq := bounds_of_mem_layout (mem_of_mem_bucket (List.mem_of_getLast? hl))
    have hq24 : 24 ≤ q.2.size := q.2.headerSize_le_size
    have htail : linkTo (some q) ≠ allOnes := ofNat_ne_allOnes (by omega)
    have hplace : (linkTo (some q)).toNat = q.1 := by
      rw [linkTo, UInt64.toNat_ofNat', Nat.mod_eq_of_lt (by omega)]
    refine ⟨by simp only [hplace, htail, decide_false, Bool.false_or, decide_eq_true_eq]; omega, ?_⟩
    simp only [if_neg htail, hplace]
    obtain ⟨pre, post, hoff, himage, hsnoc⟩ := image_snoc_of_getLast? (p := (total ns, n)) hl
    refine ⟨_, by rw [head?_bucket_snoc hne], ?_⟩
    have hr' : r.toList = pre ++ LittleEndian.encode 8 allOnes.toNat ++ (post ++ n.image allOnes ++ rest) := by
      rw [hr, himage]; simp only [List.append_assoc]
    rw [← hoff, Nat.zero_add, Region.toList_overwrite _ hr' (by simp), hsnoc]
    simp only [List.append_assoc]

/-! ## Relinking -/

/-- an entry of an image decodes to its record -/
theorem decode?_image {r : Region} {pre post : Bytes} {n : Record} {next : Link} (hn : n.Fits)
    (h : r.toList = pre ++ (n.image next ++ post)) : Entry.decode? r pre.length = some (n.entry next) := by
  have hentry : r.toList = pre ++ ((n.entry next).encode ++ (n.padding ++ post)) := by
    rw [h, Record.image]
    simp only [List.append_assoc]
  exact Entry.decode?_of_toList hentry hn.key_lt hn.payload_lt

/-- relinking the records from the first unlinked one on, whatever links they had before -/
theorem relink_eq {capacity : Nat} {mask old : UInt64} (hm : ∀ h, Slot.index mask h < capacity)
    (todo done : List Record) {r : Region} {rest : Bytes} (hfits : ∀ n ∈ todo, n.Fits)
    (hb : total (done ++ todo) < 2 ^ 64)
    (hr : r.toList = image mask (layout 0 done) ++ image old (layout (total done) todo) ++ rest) :
    ∃ r', Table.relink mask (total (done ++ todo)) (total done) (slotArray capacity mask (layout 0 done)) r =
        some (slotArray capacity mask (layout 0 (done ++ todo)), r') ∧
      r'.toList = image mask (layout 0 (done ++ todo)) ++ rest := by
  induction todo generalizing done r with
  | nil =>
    refine ⟨r, ?_, ?_⟩
    · rw [Table.relink, if_neg (by simp), List.append_nil]
    · simpa [layout, image] using hr
  | cons n todo ih =>
    have hsize : 24 ≤ n.size := n.headerSize_le_size
    have htotal : total (done ++ n :: todo) = total done + n.size + total todo := by simp [Nat.add_assoc]
    rw [htotal] at hb ⊢
    rw [layout, image] at hr
    set next := linkTo (bucket old (n.slot old) (layout (total done + n.size) todo)).head?
    set later := image old (layout (total done + n.size) todo)
    -- the entry is read, cut off from its old chain, and put at the end of its new one
    have hdecode : Entry.decode? r (total done) = some (n.entry next) := by
      have hread : r.toList = image mask (layout 0 done) ++ (n.image next ++ (later ++ rest)) := by
        rw [hr]
        simp only [List.append_assoc]
      have := decode?_image (hfits n List.mem_cons_self) hread
      rwa [length_image] at this
    have hcut : (r.overwrite (total done) (LittleEndian.encode 8 allOnes.toNat)).toList =
        image mask (layout 0 done) ++ n.image allOnes ++ (later ++ rest) := by
      have hsplit : r.toList = image mask (layout 0 done) ++ LittleEndian.encode 8 next.toNat ++
          (n.body ++ (later ++ rest)) := by
        rw [hr, Record.image_eq]
        simp only [List.append_assoc]
      have := Region.toList_overwrite (LittleEndian.encode 8 allOnes.toNat) hsplit (by simp)
      rw [length_image] at this
      rw [this, Record.image_eq]
      simp only [List.append_assoc]
    have hslot : n.slot mask < capacity := n.slot_eq mask ▸ hm n.hash
    obtain ⟨hlinkable, r', hlink, hr'⟩ := link_snoc hslot (by omega) hcut
    obtain ⟨r'', hrest, hr''⟩ := ih (done ++ [n]) (r := r') (fun m hmem => hfits m (List.mem_cons_of_mem n hmem))
      (by simpa [Nat.add_assoc] using hb) (by rw [hr', total_append, List.append_assoc]; simp [later])
    refine ⟨r'', ?_, by rw [hr'']; simp⟩
    rw [Table.relink, if_pos (by omega), hdecode]
    simp only [Slot.link?, Record.entry, hlinkable, ↓reduceIte, hlink]
    simpa [Entry.encodedSize, Record.entry, Record.size, Nat.add_assoc] using hrest

end EquiJoin
