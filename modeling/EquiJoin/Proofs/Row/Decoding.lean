/-
Reading encoded rows back. Nothing separates the fields of a row, but the domains say how each of them is written: a
null bit alone, eight bytes, or a length and so many bytes. A reader that is given the domains finds every boundary, so
a row keeps all of its fields.

* `readField_fieldBytes`: a field that is not null can be read back, whatever follows it;
* `readFields_body`: so can all of them, one after another;
* `bytes_eq_iff`: rows over the same domains are equal byte strings exactly if their fields have equal bytes;
* `length_eq_of_bytes`: rows without nulls whose domains agree as far as both go are equal byte strings only if they
  have equally many fields;
* `uniquely_decodable`: rows that any calls complete are read back, and are told apart by the values of their fields.
-/
import EquiJoin.Proofs.Row.Encoding

namespace EquiJoin

/-- the key is null or of this domain -/
def Key.Over (k : Key) (d : KeyDomain) : Prop := k.isNull = true ∨ k.domain = d

instance (k : Key) (d : KeyDomain) : Decidable (k.Over d) := inferInstanceAs (Decidable (_ ∨ _))

namespace Row

/-! ## A reader -/

/-- the first `n` bytes and the rest, if there are so many -/
def split? (n : Nat) (bs : Bytes) : Option (Bytes × Bytes) :=
  if n ≤ bs.length then some (bs.take n, bs.drop n) else none

/-- read a field of this domain -/
def readField (d : KeyDomain) (bs : Bytes) : Option (KeyBytes × Bytes) :=
  if d.isScalar then do
    let (word, rest) ← split? 8 bs
    return (.scalar (UInt64.ofNat (LittleEndian.decode word)), rest)
  else do
    let (size, rest) ← split? 4 bs
    let (content, rest) ← split? (LittleEndian.decode size) rest
    return (.slice content, rest)

/-- read a field of each domain, the first of them field `i`, and nothing else -/
def readFields (nullBits : Bytes) : Nat → List KeyDomain → Bytes → Option (List (Option KeyBytes))
  | _, [], bs => if bs.isEmpty then some [] else none
  | i, d :: ds, bs =>
    if nullBit nullBits i then return none :: (← readFields nullBits (i + 1) ds bs)
    else do
      let (b, rest) ← readField d bs
      return some b :: (← readFields nullBits (i + 1) ds rest)

/-- read a complete row over these domains -/
def decode? (ds : List KeyDomain) (bs : Bytes) : Option (List (Option KeyBytes)) := do
  let (nullBits, body) ← split? (nullBytes ds.length) bs
  readFields nullBits 0 ds body

/-! ## Reading what was written -/

theorem split?_append {n : Nat} {xs : Bytes} (h : xs.length = n) (ys : Bytes) :
    split? n (xs ++ ys) = some (xs, ys) := by
  subst h
  simp [split?]

/-- a field that is not null can be read back, whatever follows it -/
theorem readField_fieldBytes {k : Key} {d : KeyDomain} {b : KeyBytes} (hb : k.bytes? = some b) (hd : k.domain = d)
    (hfits : fitsField k) (rest : Bytes) : readField d (fieldBytes k ++ rest) = some (b, rest) := by
  have hscalar := (Key.canonical_of_bytes? hb).isScalar_eq
  rw [hd] at hscalar
  cases b with
  | scalar w =>
    have hword : UInt64.ofNat (LittleEndian.decode (LittleEndian.encode 8 w.toNat)) = w := by
      have hlt : w.toNat < 1 <<< (8 * 8) := w.toNat_lt
      rw [LittleEndian.decode_encode, Nat.mod_eq_of_lt hlt, UInt64.ofNat_toNat]
    rw [readField, ← hscalar, fieldBytes, hb, spelled]
    simp [KeyBytes.isScalar, split?_append, hword]
  | slice bs =>
    simp only [fitsField, hb, decide_eq_true_eq] at hfits
    have hsize : LittleEndian.decode (LittleEndian.encode 4 bs.length) = bs.length := by
      have hlt : bs.length < 1 <<< (8 * 4) := hfits
      rw [LittleEndian.decode_encode, Nat.mod_eq_of_lt hlt]
    rw [readField, ← hscalar, fieldBytes, hb, spelled, List.append_assoc]
    simp [KeyBytes.isScalar, split?_append, hsize]

/-- the fields can be read back one after another; `i` of them are read -/
theorem readFields_flatMap {nullBits : Bytes} {ks : List Key} {ds : List KeyDomain} (i : Nat)
    (hd : List.Forall₂ Key.Over ks ds) (hnull : ∀ j, nullBit nullBits (i + j) = ks[j]?.any Key.isNull)
    (hfits : ∀ k ∈ ks, fitsField k) :
    readFields nullBits i ds (ks.flatMap fieldBytes) = some (ks.map Key.bytes?) := by
  induction hd generalizing i with
  | nil => rfl
  | @cons k d ks ds hover _ ih =>
    have hfirst : nullBit nullBits i = k.isNull := by simpa using hnull 0
    have hrest := ih (i + 1) (fun j => by simpa [Nat.add_assoc, Nat.add_comm 1] using hnull (j + 1))
      fun k' hk' => hfits k' (List.mem_cons_of_mem k hk')
    rw [readFields, hfirst, List.flatMap_cons, List.map_cons]
    cases hb : k.bytes? with
    | none => simp [Key.isNull, fieldBytes, spelled, hb, hrest]
    | some b =>
      have hnot : k.isNull = false := by simp [Key.isNull, hb]
      have hdomain : k.domain = d := hover.resolve_left (by simp [hnot])
      simp [hnot, readField_fieldBytes hb hdomain (hfits k List.mem_cons_self), hrest]

/-- the fields of a row can be read back from its null bits and the bytes behind them -/
theorem readFields_body {r : Row} {ks : List Key} {ds : List KeyDomain} (h : r.Encodes ks)
    (hd : List.Forall₂ Key.Over ks ds) : readFields r.nullBits 0 ds r.body = some (ks.map Key.bytes?) := by
  rw [h.body]
  exact readFields_flatMap 0 hd (fun j => by rw [Nat.zero_add, h.null j]) h.fits

/-- a complete row can be read back from its bytes -/
theorem decode?_bytes {r : Row} {ks : List Key} {ds : List KeyDomain} (h : r.Encodes ks)
    (hd : List.Forall₂ Key.Over ks ds) (hn : r.fields = ds.length) : decode? ds r.bytes = some (ks.map Key.bytes?) := by
  have hsplit : split? (nullBytes ds.length) r.bytes = some (r.nullBits, r.body) :=
    split?_append (by rw [h.length_nullBits, hn]) r.body
  rw [decode?, hsplit]
  exact readFields_body h hd

/-! ## Equal rows -/

/-- rows of one size whose fields have equal bytes are equal byte strings -/
theorem bytes_eq_of_map_bytes? {r r' : Row} {ks ks' : List Key} (h : r.Encodes ks) (h' : r'.Encodes ks')
    (hf : r.fields = r'.fields) (hk : ks.map Key.bytes? = ks'.map Key.bytes?) : r.bytes = r'.bytes := by
  have hlen : r.nullBits.length = r'.nullBits.length := by rw [h.length_nullBits, h'.length_nullBits, hf]
  have hnull (i : Nat) : ks[i]?.any Key.isNull = ks'[i]?.any Key.isNull := by
    have := congrArg (fun l => l[i]?) hk
    simp only [List.getElem?_map] at this
    cases hi : ks[i]? <;> cases hi' : ks'[i]? <;> simp_all [Key.isNull]
  have hbits : r.nullBits = r'.nullBits := bits_ext hlen fun i => by rw [h.null i, h'.null i, hnull i]
  have hbody : r.body = r'.body := by
    have := congrArg (List.flatMap spelled) hk
    rw [List.flatMap_map, List.flatMap_map] at this
    rw [h.body, h'.body]
    exact this
  rw [bytes, bytes, hbits, hbody]

/-- rows over the same domains are equal byte strings exactly if their fields have equal bytes -/
theorem bytes_eq_iff {r r' : Row} {ks ks' : List Key} (h : r.Encodes ks) (h' : r'.Encodes ks')
    (hf : r.fields = r'.fields) (hd : ks.map Key.domain = ks'.map Key.domain) :
    r.bytes = r'.bytes ↔ ks.map Key.bytes? = ks'.map Key.bytes? := by
  have hover (l : List Key) : List.Forall₂ Key.Over l (l.map Key.domain) :=
    List.forall₂_map_right_iff.2 (List.forall₂_same.2 fun _ _ => Or.inr rfl)
  constructor
  · intro hb
    obtain ⟨hbits, hbody⟩ := List.append_inj hb (by rw [h.length_nullBits, h'.length_nullBits, hf])
    have hread := readFields_body h (hover ks)
    rw [hbits, hbody, readFields_body h' (hd ▸ hover ks')] at hread
    exact (Option.some.inj hread).symm
  · exact bytes_eq_of_map_bytes? h h' hf

/-- a field that is not null takes some bytes -/
theorem fieldBytes_ne_nil {k : Key} (h : k.isNull = false) : fieldBytes k ≠ [] := by
  unfold Key.isNull at h
  intro hnil
  have hlen := congrArg List.length hnil
  cases hb : k.bytes? with
  | none => simp [hb] at h
  | some b => cases b <;> simp [fieldBytes, spelled, hb] at hlen

/-- behind fields of one domain that are not null the same bytes go on -/
theorem eq_of_fieldBytes_append {k k' : Key} {rest rest' : Bytes} (hd : k.domain = k'.domain) (hn : k.isNull = false)
    (hn' : k'.isNull = false) (hk : fitsField k) (hk' : fitsField k')
    (h : fieldBytes k ++ rest = fieldBytes k' ++ rest') : rest = rest' := by
  rw [Key.isNull, Option.isNone_eq_false_iff, Option.isSome_iff_exists] at hn hn'
  obtain ⟨b, hb⟩ := hn
  obtain ⟨b', hb'⟩ := hn'
  have hread := readField_fieldBytes hb hd hk rest
  rw [h, readField_fieldBytes hb' rfl hk' rest'] at hread
  exact (Prod.mk.inj (Option.some.inj hread)).2.symm

/-- fields that end where others over the same domains go on have other bytes -/
theorem flatMap_fieldBytes_ne {ks ks' : List Key} (hd : ks.map Key.domain <+: ks'.map Key.domain)
    (hlen : ks.length < ks'.length) (hn : ∀ k ∈ ks, k.isNull = false) (hn' : ∀ k ∈ ks', k.isNull = false)
    (hk : ∀ k ∈ ks, fitsField k) (hk' : ∀ k ∈ ks', fitsField k) : ks.flatMap fieldBytes ≠ ks'.flatMap fieldBytes := by
  induction ks generalizing ks' with
  | nil =>
    cases ks' with
    | nil => cases hlen
    | cons k' ks' =>
      intro h
      rw [List.flatMap_cons] at h
      exact fieldBytes_ne_nil (hn' k' List.mem_cons_self) (List.append_eq_nil_iff.1 h.symm).1
  | cons k ks ih =>
    cases ks' with
    | nil => cases hlen
    | cons k' ks' =>
      obtain ⟨hfirst, hrest⟩ := List.cons_prefix_cons.1 hd
      intro h
      rw [List.flatMap_cons, List.flatMap_cons] at h
      have h := eq_of_fieldBytes_append hfirst (hn k List.mem_cons_self) (hn' k' List.mem_cons_self)
        (hk k List.mem_cons_self) (hk' k' List.mem_cons_self) h
      exact ih hrest (Nat.lt_of_succ_lt_succ hlen) (fun x hx => hn x (List.mem_cons_of_mem k hx))
        (fun x hx => hn' x (List.mem_cons_of_mem k' hx)) (fun x hx => hk x (List.mem_cons_of_mem k hx))
        (fun x hx => hk' x (List.mem_cons_of_mem k' hx)) h

/-- rows without nulls whose domains agree as far as both go are equal byte strings only if both have equally many
fields, as long as their null bits take equally many bytes -/
theorem length_eq_of_bytes {r r' : Row} {ks ks' : List Key} (h : r.Encodes ks) (h' : r'.Encodes ks')
    (hf : nullBytes r.fields = nullBytes r'.fields)
    (hd : ks.map Key.domain <+: ks'.map Key.domain ∨ ks'.map Key.domain <+: ks.map Key.domain)
    (hn : ks.any Key.isNull = false) (hn' : ks'.any Key.isNull = false) (hb : r.bytes = r'.bytes) :
    ks.length = ks'.length := by
  have hlen : r.nullBits.length = r'.nullBits.length := by rw [h.length_nullBits, h'.length_nullBits, hf]
  have hbody : ks.flatMap fieldBytes = ks'.flatMap fieldBytes := by
    rw [← h.body, ← h'.body]
    exact (List.append_inj hb hlen).2
  have hnone : ∀ k ∈ ks, k.isNull = false := by simpa using List.any_eq_false.1 hn
  have hnone' : ∀ k ∈ ks', k.isNull = false := by simpa using List.any_eq_false.1 hn'
  by_contra hne
  rcases hd with hd | hd
  · have hle : ks.length ≤ ks'.length := by simpa using hd.length_le
    exact flatMap_fieldBytes_ne hd (Nat.lt_of_le_of_ne hle hne) hnone hnone' h.fits h'.fits hbody
  · have hle : ks'.length ≤ ks.length := by simpa using hd.length_le
    exact flatMap_fieldBytes_ne hd (Nat.lt_of_le_of_ne hle (Ne.symm hne)) hnone' hnone h'.fits h.fits hbody.symm

/-! ## Equal values -/

/-- a null key has neither bytes nor a value -/
theorem eq_none_of_isNull {k : Key} (h : k.isNull = true) : k.bytes? = none ∧ k.value? = none :=
  ⟨Option.isNone_iff_eq_none.1 h, Option.isNone_iff_eq_none.1 (k.isNull_eq ▸ h)⟩

/-- of keys that are null or of one domain, equal bytes are equal values -/
theorem bytes?_eq_iff_of_over {k k' : Key} {d : KeyDomain} (h : k.Over d) (h' : k'.Over d) :
    k.bytes? = k'.bytes? ↔ k.value? = k'.value? := by
  by_cases hnull : k.isNull = k'.isNull
  · by_cases hk : k.isNull = true
    · obtain ⟨hb, hv⟩ := eq_none_of_isNull hk
      obtain ⟨hb', hv'⟩ := eq_none_of_isNull (hnull ▸ hk)
      simp only [hb, hb', hv, hv']
    · exact Key.bytes?_eq_iff ((h.resolve_left hk).trans (h'.resolve_left (hnull ▸ hk)).symm)
  · constructor
    · exact fun h => absurd (congrArg Option.isNone h) hnull
    · exact fun h => absurd (by rw [k.isNull_eq, k'.isNull_eq, h]) hnull

/-- the same for the fields of two rows -/
theorem map_bytes?_eq_iff_of_over {ks ks' : List Key} {ds : List KeyDomain} (h : List.Forall₂ Key.Over ks ds)
    (h' : List.Forall₂ Key.Over ks' ds) : ks.map Key.bytes? = ks'.map Key.bytes? ↔
      ks.map Key.value? = ks'.map Key.value? := by
  induction h generalizing ks' with
  | nil =>
    cases h'
    simp
  | cons hk _ ih =>
    cases h' with
    | cons hk' hks' =>
      simp only [List.map_cons, List.cons.injEq]
      rw [bytes?_eq_iff_of_over hk hk', ih hks']

/-- a row of so many fields that is complete is as long as its domains -/
theorem over_of_complete {ds : List KeyDomain} {calls : List Call} (hc : ((new ds.length).run calls).isComplete)
    (hover : ∀ field ∈ (fieldsAfter ds.length calls).zip ds, field.1.Over field.2) :
    List.Forall₂ Key.Over (fieldsAfter ds.length calls) ds := by
  obtain ⟨hencodes, hfields⟩ := run_new_encodes ds.length calls
  refine List.forall₂_iff_zip.2 ⟨?_, fun hmem => hover _ hmem⟩
  rw [← hencodes.written, of_decide_eq_true hc, hfields]

/-- **A row keeps its fields.** Let any calls on two empty rows, refused ones and starting over among them, complete
both over the same domains: field by field the keys are null, or they have the domain that stands there. Then a reader
that knows the domains gets all fields of a row back from its bytes, and the rows are equal byte strings exactly if
their fields are equal: null in the same places and otherwise equal as key bytes, which is to say equal by value,
integers whatever their widths, numbers with one zero and one NaN, and byte strings byte by byte. -/
theorem uniquely_decodable (ds : List KeyDomain) {calls calls' : List Call}
    (hc : ((new ds.length).run calls).isComplete) (hc' : ((new ds.length).run calls').isComplete)
    (hover : ∀ field ∈ (fieldsAfter ds.length calls).zip ds, field.1.Over field.2)
    (hover' : ∀ field ∈ (fieldsAfter ds.length calls').zip ds, field.1.Over field.2) :
    decode? ds ((new ds.length).run calls).bytes = some ((fieldsAfter ds.length calls).map Key.bytes?) ∧
      (((new ds.length).run calls).bytes = ((new ds.length).run calls').bytes ↔
        (fieldsAfter ds.length calls).map Key.bytes? = (fieldsAfter ds.length calls').map Key.bytes?) ∧
      (((new ds.length).run calls).bytes = ((new ds.length).run calls').bytes ↔
        (fieldsAfter ds.length calls).map Key.value? = (fieldsAfter ds.length calls').map Key.value?) := by
  obtain ⟨hencodes, hfields⟩ := run_new_encodes ds.length calls
  obtain ⟨hencodes', hfields'⟩ := run_new_encodes ds.length calls'
  have hd := over_of_complete hc hover
  have hd' := over_of_complete hc' hover'
  have hread := decode?_bytes hencodes hd hfields
  have hread' := decode?_bytes hencodes' hd' hfields'
  have hiff : ((new ds.length).run calls).bytes = ((new ds.length).run calls').bytes ↔
      (fieldsAfter ds.length calls).map Key.bytes? = (fieldsAfter ds.length calls').map Key.bytes? := by
    refine ⟨fun hbytes => ?_, bytes_eq_of_map_bytes? hencodes hencodes' (hfields.trans hfields'.symm)⟩
    rw [hbytes, hread'] at hread
    exact (Option.some.inj hread).symm
  exact ⟨hread, hiff, hiff.trans (map_bytes?_eq_iff_of_over hd hd')⟩

/-- nine fields, whose null bits take two bytes -/
def nineDomains : List KeyDomain := [.signed, .bytes, .float, .bytes, .unsigned, .row, .bytes, .signed, .unsigned]

/-- a length that looks like another field, and a null field on either side of the border of a byte -/
def nineCalls : List Call :=
  [.append (.int8 (-1)), .append (.bytes [1, 0, 0, 0, 97]), .append (.float64 ⟨0x8000000000000000⟩), .append (.text ""),
    .append (.uint16 7), .append (.null .signed), .append (.text "ab"), .appendNull, .appendNull]

/-- the same fields from other widths, started over, and with one append too many -/
def nineCallsWide : List Call :=
  [.append (.text "left"), .reset, .append (.int64 (-1)), .append (.bytes [1, 0, 0, 0, 97]), .append (.float32 ⟨0⟩),
    .append (.bytes []), .append (.uint64 7), .appendNull, .append (.bytes [97, 98]), .append (.null .signed),
    .append (.null .row), .append (.uint8 1)]

/-- equal fields, equal rows; and the fields are read back -/
theorem uniquely_decodable_nine :
    ((new 9).run nineCalls).bytes = ((new 9).run nineCallsWide).bytes ∧
      decode? nineDomains ((new 9).run nineCallsWide).bytes =
        some [some (.scalar 0xffffffffffffffff), some (.slice [1, 0, 0, 0, 97]), some (.scalar 0), some (.slice []),
          some (.scalar 7), none, some (.slice [97, 98]), none, none] := by
  have hc : ((new 9).run nineCalls).isComplete := by decide +kernel
  have hc' : ((new 9).run nineCallsWide).isComplete := by decide +kernel
  have hover : ∀ field ∈ (fieldsAfter 9 nineCalls).zip nineDomains, field.1.Over field.2 := by decide +kernel
  have hover' : ∀ field ∈ (fieldsAfter 9 nineCallsWide).zip nineDomains, field.1.Over field.2 := by decide +kernel
  have hvalues : (fieldsAfter 9 nineCalls).map Key.value? = (fieldsAfter 9 nineCallsWide).map Key.value? := by
    decide +kernel
  have hbytes : (fieldsAfter 9 nineCallsWide).map Key.bytes? =
      [some (.scalar 0xffffffffffffffff), some (.slice [1, 0, 0, 0, 97]), some (.scalar 0), some (.slice []),
        some (.scalar 7), none, some (.slice [97, 98]), none, none] := by decide +kernel
  refine ⟨(uniquely_decodable nineDomains hc hc' hover hover').2.2.2 hvalues, ?_⟩
  rw [← hbytes]
  exact (uniquely_decodable nineDomains hc' hc hover' hover).1

end Row

end EquiJoin
