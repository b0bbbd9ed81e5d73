/-
Keys by value. `Key.value?` says what a key means without a word about bytes: an integer whatever its width, a number, a
byte string; a null key means nothing. The bytes of a key are read back by `KeyBytes.value`, given the domain, so keys
of one domain have equal bytes exactly if they are equal by value.

* `value?_eq`: the bytes of a key spell its value;
* `canonical_of_bytes?`: which bytes a key of a domain may have;
* `bytes?_eq_iff`: equal bytes are equal values.
-/
import EquiJoin.Key.Basic
import EquiJoin.Proofs.Key.Float

namespace EquiJoin

/-- what a key means -/
inductive KeyValue where
  | integer (i : Int)
  | float (x : FloatValue)
  | bytes (bs : Bytes)
  deriving DecidableEq

/-- the value that key bytes of a domain spell -/
def KeyBytes.value : KeyDomain → KeyBytes → KeyValue
  | .signed, .scalar w => .integer w.toInt64.toInt
  | .float, .scalar w => .float (Binary64.meaning ⟨w⟩)
  | _, .scalar w => .integer w.toNat
  | _, .slice bs => .bytes bs

namespace Key

/-- what a key means, if it is not null -/
def value? : Key → Option KeyValue
  | null _ => none
  | int8 v => some (.integer v.toInt)
  | int16 v => some (.integer v.toInt)
  | int32 v => some (.integer v.toInt)
  | int64 v => some (.integer v.toInt)
  | uint8 v => some (.integer v.toNat)
  | uint16 v => some (.integer v.toNat)
  | uint32 v => some (.integer v.toNat)
  | uint64 v => some (.integer v.toNat)
  | float32 v => some (.float v.meaning)
  | float64 v => some (.float v.meaning)
  | text s => some (.bytes s.toUTF8.toList)
  | bytes bs => some (.bytes bs)
  | row r => if r.hasNull then none else some (.bytes r.bytes)

/-- the bytes of a key spell its value -/
theorem value?_eq (k : Key) : k.value? = k.bytes?.map (KeyBytes.value k.domain) := by
  cases k with
  | int8 v => exact congrArg (some ∘ KeyValue.integer) v.toInt_toInt64.symm
  | int16 v => exact congrArg (some ∘ KeyValue.integer) v.toInt_toInt64.symm
  | int32 v => exact congrArg (some ∘ KeyValue.integer) v.toInt_toInt64.symm
  | float32 v =>
    have : v.widen.canonical.meaning = v.meaning := (Binary64.meaning_canonical v.widen).trans v.meaning_widen
    exact congrArg (some ∘ KeyValue.float) this.symm
  | float64 v => exact congrArg (some ∘ KeyValue.float) (Binary64.meaning_canonical v).symm
  | row r =>
    rw [value?, bytes?]
    split_ifs <;> rfl
  | _ => rfl

end Key

/-- which bytes a key of a domain may have -/
def KeyBytes.Canonical : KeyDomain → KeyBytes → Prop
  | .signed, b => ∃ w, b = scalar w
  | .unsigned, b => ∃ w, b = scalar w
  | .float, b => ∃ x : Binary64, b = scalar x.canonical.bits
  | .bytes, b => ∃ bs, b = slice bs
  | .row, b => ∃ bs, b = slice bs

/-- numbers have eight bytes, hashed as a word; everything else is hashed by content -/
def KeyDomain.isScalar : KeyDomain → Bool
  | signed | unsigned | float => true
  | bytes | row => false

theorem ColumnType.isScalar_domain (t : ColumnType) : t.domain.isScalar = t.isNumeric := by cases t <;> rfl

theorem KeyBytes.Canonical.isScalar_eq {d : KeyDomain} {b : KeyBytes} (h : b.Canonical d) :
    b.isScalar = d.isScalar := by
  cases d <;> obtain ⟨_, rfl⟩ := h <;> rfl

/-- in canonical bytes the value determines the bytes -/
theorem KeyBytes.Canonical.eq_of_value {d : KeyDomain} {a b : KeyBytes} (ha : a.Canonical d) (hb : b.Canonical d)
    (h : a.value d = b.value d) : a = b := by
  cases d with
  | signed =>
    obtain ⟨v, rfl⟩ := ha
    obtain ⟨w, rfl⟩ := hb
    have : v.toInt64 = w.toInt64 := Int64.toInt_inj.1 (KeyValue.integer.inj h)
    exact congrArg scalar (by simpa using congrArg Int64.toUInt64 this)
  | unsigned =>
    obtain ⟨v, rfl⟩ := ha
    obtain ⟨w, rfl⟩ := hb
    have : v.toNat = w.toNat := by exact_mod_cast KeyValue.integer.inj h
    exact congrArg scalar (UInt64.toNat_inj.1 this)
  | float =>
    obtain ⟨x, rfl⟩ := ha
    obtain ⟨y, rfl⟩ := hb
    have : x.canonical.meaning = y.canonical.meaning := KeyValue.float.inj h
    rw [Binary64.meaning_canonical, Binary64.meaning_canonical] at this
    rw [Binary64.canonical_eq_iff.2 this]
  | bytes =>
    obtain ⟨v, rfl⟩ := ha
    obtain ⟨w, rfl⟩ := hb
    exact congrArg slice (KeyValue.bytes.inj h)
  | row =>
    obtain ⟨v, rfl⟩ := ha
    obtain ⟨w, rfl⟩ := hb
    exact congrArg slice (KeyValue.bytes.inj h)

/-- canonical bytes of a domain are told apart by the bytes alone -/
theorem KeyBytes.Canonical.eq_of_bytes {d : KeyDomain} {a b : KeyBytes} (ha : a.Canonical d) (hb : b.Canonical d)
    (h : a.bytes = b.bytes) : a = b := by
  have hs : a.isScalar = b.isScalar := ha.isScalar_eq.trans hb.isScalar_eq.symm
  cases a with
  | scalar v =>
    cases b with
    | slice bs => cases hs
    | scalar w =>
      have hv := v.toNat_lt
      have hw := w.toNat_lt
      rw [UInt64.toNat_inj.1 (LittleEndian.encode_inj (w := 8) (by omega) (by omega) h)]
  | slice bs =>
    cases b with
    | scalar w => cases hs
    | slice bs' => exact congrArg slice h

namespace Key

theorem canonical_of_bytes? {k : Key} {b : KeyBytes} (h : k.bytes? = some b) : b.Canonical k.domain := by
  cases k with
  | null d => cases h
  | row r =>
    rw [bytes?] at h
    split_ifs at h
    cases h
    exact ⟨_, rfl⟩
  | _ => cases h; exact ⟨_, rfl⟩

/-- keys of one domain have equal bytes exactly if they are equal by value -/
theorem bytes?_eq_iff {k k' : Key} (hd : k.domain = k'.domain) : k.bytes? = k'.bytes? ↔ k.value? = k'.value? := by
  rw [value?_eq, value?_eq, hd]
  constructor
  · intro h
    rw [h]
  · intro h
    cases hk : k.bytes? with
    | none =>
      cases hk' : k'.bytes? with
      | none => rfl
      | some b' => simp [hk, hk'] at h
    | some b =>
      cases hk' : k'.bytes? with
      | none => simp [hk, hk'] at h
      | some b' =>
        simp only [hk, hk', Option.map_some, Option.some.injEq] at h
        rw [(hd ▸ canonical_of_bytes? hk : b.Canonical k'.domain).eq_of_value (canonical_of_bytes? hk') h]

/-- the same for several keys at once -/
theorem map_bytes?_eq_iff {ks ks' : List Key} (hd : ks.map domain = ks'.map domain) :
    ks.map bytes? = ks'.map bytes? ↔ ks.map value? = ks'.map value? := by
  induction ks generalizing ks' with
  | nil =>
    cases ks' with
    | nil => simp
    | cons k' ks' => cases hd
  | cons k ks ih =>
    cases ks' with
    | nil => cases hd
    | cons k' ks' =>
      simp only [List.map_cons, List.cons.injEq] at hd ⊢
      rw [bytes?_eq_iff hd.1, ih hd.2]

/-- a null key has neither bytes nor a value -/
def isNull (k : Key) : Bool := k.bytes?.isNone

theorem isNull_eq (k : Key) : k.isNull = k.value?.isNone := by
  rw [isNull, value?_eq, Option.isNone_map]

theorem isNull_ofCell? (t : ColumnType) (cell : Option t.Value) : (ofCell? t cell).isNull = cell.isNone := by
  cases cell with
  | none => rfl
  | some v => cases t <;> rfl

end Key

end EquiJoin
