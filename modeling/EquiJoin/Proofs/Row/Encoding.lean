/-
What an encoded row says about its fields. `Encodes r ks` is the plain description of a row: so many fields written, one
bit for each null among them, and behind the bits the bytes of the others, one field after another.

* `append_cases`: an append writes the next field, or is refused and changes nothing;
* `append_encodes`: an append that succeeds extends the list of keys by one;
* `hasNull_eq`, `isNone_bytes?_row`: a row has a null, and is a null key, exactly if one of its fields is null;
* `run_encodes`: what any calls make of a row, its fields told from the calls alone.
-/
import EquiJoin.Proofs.Key.Value
import EquiJoin.Row.Write
import Mathlib.Data.Nat.Bitwise
import Mathlib.Tactic.IntervalCases

namespace EquiJoin

namespace Row

/-! ## Null bits -/

/-- the bit of a field -/
def nullBit (bits : Bytes) (field : Nat) : Bool := (bits[field / 8]?.getD 0).toNat.testBit (field % 8)

theorem toNat_bit (field : Nat) : (bit field).toNat = 2 ^ (field % 8) := by
  have h : field % 8 < 8 := Nat.mod_lt _ (by decide)
  rw [bit]
  generalize field % 8 = i at h
  interval_cases i <;> rfl

theorem and_bit_ne_zero (b : UInt8) (field : Nat) : decide (b &&& bit field ≠ 0) = b.toNat.testBit (field % 8) := by
  have h : (b &&& bit field).toNat = (b.toNat.testBit (field % 8)).toNat * 2 ^ (field % 8) := by
    rw [UInt8.toNat_and, toNat_bit, Nat.and_two_pow]
  have hpow := Nat.two_pow_pos (field % 8)
  cases ht : b.toNat.testBit (field % 8)
  · have h0 : (b &&& bit field) = 0 := UInt8.toNat_inj.1 (by simpa [ht] using h)
    simp [h0]
  · have h1 : (b &&& bit field) ≠ 0 := by
      intro he
      rw [he, ht, Bool.toNat_true, Nat.one_mul] at h
      exact hpow.ne h
    simpa using h1

theorem isNullAt_eq (r : Row) (field : Nat) :
    r.isNullAt field = (decide (field < r.fields) && nullBit r.nullBits field) := by
  rw [isNullAt, nullBit, ← and_bit_ne_zero]

theorem nullBit_new (n field : Nat) : nullBit (new n).nullBits field = false := by
  unfold nullBit new
  rw [List.getElem?_replicate]
  split_ifs <;> simp

/-- setting the bit of a field -/
theorem nullBit_modify {bits : Bytes} {field : Nat} (h : field / 8 < bits.length) (i : Nat) :
    nullBit (bits.modify (field / 8) (· ||| bit field)) i = (nullBit bits i || decide (field = i)) := by
  unfold nullBit
  rw [List.getElem?_modify]
  by_cases hi : field / 8 = i / 8
  · rw [List.getElem?_eq_getElem (hi ▸ h)]
    simp only [hi, if_true, Option.map_eq_map, Option.map_some, Option.getD_some, UInt8.toNat_or, Nat.testBit_or,
      toNat_bit, Nat.testBit_two_pow]
    congr 1
    exact decide_eq_decide.2 (by omega)
  · have hne : field ≠ i := fun he => hi (he ▸ rfl)
    simp [hi, hne]

/-- bits that are equal field by field are equal -/
theorem bits_ext {bits bits' : Bytes} (hl : bits.length = bits'.length) (h : ∀ i, nullBit bits i = nullBit bits' i) :
    bits = bits' := by
  refine List.ext_getElem hl fun n hn hn' => UInt8.toNat_inj.1 (Nat.eq_of_testBit_eq fun j => ?_)
  by_cases hj : j < 8
  · have := h (8 * n + j)
    unfold nullBit at this
    rwa [show (8 * n + j) / 8 = n by omega, show (8 * n + j) % 8 = j by omega, List.getElem?_eq_getElem hn,
      List.getElem?_eq_getElem hn'] at this
  · have hpow : 2 ^ 8 ≤ 2 ^ j := Nat.pow_le_pow_right (by decide) (by omega)
    have h1 := bits[n].toNat_lt
    have h2 := bits'[n].toNat_lt
    rw [Nat.testBit_lt_two_pow (by omega), Nat.testBit_lt_two_pow (by omega)]

/-- a row has a null exactly if it has a bit set -/
theorem hasNull_eq_false_iff {r : Row} : r.hasNull = false ↔ ∀ i, nullBit r.nullBits i = false := by
  constructor
  · intro h i
    unfold hasNull at h
    rw [List.any_eq_false] at h
    unfold nullBit
    cases hb : r.nullBits[i / 8]? with
    | none => simp
    | some b =>
      have : b = 0 := by simpa using h b (List.mem_of_getElem? hb)
      simp [this]
  · intro h
    have hz : r.nullBits = List.replicate r.nullBits.length 0 := by
      refine bits_ext (by simp) fun i => ?_
      rw [h i, nullBit, List.getElem?_replicate]
      split_ifs <;> simp
    rw [hasNull, hz]
    simp

/-! ## Fields -/

/-- how the bytes of a key are written as a field -/
def spelled : Option KeyBytes → Bytes
  | none => []
  | some (.scalar w) => LittleEndian.encode 8 w.toNat
  | some (.slice bs) => LittleEndian.encode 4 bs.length ++ bs

/-- the bytes of a field behind the null bits -/
def fieldBytes (k : Key) : Bytes := spelled k.bytes?

/-- a byte field has a length of 32 bits -/
def fitsField (k : Key) : Bool :=
  match k.bytes? with
  | some (.slice bs) => bs.length < 2 ^ 32
  | _ => true

/-- these keys were appended to the row, one after another -/
structure Encodes (r : Row) (ks : List Key) : Prop where
  written : r.written = ks.length
  written_le : r.written ≤ r.fields
  length_nullBits : r.nullBits.length = nullBytes r.fields
  null : ∀ i, nullBit r.nullBits i = ks[i]?.any Key.isNull
  body : r.body = ks.flatMap fieldBytes
  fits : ∀ k ∈ ks, fitsField k

theorem Encodes.spans {r : Row} {ks : List Key} (h : r.Encodes ks) : r.Spans r.fields := ⟨rfl, h.length_nullBits⟩

theorem new_encodes (n : Nat) : (new n).Encodes [] where
  written := rfl
  written_le := Nat.zero_le n
  length_nullBits := List.length_replicate
  null := nullBit_new n
  body := rfl
  fits := by simp

/-- the row with one more field -/
def appended (r : Row) (k : Key) : Row :=
  { r with
    written := r.written + 1
    nullBits := if k.isNull then r.nullBits.modify (r.written / 8) (· ||| bit r.written) else r.nullBits
    body := r.body ++ fieldBytes k }

/-- an append takes the next field if there is one and the key fits it; if not, it is refused and changes nothing -/
theorem append_cases (r : Row) (k : Key) :
    (r.written < r.fields ∧ fitsField k ∧ (append k).run r = .ok () (r.appended k)) ∨
      ((r.fields ≤ r.written ∨ fitsField k = false) ∧ ∃ e, (append k).run r = .error (.refused e) r) := by
  have taking (rest : Nat → Act Unit) (hact : append k = nextField >>= rest) (hk : fitsField k)
      (hrest : (rest r.written).run { r with written := r.written + 1 } = .ok () (r.appended k)) :
      (r.written < r.fields ∧ fitsField k ∧ (append k).run r = .ok () (r.appended k)) ∨
        ((r.fields ≤ r.written ∨ fitsField k = false) ∧ ∃ e, (append k).run r = .error (.refused e) r) := by
    rw [hact]
    rcases Nat.lt_or_ge r.written r.fields with hlt | hge
    · have hnext : nextField.run r = .ok r.written { r with written := r.written + 1 } := by
        rw [run_nextField, if_neg (Nat.not_le_of_lt hlt)]
      exact Or.inl ⟨hlt, hk, by rw [Action.run_bind_of_ok hnext, hrest]⟩
    · have hfull : nextField.run r = .error (.refused (.rowFull r.fields)) r := by rw [run_nextField, if_pos hge]
      exact Or.inr ⟨Or.inl hge, _, Action.run_bind_of_error hfull⟩
  cases hb : k.bytes? with
  | none =>
    refine taking (fun field => modify fun r => { r with nullBits := r.nullBits.modify (field / 8) (· ||| bit field) })
      (by rw [append, hb]; rfl) (by rw [fitsField, hb]) ?_
    simp [appended, Key.isNull, fieldBytes, spelled, hb]
  | some b =>
    cases b with
    | scalar w =>
      refine taking (fun _ => appendBytes (LittleEndian.encode 8 w.toNat)) (by rw [append, hb])
        (by rw [fitsField, hb]) ?_
      simp [appendBytes, appended, Key.isNull, fieldBytes, spelled, hb]
    | slice bs =>
      by_cases hlong : 1 <<< 32 ≤ bs.length
      · refine Or.inr ⟨Or.inr ?_, .fieldTooLong bs.length, by rw [append, hb]; simp only [if_pos hlong]; rfl⟩
        rw [fitsField, hb]
        exact decide_eq_false (Nat.not_lt_of_le hlong)
      · refine taking (fun _ => appendBytes (LittleEndian.encode 4 bs.length ++ bs))
          (by rw [append, hb]; simp only [if_neg hlong]) ?_ ?_
        · rw [fitsField, hb]
          exact decide_eq_true (Nat.lt_of_not_le hlong)
        · simp [appendBytes, appended, Key.isNull, fieldBytes, spelled, hb]

theorem append_eq_ok {r r' : Row} {k : Key} (h : (append k).run r = .ok () r') :
    r.written < r.fields ∧ fitsField k ∧ r' = r.appended k := by
  rcases append_cases r k with ⟨hlt, hk, hok⟩ | ⟨-, e, he⟩
  · cases hok.symm.trans h
    exact ⟨hlt, hk, rfl⟩
  · cases he.symm.trans h

/-- an append is refused if anything -/
theorem append_never_faults {r r' : Row} {k : Key} : (append k).run r ≠ .error .fault r' := by
  intro h
  rcases append_cases r k with ⟨-, -, hok⟩ | ⟨-, e, he⟩
  · cases hok.symm.trans h
  · cases he.symm.trans h

/-- one more field makes the list of keys longer by one -/
theorem appended_encodes {r : Row} {ks : List Key} (h : r.Encodes ks) {k : Key} (hlt : r.written < r.fields)
    (hk : fitsField k) : (r.appended k).Encodes (ks ++ [k]) where
  written := by simp [appended, h.written]
  written_le := hlt
  length_nullBits := by
    have := h.length_nullBits
    unfold appended
    split_ifs <;> simpa
  null i := by
    have hlast : (ks ++ [k])[i]?.any Key.isNull = (ks[i]?.any Key.isNull || (decide (ks.length = i) && k.isNull)) := by
      rcases Nat.lt_trichotomy i ks.length with hi | rfl | hi
      · simp [List.getElem?_append_left hi, Nat.ne_of_gt hi]
      · simp
      · have : ks.length ≠ i := Nat.ne_of_lt hi
        rw [List.getElem?_eq_none (by simpa using Nat.succ_le_of_lt hi), List.getElem?_eq_none (by omega)]
        simp [this]
    have hbyte : r.written / 8 < r.nullBits.length := by
      rw [h.length_nullBits, nullBytes]
      omega
    rw [hlast, ← h.null i, ← h.written]
    cases hn : k.isNull
    · simp [appended, hn]
    · simp [appended, hn, nullBit_modify hbyte]
  body := by simp [appended, h.body]
  fits := List.forall_mem_append.2 ⟨h.fits, List.forall_mem_singleton.2 hk⟩

/-- an append that succeeds extends the row by one key -/
theorem append_encodes {r r' : Row} {ks : List Key} (h : r.Encodes ks) {k : Key} (hr : (append k).run r = .ok () r') :
    r'.Encodes (ks ++ [k]) ∧ r'.fields = r.fields := by
  obtain ⟨hlt, hk, rfl⟩ := append_eq_ok hr
  exact ⟨appended_encodes h hlt hk, rfl⟩

theorem appendAll_cons (k : Key) (ks : List Key) : appendAll (k :: ks) = (do append k; appendAll ks) := rfl

/-- appends that succeed extend the row by their keys -/
theorem appendAll_encodes {r r' : Row} {ks more : List Key} (h : r.Encodes ks)
    (hr : (appendAll more).run r = .ok () r') : r'.Encodes (ks ++ more) ∧ r'.fields = r.fields := by
  induction more generalizing r ks with
  | nil =>
    cases hr
    exact ⟨by simpa using h, rfl⟩
  | cons k more ih =>
    rw [appendAll_cons] at hr
    obtain ⟨_, m, hk, hrest⟩ := Action.run_bind_eq_ok.1 hr
    obtain ⟨hm, hfields⟩ := append_encodes h hk
    obtain ⟨hr', hfields'⟩ := ih hm hrest
    exact ⟨by simpa using hr', hfields'.trans hfields⟩

/-- where there is room for all, keys can be appended exactly if each of them fits a field -/
theorem appendAll_answered {r : Row} {ks : List Key} (hroom : r.written + ks.length ≤ r.fields) :
    (∃ r', (appendAll ks).run r = .ok () r') ↔ ∀ k ∈ ks, fitsField k := by
  induction ks generalizing r with
  | nil => exact ⟨fun _ k hk => (List.not_mem_nil hk).elim, fun _ => ⟨r, rfl⟩⟩
  | cons k ks ih =>
    rw [List.length_cons] at hroom
    rw [appendAll_cons, List.forall_mem_cons]
    rcases append_cases r k with ⟨-, hfits, hok⟩ | ⟨hnot, e, he⟩
    · have hrest : (r.appended k).written + ks.length ≤ (r.appended k).fields := by
        show r.written + 1 + ks.length ≤ r.fields
        omega
      rw [Action.run_bind_of_ok hok, ih hrest]
      exact ⟨fun h => ⟨hfits, h⟩, And.right⟩
    · have hlong : fitsField k = false := hnot.resolve_left (by omega)
      rw [Action.run_bind_of_error he, hlong]
      simp

theorem ofKeys_encodes {n : Nat} {ks : List Key} {r : Row} (h : ofKeys n ks = .ok r) : r.Encodes ks ∧ r.fields = n := by
  unfold ofKeys at h
  cases hr : (appendAll ks).run (new n) with
  | error e m => simp [hr] at h
  | ok u m =>
    simp only [hr, Except.ok.injEq] at h
    subst h
    exact appendAll_encodes (new_encodes n) hr

/-- a row has a null exactly if one of its fields is null -/
theorem hasNull_eq {r : Row} {ks : List Key} (h : r.Encodes ks) : r.hasNull = ks.any Key.isNull := by
  rw [Bool.eq_iff_iff, ← Bool.not_eq_false, ← Bool.not_eq_false, not_iff_not, hasNull_eq_false_iff, List.any_eq_false]
  constructor
  · intro hn k hk
    obtain ⟨i, hi⟩ := List.mem_iff_getElem?.1 hk
    have := (h.null i).symm.trans (hn i)
    rw [hi] at this
    simpa using this
  · intro hn i
    rw [h.null i]
    cases hi : ks[i]? with
    | none => rfl
    | some k => simpa using hn k (List.mem_of_getElem? hi)

/-- a row is a null key exactly if one of its fields is null -/
theorem isNone_bytes?_row {r : Row} {ks : List Key} (h : r.Encodes ks) :
    (Key.row r).bytes?.isNone = ks.any Key.isNull := by
  rw [← hasNull_eq h, Key.bytes?]
  cases r.hasNull <;> rfl

/-! ## Histories -/

/-- a call that may change a row -/
inductive Call where
  | append (k : Key)
  | appendNull
  | reset

namespace Call

def act : Call → Act Unit
  | append k => Row.append k
  | appendNull => Row.appendNull
  | reset => Row.reset

/-- what the call makes of the fields of a row with room for `n` of them -/
def fields (n : Nat) (ks : List Key) : Call → List Key
  | append k => if ks.length < n ∧ fitsField k then ks ++ [k] else ks
  | appendNull => if ks.length < n then ks ++ [.null .row] else ks
  | reset => []

end Call

/-- the row after some calls, whatever their outcomes -/
def run (r : Row) (calls : List Call) : Row := calls.foldl (fun r call => call.act.after r) r

/-- the fields that some calls write into an empty row with room for `n` of them -/
def fieldsAfter (n : Nat) (calls : List Call) : List Key := calls.foldl (Call.fields n) []

/-- a call that is refused leaves the row as it is -/
theorem after_append {r : Row} {ks : List Key} (h : r.Encodes ks) (k : Key) :
    ((append k).after r).Encodes (if ks.length < r.fields ∧ fitsField k then ks ++ [k] else ks) ∧
      ((append k).after r).fields = r.fields := by
  rcases append_cases r k with ⟨hlt, hfits, hok⟩ | ⟨hnot, e, he⟩
  · rw [Action.after_of_ok hok, if_pos ⟨h.written ▸ hlt, hfits⟩]
    exact ⟨appended_encodes h hlt hfits, rfl⟩
  · have hroom : ¬ (ks.length < r.fields ∧ fitsField k) := by
      rw [← h.written]
      rintro ⟨hlt, hfits⟩
      rcases hnot with hfull | hlong
      · exact Nat.not_le_of_lt hlt hfull
      · exact Bool.false_ne_true (hlong.symm.trans hfits)
    rw [Action.after_of_error he, if_neg hroom]
    exact ⟨h, rfl⟩

/-- one call changes the fields as it says -/
theorem call_encodes {r : Row} {ks : List Key} (h : r.Encodes ks) (call : Call) :
    (call.act.after r).Encodes (call.fields r.fields ks) ∧ (call.act.after r).fields = r.fields := by
  cases call with
  | append k => exact after_append h k
  | appendNull =>
    have hnull := after_append h (.null .row)
    have hfits : fitsField (.null .row) := rfl
    simp only [hfits, and_true] at hnull
    exact hnull
  | reset =>
    rw [Call.act, Action.after_of_ok (run_reset h.length_nullBits)]
    exact ⟨new_encodes r.fields, rfl⟩

/-- whatever is called on a row, its fields are those that the calls say -/
theorem run_encodes {r : Row} {ks : List Key} (h : r.Encodes ks) (calls : List Call) :
    (r.run calls).Encodes (calls.foldl (Call.fields r.fields) ks) ∧ (r.run calls).fields = r.fields := by
  induction calls generalizing r ks with
  | nil => exact ⟨h, rfl⟩
  | cons call calls ih =>
    obtain ⟨hcall, hfields⟩ := call_encodes h call
    obtain ⟨hrun, hrunFields⟩ := ih hcall
    exact ⟨hfields ▸ hrun, hrunFields.trans hfields⟩

/-- the fields of a row are those that the calls since it was empty say -/
theorem run_new_encodes (n : Nat) (calls : List Call) :
    ((new n).run calls).Encodes (fieldsAfter n calls) ∧ ((new n).run calls).fields = n :=
  run_encodes (new_encodes n) calls

end Row

end EquiJoin
