/-
Rows that are written again and again. A row keeps its buffer: `reset` cuts off the bytes behind the null bits and
clears the null bits where they are, a null field sets a bit in place, and any other field goes to the end. So whatever
a row is asked about could be left over from before. It is not: a row is, to the byte, what a new one is after the
appends that were answered since the last reset, and everything that it says of itself is about those.

* `oneBuffer_of_encodes`: the null bits and the fields are one buffer, which the calls write to in place and at its end;
* `append_eq_error_iff`, `exists_refuses_iff`: when and why an append is refused, and that it leaves the row alone;
* `standing_step`, `standing_run`: the appends that count, after one call and after any calls;
* `shows_of_encodes`: what a row says of itself;
* `run_carries_no_history`: all of it, for any calls.
-/
import EquiJoin.Proofs.Row.Encoding

namespace EquiJoin.Row

variable {r r' : Row} {n : Nat} {k : Key} {ks : List Key} {kept : List Call}

/-! ## The buffer -/

/-- a reset cuts the buffer off behind the null bits and fills the rest with zeros -/
theorem bytes_of_reset (h : r.nullBits.length = nullBytes r.fields) :
    (reset.after r).bytes = (r.bytes.take (nullBytes r.fields)).map fun _ => 0 := by
  have hbits : r.bytes.take (nullBytes r.fields) = r.nullBits := by rw [bytes, ← h, List.take_left]
  rw [hbits, reset, Action.after_of_ok (Action.run_modify cleared r), bytes, cleared, List.append_nil]

/-- a byte of the null bits is changed in the buffer where it is -/
theorem modify_append {bits : Bytes} {i : Nat} (h : i < bits.length) (rest : Bytes) (f : UInt8 → UInt8) :
    (bits ++ rest).modify i f = bits.modify i f ++ rest := by
  induction bits generalizing i with
  | nil => cases h
  | cons b bits ih =>
    cases i with
    | zero => rfl
    | succ i =>
      rw [List.cons_append, List.modify_succ_cons, List.modify_succ_cons, ih (Nat.lt_of_succ_lt_succ h),
        List.cons_append]

/-- the buffer after an append: a null field sets its bit where it is, any other field goes to the end -/
def writeField (r : Row) (k : Key) : Bytes :=
  if k.isNull then r.bytes.modify (r.written / 8) (· ||| bit r.written) else r.bytes ++ fieldBytes k

/-- an append sets a bit of the buffer in place, or extends the buffer at its end -/
theorem bytes_of_append (h : r.Encodes ks) (hr : (append k).run r = .ok () r') : r'.bytes = r.writeField k := by
  obtain ⟨hlt, -, rfl⟩ := append_eq_ok hr
  have hbit : r.written / 8 < r.nullBits.length := by
    rw [h.length_nullBits, nullBytes]
    omega
  cases hn : k.isNull with
  | true =>
    have hnone : fieldBytes k = [] := by
      rw [Key.isNull, Option.isNone_iff_eq_none] at hn
      rw [fieldBytes, hn, spelled]
    simp only [writeField, bytes, appended, hn, hnone, if_true, List.append_nil]
    exact (modify_append hbit r.body _).symm
  | false => simp [writeField, bytes, appended, hn]

/-- the buffer after a call that is answered; a reset cuts it off behind the null bits and fills these with zeros -/
def Call.write (r : Row) : Call → Bytes
  | append k => r.writeField k
  | appendNull => r.writeField (.null .row)
  | reset => (r.bytes.take (nullBytes r.fields)).map fun _ => 0

/-- the row is one buffer: the null bits are its first bytes, and a call that is answered writes to it in place or at
its end -/
structure OneBuffer (r : Row) : Prop where
  nullBits : r.nullBits = r.bytes.take (nullBytes r.fields)
  write : ∀ (call : Call) (r' : Row), call.act.run r = .ok () r' → r'.bytes = call.write r

theorem oneBuffer_of_encodes (h : r.Encodes ks) : r.OneBuffer where
  nullBits := by rw [bytes, ← h.length_nullBits, List.take_left]
  write call r' hr := by
    cases call with
    | append k => exact bytes_of_append h hr
    | appendNull => exact bytes_of_append (k := .null .row) h hr
    | reset =>
      have hafter : reset.after r = r' := Action.after_of_ok hr
      rw [Call.write, ← bytes_of_reset h.length_nullBits, hafter]

/-! ## Refusals -/

/-- why the next field cannot be this key; the length of a byte field is asked for before the room -/
inductive Refuses (r : Row) : Key → Error → Prop where
  | tooLong {k : Key} {bs : Bytes} (hb : k.bytes? = some (.slice bs)) (hlong : 2 ^ 32 ≤ bs.length) :
      Refuses r k (.fieldTooLong bs.length)
  | full {k : Key} (hfits : fitsField k) (hfull : r.written = r.fields) : Refuses r k (.rowFull r.fields)

theorem run_append_of_refuses {e : Error} (h : r.Refuses k e) : (append k).run r = .error (.refused e) r := by
  cases h with
  | @tooLong bs hb hlong =>
    have hcut : 1 <<< 32 ≤ bs.length := hlong
    rw [append, hb]
    simp only [if_pos hcut]
    rfl
  | full hfits hfull =>
    have hnext : nextField.run r = .error (.refused (.rowFull r.fields)) r := by
      rw [run_nextField, if_pos (Nat.le_of_eq hfull.symm)]
    rw [append]
    cases hb : k.bytes? with
    | none => exact Action.run_bind_of_error hnext
    | some b =>
      cases b with
      | scalar w => exact Action.run_bind_of_error hnext
      | slice bs =>
        rw [fitsField, hb] at hfits
        have hshort : ¬ 1 <<< 32 ≤ bs.length := Nat.not_le_of_lt (of_decide_eq_true hfits)
        simp only [if_neg hshort]
        exact Action.run_bind_of_error hnext

/-- an append is answered, or there is a reason -/
theorem answered_or_refuses (hle : r.written ≤ r.fields) (k : Key) :
    (append k).run r = .ok () (r.appended k) ∨ ∃ e, r.Refuses k e := by
  rcases append_cases r k with ⟨-, -, hok⟩ | ⟨hnot, -⟩
  · exact Or.inl hok
  · cases hfits : fitsField k with
    | true =>
      have hfull : r.fields ≤ r.written := hnot.resolve_right (by simp [hfits])
      exact Or.inr ⟨_, .full hfits (Nat.le_antisymm hle hfull)⟩
    | false =>
      rw [fitsField] at hfits
      split at hfits
      · next bs hb => exact Or.inr ⟨_, .tooLong hb (Nat.le_of_not_lt (of_decide_eq_false hfits))⟩
      · cases hfits

/-- an append that is refused leaves the row alone and has one of the reasons -/
theorem append_eq_error_iff (hle : r.written ≤ r.fields) {s : Stop Error} :
    (append k).run r = .error s r' ↔ r' = r ∧ ∃ e, s = .refused e ∧ r.Refuses k e := by
  constructor
  · intro hr
    rcases answered_or_refuses hle k with hok | ⟨e, he⟩
    · cases hok.symm.trans hr
    · cases (run_append_of_refuses he).symm.trans hr
      exact ⟨rfl, e, rfl, he⟩
  · rintro ⟨rfl, e, rfl, he⟩
    exact run_append_of_refuses he

/-- there is a reason exactly if no field is left or the key is too long for one -/
theorem exists_refuses_iff (hle : r.written ≤ r.fields) :
    (∃ e, r.Refuses k e) ↔ r.written = r.fields ∨ fitsField k = false := by
  constructor
  · rintro ⟨e, ⟨hb, hlong⟩ | ⟨-, hfull⟩⟩
    · rw [fitsField, hb]
      exact Or.inr (decide_eq_false (Nat.not_lt_of_le hlong))
    · exact Or.inl hfull
  · intro hnot
    rcases answered_or_refuses hle k with hok | hrefuses
    · obtain ⟨hlt, hfits, -⟩ := append_eq_ok hok
      rcases hnot with hfull | hlong
      · exact absurd hfull (Nat.ne_of_lt hlt)
      · exact absurd (hfits.symm.trans hlong) (by decide)
    · exact hrefuses

/-! ## The appends that count -/

namespace Call

/-- the field that a call is to write -/
def field? : Call → Option Key
  | append k => some k
  | appendNull => some (.null .row)
  | reset => none

/-- an answered append joins those before it, a reset drops them all, and a refusal changes nothing -/
def keep (r : Row) (kept : List Call) : Call → List Call
  | reset => []
  | call =>
    match call.act.run r with
    | .ok .. => kept ++ [call]
    | .error .. => kept

/-- appending a null field is appending a null key -/
theorem act_of_field? {call : Call} (h : call.field? = some k) : call.act = Row.append k := by
  cases call <;> cases h <;> rfl

theorem eq_reset_of_field? {call : Call} (h : call.field? = none) : call = reset := by
  cases call with
  | append k => cases h
  | appendNull => cases h
  | reset => rfl

theorem keep_of_ok {call : Call} (h : call.field? = some k) (hr : call.act.run r = .ok () r') :
    call.keep r kept = kept ++ [call] := by
  cases call with
  | append k => simp only [keep, hr]
  | appendNull => simp only [keep, hr]
  | reset => cases h

theorem keep_of_error {call : Call} {s : Stop Error} (h : call.field? = some k) (hr : call.act.run r = .error s r') :
    call.keep r kept = kept := by
  cases call with
  | append k => simp only [keep, hr]
  | appendNull => simp only [keep, hr]
  | reset => cases h

end Call

/-- the answered appends since the last reset, when the calls start from this row and with these appends -/
def standingFrom : Row → List Call → List Call → List Call
  | _, kept, [] => kept
  | r, kept, call :: calls => standingFrom (call.act.after r) (call.keep r kept) calls

/-- the answered appends since the last reset, when the calls start from a new row -/
def standing (n : Nat) (calls : List Call) : List Call := standingFrom (new n) [] calls

/-- make these calls one after another, up to the first that is refused -/
def replay (calls : List Call) : Act Unit := calls.forM Call.act

theorem replay_snoc {call : Call} (h : (replay kept).run (new n) = .ok () r) (hr : call.act.run r = .ok () r') :
    (replay (kept ++ [call])).run (new n) = .ok () r' := by
  have hsplit : replay (kept ++ [call]) = (do replay kept; replay [call]) := List.forM_append ..
  have hlast : (replay [call]).run r = .ok () r' := by
    show (call.act >>= fun _ => pure ()).run r = _
    rw [Action.run_bind_of_ok hr]
    rfl
  rw [hsplit, Action.run_bind_of_ok h, hlast]

/-- a new row of this size on which these appends were made, all of them answered -/
structure Standing (n : Nat) (kept : List Call) (r : Row) : Prop where
  replay : (replay kept).run (new n) = .ok () r
  appends : ∀ call ∈ kept, call.field?.isSome
  fields : r.fields = n
  encodes : r.Encodes (kept.filterMap Call.field?)

theorem standing_new (n : Nat) : Standing n [] (new n) := ⟨rfl, by simp, rfl, new_encodes n⟩

/-- one call: a reset leads back to the new row, an append is refused or added to the others -/
theorem standing_step (h : Standing n kept r) (call : Call) : Standing n (call.keep r kept) (call.act.after r) := by
  cases hf : call.field? with
  | none =>
    obtain rfl := Call.eq_reset_of_field? hf
    have hreset := run_reset h.encodes.length_nullBits
    rw [Call.act, Action.after_of_ok hreset, h.fields]
    exact standing_new n
  | some k =>
    have hact := Call.act_of_field? hf
    rcases answered_or_refuses h.encodes.written_le k with hok | ⟨e, he⟩
    · obtain ⟨hlt, hfits, -⟩ := append_eq_ok hok
      rw [← hact] at hok
      rw [Action.after_of_ok hok, Call.keep_of_ok hf hok]
      exact {
        replay := replay_snoc h.replay hok
        appends := List.forall_mem_append.2 ⟨h.appends, List.forall_mem_singleton.2 (by rw [hf]; rfl)⟩
        fields := h.fields
        encodes := by
          rw [List.filterMap_append, List.filterMap_cons_some hf, List.filterMap_nil]
          exact appended_encodes h.encodes hlt hfits }
    · have hrefused := run_append_of_refuses he
      rw [← hact] at hrefused
      rw [Action.after_of_error hrefused, Call.keep_of_error hf hrefused]
      exact h

theorem standing_run (h : Standing n kept r) (calls : List Call) :
    Standing n (standingFrom r kept calls) (r.run calls) := by
  induction calls generalizing r kept with
  | nil => exact h
  | cons call calls ih => exact ih (standing_step h call)

/-! ## What a row says of itself -/

/-- bytes of a field behind the null bits -/
def fieldSize (k : Key) : Nat :=
  match k.bytes? with
  | none => 0
  | some (.scalar _) => 8
  | some (.slice bs) => 4 + bs.length

theorem length_fieldBytes (k : Key) : (fieldBytes k).length = fieldSize k := by
  rw [fieldBytes, fieldSize]
  split <;> simp_all [spelled]

/-- everything that can be asked of a row is answered from these fields alone -/
structure Shows (n : Nat) (ks : List Key) (r : Row) : Prop where
  fields : r.fields = n
  written : r.written = ks.length
  written_le : r.written ≤ n
  isComplete : r.isComplete = true ↔ r.written = n
  isNullAt : ∀ i, r.isNullAt i = true ↔ ∃ k, ks[i]? = some k ∧ k.isNull = true
  hasNull : r.hasNull = true ↔ ∃ k ∈ ks, k.isNull = true
  bytes? : (Key.row r).bytes? = none ↔ ∃ k ∈ ks, k.isNull = true
  length : r.bytes.length = (n + 7) / 8 + (ks.map fieldSize).sum

theorem shows_of_encodes (h : r.Encodes ks) (hn : r.fields = n) : r.Shows n ks where
  fields := hn
  written := h.written
  written_le := hn ▸ h.written_le
  isComplete := by rw [isComplete, hn, decide_eq_true_eq]
  isNullAt i := by
    rw [isNullAt_eq, h.null i, Bool.and_eq_true, decide_eq_true_eq, Option.any_eq_true]
    constructor
    · exact And.right
    · intro hi
      -- a field that was written is one of the row's
      have hlt : i < ks.length := by
        obtain ⟨k, hk, -⟩ := hi
        exact (List.getElem?_eq_some_iff.1 hk).1
      exact ⟨Nat.lt_of_lt_of_le hlt (h.written ▸ h.written_le), hi⟩
  hasNull := by rw [hasNull_eq h, List.any_eq_true]
  bytes? := by rw [← Option.isNone_iff_eq_none, isNone_bytes?_row h, List.any_eq_true]
  length := by
    rw [bytes, List.length_append, h.length_nullBits, hn, h.body, List.length_flatMap, nullBytes]
    simp only [length_fieldBytes]

/-- **Reused rows carry no history.** Take a row of `n` fields and make any calls on it, answered or not. What is left
is to the byte what a new row is on which only the answered appends since the last reset are made, each of which is
answered there as well. Whatever is called next stops exactly if it is an append to a row of which all `n` fields are
written, or of a byte field whose length needs more than 32 bits; it says so, and changes nothing. At most `n` fields
are written; the row is complete if all are; a field is null, and the row has a null or is a null key, if a null was
written there, or anywhere; and the bytes are those of the null bits, eight for each number, and a length and its bytes
for each byte field. All of this is one buffer: the null bits are its first bytes, a reset cuts it off behind them and
clears them, a null field sets its bit in place, and any other field goes to the end. -/
theorem run_carries_no_history (n : Nat) (calls : List Call) :
    (replay (standing n calls)).run (new n) = .ok () ((new n).run calls) ∧
      (∀ call ∈ standing n calls, call.field?.isSome) ∧
      (∀ (call : Call) (s : Stop Error) (r' : Row), call.act.run ((new n).run calls) = .error s r' ↔
        r' = (new n).run calls ∧ ∃ k ∈ call.field?, ∃ e, s = .refused e ∧ ((new n).run calls).Refuses k e) ∧
      (∀ k, (∃ e, ((new n).run calls).Refuses k e) ↔ ((new n).run calls).written = n ∨ fitsField k = false) ∧
      ((new n).run calls).Shows n ((standing n calls).filterMap Call.field?) ∧ ((new n).run calls).OneBuffer := by
  have hstanding : Standing n (standing n calls) ((new n).run calls) := standing_run (standing_new n) calls
  have hle := hstanding.encodes.written_le
  refine ⟨hstanding.replay, hstanding.appends, ?_, ?_, shows_of_encodes hstanding.encodes hstanding.fields,
    oneBuffer_of_encodes hstanding.encodes⟩
  · intro call s r'
    cases hf : call.field? with
    | none =>
      -- a reset is always answered
      obtain rfl := Call.eq_reset_of_field? hf
      constructor
      · intro hr
        cases hr
      · rintro ⟨-, k, hk, -⟩
        cases hk
    | some k =>
      rw [Call.act_of_field? hf, append_eq_error_iff hle]
      simp
  · intro k
    rw [exists_refuses_iff hle, hstanding.fields]

/-- a null and a field of three bytes before a reset, and one append too many after it -/
def staleCalls : List Call :=
  [.appendNull, .append (.bytes [1, 2, 3]), .reset, .append (.int8 (-1)), .appendNull, .append (.uint8 1)]

/-- the first field is no longer null, and the refused append has left nothing -/
theorem run_carries_no_history_stale :
    (replay [.append (.int8 (-1)), .appendNull]).run (new 2) = .ok () ((new 2).run staleCalls) ∧
      ((new 2).run staleCalls).isNullAt 0 = false ∧ ((new 2).run staleCalls).isNullAt 1 = true ∧
      ((new 2).run staleCalls).bytes.length = 9 ∧
      (append (.uint8 1)).run ((new 2).run staleCalls) = .error (.refused (.rowFull 2)) ((new 2).run staleCalls) := by
  have hstanding : standing 2 staleCalls = [.append (.int8 (-1)), .appendNull] := rfl
  obtain ⟨hreplay, -, hrefused, -, hshows, -⟩ := run_carries_no_history 2 staleCalls
  rw [hstanding] at hreplay hshows
  have hfull : ((new 2).run staleCalls).written = ((new 2).run staleCalls).fields := by
    rw [hshows.written, hshows.fields]
    rfl
  refine ⟨hreplay, Bool.eq_false_iff.2 fun hnull => ?_, (hshows.isNullAt 1).2 ⟨.null .row, rfl, rfl⟩, hshows.length,
    (hrefused (.append (.uint8 1)) _ _).2 ⟨rfl, _, rfl, _, rfl, .full rfl hfull⟩⟩
  obtain ⟨k, hk, hnull⟩ := (hshows.isNullAt 0).1 hnull
  cases hk
  cases hnull

end EquiJoin.Row
