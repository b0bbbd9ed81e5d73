/-
Writing rows. Fields are appended one by one; `reset` starts over and keeps the number of fields. An append is refused
if the row is full or if a byte field is too long for its 32-bit length, and then it changes nothing.

* `Spans.run_reset`: whatever a row holds, a reset leaves a new row of as many fields;
* `preserves_append`: an append does not change for how many fields a row has room.
-/
import EquiJoin.Action
import EquiJoin.Key.Basic

namespace EquiJoin.Row

/-- an action on a row -/
abbrev Act (α : Type) := Action Error Row α

/-- the bytes behind the null bits dropped and the null bits cleared, in the buffer that the row has -/
def cleared (r : Row) : Row := { r with written := 0, nullBits := r.nullBits.map fun _ => 0, body := [] }

def reset : Act Unit := modify cleared

/-- take the next field -/
def nextField : Act Nat := fun r =>
  if r.fields ≤ r.written then .error (.refused (.rowFull r.fields)) r
  else .ok r.written { r with written := r.written + 1 }

def appendNull : Act Unit := do
  let field ← nextField
  modify fun r => { r with nullBits := r.nullBits.modify (field / 8) (· ||| bit field) }

/-- put bytes after the fields so far -/
def appendBytes (bs : Bytes) : Act Unit := modify fun r => { r with body := r.body ++ bs }

/-- append the next field; a null key becomes a null field -/
def append (k : Key) : Act Unit :=
  match k.bytes? with
  | none => appendNull
  | some (.scalar w) => do
    let _ ← nextField
    appendBytes (LittleEndian.encode 8 w.toNat)
  | some (.slice bs) =>
    if 1 <<< 32 ≤ bs.length then Action.refuse (.fieldTooLong bs.length)
    else do
      let _ ← nextField
      appendBytes (LittleEndian.encode 4 bs.length ++ bs)

/-- append one key after another -/
def appendAll (ks : List Key) : Act Unit := ks.forM append

/-! ## Rows of so many fields -/

/-- a row of `n` fields, whatever it holds -/
structure Spans (n : Nat) (r : Row) : Prop where
  fields : r.fields = n
  nullBits : r.nullBits.length = nullBytes n

theorem spans_new (n : Nat) : (new n).Spans n := ⟨rfl, List.length_replicate⟩

/-- a row whose null bits have their length is cleared to a new one -/
theorem cleared_eq {r : Row} (h : r.nullBits.length = nullBytes r.fields) : r.cleared = new r.fields := by
  rw [cleared, new, List.map_const', h]

theorem run_reset {r : Row} (h : r.nullBits.length = nullBytes r.fields) :
    reset.run r = .ok () (new r.fields) := by
  rw [reset, Action.run_modify, cleared_eq h]

theorem Spans.run_reset {r : Row} {n : Nat} (h : r.Spans n) : reset.run r = .ok () (new n) := by
  cases h.fields
  exact Row.run_reset h.nullBits

theorem run_nextField (r : Row) : nextField.run r =
    if r.fields ≤ r.written then .error (.refused (.rowFull r.fields)) r
    else .ok r.written { r with written := r.written + 1 } := by
  simp only [EStateM.run, nextField]

variable {n : Nat}

theorem preserves_nextField : Action.Preserves (Spans n) nextField := by
  intro r hr
  rw [Action.after, run_nextField]
  split
  · next heq =>
    split at heq
    · cases heq
    · cases heq
      exact ⟨hr.fields, hr.nullBits⟩
  · next heq =>
    split at heq
    · cases heq
      exact hr
    · cases heq

theorem preserves_appendBytes (bs : Bytes) : Action.Preserves (Spans n) (appendBytes bs) :=
  fun _ hr => ⟨hr.fields, hr.nullBits⟩

theorem preserves_append (k : Key) : Action.Preserves (Spans n) (append k) := by
  unfold append
  split
  · refine preserves_nextField.bind fun field r hr => ⟨hr.fields, ?_⟩
    exact (List.length_modify ..).trans hr.nullBits
  · exact preserves_nextField.bind fun _ => preserves_appendBytes _
  · split
    · exact (Action.inert_throw _).preserves
    · exact preserves_nextField.bind fun _ => preserves_appendBytes _

/-! ## Rows of keys -/

/-- the row of `n` fields with these keys appended -/
def ofKeys (n : Nat) (ks : List Key) : Except (Stop Error) Row :=
  match (appendAll ks).run (new n) with
  | .ok _ r => .ok r
  | .error e _ => .error e

end EquiJoin.Row
