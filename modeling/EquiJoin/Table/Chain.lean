/-
Walking the chain of one slot. The walk never trusts the memory it reads: an entry that is not inside the region ends
it, and so does a link that does not point further on. Links therefore only grow, and a walk ends after at most as
many entries as the region has bytes, whatever the region holds.

`Matches` is the walk for one hash and key, one payload at a time; `chain` is the list of all entries that the walk
examines. `checkedCalls` is the walk once more, with every access checked, so that a step which leaves the region has no
outcome, and with a record of the entries that are examined.

* `collect_eq_chain`: the payloads collected are those of the examined entries that carry the hash and the key, in
  order;
* `checkedSeek_eq`, `checkedCalls_eq`: the checked walk always has an outcome, and it is that of the plain one.
-/
import EquiJoin.Table.Entry

namespace EquiJoin

namespace Link

/-- the link to follow from the entry at `here`; one that does not move forward ends the chain -/
def forward (here next : Link) : Link := if here < next then next else allOnes

theorem forward_gt {here : Link} (h : here ≠ allOnes) (next : Link) : here < forward here next := by
  unfold forward
  split
  · assumption
  · rw [UInt64.lt_iff_toNat_lt]
    have hlt := here.toNat_lt
    have hne : here.toNat ≠ allOnes.toNat := fun e => h (UInt64.toNat_inj.1 e)
    have : allOnes.toNat = (1 <<< 64) - 1 := rfl
    omega

/-- links that are left above a link -/
def room (l : Link) : Nat := (1 <<< 64) - l.toNat

theorem room_lt_of_lt {a b : Link} (h : a < b) : room b < room a := by
  rw [UInt64.lt_iff_toNat_lt] at h
  have := b.toNat_lt
  unfold room
  omega

end Link

/-- the entries that a walk from `link` examines, each with its offset -/
def chain (r : Region) (link : Link) : List (Nat × Entry) :=
  if _h : link = allOnes then []
  else
    match Entry.tryDecode? r link.toNat with
    | none => []
    | some e => (link.toNat, e) :: chain r (Link.forward link e.next)
termination_by link.room
decreasing_by exact Link.room_lt_of_lt (Link.forward_gt _h _)

/-- the walk through one chain for one hash and key -/
structure Matches where
  region : Region
  hash : UInt64
  key : Bytes
  /-- the entry to examine next -/
  link : Link

namespace Matches

/-- an entry is a match if it carries both the hash and the key -/
def hit (hash : UInt64) (key : Bytes) (e : Entry) : Bool := e.hash == hash && e.key == key

/-- the first match from `link` on, and the link after it -/
def seek (r : Region) (hash : UInt64) (key : Bytes) (link : Link) : Option Bytes × Link :=
  if _h : link = allOnes then (none, allOnes)
  else
    match Entry.tryDecode? r link.toNat with
    | none => (none, allOnes)
    | some e =>
      if hit hash key e then (some e.payload, Link.forward link e.next)
      else seek r hash key (Link.forward link e.next)
termination_by link.room
decreasing_by exact Link.room_lt_of_lt (Link.forward_gt _h _)

/-- the next payload, and the walk after it -/
def next? (m : Matches) : Option Bytes × Matches :=
  let (p, link) := seek m.region m.hash m.key m.link
  (p, { m with link })

/-- a walk that found a match has moved forward -/
theorem lt_of_seek {r : Region} {hash : UInt64} {key p : Bytes} {link after : Link}
    (h : seek r hash key link = (some p, after)) : link < after := by
  fun_induction seek r hash key link with
  | case1 => simp at h
  | case2 => simp at h
  | case3 link hne e _ _ =>
    simp only [Prod.mk.injEq] at h
    exact h.2 ▸ Link.forward_gt hne _
  | case4 link hne e _ _ ih =>
    have h1 := Link.forward_gt hne e.next
    have h2 := ih h
    rw [UInt64.lt_iff_toNat_lt] at *
    omega

/-- all payloads from `link` on -/
def collect (r : Region) (hash : UInt64) (key : Bytes) (link : Link) : List Bytes :=
  match _h : seek r hash key link with
  | (none, _) => []
  | (some p, after) => p :: collect r hash key after
termination_by link.room
decreasing_by exact Link.room_lt_of_lt (lt_of_seek _h)

/-- all payloads that are left, in the order of the chain -/
def toList (m : Matches) : List Bytes := collect m.region m.hash m.key m.link

theorem seek_eq_of_decode {r : Region} {hash : UInt64} {key : Bytes} {link : Link} {e : Entry}
    (h : link ≠ allOnes) (hd : Entry.tryDecode? r link.toNat = some e) :
    seek r hash key link =
      if hit hash key e then (some e.payload, Link.forward link e.next)
      else seek r hash key (Link.forward link e.next) := by
  rw [seek, dif_neg h, hd]

theorem seek_eq_none {r : Region} {hash : UInt64} {key : Bytes} {link : Link}
    (h : link = allOnes ∨ Entry.tryDecode? r link.toNat = none) : seek r hash key link = (none, allOnes) := by
  rw [seek]
  rcases h with h | h
  · rw [dif_pos h]
  · rw [h]
    split <;> rfl

theorem collect_of_seek (r : Region) (hash : UInt64) (key : Bytes) (link : Link) :
    collect r hash key link =
      match seek r hash key link with
      | (none, _) => []
      | (some p, after) => p :: collect r hash key after := by
  rw [collect]
  split <;> simp_all

/-- a walk collects the payloads of the examined entries that carry the hash and the key -/
theorem collect_eq_chain (r : Region) (hash : UInt64) (key : Bytes) (link : Link) :
    collect r hash key link = ((chain r link).filter fun e => hit hash key e.2).map fun e => e.2.payload := by
  fun_induction chain r link with
  | case1 => rw [collect_of_seek, seek_eq_none (.inl rfl)]; rfl
  | case2 link _ hd => rw [collect_of_seek, seek_eq_none (.inr hd)]; rfl
  | case3 link h e hd ih =>
    rw [collect_of_seek, seek_eq_of_decode h hd]
    by_cases hh : hit hash key e = true
    · simp only [hh, ↓reduceIte, List.filter_cons, List.map_cons, ih]
    · simp only [hh, Bool.false_eq_true, ↓reduceIte, List.filter_cons, ← ih, ← collect_of_seek]

/-! ## Every access checked -/

/-- the walk to the next match with every access checked, and beside its outcome the entries that it examined -/
def checkedSeek (r : Region) (hash : UInt64) (key : Bytes) (link : Link) :
    Option (List (Nat × Entry) × Option Bytes × Link) :=
  if _h : link = allOnes then some ([], none, allOnes)
  else
    match Entry.checkedDecode? r link.toNat with
    | none => none
    | some none => some ([], none, allOnes)
    | some (some e) =>
      if hit hash key e then some ([(link.toNat, e)], some e.payload, Link.forward link e.next)
      else
        (checkedSeek r hash key (Link.forward link e.next)).map fun (seen, found) => ((link.toNat, e) :: seen, found)
termination_by link.room
decreasing_by exact Link.room_lt_of_lt (Link.forward_gt _h _)

/-- one step of the checked walk, told by the plain decoder -/
theorem checkedSeek_of_decode {r : Region} {hash : UInt64} {key : Bytes} {link : Link} (h : link ≠ allOnes) :
    checkedSeek r hash key link =
      match Entry.tryDecode? r link.toNat with
      | none => some ([], none, allOnes)
      | some e =>
        if hit hash key e then some ([(link.toNat, e)], some e.payload, Link.forward link e.next)
        else
          (checkedSeek r hash key (Link.forward link e.next)).map fun (seen, found) =>
            ((link.toNat, e) :: seen, found) := by
  rw [checkedSeek, dif_neg h, Entry.checkedDecode?_eq]
  cases Entry.tryDecode? r link.toNat <;> rfl

/-- no access of the walk leaves the region; it examines the first entries of the chain and goes on behind them, and a
payload that it yields belongs to one of them that carries the hash and the key -/
theorem checkedSeek_eq (r : Region) (hash : UInt64) (key : Bytes) (link : Link) :
    ∃ seen, checkedSeek r hash key link = some (seen, seek r hash key link) ∧
      chain r link = seen ++ chain r (seek r hash key link).2 ∧
      ∀ payload, (seek r hash key link).1 = some payload → ∃ p ∈ seen, hit hash key p.2 ∧ p.2.payload = payload := by
  fun_induction seek r hash key link with
  | case1 => exact ⟨[], by rw [checkedSeek, dif_pos rfl], rfl, by simp⟩
  | case2 link hne hdecode =>
    refine ⟨[], by rw [checkedSeek_of_decode hne, hdecode], ?_, by simp⟩
    have hend : chain r allOnes = [] := by rw [chain, dif_pos rfl]
    rw [chain, dif_neg hne, hdecode, hend]
    rfl
  | case3 link hne e hdecode hhit =>
    refine ⟨[(link.toNat, e)], by rw [checkedSeek_of_decode hne, hdecode]; exact if_pos hhit, ?_, ?_⟩
    · rw [chain, dif_neg hne, hdecode]
      rfl
    · rintro payload ⟨⟩
      exact ⟨_, List.mem_singleton_self _, hhit, rfl⟩
  | case4 link hne e hdecode hhit ih =>
    obtain ⟨seen, hseek, hchain, hfound⟩ := ih
    refine ⟨(link.toNat, e) :: seen, ?_, ?_, fun payload hpayload => ?_⟩
    · rw [checkedSeek_of_decode hne, hdecode]
      simp only [if_neg hhit, hseek, Option.map_some]
    · rw [chain, dif_neg hne, hdecode]
      simp only [hchain, List.cons_append]
    · obtain ⟨p, hp, hcarries, hpayload⟩ := hfound payload hpayload
      exact ⟨p, List.mem_cons_of_mem _ hp, hcarries, hpayload⟩

/-- what `n` calls for the next payload answer -/
def answers : Nat → Matches → List (Option Bytes)
  | 0, _ => []
  | n + 1, m => m.next?.1 :: answers n m.next?.2

/-- the same calls with every access checked, and beside their answers the entries that they examined -/
def checkedCalls : Nat → Matches → Option (List (Nat × Entry) × List (Option Bytes))
  | 0, _ => some ([], [])
  | n + 1, m => do
    let (seen, answer, link) ← checkedSeek m.region m.hash m.key m.link
    let (more, answers) ← checkedCalls n { m with link }
    return (seen ++ more, answer :: answers)

/-- no access of any call leaves the region; all calls together examine the first entries of the chain, and their
payloads belong to entries among these that carry the hash and the key -/
theorem checkedCalls_eq (n : Nat) (m : Matches) :
    ∃ seen, checkedCalls n m = some (seen, m.answers n) ∧ seen <+: chain m.region m.link ∧
      ∀ payload, some payload ∈ m.answers n → ∃ p ∈ seen, hit m.hash m.key p.2 ∧ p.2.payload = payload := by
  induction n generalizing m with
  | zero => exact ⟨[], rfl, List.nil_prefix, by simp [answers]⟩
  | succ n ih =>
    obtain ⟨seen, hseek, hchain, hfound⟩ := checkedSeek_eq m.region m.hash m.key m.link
    obtain ⟨more, hcalls, hinitial, hmore⟩ := ih m.next?.2
    have hnext : m.next? = ((seek m.region m.hash m.key m.link).1,
        { m with link := (seek m.region m.hash m.key m.link).2 }) := rfl
    rw [hnext] at hcalls hinitial hmore
    refine ⟨seen ++ more, ?_, ?_, fun payload hpayload => ?_⟩
    · simp only [checkedCalls, hseek, Option.bind_eq_bind, Option.bind_some, hcalls, answers, hnext, Option.pure_def]
    · rw [hchain]
      exact (List.prefix_append_right_inj seen).2 hinitial
    · rw [answers, hnext] at hpayload
      rcases List.mem_cons.1 hpayload with h | h
      · obtain ⟨p, hp, hcarries⟩ := hfound payload h.symm
        exact ⟨p, List.mem_append_left more hp, hcarries⟩
      · obtain ⟨p, hp, hcarries⟩ := hmore payload h
        exact ⟨p, List.mem_append_right seen hp, hcarries⟩

end Matches

end EquiJoin
