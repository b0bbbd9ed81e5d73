/-
Calls that change a state and may fail. An `Action` keeps whatever it had written when it stops, so "a failed call
leaves no trace" is a statement about an action and not a property of its type.

A call stops short of an answer for one of two reasons. It is refused and says why, which is an ordinary answer to the
caller; or the machine stops it, because an index left its array, because a number left its word, or because no
allocator can give the memory asked for.
-/
namespace EquiJoin

/-- why a call ended without an answer -/
inductive Stop (ε : Type) where
  /-- the call was refused -/
  | refused (e : ε)
  /-- an index left its array, a number left its word, or an allocation is out of reach -/
  | fault
  deriving DecidableEq, Repr

namespace Stop

def map {ε ε' : Type} (f : ε → ε') : Stop ε → Stop ε'
  | .refused e => .refused (f e)
  | .fault => .fault

end Stop

/-- a call on a state `σ` that answers an `α` or stops -/
abbrev Action (ε σ α : Type) := EStateM (Stop ε) σ α

namespace Action

variable {ε ε' σ α : Type}

/-- stop with a reason; what was written so far stays -/
def refuse (e : ε) : Action ε σ α := throw (.refused e)

/-- ask a question about the state; the state stays -/
def query (f : σ → Except ε α) : Action ε σ α := fun s =>
  match f s with
  | .ok a => .ok a s
  | .error e => .error (.refused e) s

/-- take the outcome of a call that needs no state; the state stays -/
def ofExcept (outcome : Except (Stop ε) α) : Action ε σ α := fun s =>
  match outcome with
  | .ok a => .ok a s
  | .error e => .error e s

/-- the state after a call, whatever its outcome -/
def after (act : Action ε σ α) (s : σ) : σ :=
  match act.run s with
  | .ok _ s' => s'
  | .error _ s' => s'

/-- the answer of a call, or why there is none -/
def answer (act : Action ε σ α) (s : σ) : Except (Stop ε) α :=
  match act.run s with
  | .ok a _ => .ok a
  | .error e _ => .error e

/-! ## Calls in sequence -/

variable {β : Type}

theorem run_bind_of_ok {act : Action ε σ α} {f : α → Action ε σ β} {s s' : σ} {a : α} (h : act.run s = .ok a s') :
    (act >>= f).run s = (f a).run s' := by
  simp only [EStateM.run, bind, EStateM.bind] at *
  simp only [h]

theorem run_bind_of_error {act : Action ε σ α} {f : α → Action ε σ β} {s s' : σ} {e : Stop ε}
    (h : act.run s = .error e s') : (act >>= f).run s = .error e s' := by
  simp only [EStateM.run, bind, EStateM.bind] at *
  simp only [h]

/-- a sequence answers exactly when both calls do -/
theorem run_bind_eq_ok {act : Action ε σ α} {f : α → Action ε σ β} {s s' : σ} {b : β} :
    (act >>= f).run s = .ok b s' ↔ ∃ a m, act.run s = .ok a m ∧ (f a).run m = .ok b s' := by
  cases h : act.run s with
  | ok a m =>
    rw [run_bind_of_ok h]
    exact ⟨fun hf => ⟨a, m, rfl, hf⟩, fun ⟨_, _, hm, hf⟩ => by cases hm; exact hf⟩
  | error e m => simp [run_bind_of_error h]

/-- a sequence stops where its first call stops, or else where its second call does -/
theorem run_bind_eq_error {act : Action ε σ α} {f : α → Action ε σ β} {s s' : σ} {e : Stop ε} :
    (act >>= f).run s = .error e s' ↔
      act.run s = .error e s' ∨ ∃ a m, act.run s = .ok a m ∧ (f a).run m = .error e s' := by
  cases h : act.run s with
  | ok a m =>
    rw [run_bind_of_ok h]
    refine ⟨fun hf => Or.inr ⟨a, m, rfl, hf⟩, fun hs => ?_⟩
    rcases hs with hs | ⟨_, _, hm, hf⟩
    · cases hs
    · cases hm; exact hf
  | error e m => simp [run_bind_of_error h]

theorem run_query_of_ok {f : σ → Except ε α} {s : σ} {a : α} (h : f s = .ok a) : (query f).run s = .ok a s := by
  simp only [EStateM.run, query, h]

theorem run_query_of_error {f : σ → Except ε α} {s : σ} {e : ε} (h : f s = .error e) :
    (query f).run s = .error (.refused e) s := by
  simp only [EStateM.run, query, h]

theorem run_query_eq_ok {f : σ → Except ε α} {s s' : σ} {a : α} (h : (query f).run s = .ok a s') :
    f s = .ok a ∧ s' = s := by
  cases hf : f s with
  | ok b => cases (run_query_of_ok hf).symm.trans h; exact ⟨rfl, rfl⟩
  | error e => cases (run_query_of_error hf).symm.trans h

theorem query_never_faults {f : σ → Except ε α} {s s' : σ} : (query f).run s ≠ .error .fault s' := by
  cases hf : f s with
  | ok b => simp [run_query_of_ok hf]
  | error e => simp [run_query_of_error hf]

theorem run_modify (f : σ → σ) (s : σ) : (modify f : Action ε σ Unit).run s = .ok () (f s) := rfl

theorem after_of_ok {act : Action ε σ α} {s s' : σ} {a : α} (h : act.run s = .ok a s') : act.after s = s' := by
  simp only [after, h]

theorem after_of_error {act : Action ε σ α} {s s' : σ} {e : Stop ε} (h : act.run s = .error e s') :
    act.after s = s' := by
  simp only [after, h]

/-! ## What calls keep -/

/-- every call leaves behind a state with this property, whatever its outcome, if it starts in one -/
def Preserves (p : σ → Prop) (act : Action ε σ α) : Prop := ∀ s, p s → p (act.after s)

/-- the call only asks: whatever its outcome, the state stays -/
def Inert (act : Action ε σ α) : Prop := ∀ s, act.after s = s

variable {act : Action ε σ α} {f : α → Action ε σ β} {p : σ → Prop}

theorem after_bind_of_ok {s s' : σ} {a : α} (h : act.run s = .ok a s') : (act >>= f).after s = (f a).after s' := by
  rw [after, run_bind_of_ok h]
  rfl

theorem after_bind_of_error {s s' : σ} {e : Stop ε} (h : act.run s = .error e s') : (act >>= f).after s = s' :=
  after_of_error (run_bind_of_error h)

theorem Preserves.bind (h : Preserves p act) (hf : ∀ a, Preserves p (f a)) : Preserves p (act >>= f) := by
  intro s hs
  have hact := h s hs
  cases hrun : act.run s with
  | ok a s' =>
    rw [after_of_ok hrun] at hact
    rw [after_bind_of_ok hrun]
    exact hf a s' hact
  | error e s' =>
    rw [after_of_error hrun] at hact
    rwa [after_bind_of_error hrun]

theorem Inert.preserves (h : Inert act) : Preserves p act := by
  intro s hs
  rwa [h s]

theorem Inert.bind (h : Inert act) (hf : ∀ a, Inert (f a)) : Inert (act >>= f) := by
  intro s
  exact (h.preserves (p := (· = s))).bind (fun a => (hf a).preserves) s rfl

theorem inert_pure (a : α) : Inert (pure a : Action ε σ α) := fun _ => rfl

theorem inert_throw (e : Stop ε) : Inert (throw e : Action ε σ α) := fun _ => rfl

theorem inert_query (f : σ → Except ε α) : Inert (query f) := by
  intro s
  cases h : f s with
  | ok a => exact after_of_ok (run_query_of_ok h)
  | error e => exact after_of_error (run_query_of_error h)

theorem inert_ofExcept (outcome : Except (Stop ε) α) : Inert (ofExcept outcome : Action ε σ α) := by
  intro s
  cases outcome <;> rfl

/-- an inert call answers or stops in the state it was made in -/
theorem Inert.eq_of_ok (h : Inert act) {s s' : σ} {a : α} (hrun : act.run s = .ok a s') : s' = s := by
  rw [← after_of_ok hrun, h s]

theorem Inert.eq_of_error (h : Inert act) {s s' : σ} {e : Stop ε} (hrun : act.run s = .error e s') : s' = s := by
  rw [← after_of_error hrun, h s]

/-- after an inert call, a sequence that stops leaves the state if the rest of it does -/
theorem Inert.eq_of_bind_error (h : Inert act) {s s' : σ} {e : Stop ε}
    (hf : ∀ a, act.run s = .ok a s → (f a).run s = .error e s' → s' = s) (hrun : (act >>= f).run s = .error e s') :
    s' = s := by
  rcases run_bind_eq_error.1 hrun with hact | ⟨a, m, hact, hrest⟩
  · exact h.eq_of_error hact
  · cases h.eq_of_ok hact
    exact hf a hact hrest

/-! ## What calls stop with -/

/-- whatever the call stops with, in whatever state, has this property -/
def Stops (q : Stop ε → Prop) (act : Action ε σ α) : Prop := ∀ s s' e, act.run s = .error e s' → q e

variable {q : Stop ε → Prop}

theorem Stops.bind (h : Stops q act) (hf : ∀ a, Stops q (f a)) : Stops q (act >>= f) := by
  intro s s' e hrun
  rcases run_bind_eq_error.1 hrun with hact | ⟨a, m, -, hrest⟩
  · exact h s s' e hact
  · exact hf a m s' e hrest

theorem stops_pure (a : α) : Stops q (pure a : Action ε σ α) := nofun

theorem stops_modify (g : σ → σ) : Stops q (modify g : Action ε σ Unit) := nofun

theorem stops_throw {e : Stop ε} (h : q e) : Stops q (throw e : Action ε σ α) := by
  intro s s' e' hrun
  cases hrun
  exact h

theorem stops_query {f : σ → Except ε α} (h : ∀ s e, f s = .error e → q (.refused e)) : Stops q (query f) := by
  intro s s' e hrun
  cases hf : f s with
  | ok a => cases (run_query_of_ok hf).symm.trans hrun
  | error e' =>
    cases (run_query_of_error hf).symm.trans hrun
    exact h s e' hf

/-! ## Calls on two states -/

variable {σ' : Type} {act' : Action ε σ' α} {f' : α → Action ε σ' β} {R : σ → σ' → Prop}

/-- on states that are related so, both calls answer or stop alike, and leave states that are related again -/
def Agree (R : σ → σ' → Prop) (act : Action ε σ α) (act' : Action ε σ' α) : Prop :=
  ∀ s s', R s s' → act.answer s = act'.answer s' ∧ R (act.after s) (act'.after s')

theorem answer_of_ok {s s₁ : σ} {a : α} (h : act.run s = .ok a s₁) : act.answer s = .ok a := by
  simp only [answer, h]

theorem answer_of_error {s s₁ : σ} {e : Stop ε} (h : act.run s = .error e s₁) : act.answer s = .error e := by
  simp only [answer, h]

theorem answer_bind_of_ok {s s₁ : σ} {a : α} (h : act.run s = .ok a s₁) : (act >>= f).answer s = (f a).answer s₁ := by
  rw [answer, run_bind_of_ok h]
  rfl

/-- both calls answer alike -/
theorem agree_of_ok {s s₁ : σ} {s' s₁' : σ'} {a : α} (h : act.run s = .ok a s₁) (h' : act'.run s' = .ok a s₁')
    (hR : R s₁ s₁') : act.answer s = act'.answer s' ∧ R (act.after s) (act'.after s') := by
  rw [answer_of_ok h, answer_of_ok h', after_of_ok h, after_of_ok h']
  exact ⟨rfl, hR⟩

/-- both calls stop alike -/
theorem agree_of_error {s s₁ : σ} {s' s₁' : σ'} {e : Stop ε} (h : act.run s = .error e s₁)
    (h' : act'.run s' = .error e s₁') (hR : R s₁ s₁') :
    act.answer s = act'.answer s' ∧ R (act.after s) (act'.after s') := by
  rw [answer_of_error h, answer_of_error h', after_of_error h, after_of_error h']
  exact ⟨rfl, hR⟩

/-- two sequences agree if their first calls do, and the rest does for every answer that the first may give -/
theorem Agree.bind (h : Agree R act act')
    (hf : ∀ a s s' m, R s s' → act.run s = .ok a m → Agree R (f a) (f' a)) : Agree R (act >>= f) (act' >>= f') := by
  intro s s' hR
  obtain ⟨hanswer, hafter⟩ := h s s' hR
  cases hrun : act.run s with
  | ok a m =>
    rw [answer_of_ok hrun] at hanswer
    cases hrun' : act'.run s' with
    | error e' m' => cases hanswer.trans (answer_of_error hrun')
    | ok a' m' =>
      cases hanswer.trans (answer_of_ok hrun')
      rw [after_of_ok hrun, after_of_ok hrun'] at hafter
      rw [answer_bind_of_ok hrun, answer_bind_of_ok hrun', after_bind_of_ok hrun, after_bind_of_ok hrun']
      exact hf a s s' m hR hrun m m' hafter
  | error e m =>
    rw [answer_of_error hrun] at hanswer
    cases hrun' : act'.run s' with
    | ok a' m' => cases hanswer.trans (answer_of_ok hrun')
    | error e' m' =>
      cases hanswer.trans (answer_of_error hrun')
      rw [after_of_error hrun, after_of_error hrun'] at hafter
      exact agree_of_error (run_bind_of_error hrun) (run_bind_of_error hrun') hafter

theorem agree_pure (a : α) : Agree R (pure a : Action ε σ α) (pure a) := fun _ _ hR => ⟨rfl, hR⟩

theorem agree_throw (e : Stop ε) : Agree R (throw e : Action ε σ α) (throw e) := fun _ _ hR => ⟨rfl, hR⟩

theorem agree_query {g : σ → Except ε α} {g' : σ' → Except ε α} (h : ∀ s s', R s s' → g s = g' s') :
    Agree R (query g) (query g') := by
  intro s s' hR
  cases hg : g s with
  | ok a => exact agree_of_ok (run_query_of_ok hg) (run_query_of_ok ((h s s' hR).symm.trans hg)) hR
  | error e => exact agree_of_error (run_query_of_error hg) (run_query_of_error ((h s s' hR).symm.trans hg)) hR

theorem agree_modify {g : σ → σ} {g' : σ' → σ'} (h : ∀ s s', R s s' → R (g s) (g' s')) :
    Agree R (modify g : Action ε σ Unit) (modify g') :=
  fun s s' hR => ⟨rfl, h s s' hR⟩

end Action

end EquiJoin
