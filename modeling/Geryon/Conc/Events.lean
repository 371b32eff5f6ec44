import Mathlib.Logic.Relation

/-!
# Systems driven by events

An `Automaton` has a state and takes one atomic step for each event.  `none`
means that the event cannot happen now.  `Reach` is any sequence of steps, or
any sequence of steps that all meet a condition on the state before the step
and the event.
-/

namespace Conc

/-- A system that takes one step for each event. -/
structure Automaton (σ ε : Type) where
  init : σ
  next : σ → ε → Option σ

namespace Automaton

variable {σ ε : Type} (A : Automaton σ ε)

/-- One step, with an event that meets the condition. -/
def Step (ok : σ → ε → Bool) (s s' : σ) : Prop :=
  ∃ e, ok s e = true ∧ A.next s e = some s'

abbrev Reach (ok : σ → ε → Bool) : σ → σ → Prop := Relation.ReflTransGen (A.Step ok)

def anyEvent : σ → ε → Bool := fun _ _ => true

variable {A}

variable {ok : σ → ε → Bool} {s s' : σ}

/-- What holds at the start and is kept by every step holds in every state
reached. -/
theorem invariant {P : σ → Prop} (hreach : A.Reach ok s s') (hstart : P s)
    (hstep : ∀ {s e s'}, P s → ok s e = true → A.next s e = some s' → P s') : P s' := by
  induction hreach with
  | refl => exact hstart
  | tail _ h ih =>
    obtain ⟨e, hok, hnext⟩ := h
    exact hstep ih hok hnext

theorem reach_mono {ok' : σ → ε → Bool} (h : ∀ s e, ok s e = true → ok' s e = true)
    (hreach : A.Reach ok s s') : A.Reach ok' s s' := by
  refine Relation.ReflTransGen.mono ?_ _ _ hreach
  intro s s' hstep
  obtain ⟨e, hok, hnext⟩ := hstep
  exact ⟨e, h s e hok, hnext⟩

/-! ## Executing a list of events -/

variable (A)

/-- Take the steps of a list of events that all meet the condition. -/
def follow (ok : σ → ε → Bool) : σ → List ε → Option σ
  | s, [] => some s
  | s, e :: es => if ok s e then (A.next s e).bind fun s' => follow ok s' es else none

variable {A}

theorem reach_of_follow {es : List ε} (h : A.follow ok s es = some s') : A.Reach ok s s' := by
  induction es generalizing s with
  | nil =>
    cases h
    exact .refl
  | cons e es ih =>
    rw [follow] at h
    split at h
    · rename_i hok
      obtain ⟨s'', hnext, hrest⟩ := Option.bind_eq_some_iff.mp h
      exact .head ⟨e, hok, hnext⟩ (ih hrest)
    · cases h

variable (ok : σ → ε → Bool)

/-- A list of events that ends as wanted shows that some run does. -/
theorem exists_reach_of_follow (s : σ) (P : σ → Prop) [DecidablePred P]
    (es : List ε) (h : (A.follow ok s es).any (fun s => decide (P s)) = true) :
    ∃ s', A.Reach ok s s' ∧ P s' := by
  cases hf : A.follow ok s es with
  | none => simp [hf] at h
  | some s' => exact ⟨s', reach_of_follow hf, by simpa [hf] using h⟩

theorem exists_reach_reach (s : σ) (P Q : σ → Prop) [DecidablePred P]
    [DecidablePred Q] (es es' : List ε) (h : (A.follow ok s es).any (fun s' => decide (P s') &&
      (A.follow ok s' es').any fun s'' => decide (Q s'')) = true) :
    ∃ s' s'', A.Reach ok s s' ∧ A.Reach ok s' s'' ∧ P s' ∧ Q s'' := by
  obtain ⟨s', hreach, hP, hlater⟩ := exists_reach_of_follow ok s
    (fun s' => P s' ∧ (A.follow ok s' es').any (fun s'' => decide (Q s'')) = true) es
    (by simpa using h)
  obtain ⟨s'', hreach', hQ⟩ := exists_reach_of_follow ok s' Q es' hlater
  exact ⟨s', s'', hreach, hreach', hP, hQ⟩

end Automaton

end Conc
