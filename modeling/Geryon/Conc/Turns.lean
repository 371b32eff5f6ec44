import Geryon.Conc.Logic

/-!
# Threads that take turns

Where only the thread that has the turn changes the state, it knows the state
exactly, and its part of a run is computed as if it were alone.  `turns` is the
discipline of such threads: `P` holds all the time, and `I` while nobody has the
turn.  A thread without the turn performs operations that leave the state as it
is, or takes the turn when nobody has it.

`Machine.withState` is a machine with the operations of another one, and
`Prog.transfer` takes programs there.
-/

namespace Conc

variable {M : Machine} {α β : Type}

/-- The operations of `M` on another state. -/
@[reducible] def Machine.withState (M : Machine) (State Choice : Type)
    (exec : State → M.Thread → (o : M.Op) → Choice → Option (M.Ret o × State)) : Machine :=
  { M with State, Choice, exec }

section Transfer

variable {State Choice : Type}
  {exec : State → M.Thread → (o : M.Op) → Choice → Option (M.Ret o × State)}

def Prog.transfer : Prog M α → Prog (M.withState State Choice exec) α
  | .pure a => .pure a
  | .op o k => .op o fun r => (k r).transfer

variable {D : Discipline (M.withState State Choice exec)} {t : M.Thread} {p : Prog M α} {κ : D.Know}

theorem Discipline.wp_transfer_bind {f : α → Prog M β} {Q : β → D.Know → Prop}
    (h : D.wp t p.transfer (fun a κ' => D.wp t (f a).transfer Q κ') κ) :
    D.wp t (p.bind f).transfer Q κ := by
  induction p generalizing κ with
  | pure a => exact h
  | op o k ih => exact Does.mono h fun r κ' hr => ih r hr

end Transfer

/-- Threads that take turns, where `turn` says whose turn it is. -/
def turns (turn : M.State → Option M.Thread) (C : Cond M) (P I : M.State → Prop) :
    Discipline M where
  cond := C
  Know := Option M.State
  inv s := P s ∧ (turn s = none → I s)
  knows s t
    | none => turn s ≠ some t
    | some s0 => s = s0 ∧ turn s = some t
  guar _ _ _ _ := True

namespace Turns

variable {turn : M.State → Option M.Thread} {C : Cond M} {P I : M.State → Prop} {t : M.Thread}
  {o : M.Op} {Q : M.Ret o → Option M.State → Prop}

theorem stable_of_turn {s s' : M.State} (hbefore : turn s = none ∨ turn s = some t)
    (hafter : turn s' = none ∨ turn s' = some t) : (turns turn C P I).Stable t s s' := by
  rintro u hu (_ | s0) hknows
  · rcases hafter with h | h
    · exact fun heq => by cases h.symm.trans heq
    · exact fun heq => hu (Option.some.inj (heq.symm.trans h))
  · rcases hbefore with h | h
    · cases h.symm.trans hknows.2
    · exact absurd (Option.some.inj (hknows.2.symm.trans h)) hu

/-- Without the turn: an operation that leaves the state as it is. -/
theorem does_aside (h : ∀ s ch r s', M.exec s t o ch = some (r, s') → s' = s ∧ Q r none) :
    (turns turn C P I).Does t o Q none := by
  refine ⟨fun _ _ _ hurgent => hurgent.elim, ?_⟩
  intro s ch r s' hinv hknows _ hexec
  obtain ⟨rfl, hQ⟩ := h s ch r s' hexec
  exact ⟨trivial, hinv, Discipline.Stable.refl _, none, hknows, hQ⟩

/-- An operation that takes the turn, if it succeeds. -/
theorem does_take (h : ∀ s ch r s', C s t o ch = true → P s → M.exec s t o ch = some (r, s') →
      s' = s ∧ Q r none ∨ turn s = none ∧ (I s → P s' ∧ turn s' = some t ∧ Q r (some s'))) :
    (turns turn C P I).Does t o Q none := by
  refine ⟨fun _ _ _ hurgent => hurgent.elim, ?_⟩
  intro s ch r s' hinv hknows hcond hexec
  rcases h s ch r s' hcond hinv.1 hexec with ⟨rfl, hQ⟩ | ⟨hnone, hrest⟩
  · exact ⟨trivial, hinv, Discipline.Stable.refl _, none, hknows, hQ⟩
  · obtain ⟨hP, hturn, hQ⟩ := hrest (hinv.2 hnone)
    refine ⟨trivial, ⟨hP, ?_⟩, stable_of_turn (.inl hnone) (.inr hturn), some s', ⟨rfl, hturn⟩, hQ⟩
    exact fun heq => by cases heq.symm.trans hturn

/-- With the turn: the state is known, and when the turn ends `I` has to hold. -/
theorem does_within {s : M.State} (h : ∀ ch r s', C s t o ch = true → P s → turn s = some t →
      M.exec s t o ch = some (r, s') →
      P s' ∧ (turn s' = some t ∧ Q r (some s') ∨ turn s' = none ∧ I s' ∧ Q r none)) :
    (turns turn C P I).Does t o Q (some s) := by
  refine ⟨fun _ _ _ hurgent => hurgent.elim, ?_⟩
  rintro _ ch r s' hinv ⟨rfl, hturn⟩ hcond hexec
  obtain ⟨hP, ⟨hturn', hQ⟩ | ⟨hnone, hI, hQ⟩⟩ := h ch r s' hcond hinv.1 hturn hexec
  · refine ⟨trivial, ⟨hP, ?_⟩, stable_of_turn (.inr hturn) (.inr hturn'), some s', ⟨rfl, hturn'⟩, hQ⟩
    exact fun heq => by cases heq.symm.trans hturn'
  · refine ⟨trivial, ⟨hP, fun _ => hI⟩, stable_of_turn (.inr hturn) (.inl hnone), none, ?_, hQ⟩
    exact fun heq => by cases hnone.symm.trans heq

end Turns

end Conc
