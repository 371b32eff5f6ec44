import Geryon.Conc.Machine

/-!
# The order of a thread's operations

A `Protocol` says in which order one thread may perform its operations: the
thread is in a phase, and an operation with its answer leads to the next one,
or is not allowed.  A program that keeps to this whatever its operations answer
`Obeys` the protocol; the shared state does not enter.

`Protocol.run_invariant` proves an invariant of the shared state and the phases
of all threads, for every run of programs that obey.

Where the next phase is not a function of the phase, the operation and its
answer, or depends on the thread, the order is a relation, with `Follows` and
`follows_invariant`.  What is said of a `Protocol` is an instance of it.
-/

namespace Conc

open Function

variable {M : Machine} {α β : Type}

/-! ## An order as a relation -/

section Follows

variable {Phase : Type} {R : Phase → (o : M.Op) → M.Ret o → Phase → Prop}

/-- Whatever the operations answer, the program can be led from phase to phase
by `R`, from `q` to an end with a result and in a phase that satisfy `Q`. -/
def Follows (R : Phase → (o : M.Op) → M.Ret o → Phase → Prop) :
    Prog M α → (α → Phase → Prop) → Phase → Prop
  | .pure a, Q, q => Q a q
  | .op o k, Q, q => ∀ r, ∃ q', R q o r q' ∧ Follows R (k r) Q q'

variable {Q : α → Phase → Prop} {q : Phase} {p : Prog M α}

theorem follows_act_bind {o : M.Op} {f : M.Ret o → Prog M α}
    (h : ∀ r, ∃ q', R q o r q' ∧ Follows R (f r) Q q') : Follows R (Prog.act o >>= f) Q q := h

theorem follows_seq {f : α → Prog M β} {Q' : β → Phase → Prop} (h : Follows R p Q q)
    (hf : ∀ a q', Q a q' → Follows R (f a) Q' q') : Follows R (p.bind f) Q' q := by
  induction p generalizing q with
  | pure a => exact hf a q h
  | op o k ih =>
    intro r
    obtain ⟨q', hnext, hk⟩ := h r
    exact ⟨q', hnext, ih r hk⟩

theorem follows_mono {Q' : α → Phase → Prop} (h : Follows R p Q q) (hQ : ∀ a q', Q a q' → Q' a q') :
    Follows R p Q' q := by
  induction p generalizing q with
  | pure a => exact hQ a q h
  | op o k ih =>
    intro r
    obtain ⟨q', hnext, hk⟩ := h r
    exact ⟨q', hnext, ih r hk⟩

/-- An invariant of the state and the phases.  A step of `t` is one that the
order allows in the phase of `t`, and moves `t` to the next phase. -/
theorem follows_invariant {R : M.Thread → Phase → (o : M.Op) → M.Ret o → Phase → Prop}
    {C : Cond M} {init cfg : Config M} {J : (M.Thread → Phase) → M.State → Prop}
    {q0 : M.Thread → Phase}
    (hprog : ∀ t, Follows (R t) (init.prog t) (fun _ _ => True) (q0 t)) (hinit : J q0 init.state)
    (hstep : ∀ {q s t} {o : M.Op} {ch r s' q'}, J q s → C s t o ch = true →
      R t (q t) o r q' → M.exec s t o ch = some (r, s') → J (update q t q') s')
    (hrun : Run C init cfg) :
    ∃ q, J q cfg.state ∧ ∀ t, Follows (R t) (cfg.prog t) (fun _ _ => True) (q t) := by
  induction hrun with
  | refl => exact ⟨q0, hinit, hprog⟩
  | @step cfg t o k ch r s' hrun hk hcond hexec ih =>
    obtain ⟨q, hJ, hfollows⟩ := ih
    have ht := hfollows t
    rw [hk] at ht
    obtain ⟨q', hnext, hrest⟩ := ht r
    refine ⟨update q t q', hstep hJ hcond hnext hexec, fun u => ?_⟩
    by_cases hu : u = t
    · subst hu
      show Follows (R u) (update cfg.prog u (k r) u) _ (update q u q' u)
      rw [update_self, update_self]
      exact hrest
    · show Follows (R u) (update cfg.prog t (k r) u) _ (update q t q' u)
      rw [update_of_ne hu, update_of_ne hu]
      exact hfollows u

end Follows

/-! ## Protocols -/

/-- The phases of a thread.  `next` is the phase after an operation and its
answer; where it is `none` the operation is not allowed. -/
structure Protocol (M : Machine) where
  Phase : Type
  next : Phase → (o : M.Op) → M.Ret o → Option Phase

namespace Protocol

variable (P : Protocol M)

/-- From the phase `q` the program keeps to the protocol, and ends with a
result and in a phase that satisfy `Q`. -/
def Obeys : Prog M α → (α → P.Phase → Prop) → P.Phase → Prop
  | .pure a, Q, q => Q a q
  | .op o k, Q, q => ∀ r, ∃ q', P.next q o r = some q' ∧ Obeys (k r) Q q'

variable {P}

variable {Q R : α → P.Phase → Prop} {q : P.Phase} {p : Prog M α}

theorem obeys_act_bind {o : M.Op} {f : M.Ret o → Prog M α}
    (h : ∀ r, ∃ q', P.next q o r = some q' ∧ P.Obeys (f r) Q q') :
    P.Obeys (Prog.act o >>= f) Q q := h

theorem obeys_iff_follows :
    P.Obeys p Q q ↔ Follows (fun q o r q' => P.next q o r = some q') p Q q := by
  induction p generalizing q with
  | pure a => exact Iff.rfl
  | op o k ih => exact forall_congr' fun r => exists_congr fun q' => and_congr_right fun _ => ih r

theorem obeys_seq {f : α → Prog M β} {Q : β → P.Phase → Prop} (h : P.Obeys p R q)
    (hf : ∀ a q', R a q' → P.Obeys (f a) Q q') : P.Obeys (p.bind f) Q q :=
  obeys_iff_follows.mpr (follows_seq (obeys_iff_follows.mp h)
    fun a q' hR => obeys_iff_follows.mp (hf a q' hR))

theorem obeys_mono (h : P.Obeys p Q q) (hQ : ∀ a q', Q a q' → R a q') : P.Obeys p R q :=
  obeys_iff_follows.mpr (follows_mono (obeys_iff_follows.mp h) hQ)

/-- An invariant of the state and the phases.  A step of `t` is one that the
protocol allows in the phase of `t`, and moves `t` to the next phase. -/
theorem run_invariant {C : Cond M} {init cfg : Config M}
    {J : (M.Thread → P.Phase) → M.State → Prop} {q0 : M.Thread → P.Phase}
    (hprog : ∀ t, P.Obeys (init.prog t) (fun _ _ => True) (q0 t)) (hinit : J q0 init.state)
    (hstep : ∀ {q s t} {o : M.Op} {ch r s' q'}, J q s → C s t o ch = true →
      P.next (q t) o r = some q' → M.exec s t o ch = some (r, s') → J (update q t q') s')
    (hrun : Run C init cfg) :
    ∃ q, J q cfg.state ∧ ∀ t, P.Obeys (cfg.prog t) (fun _ _ => True) (q t) := by
  obtain ⟨q, hJ, hfollows⟩ := follows_invariant (fun t => obeys_iff_follows.mp (hprog t)) hinit
    hstep hrun
  exact ⟨q, hJ, fun t => obeys_iff_follows.mpr (hfollows t)⟩

end Protocol

end Conc
