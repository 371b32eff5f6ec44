import Geryon.Conc.Machine

/-!
# Reasoning thread by thread

A `Discipline` fixes an invariant of the shared state and, for each thread,
what the thread may know about the state: a value of type `Know`, read as an
assertion by `knows`.  A thread's knowledge has to survive the steps of all
other threads, so each operation owes three things besides its own result.
It keeps the invariant, it leaves the knowledge of the other threads true
(`Stable`), and it meets its `guar`antee, a fact about the state before it
which is all that a user of the discipline has to know about the programs.
And where the state is `urgent` for a thread, its next operation is enabled.

`wp t p Q κ` says that thread `t`, knowing `κ`, can run `p` within the
discipline and ends with a result and a knowledge that satisfy `Q`.  It is
computed along the program, so a procedure is verified once (`wp_bind`,
`wp_mono`) and a caller uses its specification.

`Discipline.sound` is the reason for all this: when every thread's program is
within the discipline at the start, it is so after every run whose steps meet
the condition.  `Discipline.guarantee` gives the guarantee of the next step,
`Discipline.progress` a step of a thread that the state is urgent for, and
`Discipline.run_invariant` proves further invariants from the guarantees
alone, without looking at the programs again.
-/

namespace Conc

open Function

variable {M : Machine}

/-- An invariant, what threads know, and what their operations guarantee. -/
structure Discipline (M : Machine) where
  cond : Cond M
  Know : Type
  inv : M.State → Prop
  knows : M.State → M.Thread → Know → Prop
  guar : M.State → M.Thread → M.Op → M.Choice → Prop
  urgent : M.State → M.Thread → Prop := fun _ _ => False

namespace Discipline

variable (D : Discipline M) {α β : Type} {t : M.Thread}

/-- A step of `t` leaves the knowledge of the other threads true. -/
def Stable (t : M.Thread) (s s' : M.State) : Prop :=
  ∀ u, u ≠ t → ∀ κ, D.knows s u κ → D.knows s' u κ

/-- Whenever thread `t`, knowing `κ`, performs `o`, it stays within the
discipline and ends in `Q`. -/
def Keeps (t : M.Thread) (o : M.Op) (Q : M.Ret o → D.Know → Prop) (κ : D.Know) : Prop :=
  ∀ s ch r s', D.inv s → D.knows s t κ → D.cond s t o ch = true →
    M.exec s t o ch = some (r, s') →
    D.guar s t o ch ∧ D.inv s' ∧ D.Stable t s s' ∧ ∃ κ', D.knows s' t κ' ∧ Q r κ'

/-- Where the state is urgent for `t`, it can perform `o`. -/
def Moves (t : M.Thread) (o : M.Op) (κ : D.Know) : Prop :=
  ∀ s, D.inv s → D.knows s t κ → D.urgent s t →
    ∃ ch, D.cond s t o ch = true ∧ (M.exec s t o ch).isSome = true

/-- Thread `t`, knowing `κ`, can perform `o` within the discipline, and ends
in `Q`. -/
def Does (t : M.Thread) (o : M.Op) (Q : M.Ret o → D.Know → Prop) (κ : D.Know) : Prop :=
  D.Moves t o κ ∧ D.Keeps t o Q κ

/-- What a thread knows at its end: nothing is urgent for it any more. -/
def Final (t : M.Thread) (κ : D.Know) : Prop :=
  ∀ s, D.inv s → D.knows s t κ → ¬ D.urgent s t

/-- Thread `t`, knowing `κ`, can run the program within the discipline, and
ends in `Q`. -/
def wp (t : M.Thread) : Prog M α → (α → D.Know → Prop) → D.Know → Prop
  | .pure a, Q, κ => Q a κ
  | .op o k, Q, κ => D.Does t o (fun r κ' => wp t (k r) Q κ') κ

variable {D}

theorem Stable.refl (s : M.State) : D.Stable t s s := fun _ _ _ h => h

variable {o : M.Op} {κ : D.Know} {Q : α → D.Know → Prop} {p : Prog M α} {cfg : Config M}

theorem Does.mono {Q Q' : M.Ret o → D.Know → Prop} (h : D.Does t o Q κ)
    (hQ : ∀ r κ', Q r κ' → Q' r κ') : D.Does t o Q' κ := by
  refine ⟨h.1, ?_⟩
  intro s ch r s' hinv hknows hcond hexec
  rcases h.2 s ch r s' hinv hknows hcond hexec with ⟨hguar, hinv', hstable, κ', hknows', hq⟩
  exact ⟨hguar, hinv', hstable, κ', hknows', hQ r κ' hq⟩

@[simp] theorem wp_pure {a : α} : D.wp t (.pure a) Q κ ↔ Q a κ := Iff.rfl

@[simp] theorem wp_op {k : M.Ret o → Prog M α} :
    D.wp t (.op o k) Q κ ↔ D.Does t o (fun r κ' => D.wp t (k r) Q κ') κ := Iff.rfl

theorem wp_act {Q : M.Ret o → D.Know → Prop} (h : D.Does t o Q κ) : D.wp t (Prog.act o) Q κ := h

theorem wp_act_bind {f : M.Ret o → Prog M α} (h : D.Does t o (fun r κ' => D.wp t (f r) Q κ') κ) :
    D.wp t (Prog.act o >>= f) Q κ := h

theorem wp_mono {Q' : α → D.Know → Prop} (h : D.wp t p Q κ) (hQ : ∀ a κ', Q a κ' → Q' a κ') :
    D.wp t p Q' κ := by
  induction p generalizing κ with
  | pure a => exact hQ a κ h
  | op o k ih => exact Does.mono h fun r κ' hr => ih r hr

variable {f : α → Prog M β} {init : Config M} {ch : M.Choice} {C : Cond M} {Q : β → D.Know → Prop}

theorem wp_bind (h : D.wp t p (fun a κ' => D.wp t (f a) Q κ') κ) : D.wp t (p.bind f) Q κ := by
  induction p generalizing κ with
  | pure a => exact h
  | op o k ih => exact Does.mono h fun r κ' hr => ih r hr

/-- Composition with a specification of the first part. -/
theorem wp_seq {R : α → D.Know → Prop} (h : D.wp t p R κ)
    (hf : ∀ a κ', R a κ' → D.wp t (f a) Q κ') : D.wp t (p.bind f) Q κ :=
  wp_bind (wp_mono h hf)

theorem wp_then {κ1 : D.Know} (h : D.wp t p (fun _ κ' => κ' = κ1) κ)
    (hf : ∀ a, D.wp t (f a) Q κ1) : D.wp t (p.bind f) Q κ :=
  wp_seq h fun a _ hκ => hκ ▸ hf a

/-! ## Soundness -/

variable (D)

/-- Every thread knows something that is true and is enough for it to run
within the discipline. -/
def Within (cfg : Config M) : Prop :=
  D.inv cfg.state ∧
    ∀ t, ∃ κ, D.knows cfg.state t κ ∧ D.wp t (cfg.prog t) (fun _ κ' => D.Final t κ') κ

variable {D}

/-- A run whose steps meet the condition stays within the discipline. -/
theorem sound (hinit : D.Within init) (hrun : Run D.cond init cfg) : D.Within cfg := by
  induction hrun with
  | refl => exact hinit
  | @step cfg t o k ch r s' hrun hprog hcond hexec ih =>
    obtain ⟨hinv, hthreads⟩ := ih
    obtain ⟨κ, hknows, hwp⟩ := hthreads t
    rw [hprog] at hwp
    obtain ⟨-, hinv', hstable, κ', hknows', hwp'⟩ := hwp.2 _ _ _ _ hinv hknows hcond hexec
    refine ⟨hinv', fun u => ?_⟩
    by_cases hu : u = t
    · subst hu
      refine ⟨κ', hknows', ?_⟩
      show D.wp u (update cfg.prog u (k r) u) _ κ'
      rw [update_self]
      exact hwp'
    · obtain ⟨κu, hku, hwpu⟩ := hthreads u
      refine ⟨κu, hstable u hu κu hku, ?_⟩
      show D.wp u (update cfg.prog t (k r) u) _ κu
      rw [update_of_ne hu]
      exact hwpu

/-- Within the discipline, the next step meets its guarantee. -/
theorem guarantee (hin : D.Within cfg) {k : M.Ret o → Prog M Unit} {r : M.Ret o} {s' : M.State}
    (hprog : cfg.prog t = .op o k) (hcond : D.cond cfg.state t o ch = true)
    (hexec : M.exec cfg.state t o ch = some (r, s')) : D.guar cfg.state t o ch := by
  obtain ⟨hinv, hthreads⟩ := hin
  obtain ⟨κ, hknows, hwp⟩ := hthreads t
  rw [hprog] at hwp
  exact (hwp.2 _ _ _ _ hinv hknows hcond hexec).1

/-- Within the discipline, a thread that the state is urgent for can take a
step. -/
theorem progress (hin : D.Within cfg) (hurgent : D.urgent cfg.state t) :
    ∃ o ch, cfg.Performs D.cond t o ch := by
  rcases hin with ⟨hinv, hthreads⟩
  rcases hthreads t with ⟨κ, hknows, hwp⟩
  cases hprog : cfg.prog t with
  | pure a =>
    rw [hprog] at hwp
    exact absurd hurgent (hwp cfg.state hinv hknows)
  | op o k =>
    rw [hprog] at hwp
    rcases hwp.1 cfg.state hinv hknows hurgent with ⟨ch, hcond, hexec⟩
    exact ⟨o, ch, ⟨k, hprog⟩, hcond, hexec⟩

/-- The guarantee of an operation that a thread can perform after a run. -/
theorem guarantee_of_performs (hinit : D.Within init)
    (hC : ∀ s t o ch, C s t o ch = true → D.cond s t o ch = true) (hrun : Run C init cfg)
    (hperf : cfg.Performs C t o ch) : D.guar cfg.state t o ch := by
  obtain ⟨⟨k, hprog⟩, hcond, hexec⟩ := hperf
  obtain ⟨⟨r, s'⟩, hexec⟩ := Option.isSome_iff_exists.mp hexec
  exact guarantee (sound hinit (hrun.mono hC)) hprog (hC _ _ _ _ hcond) hexec

/-- A further invariant, from the guarantees of the steps. -/
theorem run_invariant {C : Cond M} {init cfg : Config M} {J : M.State → Prop}
    (hinit : D.Within init) (hC : ∀ s t o ch, C s t o ch = true → D.cond s t o ch = true)
    (hJ : J init.state) (hstep : ∀ {s t} {o : M.Op} {ch r s'}, J s → D.inv s → D.guar s t o ch →
      C s t o ch = true → M.exec s t o ch = some (r, s') → J s')
    (hrun : Run C init cfg) : J cfg.state := by
  induction hrun with
  | refl => exact hJ
  | step hrun hprog hcond hexec ih =>
    have hin := sound hinit (hrun.mono hC)
    exact hstep ih hin.1 (guarantee hin hprog (hC _ _ _ _ hcond) hexec) hcond hexec

end Discipline

end Conc
