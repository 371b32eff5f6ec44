import Geryon.Conc.Logic
import Geryon.Conc.Protocol

/-!
# A program on its own

A `Prog` can be run without a scheduler when nobody else touches what its
operations work on.  `Step` says what an operation does to such a private
state, and `Prog.alone` follows the program to its end, or to the operation in
which it blocks.

Programs that can fail are `Fallible`: `ExceptT` over `Prog`.  `alone_bind`
executes them symbolically.  Two weaker rules come with less work.

* `Ensures` is partial correctness: what holds if the program returns without
  an exception.  It looks at the state through a `view`, so that operations
  that the view does not show have no effect.
* `Uses` looks at the operations that the program can perform, whatever they
  answer.  `alone_of_uses` carries an invariant of these operations to the end
  of the program.
-/

namespace Conc

open Prog

variable {M : Machine} {S V ε α β : Type}

/-- What an operation does to a private state: its answer and the state after
it, or `none` where it blocks. -/
abbrev Step (M : Machine) (S : Type) := S → (o : M.Op) → Option (M.Ret o × S)

namespace Prog

/-- Run a program to its end, or to the operation in which it blocks: the
result, if there is one, and the state then. -/
def alone (step : Step M S) : Prog M α → S → Option α × S
  | .pure a, s => (some a, s)
  | .op o k, s =>
    match step s o with
    | none => (none, s)
    | some (r, s') => (k r).alone step s'

/-- Every operation that the program can perform satisfies `A`. -/
def Uses (A : M.Op → Prop) : Prog M α → Prop
  | .pure _ => True
  | .op o k => A o ∧ ∀ r, (k r).Uses A

variable {step : Step M S} {o : M.Op} {s s' : S} {p : Prog M α} {A : M.Op → Prop}

variable {k : M.Ret o → Prog M α} {r : M.Ret o} {f : α → Prog M β} {a : α}

theorem alone_op_of_some (h : step s o = some (r, s')) :
    (op o k).alone step s = (k r).alone step s' := by
  simp [alone, h]

theorem alone_op_of_none (h : step s o = none) : (op o k).alone step s = (none, s) := by
  simp [alone, h]

theorem alone_act_bind {f : M.Ret o → Prog M α} (h : step s o = some (r, s')) :
    ((act o).bind f).alone step s = (f r).alone step s' :=
  alone_op_of_some h

theorem alone_act_bind_of_none {f : M.Ret o → Prog M α} (h : step s o = none) :
    ((act o).bind f).alone step s = (none, s) :=
  alone_op_of_none h

/-- Go on after a run that ended. -/
def follow (out : Option α × S) (f : α → S → Option β × S) : Option β × S :=
  match out with
  | (none, s) => (none, s)
  | (some a, s) => f a s

theorem alone_bind (p : Prog M α) (f : α → Prog M β) (s : S) :
    (p.bind f).alone step s = follow (p.alone step s) fun a s' => (f a).alone step s' := by
  induction p generalizing s with
  | pure a => rfl
  | op o k ih =>
    cases ho : step s o with
    | none =>
      have hk : ((op o k).bind f).alone step s = (none, s) := alone_op_of_none ho
      rw [hk, alone_op_of_none ho]
      rfl
    | some res =>
      obtain ⟨r, s'⟩ := res
      have hk : ((op o k).bind f).alone step s = ((k r).bind f).alone step s' :=
        alone_op_of_some ho
      rw [hk, alone_op_of_some ho]
      exact ih r s'

theorem alone_bind_of_some (h : p.alone step s = (some a, s')) :
    (p.bind f).alone step s = (f a).alone step s' := by
  rw [alone_bind, h]
  rfl

theorem alone_bind_of_none (h : p.alone step s = (none, s')) :
    (p.bind f).alone step s = (none, s') := by
  rw [alone_bind, h]
  rfl

@[simp] theorem uses_pure : (pure a : Prog M α).Uses A := trivial

@[simp] theorem uses_op : (op o k).Uses A ↔ A o ∧ ∀ r, (k r).Uses A := Iff.rfl

@[simp] theorem uses_ite {c : Prop} [Decidable c] {q : Prog M α} :
    (if c then p else q).Uses A ↔ (c → p.Uses A) ∧ (¬ c → q.Uses A) := by
  by_cases hc : c <;> simp [hc]

@[simp] theorem uses_bind (hp : p.Uses A) (hf : ∀ a, (f a).Uses A) : (p.bind f).Uses A := by
  induction p with
  | pure a => exact hf a
  | op o k ih => exact ⟨hp.1, fun r => ih r (hp.2 r)⟩

theorem uses_mono {B : M.Op → Prop} (hp : p.Uses A) (h : ∀ o, A o → B o) : p.Uses B := by
  induction p with
  | pure a => trivial
  | op o k ih => exact ⟨h o hp.1, fun r => ih r (hp.2 r)⟩

/-- Where no operation of a program changes what its thread knows, the program
does not. -/
theorem wp_of_uses {D : Discipline M} {t : M.Thread} {κ : D.Know} (hp : p.Uses A)
    (h : ∀ o, A o → D.Does t o (fun _ κ' => κ' = κ) κ) : D.wp t p (fun _ κ' => κ' = κ) κ := by
  induction p with
  | pure a => rfl
  | op o k ih =>
    refine (h o hp.1).mono ?_
    rintro r _ rfl
    exact ih r (hp.2 r)

/-- What all operations of the program keep holds where it ends or blocks. -/
theorem alone_of_uses {J : S → Prop} (hp : p.Uses A)
    (hstep : ∀ {s o r s'}, A o → J s → step s o = some (r, s') → J s') (hs : J s) :
    J (p.alone step s).2 := by
  induction p generalizing s with
  | pure a => exact hs
  | op o k ih =>
    cases ho : step s o with
    | none =>
      rw [alone_op_of_none ho]
      exact hs
    | some res =>
      obtain ⟨r, s'⟩ := res
      rw [alone_op_of_some ho]
      exact ih r (hp.2 r) (hstep hp.1 hs ho)

end Prog

/-- A program whose operations all leave the phase as it is keeps to the
protocol in that phase. -/
theorem Protocol.obeys_of_uses {P : Protocol M} {q : P.Phase} {p : Prog M α}
    (hp : p.Uses fun o => ∀ r, P.next q o r = some q) : P.Obeys p (fun _ q' => q' = q) q := by
  induction p with
  | pure a => rfl
  | op o k ih => exact fun r => ⟨q, hp.1 r, ih r (hp.2 r)⟩

/-- A program that can end with an exception. -/
abbrev Fallible (M : Machine) (ε : Type) := ExceptT ε (Prog M)

/-- What a run of a `Fallible` program comes to: how it ended, if it did, and
the state. -/
abbrev Outcome (ε α S : Type) := Option (Except ε α) × S

/-- Go on after a run that ended without an exception. -/
def Outcome.andThen (out : Outcome ε α S) (f : α → S → Outcome ε β S) : Outcome ε β S :=
  match out with
  | (none, s) => (none, s)
  | (some (.error e), s) => (some (.error e), s)
  | (some (.ok a), s) => f a s

@[simp] theorem Outcome.andThen_ok (a : α) (s : S) (f : α → S → Outcome ε β S) :
    andThen (some (.ok a), s) f = f a s := rfl

/-- The outcome with `g` applied to the exception. -/
def Outcome.mapError (g : ε → ε) (out : Outcome ε α S) : Outcome ε α S :=
  (out.1.map fun r => r.mapError g, out.2)

/-- Go on after a run that ended with an exception. -/
def Outcome.orElse (out : Outcome ε α S) (f : ε → S → Outcome ε α S) : Outcome ε α S :=
  match out with
  | (none, s) => (none, s)
  | (some (.error e), s) => f e s
  | (some (.ok a), s) => (some (.ok a), s)

/-- A run that did not return: it ended with an exception or it blocks. -/
def Failed (out : Option (Except ε α)) : Prop := ∀ a, out ≠ some (.ok a)

theorem failed_none : Failed (none : Option (Except ε α)) := fun _ h => by cases h

theorem failed_error (e : ε) : Failed (some (.error e) : Option (Except ε α)) :=
  nofun

theorem ok_or_failed (out : Option (Except ε α)) : (∃ a, out = some (.ok a)) ∨ Failed out := by
  match out with
  | none => exact .inr failed_none
  | some (.error e) => exact .inr (failed_error e)
  | some (.ok a) => exact .inl ⟨a, rfl⟩

namespace Fallible

def op (o : M.Op) : Fallible M ε (M.Ret o) := ExceptT.lift (act o)

/-- `p`, with `f` applied to the exception it ends with. -/
def mapError (f : ε → ε) (p : Fallible M ε α) : Fallible M ε α :=
  ExceptT.mk (p.run.bind fun r => .pure (r.mapError f))

/-- `p`, and where it ends with an exception the handler. -/
def handle (p : Fallible M ε α) (handler : ε → Fallible M ε α) : Fallible M ε α :=
  ExceptT.mk (p.run.bind fun r =>
    match r with
    | .ok a => .pure (.ok a)
    | .error e => (handler e).run)

/-- Run a program to its end, or to the operation in which it blocks. -/
def alone (step : Step M S) (p : Fallible M ε α) (s : S) : Outcome ε α S := p.run.alone step s

/-- Every operation that the program can perform satisfies `A`. -/
def Uses (A : M.Op → Prop) (p : Fallible M ε α) : Prop := p.run.Uses A

/-- Where `view` shows `v` at the start, and the program returns without an
exception, `Q` holds of its result and of what `view` shows then. -/
def Ensures (step : Step M S) (view : S → V) (p : Fallible M ε α) (v : V)
    (Q : α → V → Prop) : Prop :=
  ∀ s a s', view s = v → p.alone step s = (some (.ok a), s') → Q a (view s')

/-! ## Symbolic execution -/

section Alone

variable {step : Step M S}

theorem alone_bind (p : Fallible M ε α) (f : α → Fallible M ε β) (s : S) : (p >>= f).alone step s =
      Outcome.andThen (p.alone step s) fun a s' => (f a).alone step s' := by
  refine (Prog.alone_bind p.run _ s).trans ?_
  change _ = Outcome.andThen (p.run.alone step s) _
  rcases p.run.alone step s with ⟨_ | ⟨_ | _⟩, s'⟩ <;> rfl

variable {s s' : S}

variable {p : Fallible M ε α} {o : M.Op}

theorem alone_bind_cases {f : α → Fallible M ε β} {out : Option (Except ε β)}
    (h : (p >>= f).alone step s = (out, s')) :
    (∃ a s1, p.alone step s = (some (.ok a), s1) ∧ (f a).alone step s1 = (out, s')) ∨
      (∃ o, p.alone step s = (o, s') ∧ Failed o) ∧ Failed out := by
  rw [alone_bind] at h
  rcases hp : p.alone step s with ⟨_ | ⟨e | a⟩, s1⟩ <;> rw [hp] at h
  · cases h
    exact .inr ⟨⟨_, rfl, failed_none⟩, failed_none⟩
  · cases h
    exact .inr ⟨⟨_, rfl, failed_error e⟩, failed_error e⟩
  · exact .inl ⟨a, s1, rfl, h⟩

theorem alone_mapError (g : ε → ε) (p : Fallible M ε α) (s : S) :
    (p.mapError g).alone step s = Outcome.mapError g (p.alone step s) := by
  refine (Prog.alone_bind p.run _ s).trans ?_
  change _ = Outcome.mapError g (p.run.alone step s)
  rcases p.run.alone step s with ⟨_ | ⟨_ | _⟩, s'⟩ <;> rfl

theorem alone_mapError_cases {g : ε → ε} {out : Option (Except ε α)}
    (h : (p.mapError g).alone step s = (out, s')) :
    (∃ a, out = some (.ok a) ∧ p.alone step s = (some (.ok a), s')) ∨
      (∃ o, p.alone step s = (o, s') ∧ Failed o) ∧ Failed out := by
  rw [alone_mapError] at h
  rcases hp : p.alone step s with ⟨_ | ⟨e | a⟩, s1⟩ <;> rw [hp] at h <;> cases h
  · exact .inr ⟨⟨_, rfl, failed_none⟩, failed_none⟩
  · exact .inr ⟨⟨_, rfl, failed_error e⟩, failed_error _⟩
  · exact .inl ⟨a, rfl, rfl⟩

theorem alone_handle (p : Fallible M ε α) (handler : ε → Fallible M ε α) (s : S) :
    (p.handle handler).alone step s =
      Outcome.orElse (p.alone step s) fun e s' => (handler e).alone step s' := by
  refine (Prog.alone_bind p.run _ s).trans ?_
  change _ = Outcome.orElse (p.run.alone step s) _
  rcases p.run.alone step s with ⟨_ | ⟨_ | _⟩, s'⟩ <;> rfl

/-- Where the handler does not return, `handle` returns only if the program
does. -/
theorem alone_handle_ok {handler : ε → Fallible M ε α} {a : α}
    (hh : ∀ e s, Failed ((handler e).alone step s).1)
    (h : (p.handle handler).alone step s = (some (.ok a), s')) :
    p.alone step s = (some (.ok a), s') := by
  rw [alone_handle] at h
  rcases hp : p.alone step s with ⟨_ | ⟨e | b⟩, s1⟩ <;> rw [hp] at h
  · cases h
  · exact absurd (congrArg Prod.fst h) (hh e s1 a)
  · exact h

theorem alone_op_of_some {r : M.Ret o} (h : step s o = some (r, s')) :
    (op o : Fallible M ε _).alone step s = (some (.ok r), s') :=
  Prog.alone_op_of_some h

theorem alone_op_of_none (h : step s o = none) : (op o : Fallible M ε _).alone step s = (none, s) :=
  Prog.alone_op_of_none h

end Alone

/-! ## Partial correctness -/

section Ensures

variable {step : Step M S} {view : S → V} {v : V} {p : Fallible M ε α} {f : α → Fallible M ε β}
  {Q R : α → V → Prop}

theorem ensures_pure {a : α} (h : Q a v) : Ensures step view (pure a : Fallible M ε α) v Q := by
  intro s b s' hs hb
  cases hb
  exact hs ▸ h

theorem ensures_throw {e : ε} : Ensures step view (throw e : Fallible M ε α) v Q := by
  intro s b s' hs hb
  cases hb

theorem ensures_op {o : M.Op} {Q : M.Ret o → V → Prop}
    (h : ∀ s r s', view s = v → step s o = some (r, s') → Q r (view s')) :
    Ensures step view (op o : Fallible M ε _) v Q := by
  intro s r s' hs hr
  cases ho : step s o with
  | none =>
    rw [alone_op_of_none ho] at hr
    cases hr
  | some res =>
    obtain ⟨r', s''⟩ := res
    rw [alone_op_of_some ho] at hr
    cases hr
    exact h _ _ _ hs ho

theorem ensures_bind {R : β → V → Prop} (hp : Ensures step view p v Q)
    (hf : ∀ a v', Q a v' → Ensures step view (f a) v' R) : Ensures step view (p >>= f) v R := by
  intro s b s' hs hb
  rcases alone_bind_cases hb with ⟨a, s1, ha, hfa⟩ | ⟨-, hfailed⟩
  · exact hf a _ (hp s a s1 hs ha) s1 b s' rfl hfa
  · exact absurd rfl (hfailed b)

theorem ensures_mono (h : Ensures step view p v Q) (hQ : ∀ a v', Q a v' → R a v') :
    Ensures step view p v R :=
  fun s a s' hs ha => hQ a _ (h s a s' hs ha)

theorem ensures_ite {c : Prop} [Decidable c] {q : Fallible M ε α}
    (hp : c → Ensures step view p v Q) (hq : ¬c → Ensures step view q v Q) :
    Ensures step view (if c then p else q) v Q := by
  split
  · exact hp ‹_›
  · exact hq ‹_›

theorem ensures_mapError {g : ε → ε} (h : Ensures step view p v Q) :
    Ensures step view (p.mapError g) v Q := by
  intro s a s' hs ha
  rcases alone_mapError_cases ha with ⟨b, hb, hrun⟩ | ⟨-, hfailed⟩
  · cases hb
    exact h s a s' hs hrun
  · exact absurd rfl (hfailed a)

theorem ensures_handle {handler : ε → Fallible M ε α} (h : Ensures step view p v Q)
    (hh : ∀ e v', Ensures step view (handler e) v' Q) :
    Ensures step view (p.handle handler) v Q := by
  intro s a s' hs ha
  rw [alone_handle] at ha
  rcases hrun : p.alone step s with ⟨_ | ⟨e | b⟩, s1⟩ <;> rw [hrun] at ha
  · cases ha
  · exact hh e _ s1 a s' rfl ha
  · cases ha
    exact h s a _ hs hrun

theorem ensures_of_uses {A : M.Op → Prop} (hp : p.Uses A)
    (hstep : ∀ {s o r s'}, A o → step s o = some (r, s') → view s' = view s) :
    Ensures step view p v fun _ v' => v' = v := by
  intro s a s' hs ha
  have hJ := alone_of_uses hp
    (fun hA hv ho => (hstep hA ho).trans hv) hs
  rw [show p.run.alone step s = (some (.ok a), s') from ha] at hJ
  exact hJ

end Ensures

/-! ## The operations of a program -/

section Uses

variable {A B : M.Op → Prop} {p : Fallible M ε α} {f : α → Fallible M ε β}

theorem uses_pure {a : α} : (pure a : Fallible M ε α).Uses A := trivial

theorem uses_throw {e : ε} : (throw e : Fallible M ε α).Uses A := trivial

variable {o : M.Op}

theorem uses_op (h : A o) : (op o : Fallible M ε _).Uses A :=
  ⟨h, fun _ => trivial⟩

theorem uses_bind (hp : p.Uses A) (hf : ∀ a, (f a).Uses A) : (p >>= f).Uses A := by
  refine Prog.uses_bind hp fun r => ?_
  cases r with
  | error e => trivial
  | ok a => exact hf a

theorem uses_step {f : M.Ret o → Fallible M ε β} (h : A o) (hf : ∀ r, (f r).Uses A) :
    (op o >>= f : Fallible M ε β).Uses A :=
  uses_bind (uses_op h) hf

theorem uses_mapError {g : ε → ε} (hp : p.Uses A) : (p.mapError g).Uses A :=
  Prog.uses_bind hp fun _ => trivial

theorem uses_handle {handler : ε → Fallible M ε α} (hp : p.Uses A)
    (hh : ∀ e, (handler e).Uses A) : (p.handle handler).Uses A := by
  refine Prog.uses_bind hp fun r => ?_
  cases r with
  | error e => exact hh e
  | ok a => trivial

theorem uses_ite {c : Prop} [Decidable c] {q : Fallible M ε α} (hp : p.Uses A) (hq : q.Uses A) :
    (if c then p else q).Uses A := by
  split
  · exact hp
  · exact hq

end Uses

end Fallible

end Conc
