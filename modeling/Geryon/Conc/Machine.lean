import Mathlib.Logic.Function.Basic

/-!
# Threads over a shared state

A `Machine` is a shared state with the atomic operations on it: what a thread
can do between two points where another one may run.  A `Prog` is what one thread
still has to do: a tree of operations, each continuing with the answer it got.
A `Config` is the shared state and one program for each thread, and a `Run` is
any interleaving.

`Machine.exec` computes the answer of an operation and the state after it.
The `Choice` is what the outside world decides: whether a write fails, which
message arrives.  `none` means that the operation is not enabled.

A `Run` may be restricted to the steps that meet a condition on the state
before the step, the operation and the choice; `fun _ _ _ _ => true` is no
restriction.  `Config.follow` executes a schedule, and `run_of_follow` turns
it into a `Run`.

A loop without a bound takes a number of rounds and then stops in an operation
that is never enabled.  Every finite run of the loop is one for some number.
-/

namespace Conc

/-- A shared state and its atomic operations. -/
structure Machine where
  State : Type
  Thread : Type
  decEq : DecidableEq Thread
  Op : Type
  Ret : Op → Type
  Choice : Type
  exec : State → Thread → (o : Op) → Choice → Option (Ret o × State)

instance (M : Machine) : DecidableEq M.Thread := M.decEq

/-- What a thread still has to do. -/
inductive Prog (M : Machine) (α : Type) where
  | pure (a : α)
  | op (o : M.Op) (k : M.Ret o → Prog M α)

namespace Prog

variable {M : Machine} {α β : Type}

/-- Run `p`, then go on with its result. -/
def bind : Prog M α → (α → Prog M β) → Prog M β
  | .pure a, f => f a
  | .op o k, f => .op o fun r => bind (k r) f

instance : Monad (Prog M) where
  pure := Prog.pure
  bind := Prog.bind

def act (o : M.Op) : Prog M (M.Ret o) := .op o .pure

@[simp] theorem pure_bind (a : α) (f : α → Prog M β) : (Prog.pure a).bind f = f a := rfl

@[simp] theorem op_bind (o : M.Op) (k : M.Ret o → Prog M α) (f : α → Prog M β) :
    (Prog.op o k).bind f = .op o fun r => (k r).bind f := rfl

@[simp] theorem monad_bind (p : Prog M α) (f : α → Prog M β) : (p >>= f) = p.bind f := rfl

@[simp] theorem monad_pure (a : α) : (Pure.pure a : Prog M α) = .pure a := rfl

end Prog

/-- The shared state, and what every thread still has to do. -/
structure Config (M : Machine) where
  state : M.State
  prog : M.Thread → Prog M Unit

/-- A condition on a step: the state before it, the thread, the operation and
what the outside world chooses. -/
abbrev Cond (M : Machine) := M.State → M.Thread → M.Op → M.Choice → Bool

/-- `cfg` is reached from `init` by steps that all meet the condition. -/
inductive Run {M : Machine} (C : Cond M) (init : Config M) : Config M → Prop
  | refl : Run C init init
  | step {cfg : Config M} {t : M.Thread} {o : M.Op} {k : M.Ret o → Prog M Unit}
      {ch : M.Choice} {r : M.Ret o} {s' : M.State} (hrun : Run C init cfg)
      (hprog : cfg.prog t = .op o k) (hcond : C cfg.state t o ch = true)
      (hexec : M.exec cfg.state t o ch = some (r, s')) :
      Run C init ⟨s', Function.update cfg.prog t (k r)⟩

variable {M : Machine}

/-- The thread `t` can take a step from `cfg` that performs `o`. -/
def Config.Performs (cfg : Config M) (C : Cond M) (t : M.Thread) (o : M.Op) (ch : M.Choice) :
    Prop :=
  (∃ k, cfg.prog t = .op o k) ∧ C cfg.state t o ch = true ∧
    (M.exec cfg.state t o ch).isSome = true

/-- The operation that a thread is about to perform. -/
def Config.nextOp (cfg : Config M) (t : M.Thread) : Option M.Op :=
  match cfg.prog t with
  | .pure _ => none
  | .op o _ => some o

variable {cfg init : Config M} {C : Cond M}

variable {t : M.Thread} {ch : M.Choice} {cfg' : Config M} {sched : List (M.Thread × M.Choice)}

theorem Config.performs_iff {o : M.Op} :
    cfg.Performs C t o ch ↔ cfg.nextOp t = some o ∧ C cfg.state t o ch = true ∧
      (M.exec cfg.state t o ch).isSome = true := by
  refine and_congr ?_ Iff.rfl
  unfold Config.nextOp
  cases cfg.prog t with
  | pure a => simp
  | op o' k =>
    constructor
    · rintro ⟨k', hk⟩
      cases hk
      rfl
    · rintro h
      cases h
      exact ⟨k, rfl⟩

instance [DecidableEq M.Op] (cfg : Config M) (C : Cond M) (t : M.Thread) (o : M.Op)
    (ch : M.Choice) : Decidable (cfg.Performs C t o ch) :=
  decidable_of_iff _ Config.performs_iff.symm

theorem Run.mono {C' : Cond M} (h : ∀ s t o ch, C s t o ch = true → C' s t o ch = true)
    (hrun : Run C init cfg) : Run C' init cfg := by
  induction hrun with
  | refl => exact .refl
  | step hrun hprog hcond hexec ih => exact .step ih hprog (h _ _ _ _ hcond) hexec

/-- What holds at the start and is kept by every operation holds in every
state reached. -/
theorem Run.invariant {C : Cond M} {init cfg : Config M} {J : M.State → Prop} (hinit : J init.state)
    (hstep : ∀ {s t} {o : M.Op} {ch r s'}, J s → C s t o ch = true →
      M.exec s t o ch = some (r, s') → J s') (hrun : Run C init cfg) : J cfg.state := by
  induction hrun with
  | refl => exact hinit
  | step hrun hprog hcond hexec ih => exact hstep ih hcond hexec

/-! ## Executing a schedule -/

/-- One step of thread `t`, if it has one that meets the condition. -/
def Config.next (C : Cond M) (cfg : Config M) (t : M.Thread) (ch : M.Choice) :
    Option (Config M) :=
  match cfg.prog t with
  | .pure _ => none
  | .op o k =>
    if C cfg.state t o ch then
      match M.exec cfg.state t o ch with
      | none => none
      | some (r, s') => some ⟨s', Function.update cfg.prog t (k r)⟩
    else none

/-- Execute a schedule: which thread moves, and what the outside world
chooses. -/
def Config.follow (C : Cond M) : Config M → List (M.Thread × M.Choice) → Option (Config M)
  | cfg, [] => some cfg
  | cfg, (t, ch) :: sched =>
    match cfg.next C t ch with
    | none => none
    | some cfg' => cfg'.follow C sched

theorem Run.next (hrun : Run C init cfg) (h : cfg.next C t ch = some cfg') : Run C init cfg' := by
  unfold Config.next at h
  split at h
  · cases h
  rename_i o k hprog
  split at h
  · rename_i hcond
    split at h
    · cases h
    · rename_i r s' hexec
      cases h
      exact .step hrun hprog hcond hexec
  · cases h

theorem Run.follow (hrun : Run C init cfg) (h : cfg.follow C sched = some cfg') :
    Run C init cfg' := by
  induction sched generalizing cfg with
  | nil =>
    cases h
    exact hrun
  | cons e sched ih =>
    obtain ⟨t, ch⟩ := e
    simp only [Config.follow] at h
    split at h
    · cases h
    · rename_i cfg'' hnext
      exact ih (hrun.next hnext) h

theorem run_of_follow (h : init.follow C sched = some cfg) : Run C init cfg :=
  Run.refl.follow h

/-- A schedule that ends as wanted shows that a run does. -/
theorem exists_run_of_follow (C : Cond M) (init : Config M) (P : Config M → Prop)
    [DecidablePred P] (sched : List (M.Thread × M.Choice))
    (h : (init.follow C sched).any (fun cfg => decide (P cfg)) = true) :
    ∃ cfg, Run C init cfg ∧ P cfg := by
  cases hf : init.follow C sched with
  | none => simp [hf] at h
  | some cfg => exact ⟨cfg, run_of_follow hf, by simpa [hf] using h⟩

def anyStep : Cond M := fun _ _ _ _ => true

end Conc
