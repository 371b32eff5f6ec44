import Geryon.Manager.Accounting

/-!
# Waiters that nobody serves

`Acquire` finds no idle connection and no room for a new one, and then enters the
wait queue.  `Release` finds nobody in the queue, and then returns its connection
to the pool.  Both do so in two steps under two mutexes, so each can miss the
other: the connection ends on the idle list, or is closed, and the waiter in the
queue (`released_past_waiter`).

The invariant that excludes this is `Served`: while somebody waits, there is no
idle connection, the pool is full, and no `Release` is inside `release`.  It is
kept as long as neither side is overtaken (`notOvertaken`): a caller enters the
queue only while the pool still looks as it found it, and `release` is entered
only while nobody waits.
-/

namespace Geryon.Manager

open Conc Pool Proxy Function List Protocol

variable {s s' : State} {t : Thread} {max : Nat}

/-- `Wait` is blocked: it is in the queue, and nothing has been delivered. -/
def Blocked (cfg : Config proxy) (t : Thread) (w : WaiterId) : Prop :=
  (∃ timeout, cfg.nextOp t = some (.select w timeout)) ∧
    w ∈ cfg.state.queue.pending ∧ (cfg.state.waiter w).conn = none

instance (cfg : Config proxy) (t : Thread) (w : WaiterId) : Decidable (Blocked cfg t w) :=
  inferInstanceAs (Decidable (_ ∧ _))

/-- No call is inside `release` or between a size check and the registration
of the connection. -/
def Settled (s : State) : Prop :=
  s.conns.locked = none ∧ s.creating = [] ∧ s.unregistered = []

instance (s : State) : Decidable (Settled s) := inferInstanceAs (Decidable (_ ∧ _))

def noTimeout : Cond proxy := fun _ _ o ch =>
  match o with
  | .select _ _ => decide (ch = .ok)
  | _ => true

/-- A caller enters the queue only while there is no idle connection, the pool is full
and nothing is being released.  The pool loses a connection only while nobody waits. -/
def notOvertaken (max : Nat) : Cond proxy := fun s _ o _ =>
  match o with
  | .enqueue _ _ => s.conns.idle.isEmpty && decide (max ≤ s.size) && s.unlocked
  | .releaseLock _ _ | .closeAll | .closeBackend _ => s.queue.pending.isEmpty
  | _ => true

/-! ## The invariant -/

/-- While somebody waits there is nothing to be had. -/
structure Served (max : Nat) (s : State) : Prop where
  idle : s.queue.pending ≠ [] → s.conns.idle = []
  full : s.queue.pending ≠ [] → max ≤ s.size
  unlocked : s.queue.pending ≠ [] → s.conns.locked = none

/-- Who is inside `release` holds the mutex. -/
def Locks (q : Thread → Phase) (s : State) : Prop :=
  ∀ t c, (q t).locked = some c → s.conns.locked = some (t, c)

theorem Served.of_nil (h : s.queue.pending = []) : Served max s :=
  ⟨fun hne => absurd h hne, fun hne => absurd h hne, fun hne => absurd h hne⟩

theorem Served.of_conns (h : Served max s) (hconns : s'.conns = s.conns)
    (hpending : s'.queue.pending ≠ [] → s.queue.pending ≠ []) : Served max s' := by
  refine ⟨fun hne => ?_, fun hne => ?_, fun hne => ?_⟩
  · rw [hconns]
    exact h.idle (hpending hne)
  · unfold State.size
    rw [hconns]
    exact h.full (hpending hne)
  · rw [hconns]
    exact h.unlocked (hpending hne)

variable {c : ConnId} {n : SessionId} {q : Thread → Phase} {q' : Phase} {o : Op}

namespace Served

variable (h : Served max s)
include h

theorem acquire (hc : s.conns.idle.getLast? = some c) : s.queue.pending = [] := by
  by_contra hne
  rw [h.idle hne] at hc
  cases hc

theorem addActive : Served max (s.addActive n c) := by
  refine ⟨h.idle, fun hne => ?_, h.unlocked⟩
  have hle : s.conns.active.length ≤ (s.conns.active.insert c).length :=
    length_le_length_insert
  have hfull := h.full hne
  unfold State.size at hfull
  show max ≤ s.conns.idle.length + (s.conns.active.insert c).length
  omega

theorem dequeue {w : WaiterId} {conn : Option ConnId} : Served max (s.dequeue n w conn) := by
  have hpending : (s.queue.remove w).pending ≠ [] → s.queue.pending ≠ [] := by
    rw [WaitQueue.pending_remove]
    intro hne hnil
    rw [hnil] at hne
    exact hne rfl
  cases conn <;> exact h.of_conns rfl hpending

theorem signal {w : Option WaiterId} {q : WaitQueue}
    (hpop : s.queue.pop = (w, q)) (hconns : s'.conns = s.conns) (hqueue : s'.queue = q) :
    Served max s' := by
  refine h.of_conns hconns fun hne hnil => hne ?_
  rw [hqueue]
  exact (congrArg (fun p => p.2.pending) hpop).symm.trans (WaitQueue.pop_of_nil hnil).2

end Served

theorem Locks.of_same (h : Locks q s) (hphase : q'.locked = (q t).locked)
    (hlocked : s'.conns.locked = s.conns.locked) : Locks (update q t q') s' := by
  intro u c hu
  rw [hlocked]
  by_cases hut : u = t
  · subst hut
    rw [update_self, hphase] at hu
    exact h u c hu
  · rw [update_of_ne hut] at hu
    exact h u c hu

theorem Locks.unlock (h : Locks q s) (hq : (q t).locked = some c) (hq' : q'.locked = none) :
    Locks (update q t q') s' := by
  intro u d hu
  by_cases hut : u = t
  · subst hut
    rw [update_self, hq'] at hu
    cases hu
  · -- Nobody else was inside.
    rw [update_of_ne hut] at hu
    have ht := h t c hq
    rw [h u d hu] at ht
    exact absurd (Prod.mk.inj (Option.some.inj ht)).1 hut

variable {r : o.Ret}

theorem locked_of_next {q : Phase} (h : q.next o r = some q') :
    (∃ c m, o = .releaseLock c m ∧ q'.locked = some c) ∨
    (∃ c, (o = .releaseIdle c ∨ o = .releaseClose c) ∧ q.locked = some c ∧ q'.locked = none) ∨
    q'.locked = q.locked := by
  cases o
  case releaseLock c m =>
    simp only [Phase.next] at h
    split at h <;> cases h
    exact .inl ⟨c, m, rfl, rfl⟩
  case releaseIdle c | releaseClose c =>
    simp only [Phase.next] at h
    split at h
    · rename_i hq
      cases h
      exact .inr (.inl ⟨c, by simp, hq, rfl⟩)
    · cases h
  case tryAlloc | free | tryConnect =>
    simp only [Phase.next] at h
    split at h <;> cases h
    exact .inr (.inr rfl)
  all_goals
    cases h
    exact .inr (.inr rfl)

/-- One step.  The mutex is free when `release` is entered, so nobody else is
inside; and who leaves it was inside while nobody waited. -/
theorem Served.step {ch : Choice} (h : Served max s ∧ Locks q s)
    (hcond : notOvertaken max s t o ch = true) (hnext : (q t).next o r = some q')
    (hexec : exec s t o ch = some (r, s')) : Served max s' ∧ Locks (update q t q') s' := by
  obtain ⟨hserved, hlocks⟩ := h
  rcases locked_of_next hnext with ⟨c, m, rfl, hq'⟩ | ⟨c, ho, hq, hq'⟩ | hsame
  · -- `release` is entered.
    simp only [exec] at hexec
    split at hexec
    · rename_i hfree
      cases hexec
      refine ⟨.of_nil (isEmpty_iff.mp hcond), fun u d hu => ?_⟩
      by_cases hut : u = t
      · subst hut
        rw [update_self, hq'] at hu
        cases hu
        rfl
      · rw [update_of_ne hut] at hu
        have hlocked := hlocks u d hu
        simp [State.unlocked, hlocked] at hfree
    · cases hexec
  · -- `release` is left.
    have hnobody : s.queue.pending = [] := by
      by_contra hne
      have hnone := hserved.unlocked hne
      rw [hlocks t c hq] at hnone
      cases hnone
    rcases ho with rfl | rfl
    · cases hexec
      exact ⟨.of_nil hnobody, hlocks.unlock hq hq'⟩
    · cases hexec
      exact ⟨.of_nil hnobody, hlocks.unlock hq hq'⟩
  · cases performed_of_exec hexec with
    | acquired hlast => exact ⟨.of_nil (hserved.acquire hlast), hlocks.of_same hsame rfl⟩
    | added => exact ⟨hserved.addActive, hlocks.of_same hsame rfl⟩
    | closedAll | closedBackend =>
      exact ⟨.of_nil (List.isEmpty_iff.mp hcond), hlocks.of_same hsame rfl⟩
    | enqueued =>
      simp only [notOvertaken, Bool.and_eq_true, decide_eq_true_eq, List.isEmpty_iff,
        State.unlocked, Option.isNone_iff_eq_none] at hcond
      obtain ⟨⟨hidle, hfull⟩, hfree⟩ := hcond
      exact ⟨⟨fun _ => hidle, fun _ => hfull, fun _ => hfree⟩, hlocks.of_same hsame rfl⟩
    | @dequeued n w conn =>
      refine ⟨hserved.dequeue, hlocks.of_same hsame ?_⟩
      cases conn <;> rfl
    | delivered hpop | passed hpop =>
      exact ⟨hserved.signal hpop rfl rfl, hlocks.of_same hsame rfl⟩
    | locked =>
      simp only [Phase.next] at hnext
      split at hnext <;> cases hnext
      rename_i hnone
      simp [← hsame] at hnone
    | idled | discarded =>
      simp only [Phase.next] at hnext
      split at hnext
      · rename_i hq
        cases hnext
        simp [hq] at hsame
      · cases hnext
    | _ => exact ⟨hserved.of_conns rfl id, hlocks.of_same hsame rfl⟩

theorem served_of_run {cfg : PoolConfig} {users : Users} {scripts : Nat → List Call}
    {cfg' : Config proxy}
    (hrun : Run (notOvertaken max) (served cfg users scripts) cfg') : Served max cfg'.state := by
  obtain ⟨q, hq, -⟩ := run_invariant (P := poolCalls)
    (fun t => obeys_mono (whole_served cfg users scripts t) fun _ _ _ => trivial)
    ⟨.of_nil rfl, nofun⟩ Served.step hrun
  exact hq.1

/-- Two callers of a pool: one acquires a connection and releases it, the other
one acquires. -/
def twoCallers : Nat → List Call := fun i => if i = 0 then [.acquire, .release 0] else [.acquire]

/-- What a caller does that creates a connection. -/
def creates (t : Thread) : List (Thread × Choice) := [(t, .ok), (t, .ok)] ++ connects t

end Geryon.Manager
