import Geryon.Pool.Pool

/-!
# What the wait queue delivers

Any number of goroutines call `Wait` and `Signal`, in any order.  Each call of
`Wait` that enters the queue has a waiter of its own, numbered in the order of
entry, so a delivery is a pair of a connection and a waiter.  `State.served`
has the deliveries for which `Signal` returned true, and `State.returned` has
what the calls of `Wait` returned.

The source loses a delivery when the `select` of `Wait` takes the timeout or the
cancellation: nobody looks at the waiter's connection any more, but the waiter
stays in the queue until the deferred critical section.  `inTime` excludes this:
no `select` leaves although its waiter has been served, and no `Signal` serves a
waiter whose `select` has left.  Then every delivery is returned by the call it
was made to, once, and deliveries are made in the order of entry.
-/

namespace Geryon.Pool

open Conc Conc.Discipline List Function State Option

/-- The calls that a goroutine can make. -/
inductive QueueCall where
  | wait (timeout : Bool)
  | signal (c : ConnId)
  deriving DecidableEq

/-- A call of `Wait` or `Signal`.  One round is enough for the loop of `Wait`
to reach its `select`. -/
def QueueCall.run (maxSize rounds n : Nat) : QueueCall → Prog Unit
  | .wait timeout => do
    let _ ← Pool.wait n maxSize timeout (rounds + 1)
  | .signal c => do
    let _ ← act (.signal n c)

def queueCalls (maxSize rounds n : Nat) : List QueueCall → Prog Unit
  | [] => return ()
  | call :: rest => do
    call.run maxSize rounds n
    queueCalls maxSize rounds n rest

/-- An empty queue, and goroutines that use it. -/
def queueUsers (maxSize rounds : Nat) (scripts : Nat → List QueueCall) : Config proxy where
  state := {}
  prog
    | .caller i => queueCalls maxSize rounds i (scripts i)
    | _ => .pure ()

/-- A `select` leaves only if its waiter has not been served, and `Signal`
serves only a waiter whose `select` has not left. -/
def inTime : Cond proxy := fun s _ o ch =>
  match o with
  | .select w _ => decide (ch = .ok) || (s.waiter w).conn.isNone
  | .signal _ _ =>
    match s.queue.pop.1 with
    | none => true
    | some w => !(s.waiter w).gaveUp
  | _ => true

/-- What the queue promises about its deliveries. -/
structure Delivers (C : Cond proxy) (cfg : Config proxy) : Prop where
  /-- A call of `Wait` that has returned has returned what was delivered to it. -/
  returned : ∀ c w, (c, w) ∈ cfg.state.served → (cfg.state.waiter w).finished = true →
    (c, w) ∈ cfg.state.returned
  /-- A call that has not returned yet is not blocked once it is served. -/
  moving : ∀ c w, (c, w) ∈ cfg.state.served → (cfg.state.waiter w).finished = false →
    ∃ o ch, cfg.Performs C (cfg.state.waiter w).owner o ch
  /-- What a call returns was delivered to it. -/
  delivered : ∀ c w, (c, w) ∈ cfg.state.returned → (c, w) ∈ cfg.state.served
  /-- No call returns twice, and so no delivery is returned by two calls. -/
  once : (cfg.state.returned.map Prod.snd).Nodup
  /-- The calls are served in the order in which they entered the queue. -/
  ordered : (cfg.state.served.map Prod.snd).Pairwise (· < ·)
  /-- Whoever still waits entered after everyone that has been served. -/
  later : ∀ c w, (c, w) ∈ cfg.state.served → ∀ v ∈ cfg.state.queue.pending, w < v

/-! ## The discipline -/

/-- The invariant of the queue and of its deliveries. -/
structure QueueInv (s : State) : Prop where
  sorted : s.queue.pending.Pairwise (· < ·)
  pending : ∀ w ∈ s.queue.pending, w < s.nextWaiter ∧ (s.waiter w).conn = none ∧
    (s.waiter w).finished = false
  ordered : (s.served.map Prod.snd).Pairwise (· < ·)
  served : ∀ p ∈ s.served, p.2 < s.nextWaiter ∧ (s.waiter p.2).conn = some p.1
  later : ∀ p ∈ s.served, ∀ w ∈ s.queue.pending, p.2 < w
  conn : ∀ w c, (s.waiter w).conn = some c → (c, w) ∈ s.served
  returned : ∀ p ∈ s.returned, p ∈ s.served ∧ (s.waiter p.2).finished = true
  once : (s.returned.map Prod.snd).Nodup
  finished : ∀ p ∈ s.served, (s.waiter p.2).finished = true → p ∈ s.returned

/-- Where a goroutine is in `Wait`. -/
inductive Stage where
  | outside
  | waiting (w : WaiterId)
  | ready (w : WaiterId)
  | got (w : WaiterId) (c : ConnId)
  | left (w : WaiterId)

/-- The waiter of the call that `t` is in: all its earlier ones have
finished. -/
structure Current (s : State) (t : Thread) (w : WaiterId) : Prop where
  lt : w < s.nextWaiter
  owner : (s.waiter w).owner = t
  unfinished : (s.waiter w).finished = false
  only : ∀ v < s.nextWaiter, (s.waiter v).owner = t → v ≠ w → (s.waiter v).finished = true

/-- What a goroutine knows where it is. -/
def Stage.knows (s : State) (t : Thread) : Stage → Prop
  | .outside => ∀ w < s.nextWaiter, (s.waiter w).owner = t → (s.waiter w).finished = true
  | .waiting w => Current s t w ∧ (s.waiter w).timedOut = false ∧ (s.waiter w).gaveUp = false
  | .ready w => Current s t w ∧ (s.waiter w).gaveUp = false ∧ ∃ c, (s.waiter w).conn = some c
  | .got w c => Current s t w ∧ (s.waiter w).conn = some c
  | .left w => Current s t w ∧ (s.waiter w).gaveUp = true ∧ (s.waiter w).conn = none

/-- The discipline of the queue.  The state is urgent for a goroutine whose
waiter has been served. -/
def queueing : Discipline proxy where
  cond := inTime
  Know := Stage
  inv := QueueInv
  knows s t κ := κ.knows s t
  guar _ _ _ _ := True
  urgent s t := ∃ p ∈ s.served, (s.waiter p.2).finished = false ∧ (s.waiter p.2).owner = t

variable {s s' : State} {t u : Thread} {w : WaiterId} {c : ConnId}

/-- What a step of `t` leaves alone: the waiters of the other goroutines,
except that they may be served unless they have left. -/
structure Foreign (t : Thread) (s s' : State) : Prop where
  next : s.nextWaiter ≤ s'.nextWaiter
  new : ∀ w, s.nextWaiter ≤ w → w < s'.nextWaiter → (s'.waiter w).owner = t
  owner : ∀ w < s.nextWaiter, (s'.waiter w).owner = (s.waiter w).owner
  fields : ∀ w < s.nextWaiter, (s.waiter w).owner ≠ t →
    (s'.waiter w).finished = (s.waiter w).finished ∧
    (s'.waiter w).timedOut = (s.waiter w).timedOut ∧ (s'.waiter w).gaveUp = (s.waiter w).gaveUp
  conn : ∀ w < s.nextWaiter, (s.waiter w).owner ≠ t →
    (s'.waiter w).conn = (s.waiter w).conn ∨
      (s.waiter w).conn = none ∧ (s.waiter w).gaveUp = false

namespace Foreign

variable (h : Foreign t s s')
include h

theorem finished (hu : u ≠ t) {P : WaiterId → Prop}
    (hall : ∀ v < s.nextWaiter, (s.waiter v).owner = u → P v → (s.waiter v).finished = true) :
    ∀ v < s'.nextWaiter, (s'.waiter v).owner = u → P v → (s'.waiter v).finished = true := by
  intro v hv hown hP
  by_cases hlt : v < s.nextWaiter
  · rw [h.owner v hlt] at hown
    rw [(h.fields v hlt (hown ▸ hu)).1]
    exact hall v hlt hown hP
  · have := h.new v (Nat.le_of_not_lt hlt) hv
    exact absurd (hown.symm.trans this) hu

theorem current (hu : u ≠ t) (hw : Current s u w) : Current s' u w where
  lt := lt_of_lt_of_le hw.lt h.next
  owner := (h.owner w hw.lt).trans hw.owner
  unfinished := by
    rw [(h.fields w hw.lt (hw.owner ▸ hu)).1]
    exact hw.unfinished
  only := h.finished hu hw.only

theorem stable : queueing.Stable t s s' := by
  intro u hu κ hκ
  have hκ : κ.knows s u := hκ
  cases κ with
  | outside =>
    intro w hw hown
    exact h.finished hu (P := fun _ => True) (fun v hv ho _ => hκ v hv ho) w hw hown trivial
  | waiting w =>
    rcases hκ with ⟨hcur, htimed, hgave⟩
    have hf := h.fields w hcur.lt (hcur.owner ▸ hu)
    exact ⟨h.current hu hcur, hf.2.1.trans htimed, hf.2.2.trans hgave⟩
  | ready w =>
    rcases hκ with ⟨hcur, hgave, c, hc⟩
    have hf := h.fields w hcur.lt (hcur.owner ▸ hu)
    refine ⟨h.current hu hcur, hf.2.2.trans hgave, c, ?_⟩
    rcases h.conn w hcur.lt (hcur.owner ▸ hu) with hsame | ⟨hnone, -⟩
    · exact hsame.trans hc
    · rw [hc] at hnone
      cases hnone
  | got w c =>
    rcases hκ with ⟨hcur, hc⟩
    refine ⟨h.current hu hcur, ?_⟩
    rcases h.conn w hcur.lt (hcur.owner ▸ hu) with hsame | ⟨hnone, -⟩
    · exact hsame.trans hc
    · rw [hc] at hnone
      cases hnone
  | left w =>
    rcases hκ with ⟨hcur, hgave, hc⟩
    have hf := h.fields w hcur.lt (hcur.owner ▸ hu)
    refine ⟨h.current hu hcur, hf.2.2.trans hgave, ?_⟩
    -- A waiter whose `select` has left is not served any more.
    rcases h.conn w hcur.lt (hcur.owner ▸ hu) with hsame | ⟨-, hstays⟩
    · exact hsame.trans hc
    · rw [hgave] at hstays
      cases hstays

end Foreign

/-! ## A goroutine touches its own waiter -/

/-- At most the waiter `w` is changed, and neither its connection nor its
end. -/
structure Touches (w : WaiterId) (s s' : State) : Prop where
  pending : s'.queue.pending = s.queue.pending
  next : s'.nextWaiter = s.nextWaiter
  served : s'.served = s.served
  returned : s'.returned = s.returned
  conn : ∀ v, (s'.waiter v).conn = (s.waiter v).conn
  finished : ∀ v, (s'.waiter v).finished = (s.waiter v).finished
  owner : ∀ v, (s'.waiter v).owner = (s.waiter v).owner
  other : ∀ v, v ≠ w → s'.waiter v = s.waiter v

theorem touches_of {f : Waiter → Waiter}
    (hf : ∀ k, (f k).conn = k.conn ∧ (f k).finished = k.finished ∧ (f k).owner = k.owner)
    (hqueue : s'.queue = s.queue) (hnext : s'.nextWaiter = s.nextWaiter)
    (hserved : s'.served = s.served) (hreturned : s'.returned = s.returned)
    (hwaiter : s'.waiter = update s.waiter w (f (s.waiter w))) : Touches w s s' := by
  have hother : ∀ v, v ≠ w → s'.waiter v = s.waiter v := by
    intro v hv
    rw [hwaiter, update_of_ne hv]
  have hself : s'.waiter w = f (s.waiter w) := by rw [hwaiter, update_self]
  refine ⟨by rw [hqueue], hnext, hserved, hreturned, ?_, ?_, ?_, hother⟩
  all_goals
    intro v
    by_cases hv : v = w
    · rw [hv, hself]
      simp only [hf]
    · rw [hother v hv]

namespace Touches

variable (h : Touches w s s')
include h

theorem inv (hinv : QueueInv s) : QueueInv s' where
  sorted := by
    rw [h.pending]
    exact hinv.sorted
  pending := by
    intro v hv
    rw [h.pending] at hv
    rw [h.next, h.conn, h.finished]
    exact hinv.pending v hv
  ordered := by
    rw [h.served]
    exact hinv.ordered
  served := by
    intro p hp
    rw [h.served] at hp
    rw [h.next, h.conn]
    exact hinv.served p hp
  later := by
    rw [h.served, h.pending]
    exact hinv.later
  conn := by
    intro v c hc
    rw [h.conn] at hc
    rw [h.served]
    exact hinv.conn v c hc
  returned := by
    intro p hp
    rw [h.returned] at hp
    rw [h.served, h.finished]
    exact hinv.returned p hp
  once := by
    rw [h.returned]
    exact hinv.once
  finished := by
    intro p hp hfin
    rw [h.served] at hp
    rw [h.finished] at hfin
    rw [h.returned]
    exact hinv.finished p hp hfin

theorem outside (hout : Stage.outside.knows s t) : Stage.outside.knows s' t := by
  intro v hv hown
  rw [h.next] at hv
  rw [h.owner] at hown
  rw [h.finished]
  exact hout v hv hown

theorem current (hw : Current s t w) : Current s' t w where
  lt := h.next ▸ hw.lt
  owner := (h.owner w).trans hw.owner
  unfinished := (h.finished w).trans hw.unfinished
  only := by
    intro v hv hown hne
    rw [h.next] at hv
    rw [h.owner] at hown
    rw [h.finished]
    exact hw.only v hv hown hne

theorem foreign (hw : (s.waiter w).owner = t ∨ s'.waiter w = s.waiter w) : Foreign t s s' := by
  have hsame : ∀ v, (s.waiter v).owner ≠ t → s'.waiter v = s.waiter v := by
    intro v hv
    by_cases hvw : v = w
    · subst hvw
      exact hw.resolve_left hv
    · exact h.other v hvw
  refine ⟨le_of_eq h.next.symm, ?_, fun v _ => h.owner v, ?_, fun v _ _ => .inl (h.conn v)⟩
  · intro v hle hlt
    rw [h.next] at hlt
    exact absurd hlt (not_lt.mpr hle)
  · intro v _ hv
    rw [hsame v hv]
    exact ⟨rfl, rfl, rfl⟩

end Touches

/-! ## The operations -/

theorem not_urgent (hinv : QueueInv s) (hout : Stage.outside.knows s t) :
    ¬ queueing.urgent s t := by
  intro hurgent
  rcases hurgent with ⟨p, hp, hfin, hown⟩
  rw [hout p.2 (hinv.served p hp).1 hown] at hfin
  cases hfin

theorem urgent_current (hinv : QueueInv s) (hcur : Current s t w)
    (hurgent : queueing.urgent s t) : ∃ c, (s.waiter w).conn = some c := by
  rcases hurgent with ⟨p, hp, hfin, hown⟩
  by_cases hpw : p.2 = w
  · exact ⟨p.1, hpw ▸ (hinv.served p hp).2⟩
  · rw [hcur.only p.2 (hinv.served p hp).1 hown hpw] at hfin
    cases hfin

/-- `t` enters the queue with a new waiter. -/
structure Entered (t : Thread) (s s' : State) : Prop where
  pending : s'.queue.pending = s.queue.pending ++ [s.nextWaiter]
  next : s'.nextWaiter = s.nextWaiter + 1
  waiter : s'.waiter = update s.waiter s.nextWaiter { owner := t }
  served : s'.served = s.served
  returned : s'.returned = s.returned

variable {v : WaiterId} {timeout : Bool}

namespace Entered

variable (h : Entered t s s')
include h

theorem old (hv : v < s.nextWaiter) : s'.waiter v = s.waiter v := by
  rw [h.waiter, update_of_ne (ne_of_lt hv)]

theorem new : s'.waiter s.nextWaiter = { owner := t } := by
  rw [h.waiter, update_self]

theorem inv (hinv : QueueInv s) : QueueInv s' where
  sorted := by
    rw [h.pending, pairwise_append]
    refine ⟨hinv.sorted, pairwise_singleton _ _, ?_⟩
    intro v hv x hx
    rw [mem_singleton] at hx
    exact hx ▸ (hinv.pending v hv).1
  pending := by
    intro v hv
    rw [h.pending, mem_append, mem_singleton] at hv
    rw [h.next]
    rcases hv with hv | hv
    · have hp := hinv.pending v hv
      rw [h.old hp.1]
      exact ⟨Nat.lt_succ_of_lt hp.1, hp.2⟩
    · rw [hv, h.new]
      exact ⟨Nat.lt_succ_self _, rfl, rfl⟩
  ordered := by
    rw [h.served]
    exact hinv.ordered
  served := by
    intro p hp
    rw [h.served] at hp
    have hlt := (hinv.served p hp).1
    rw [h.next, h.old hlt]
    exact ⟨Nat.lt_succ_of_lt hlt, (hinv.served p hp).2⟩
  later := by
    intro p hp v hv
    rw [h.served] at hp
    rw [h.pending, mem_append, mem_singleton] at hv
    rcases hv with hv | hv
    · exact hinv.later p hp v hv
    · exact hv ▸ (hinv.served p hp).1
  conn := by
    intro v d hd
    rw [h.served]
    by_cases hv : v = s.nextWaiter
    · rw [hv, h.new] at hd
      cases hd
    · rw [h.waiter, update_of_ne hv] at hd
      exact hinv.conn v d hd
  returned := by
    intro p hp
    rw [h.returned] at hp
    have hr := hinv.returned p hp
    rw [h.served, h.old (hinv.served p hr.1).1]
    exact hr
  once := by
    rw [h.returned]
    exact hinv.once
  finished := by
    intro p hp hfin
    rw [h.served] at hp
    rw [h.old (hinv.served p hp).1] at hfin
    rw [h.returned]
    exact hinv.finished p hp hfin

theorem foreign : Foreign t s s' where
  next := h.next ▸ Nat.le_succ _
  new := by
    intro v hle hlt
    rw [h.next] at hlt
    rw [Nat.le_antisymm (Nat.lt_succ_iff.mp hlt) hle, h.new]
  owner := by
    intro v hv
    rw [h.old hv]
  fields := by
    intro v hv _
    rw [h.old hv]
    exact ⟨rfl, rfl, rfl⟩
  conn := by
    intro v hv _
    exact .inl (by rw [h.old hv])

theorem current (hout : Stage.outside.knows s t) : Current s' t s.nextWaiter where
  lt := h.next ▸ Nat.lt_succ_self _
  owner := by rw [h.new]
  unfinished := by rw [h.new]
  only := by
    intro v hv hown hne
    rw [h.next] at hv
    have hlt := Nat.lt_of_le_of_ne (Nat.lt_succ_iff.mp hv) hne
    rw [h.old hlt] at hown ⊢
    exact hout v hlt hown

end Entered

variable {n : SessionId} {maxSize rounds : Nat}

theorem does_enqueue {Q : Option WaiterId → Stage → Prop} (hfull : Q none .outside)
    (hQ : ∀ w, Q (some w) (.waiting w)) : queueing.Does t (.enqueue n maxSize) Q .outside := by
  refine ⟨fun s _ _ _ => ⟨.ok, rfl, rfl⟩, ?_⟩
  intro s ch r s' hinv hknows _ hexec
  simp only [exec, some.injEq] at hexec
  unfold enqueue at hexec
  split at hexec
  · cases hexec
    exact ⟨trivial, hinv, Stable.refl s, .outside, hknows, hfull⟩
  · cases hexec
    have henter : Entered t s { s with
        queue := s.queue.push s.nextWaiter
        waiter := update s.waiter s.nextWaiter { owner := t }
        nextWaiter := s.nextWaiter + 1 } :=
      ⟨WaitQueue.pending_push _ _, rfl, rfl, rfl, rfl⟩
    refine ⟨trivial, henter.inv hinv, henter.foreign.stable, .waiting s.nextWaiter, ?_, hQ _⟩
    refine ⟨henter.current hknows, ?_, ?_⟩
    · rw [henter.new]
    · rw [henter.new]

/-- Looking at one's own waiter: it has been served, or nothing happens. -/
theorem lookAt_cases (s : State) (n : SessionId) (w : WaiterId) :
    (s.waiter w).conn = none ∧ s.lookAt n w = (none, s) ∨
    ∃ c, (s.waiter w).conn = some c ∧ s.lookAt n w =
      (some c, (s.setWaiter w fun k => { k with taken := true }).move c (.handing n)) := by
  unfold lookAt
  cases h : (s.waiter w).conn with
  | none => exact .inl ⟨rfl, rfl⟩
  | some c => exact .inr ⟨c, rfl, rfl⟩

theorem took (n : SessionId) (hinv : QueueInv s) (hcur : Current s t w)
    (hc : (s.waiter w).conn = some c)
    (hs' : s' = (s.setWaiter w fun k => { k with taken := true }).move c (.handing n)) :
    QueueInv s' ∧ queueing.Stable t s s' ∧ (Stage.got w c).knows s' t := by
  subst hs'
  have h : Touches w s ((s.setWaiter w fun k => { k with taken := true }).move c (.handing n)) :=
    touches_of (f := fun k => { k with taken := true }) (fun _ => ⟨rfl, rfl, rfl⟩)
      rfl rfl rfl rfl rfl
  exact ⟨h.inv hinv, (h.foreign (.inl hcur.owner)).stable, h.current hcur, (h.conn w).trans hc⟩

theorem does_checkWaiter {Q : Option ConnId × Bool → Stage → Prop}
    (hgot : ∀ c b, Q (some c, b) (.got w c)) (hwait : Q (none, false) (.waiting w)) :
    queueing.Does t (.checkWaiter n w) Q (.waiting w) := by
  refine ⟨fun s _ _ _ => ⟨.ok, rfl, rfl⟩, ?_⟩
  intro s ch r s' hinv hknows _ hexec
  have hk : (Stage.waiting w).knows s t := hknows
  simp only [exec, some.injEq, Prod.mk.injEq] at hexec
  rcases hexec with ⟨rfl, hs'⟩
  rcases lookAt_cases s n w with ⟨hnone, hlook⟩ | ⟨c, hc, hlook⟩
  · rw [hlook] at hs' ⊢
    subst hs'
    refine ⟨trivial, hinv, Stable.refl s, .waiting w, hknows, ?_⟩
    rw [hk.2.1]
    exact hwait
  · rw [hlook] at hs' ⊢
    have htook := took n hinv hk.1 hc hs'.symm
    exact ⟨trivial, htook.1, htook.2.1, .got w c, htook.2.2, hgot c _⟩

theorem does_recheckWaiter {Q : Option ConnId → Stage → Prop} (hgot : ∀ c, Q (some c) (.got w c)) :
    queueing.Does t (.recheckWaiter n w) Q (.ready w) := by
  refine ⟨fun s _ _ _ => ⟨.ok, rfl, rfl⟩, ?_⟩
  intro s ch r s' hinv hknows _ hexec
  have hk : (Stage.ready w).knows s t := hknows
  simp only [exec, some.injEq] at hexec
  rcases hk with ⟨hcur, -, d, hd⟩
  rcases lookAt_cases s n w with ⟨hnone, -⟩ | ⟨c, hc, hlook⟩
  · rw [hd] at hnone
    cases hnone
  · rw [hlook] at hexec
    cases hexec
    have htook := took n hinv hcur hc rfl
    exact ⟨trivial, htook.1, htook.2.1, .got w c, htook.2.2, hgot c⟩

theorem gave_up (hinv : QueueInv s) (hcur : Current s t w) (hc : (s.waiter w).conn = none)
    (hs' : s' = s.setWaiter w fun k => { k with gaveUp := true }) :
    QueueInv s' ∧ queueing.Stable t s s' ∧ (Stage.left w).knows s' t := by
  subst hs'
  have h : Touches w s (s.setWaiter w fun k => { k with gaveUp := true }) :=
    touches_of (f := fun k => { k with gaveUp := true }) (fun _ => ⟨rfl, rfl, rfl⟩)
      rfl rfl rfl rfl rfl
  refine ⟨h.inv hinv, (h.foreign (.inl hcur.owner)).stable, h.current hcur, ?_, (h.conn w).trans hc⟩
  simp [setWaiter]

theorem does_select {Q : SelectCase → Stage → Prop} (hready : Q .ready (.ready w))
    (htimeout : Q .timeout (.left w)) (hdone : Q .done (.left w)) :
    queueing.Does t (.select w timeout) Q (.waiting w) := by
  constructor
  · -- A waiter that has been served is woken up.
    intro s hinv hknows hurgent
    rcases urgent_current hinv hknows.1 hurgent with ⟨c, hc⟩
    exact ⟨.ok, rfl, by simp [exec, hc]⟩
  · intro s ch r s' hinv hknows hcond hexec
    have hk : (Stage.waiting w).knows s t := hknows
    have hcond : (decide (ch = .ok) || (s.waiter w).conn.isNone) = true := hcond
    simp only [exec] at hexec
    split at hexec
    · split at hexec
      · rename_i hsome
        cases hexec
        exact ⟨trivial, hinv, Stable.refl s, .ready w,
          ⟨hk.1, hk.2.2, isSome_iff_exists.mp hsome⟩, hready⟩
      · cases hexec
    · split at hexec
      · cases hexec
        have hleft := gave_up hinv hk.1 (by simpa using hcond) rfl
        exact ⟨trivial, hleft.1, hleft.2.1, .left w, hleft.2.2, htimeout⟩
      · cases hexec
    · cases hexec
      have hleft := gave_up hinv hk.1 (by simpa using hcond) rfl
      exact ⟨trivial, hleft.1, hleft.2.1, .left w, hleft.2.2, hdone⟩
    · cases hexec

variable {Q : Unit → Stage → Prop}

theorem does_timeOut (hQ : Q () (.left w)) : queueing.Does t (.timeOut w) Q (.left w) := by
  refine ⟨fun s _ _ _ => ⟨.ok, rfl, rfl⟩, ?_⟩
  intro s ch r s' hinv hknows _ hexec
  cases hexec
  have hk : (Stage.left w).knows s t := hknows
  have h : Touches w s (s.setWaiter w fun k => { k with timedOut := true }) :=
    touches_of (f := fun k => { k with timedOut := true }) (fun _ => ⟨rfl, rfl, rfl⟩)
      rfl rfl rfl rfl rfl
  refine ⟨trivial, h.inv hinv, (h.foreign (.inl hk.1.owner)).stable, .left w, ?_, hQ⟩
  refine ⟨h.current hk.1, ?_, (h.conn w).trans hk.2.2⟩
  simpa [setWaiter] using hk.2.1

/-- The call of the waiter `w` is over, with the given result. -/
structure Finishes (w : WaiterId) (result : Option ConnId) (s s' : State) : Prop where
  pending : s'.queue.pending = s.queue.pending.erase w
  next : s'.nextWaiter = s.nextWaiter
  waiter : s'.waiter = update s.waiter w { s.waiter w with finished := true }
  served : s'.served = s.served
  returned : s'.returned = s.returned ++ (result.map fun c => (c, w)).toList

section Finishes

variable {result : Option ConnId}

namespace Finishes

variable (h : Finishes w result s s')
include h

theorem other {v : WaiterId} (hv : v ≠ w) : s'.waiter v = s.waiter v := by
  rw [h.waiter, update_of_ne hv]

theorem self : s'.waiter w = { s.waiter w with finished := true } := by
  rw [h.waiter, update_self]

theorem conn (v : WaiterId) : (s'.waiter v).conn = (s.waiter v).conn := by
  by_cases hv : v = w
  · rw [hv, h.self]
  · rw [h.other hv]

theorem owner (v : WaiterId) : (s'.waiter v).owner = (s.waiter v).owner := by
  by_cases hv : v = w
  · rw [hv, h.self]
  · rw [h.other hv]

theorem mem_returned {p : ConnId × WaiterId} :
    p ∈ s'.returned ↔ p ∈ s.returned ∨ (p.2 = w ∧ result = some p.1) := by
  rcases p with ⟨c, v⟩
  rw [h.returned, mem_append, mem_toList, map_eq_some_iff]
  constructor
  · rintro (hp | ⟨d, hd, heq⟩)
    · exact .inl hp
    · cases heq
      exact .inr ⟨rfl, hd⟩
  · rintro (hp | ⟨hv, hd⟩)
    · exact .inl hp
    · exact .inr ⟨c, hd, by rw [← hv]⟩

/-- A call that returns what was delivered to it, or nothing if nothing was,
keeps the invariant. -/
theorem inv (hinv : QueueInv s)
    (hopen : (s.waiter w).finished = false) (hresult : result = (s.waiter w).conn) :
    QueueInv s' where
  sorted := by
    rw [h.pending]
    exact hinv.sorted.sublist erase_sublist
  pending := by
    intro v hv
    rw [h.pending] at hv
    have hnodup : s.queue.pending.Nodup := hinv.sorted.imp ne_of_lt
    rcases hnodup.mem_erase_iff.mp hv with ⟨hne, hmem⟩
    rw [h.next, h.other hne]
    exact hinv.pending v hmem
  ordered := by
    rw [h.served]
    exact hinv.ordered
  served := by
    intro p hp
    rw [h.served] at hp
    rw [h.next, h.conn]
    exact hinv.served p hp
  later := by
    intro p hp v hv
    rw [h.served] at hp
    rw [h.pending] at hv
    exact hinv.later p hp v (mem_of_mem_erase hv)
  conn := by
    intro v d hd
    rw [h.conn] at hd
    rw [h.served]
    exact hinv.conn v d hd
  returned := by
    intro p hp
    rw [h.served]
    rcases h.mem_returned.mp hp with hp | ⟨hv, hd⟩
    · have hr := hinv.returned p hp
      have hne : p.2 ≠ w := by
        intro heq
        rw [heq, hopen] at hr
        cases hr.2
      rw [h.other hne]
      exact hr
    · rw [hv, h.self]
      refine ⟨?_, rfl⟩
      have hmem := hinv.conn w p.1 (hresult ▸ hd)
      rwa [← hv] at hmem
  once := by
    rw [h.returned, map_append, nodup_append]
    refine ⟨hinv.once, ?_, ?_⟩
    · cases result with
      | none => exact nodup_nil
      | some c => exact pairwise_singleton _ _
    · intro v hv x hx heq
      have hxw : x = w := by
        cases result with
        | none => cases hx
        | some c => simpa using hx
      rcases mem_map.mp hv with ⟨p, hp, hpv⟩
      have hfin := (hinv.returned p hp).2
      rw [hpv, heq, hxw, hopen] at hfin
      cases hfin
  finished := by
    intro p hp hfin
    rw [h.served] at hp
    apply h.mem_returned.mpr
    by_cases hv : p.2 = w
    · right
      refine ⟨hv, ?_⟩
      rw [hresult, ← hv]
      exact (hinv.served p hp).2
    · left
      rw [h.other hv] at hfin
      exact hinv.finished p hp hfin

theorem foreign (hown : (s.waiter w).owner = t) : Foreign t s s' := by
  have hne : ∀ v, (s.waiter v).owner ≠ t → v ≠ w := by
    intro v hv hvw
    exact hv (hvw ▸ hown)
  refine ⟨le_of_eq h.next.symm, ?_, fun v _ => h.owner v, ?_, fun v _ _ => .inl (h.conn v)⟩
  · intro v hle hlt
    rw [h.next] at hlt
    exact absurd hlt (not_lt.mpr hle)
  · intro v _ hv
    rw [h.other (hne v hv)]
    exact ⟨rfl, rfl, rfl⟩

theorem outside (hcur : Current s t w) : Stage.outside.knows s' t := by
  intro v hv hown
  rw [h.next] at hv
  rw [h.owner] at hown
  by_cases hvw : v = w
  · rw [hvw, h.self]
  · rw [h.other hvw]
    exact hcur.only v hv hown hvw

end Finishes

theorem does_dequeue {κ : Stage}
    (hκ : ∀ s, κ.knows s t → Current s t w ∧ result = (s.waiter w).conn) (hQ : Q () .outside) :
    queueing.Does t (.dequeue n w result) Q κ := by
  refine ⟨fun s _ _ _ => ⟨.ok, rfl, rfl⟩, ?_⟩
  intro s ch r s' hinv hknows _ hexec
  rcases hκ s hknows with ⟨hcur, hresult⟩
  have hfin : Finishes w result s s' := by
    cases result with
    | none =>
      cases hexec
      exact ⟨WaitQueue.pending_remove _ _, rfl, rfl, rfl, (append_nil _).symm⟩
    | some c =>
      cases hexec
      exact ⟨WaitQueue.pending_remove _ _, rfl, rfl, rfl, rfl⟩
  exact ⟨trivial, hfin.inv hinv hcur.unfinished hresult, (hfin.foreign hcur.owner).stable,
    .outside, hfin.outside hcur, hQ⟩

end Finishes

/-- `c` is delivered to the waiter `w`, the longest-waiting one. -/
structure Serves (w : WaiterId) (c : ConnId) (s s' : State) : Prop where
  pending : s.queue.pending = w :: s'.queue.pending
  next : s'.nextWaiter = s.nextWaiter
  waiter : s'.waiter = update s.waiter w { s.waiter w with conn := some c }
  served : s'.served = s.served ++ [(c, w)]
  returned : s'.returned = s.returned

namespace Serves

variable (h : Serves w c s s')
include h

theorem other (hv : v ≠ w) : s'.waiter v = s.waiter v := by
  rw [h.waiter, update_of_ne hv]

theorem self : s'.waiter w = { s.waiter w with conn := some c } := by
  rw [h.waiter, update_self]

theorem finished (v : WaiterId) : (s'.waiter v).finished = (s.waiter v).finished := by
  by_cases hv : v = w
  · rw [hv, h.self]
  · rw [h.other hv]

theorem inv (hinv : QueueInv s) : QueueInv s' := by
  have hsorted := hinv.sorted
  rw [h.pending, pairwise_cons] at hsorted
  have hw : w ∈ s.queue.pending := h.pending ▸ mem_cons_self
  have hmem : ∀ v ∈ s'.queue.pending, v ∈ s.queue.pending := by
    intro v hv
    rw [h.pending]
    exact mem_cons_of_mem w hv
  -- Everyone served so far entered before `w`.
  have hearlier : ∀ p ∈ s.served, p.2 < w := fun p hp => hinv.later p hp w hw
  constructor
  · exact hsorted.2
  · intro v hv
    rw [h.next, h.other (ne_of_gt (hsorted.1 v hv))]
    exact hinv.pending v (hmem v hv)
  · rw [h.served, map_append, pairwise_append]
    refine ⟨hinv.ordered, pairwise_singleton _ _, ?_⟩
    intro v hv x hx
    rcases mem_map.mp hv with ⟨p, hp, rfl⟩
    rw [mem_singleton.mp hx]
    exact hearlier p hp
  · intro p hp
    rw [h.served, mem_append, mem_singleton] at hp
    rw [h.next]
    rcases hp with hp | rfl
    · rw [h.other (ne_of_lt (hearlier p hp))]
      exact hinv.served p hp
    · exact ⟨(hinv.pending w hw).1, by rw [h.self]⟩
  · intro p hp v hv
    rw [h.served, mem_append, mem_singleton] at hp
    rcases hp with hp | rfl
    · exact hinv.later p hp v (hmem v hv)
    · exact hsorted.1 v hv
  · intro v d hd
    rw [h.served, mem_append, mem_singleton]
    by_cases hv : v = w
    · rw [hv, h.self] at hd
      cases hd
      exact .inr (by rw [hv])
    · rw [h.other hv] at hd
      exact .inl (hinv.conn v d hd)
  · intro p hp
    rw [h.returned] at hp
    rw [h.served, h.finished]
    have hr := hinv.returned p hp
    exact ⟨mem_append_left _ hr.1, hr.2⟩
  · rw [h.returned]
    exact hinv.once
  · intro p hp hfin
    rw [h.finished] at hfin
    rw [h.returned]
    rw [h.served, mem_append, mem_singleton] at hp
    rcases hp with hp | rfl
    · exact hinv.finished p hp hfin
    · rw [(hinv.pending w hw).2.2] at hfin
      cases hfin

theorem foreign (hinv : QueueInv s) (hstays : (s.waiter w).gaveUp = false) : Foreign t s s' := by
  have hw : w ∈ s.queue.pending := h.pending ▸ mem_cons_self
  refine ⟨le_of_eq h.next.symm, ?_, ?_, ?_, ?_⟩
  · intro v hle hlt
    rw [h.next] at hlt
    exact absurd hlt (not_lt.mpr hle)
  · intro v _
    by_cases hv : v = w
    · rw [hv, h.self]
    · rw [h.other hv]
  · intro v _ _
    by_cases hv : v = w
    · rw [hv, h.self]
      exact ⟨rfl, rfl, rfl⟩
    · rw [h.other hv]
      exact ⟨rfl, rfl, rfl⟩
  · intro v _ _
    by_cases hv : v = w
    · rw [hv]
      exact .inr ⟨(hinv.pending w hw).2.1, hstays⟩
    · exact .inl (by rw [h.other hv])

theorem outside (hout : Stage.outside.knows s t) : Stage.outside.knows s' t := by
  intro v hv hown
  rw [h.next] at hv
  rw [h.finished]
  apply hout v hv
  by_cases hvw : v = w
  · rw [hvw, h.self] at hown
    rw [hvw]
    exact hown
  · rwa [h.other hvw] at hown

end Serves

/-- `Signal` serves the longest-waiting waiter, or nobody if nobody waits. -/
theorem exec_signal (ch : Choice) {r : Bool} (h : exec s t (.signal n c) ch = some (r, s')) :
    (s.queue.pop.1 = none ∧ r = false ∧ Touches 0 s s' ∧ s'.waiter = s.waiter) ∨
      ∃ w, s.queue.pop.1 = some w ∧ r = true ∧ Serves w c s s' := by
  simp only [exec, some.injEq] at h
  unfold signal at h
  rcases hp : s.queue.pop with ⟨o, q⟩
  cases hq : s.queue.pending with
  | nil =>
    have hpop := WaitQueue.pop_of_nil hq
    rw [hp] at hpop
    rcases hpop with ⟨rfl, hpending⟩
    simp only [setSession, hp] at h
    cases h
    exact .inl ⟨rfl, rfl, ⟨hpending.trans hq.symm, rfl, rfl, rfl, fun _ => rfl, fun _ => rfl,
      fun _ => rfl, fun _ _ => rfl⟩, rfl⟩
  | cons w ws =>
    have hpop := WaitQueue.pop_of_cons hq
    rw [hp] at hpop
    rcases hpop with ⟨rfl, hpending⟩
    simp only [setSession, hp] at h
    cases h
    refine .inr ⟨w, rfl, rfl, ⟨hq.trans ?_, rfl, rfl, rfl, rfl⟩⟩
    exact congrArg (w :: ·) hpending.symm

theorem does_signal {Q : Bool → Stage → Prop} (hQ : ∀ b, Q b .outside) :
    queueing.Does t (.signal n c) Q .outside := by
  refine ⟨fun s hinv hknows hurgent => absurd hurgent (not_urgent hinv hknows), ?_⟩
  intro s ch r s' hinv hknows hcond hexec
  rcases exec_signal ch hexec with ⟨-, -, htouch, hsame⟩ | ⟨w, hpop, -, hserve⟩
  · exact ⟨trivial, htouch.inv hinv, (htouch.foreign (.inr (by rw [hsame]))).stable, .outside,
      htouch.outside hknows, hQ r⟩
  · have hstays : (s.waiter w).gaveUp = false := by
      have hcond : inTime s t (.signal n c) ch = true := hcond
      simpa [inTime, hpop] using hcond
    exact ⟨trivial, hserve.inv hinv, (hserve.foreign hinv hstays).stable, .outside,
      hserve.outside hknows, hQ r⟩

/-! ## The calls -/

theorem wp_waitLoop_delivers : queueing.wp t (waitLoop n w timeout (rounds + 1))
      (fun result κ => ∀ s, κ.knows s t → Current s t w ∧ result.toOption = (s.waiter w).conn)
      (.waiting w) := by
  apply wp_act_bind
  apply does_checkWaiter
  · intro c timedOut s hκ
    exact ⟨hκ.1, hκ.2.symm⟩
  · apply wp_act_bind
    apply does_select
    · apply wp_act_bind
      apply does_recheckWaiter
      intro c s hκ
      exact ⟨hκ.1, hκ.2.symm⟩
    · apply wp_act_bind
      apply does_timeOut
      intro s hκ
      exact ⟨hκ.1, hκ.2.2.symm⟩
    · apply wp_act_bind
      apply does_timeOut
      intro s hκ
      exact ⟨hκ.1, hκ.2.2.symm⟩

theorem wp_wait_delivers :
    queueing.wp t (wait n maxSize timeout (rounds + 1)) (fun _ κ => κ = .outside) .outside := by
  apply wp_act_bind
  apply does_enqueue
  · rfl
  · intro w
    apply wp_seq wp_waitLoop_delivers
    intro result κ hκ
    apply wp_act_bind
    exact does_dequeue hκ rfl

theorem wp_queueCalls {n : Nat} {l : List QueueCall} :
    queueing.wp t (queueCalls maxSize rounds n l) (fun _ κ => queueing.Final t κ) .outside := by
  induction l with
  | nil => exact fun s hinv hknows => not_urgent hinv hknows
  | cons call l ih =>
    have hcall : queueing.wp t (call.run maxSize rounds n) (fun _ κ => κ = .outside) .outside := by
      cases call with
      | wait timeout =>
        apply wp_seq wp_wait_delivers
        intro _ κ hκ
        exact hκ
      | signal c =>
        apply wp_act_bind
        apply does_signal
        intro _
        rfl
    apply wp_seq hcall
    intro _ κ hκ
    exact hκ ▸ ih

theorem queueUsers_within (scripts : Nat → List QueueCall) :
    queueing.Within (queueUsers maxSize rounds scripts) := by
  constructor
  · exact ⟨List.Pairwise.nil, nofun, List.Pairwise.nil, nofun, nofun, nofun, nofun,
      List.Pairwise.nil, nofun⟩
  · intro t
    refine ⟨.outside, nofun, ?_⟩
    cases t with
    | caller i => exact wp_queueCalls
    | _ => exact fun s hinv hknows => not_urgent hinv hknows

/-! ## Every delivery is returned -/

/-- In every run in which nobody leaves after it was served or is served after
it has left, the queue keeps its promise. -/
theorem queue_delivers {maxSize rounds : Nat} {scripts : Nat → List QueueCall}
    {cfg : Config proxy} (hrun : Run inTime (queueUsers maxSize rounds scripts) cfg) :
    Delivers inTime cfg := by
  have hin : queueing.Within cfg := Discipline.sound (queueUsers_within scripts) hrun
  have hinv : QueueInv cfg.state := hin.1
  constructor
  · intro c w hserved hfin
    exact hinv.finished (c, w) hserved hfin
  · intro c w hserved hfin
    exact Discipline.progress hin ⟨(c, w), hserved, hfin, rfl⟩
  · intro c w hret
    exact (hinv.returned (c, w) hret).1
  · exact hinv.once
  · exact hinv.ordered
  · intro c w hserved
    exact hinv.later (c, w) hserved

/-- Two goroutines wait and a third one signals twice: the first connection
goes to the one that entered first. -/
def twoWaiters : Nat → List QueueCall
  | 0 => [.wait true]
  | 1 => [.wait true]
  | 2 => [.signal 7, .signal 8]
  | _ => []

/-- The hypothesis holds in a run in which both deliveries are returned. -/
theorem queue_delivers_twoWaiters : ∃ cfg, Run inTime (queueUsers 1000 1 twoWaiters) cfg ∧
      cfg.state.returned = [(8, 1), (7, 0)] ∧ Delivers inTime cfg := by
  rcases exists_run_of_follow inTime (queueUsers 1000 1 twoWaiters)
    (fun cfg => cfg.state.returned = [(8, 1), (7, 0)])
    [(.caller 0, .ok), (.caller 1, .ok), (.caller 0, .ok), (.caller 2, .ok), (.caller 2, .ok),
      (.caller 1, .ok), (.caller 1, .ok), (.caller 0, .ok), (.caller 0, .ok), (.caller 0, .ok)]
    (by decide) with ⟨cfg, hrun, h⟩
  exact ⟨cfg, hrun, h, queue_delivers hrun⟩

/-- One goroutine waits and another one signals. -/
def oneWaiter : Nat → List QueueCall
  | 0 => [.wait true]
  | 1 => [.signal 7]
  | _ => []

/-- The timeout fires, `Signal` delivers and returns true, and `Wait` returns
the timeout error: the connection is lost. -/
theorem served_not_returned :
    ¬ ∀ (maxSize rounds : Nat) (scripts : Nat → List QueueCall) (cfg : Config proxy),
      Run anyStep (queueUsers maxSize rounds scripts) cfg → Delivers anyStep cfg := by
  intro h
  rcases exists_run_of_follow anyStep (queueUsers 1000 1 oneWaiter)
    (fun cfg => (7, 0) ∈ cfg.state.served ∧ (cfg.state.waiter 0).finished = true ∧
      (7, 0) ∉ cfg.state.returned)
    [(.caller 0, .ok), (.caller 0, .ok), (.caller 0, .fail), (.caller 1, .ok), (.caller 0, .ok),
      (.caller 0, .ok)]
    (by decide) with ⟨cfg, hrun, hlost⟩
  rcases hlost with ⟨hserved, hfin, hnot⟩
  exact hnot ((h 1000 1 oneWaiter cfg hrun).returned 7 0 hserved hfin)

end Geryon.Pool
