import Geryon.Ownership.Exclusive

/-!
# What is handed over

A connection goes from one session to the next through the idle list or
straight to a waiter.  This module is about the state it is in on the way:
whether the proxy has closed it, whether it has been reset, and whether its
backend has an open transaction.

`Release` looks at none of this when a waiter is there, and the resetters take
the end of what they can read for success.  So each of the three properties
needs a condition on what `Release` finds.
-/

namespace Geryon.Ownership

open Conc Conc.Discipline Pool Proxy List Bool

variable {cfg : PoolConfig} {users : Users} {cfg' : Config proxy}

/-! ## Open connections -/

/-- The pool is going to give the connection to somebody: it is idle, it is
delivered, or `Acquire` has it. -/
def offered : Place → Bool
  | .idle | .waiter _ | .handing _ => true
  | _ => false

/-- Nothing disturbs the discipline, no closed connection is released while
somebody waits, and the pool is closed only while no registered connection is
on its way to somebody. -/
def handsOverOpen : Cond proxy := fun s t o ch =>
  undisturbed s t o ch &&
    match o with
    | .signal _ c => s.queue.pop.1.isNone || !(s.conn c).closed
    | .closeAll => s.conns.active.all fun c => !offered (s.place c)
    | _ => true

variable {s : State} {t : Thread} {o : Op} {ch : Choice}

theorem undisturbed_of_handsOverOpen (h : handsOverOpen s t o ch = true) :
    undisturbed s t o ch = true :=
  (and_eq_true_iff.mp h).1

/-- What the pool is going to give away is open. -/
theorem open_of_offered (hrun : Run handsOverOpen (system cfg users) cfg') (c : ConnId) :
    offered (cfg'.state.place c) = true → (cfg'.state.conn c).closed = false := by
  refine run_effects (I := fun q k => offered q = true → k.closed = false)
    (fun _ _ _ _ => undisturbed_of_handsOverOpen) (fun _ => rfl) ?_ hrun c
  intro s t ch c o q k hinv hguar hcond hI heff
  cases heff with
  | same => exact hI
  | connected | prefetched => exact fun _ => rfl
  | seen ho hc =>
    rw [hc] at hI
    exact fun _ => hI rfl
  | delivered hw hc =>
    have hfound : (s.queue.pop.1.isNone || !(s.conn c).closed) = true :=
      (and_eq_true_iff.mp hcond).2
    rw [hw] at hfound
    exact fun _ => by simpa using hfound
  | idled hc => exact fun _ => hguar.2.2.2
  | shut hc =>
    have hactive : (s.conns.active.all fun c => !offered (s.place c)) = true :=
      (and_eq_true_iff.mp hcond).2
    intro hoffered
    have := all_eq_true.mp hactive c hc
    rw [hoffered] at this
    cases this
  | ended hc =>
    -- `Relay.Run` closes a connection of its session.
    rw [hguar c hc]
    nofun
  | wrote | read | wroteReset | exchanged | answered => exact hI
  | readReset hc =>
    obtain ⟨_, _, hk⟩ := Conn.noteResets_eq _ _
    rw [hk]
    exact hI
  | acquired | added | returned | passed | discarded | dropped => nofun

/-- Whatever `Acquire` or `Wait` returns next, from the idle list, after it was created,
or to a waiter, has not been closed by the proxy. -/
structure ReturnsOpen (C : Cond proxy) (cfg : Config proxy) : Prop where
  idle : ∀ t n c ch s', cfg.Performs C t (.acquire n) ch →
    exec cfg.state t (.acquire n) ch = some (some c, s') → (cfg.state.conn c).closed = false
  created : ∀ t n c ch, cfg.Performs C t (.addActive n c) ch → (cfg.state.conn c).closed = false
  waited : ∀ t n w c ch, cfg.Performs C t (.dequeue n w (some c)) ch →
    (cfg.state.conn c).closed = false

/-- In every run that meets the condition, no closed connection is handed
out. -/
theorem returns_open (hrun : Run handsOverOpen (system cfg users) cfg') :
    ReturnsOpen handsOverOpen cfg' := by
  have hC : ∀ s t o ch, handsOverOpen s t o ch = true → undisturbed s t o ch = true :=
    fun _ _ _ _ => undisturbed_of_handsOverOpen
  have hopen := open_of_offered hrun
  refine ⟨?_, ?_, ?_⟩
  · intro t n c ch s' _ hexec
    apply hopen c
    rw [(owned_of_run hC hrun).idle c (mem_idle_of_acquire hexec)]
    rfl
  · intro t n c ch hperf
    apply hopen c
    rw [(guar_of_run hC hrun hperf).2]
    rfl
  · intro t n w c ch hperf
    apply hopen c
    rw [(guar_of_run hC hrun hperf).2]
    rfl

/-- `Handle` up to where `Wait` has looked at its waiter. -/
def waits : List Choice := [.ok, .ok, .ok, .ok, .ok, .ok, .ok]

/-- A session ends while another one waits: the waiting one is about to get
the connection that its relay did not read from. -/
theorem returns_open_waiter : ∃ cfg', Run handsOverOpen (system smallPool {}) cfg' ∧
      cfg'.Performs handsOverOpen (.handle 1) (.dequeue 1 0 (some 1)) .ok ∧
      (cfg'.state.conn 1).closed = false := by
  rcases exists_run_of_follow handsOverOpen (system smallPool {})
    (fun cfg' => cfg'.Performs handsOverOpen (.handle 1) (.dequeue 1 0 (some 1)) .ok)
    (alone (.handle 0) startsRelay ++ alone (.handle 1) waits ++
      alone (.handle 0) (endsRelay ++ [.ok, .ok]) ++ alone (.handle 1) [.ok, .ok])
    (by decide +kernel) with ⟨cfg', hrun, hperf⟩
  exact ⟨cfg', hrun, hperf, (returns_open hrun).waited _ _ _ _ _ hperf⟩

/-- A session ends while two others wait.  The second one is about to get the
connection that `Relay.Run` has closed. -/
theorem closed_connection_returned : ¬ ∀ (cfg : PoolConfig) (users : Users) (cfg' : Config proxy),
      Run anyStep (system cfg users) cfg' → ReturnsOpen anyStep cfg' := by
  intro h
  rcases exists_run_of_follow anyStep (system smallPool {})
    (fun cfg' => cfg'.Performs anyStep (.handle 2) (.dequeue 2 1 (some 0)) .ok ∧
      (cfg'.state.conn 0).closed = true)
    (alone (.handle 0) startsRelay ++ alone (.handle 1) waits ++ alone (.handle 2) waits ++
      alone (.handle 0) (endsRelay ++ oks 5) ++
      alone (.handle 2) [.ok, .ok]) (by decide +kernel) with ⟨cfg', hrun, hbad⟩
  rcases hbad with ⟨hperf, hclosed⟩
  have hopen := (h smallPool {} cfg' hrun).waited _ _ _ _ _ hperf
  rw [hclosed] at hopen
  cases hopen

/-! ## Connections that have been reset -/

/-- A backend answers a reset, and not with an error. -/
def answersResets (s : State) : Choice → Bool
  | .answer c rs =>
    match (s.conn c).requests with
    | [] => true
    | q :: _ => decide (q.origin ≠ .reset) || !rs.isEmpty && rs.all fun r => !r.error
  | _ => true

/-- The discipline is kept and messages are written while holding; a
connection that a session has used is not released while somebody waits;
backends answer resets without an error; and when a connection goes to the
idle list, everything has been executed and read. -/
def resetsFully : Cond proxy := fun s t o ch =>
  holding s t o ch &&
    match o with
    | .signal _ c => s.queue.pop.1.isNone || (s.conn c).user.isNone
    | .releaseIdle c => (s.conn c).requests.isEmpty && (s.conn c).replies.isEmpty
    | .backend => answersResets s ch
    | _ => true

theorem holding_of_resetsFully (h : resetsFully s t o ch = true) : holding s t o ch = true :=
  (and_eq_true_iff.mp h).1

/-- Who may have used a connection since its last reset, by where it is. -/
def mayHaveUsed : Place → Option SessionId → Prop
  | .idle, u | .waiter _, u => u = none
  | .session n, u | .handing n, u => u = none ∨ u = some n
  | .releasing _, _ | .nowhere, _ => True

/-- A connection that has been reset where it should have been, and has seen
no error in answer to a reset. -/
structure Tidy (q : Place) (k : Conn) : Prop where
  user : mayHaveUsed q k.user
  replies : ∀ r ∈ k.replies, r.origin = .reset → r.error = false
  resetError : k.resetError = false

/-- The reset is still to be executed, its answer is still to be read to the
end, or it is complete. -/
def Underway (k : Conn) : Prop :=
  (∃ q ∈ k.requests, q.origin = .reset) ∨ (∃ r ∈ k.replies, r.origin = .reset ∧ r.last = true) ∨
    k.user = none

/-- The invariant: connections are tidy, and the reset of the connection that
is being reset is under way once it has been written. -/
structure Resets (s : State) : Prop where
  tidy : ∀ c, Tidy (s.place c) (s.conn c)
  locked : ∀ t c, s.conns.locked = some (t, c) → s.place c = .releasing t
  asked : ∀ t c, s.conns.locked = some (t, c) → s.asked = true → Underway (s.conn c)

section Resets

variable {s s' : State} {t : Thread} {o : Op} {ch : Choice} {c : ConnId} {q : Place} {k : Conn}

/-- A reply that is read in a reset, with the replies behind it left. -/
theorem noteReset_resetError {r : Reply} (hr : r.origin = .reset → r.error = false)
    (h : k.resetError = false) : (k.noteReset r).resetError = false := by
  unfold Conn.noteReset
  split
  · rename_i horigin
    show (k.resetError || r.error) = false
    rw [h, hr horigin]
    rfl
  · exact h

theorem noteResets_resetError {l : List Reply} (hl : ∀ r ∈ l, r.origin = .reset → r.error = false)
    (h : k.resetError = false) : (k.noteResets l).resetError = false := by
  induction l generalizing k with
  | nil => exact h
  | cons r l ih =>
    exact ih (fun r' hr' => hl r' (mem_cons_of_mem _ hr'))
      (noteReset_resetError (hl r mem_cons_self) h)

theorem Tidy.noteResets {l rs : List Reply} (h : Tidy q k) (hq : ∀ user, mayHaveUsed q user)
    (hk : k.replies = l ++ rs) : Tidy q (({ k with replies := rs } : Conn).noteResets l) := by
  have hresetError : (({ k with replies := rs } : Conn).noteResets l).resetError = false :=
    noteResets_resetError (fun r hr => h.replies r (hk ▸ mem_append_left _ hr)) h.resetError
  obtain ⟨e, u, heq⟩ := Conn.noteResets_eq { k with replies := rs } l
  rw [heq] at hresetError ⊢
  exact ⟨hq u, fun r hr => h.replies r (hk ▸ mem_append_right _ hr), hresetError⟩

theorem Resets.step_tidy (hJ : Resets s) (hearly : ∀ n, (s.session n).early = false)
    (hinv : Owned cfg s) (hguar : Guar s t o) (hcond : resetsFully s t o ch = true)
    (heff : Effect s t ch c o q k) : Tidy q k := by
  have h := hJ.tidy c
  have hcond := (and_eq_true_iff.mp hcond).2
  cases heff with
  | same => exact h
  | acquired hc | seen _ hc =>
    rw [hc] at h
    exact { h with user := .inl h.user }
  | connected => exact ⟨.inl rfl, nofun, rfl⟩
  | prefetched hc =>
    refine ⟨?_, nofun, rfl⟩
    rw [hinv.fresh c (le_of_eq hc.symm)]
    trivial
  | added hc | returned hc =>
    rw [hc] at h
    exact { h with user := h.user }
  | delivered hw hc =>
    have hcond : (s.queue.pop.1.isNone || (s.conn c).user.isNone) = true := hcond
    rw [hw] at hcond
    exact { h with user := Option.isNone_iff_eq_none.mp hcond }
  | passed => exact { h with user := trivial }
  | idled hc =>
    have hcond : ((s.conn c).requests.isEmpty && (s.conn c).replies.isEmpty) = true := hcond
    simp only [and_eq_true, List.isEmpty_iff] at hcond
    refine { h with user := ?_ }
    rcases hJ.asked t c hguar.2.1 hguar.2.2.1 with ⟨q, hq, -⟩ | ⟨r, hr, -⟩ | hnone
    · rw [hcond.1] at hq
      cases hq
    · rw [hcond.2] at hr
      cases hr
    · exact hnone
  | discarded | dropped => exact { h with user := trivial }
  | shut | ended | exchanged => exact { h with }
  | @wrote n e captured =>
    have hplace : s.place c = .session n := hguar.2.2.2.1 (hearly n)
    rw [hplace]
    exact { h with user := .inr rfl }
  | read _ hc =>
    refine { h with replies := fun r hr => h.replies r ?_ }
    rw [hc]
    exact mem_cons_of_mem _ (mem_append_right _ hr)
  | wroteReset => exact { h with resetError := rfl }
  | readReset hc =>
    rw [hguar.1] at h ⊢
    exact h.noteResets (fun _ => trivial) hc
  | @answered q qs rs hc hrs hch =>
    refine { h with replies := ?_ }
    intro r hr horigin
    rcases mem_append.mp hr with hr | hr
    · exact h.replies r hr horigin
    · subst hch
      have hcond : answersResets s (.answer c rs) = true := hcond
      simp only [answersResets, hc, or_eq_true, and_eq_true, decide_eq_true_eq,
        all_eq_true, not_eq_true'] at hcond
      rcases hcond with hq | hall
      · exact absurd ((hrs.origin r hr).symm.trans horigin) hq
      · exact hall.2 r hr

theorem Underway.mono {k' : Conn} (h : Underway k) (hreq : ∀ q ∈ k.requests, q ∈ k'.requests)
    (hrep : ∀ r ∈ k.replies, r ∈ k'.replies) (huser : k'.user = k.user) : Underway k' := by
  rcases h with ⟨q, hq, ho⟩ | ⟨r, hr, ho⟩ | hnone
  · exact .inl ⟨q, hreq q hq, ho⟩
  · exact .inr (.inl ⟨r, hrep r hr, ho⟩)
  · exact .inr (.inr (huser.trans hnone))

variable {rs : List Reply} {u : Thread} {r : o.Ret}

/-- A reply that is read leaves the reset under way, or completes it. -/
theorem Underway.noteReset {r : Reply} (h : Underway k)
    (hreplies : r.origin = .reset → r.error = false) (hk : k.resetError = false)
    (hr : k.replies = r :: rs) : Underway (({ k with replies := rs } : Conn).noteReset r) := by
  have herror : r.origin = .reset → (k.resetError || r.error) = false := by
    intro horigin
    rw [hk, hreplies horigin]
    rfl
  have huser : k.user = none → (({ k with replies := rs } : Conn).noteReset r).user = none := by
    intro hnone
    unfold Conn.noteReset
    split
    · show (if _ then none else k.user) = none
      rw [hnone, ite_self]
    · exact hnone
  have hfields : (({ k with replies := rs } : Conn).noteReset r).requests = k.requests ∧
      (({ k with replies := rs } : Conn).noteReset r).replies = rs := by
    unfold Conn.noteReset
    split <;> exact ⟨rfl, rfl⟩
  rcases h with hreq | ⟨r', hr', horigin, hlast⟩ | hnone
  · exact .inl (by rw [hfields.1]; exact hreq)
  · rw [hr] at hr'
    rcases mem_cons.mp hr' with rfl | hr'
    · refine .inr (.inr ?_)
      simp [Conn.noteReset, horigin, hlast, herror horigin]
    · exact .inr (.inl ⟨r', by rw [hfields.2]; exact hr', horigin, hlast⟩)
  · exact .inr (.inr (huser hnone))

theorem noteReset_replies {r : Reply} (rs' : List Reply) :
    ({ k with replies := rs } : Conn).noteReset r =
      { ({ k with replies := rs' } : Conn).noteReset r with replies := rs } := by
  unfold Conn.noteReset
  split <;> rfl

theorem replies_noteReset {r : Reply} : (k.noteReset r).replies = k.replies := by
  unfold Conn.noteReset
  split <;> rfl

/-- So do all those that one read takes. -/
theorem Underway.noteResets {l : List Reply} (h : Underway k)
    (hreplies : ∀ r ∈ k.replies, r.origin = .reset → r.error = false) (hk : k.resetError = false)
    (hr : k.replies = l ++ rs) : Underway (({ k with replies := rs } : Conn).noteResets l) := by
  induction l generalizing k with
  | nil => rwa [show ({ k with replies := rs } : Conn).noteResets [] = k by
      rw [← show k.replies = rs from hr]; rfl]
  | cons r l ih =>
    have hhead : r.origin = .reset → r.error = false := hreplies r (hr ▸ mem_cons_self)
    have hrest : (({ k with replies := l ++ rs } : Conn).noteReset r).replies = l ++ rs :=
      replies_noteReset
    show Underway ((({ k with replies := rs } : Conn).noteReset r).noteResets l)
    rw [noteReset_replies (l ++ rs)]
    refine ih (h.noteReset hhead hk hr) ?_ (noteReset_resetError hhead hk) hrest
    rw [hrest]
    exact fun r' hr' => hreplies r' (hr ▸ mem_cons_of_mem _ hr')

theorem Underway.answered {q : Request} {qs : List Request} (h : Underway k)
    (hq : k.requests = q :: qs) (hrs : Answers q rs) (hne : q.origin = .reset → rs ≠ []) :
    Underway (answered k q qs rs) := by
  rcases h with ⟨q', hq', horigin⟩ | ⟨r, hr, ho⟩ | hnone
  · rw [hq] at hq'
    rcases mem_cons.mp hq' with rfl | hq'
    · have hlast := getLast?_eq_some_getLast (hne horigin)
      have hmem := getLast_mem (hne horigin)
      exact .inr (.inl ⟨_, mem_append_right _ hmem, (hrs.origin _ hmem).trans horigin,
        hrs.last _ hlast⟩)
    · exact .inl ⟨q', hq', horigin⟩
  · exact .inr (.inl ⟨r, mem_append_left _ hr, ho⟩)
  · exact .inr (.inr hnone)

variable (hJ : Resets s)
include hJ

theorem Resets.step_underway (hearly : ∀ n, (s.session n).early = false)
    (hinv : Owned cfg s) (hguar : Guar s t o) (hcond : resetsFully s t o ch = true)
    (hplace : s.place c = .releasing u) (h : Underway (s.conn c)) (heff : Effect s t ch c o q k) :
    Underway k := by
  have hcond := (and_eq_true_iff.mp hcond).2
  cases heff with
  | same | idled => exact h
  | discarded | shut | ended | exchanged =>
    exact h.mono (fun _ => id) (fun _ => id) rfl
  | connected hc | prefetched hc =>
    rw [hinv.fresh c (le_of_eq hc.symm)] at hplace
    cases hplace
  | acquired hc | added hc | seen _ hc | returned hc | delivered _ hc | passed _ hc
  | dropped _ hc =>
    rw [hc] at hplace
    cases hplace
  | @wrote n e captured =>
    have hheld : s.place c = .session n := hguar.2.2.2.1 (hearly n)
    rw [hheld] at hplace
    cases hplace
  | @read n r l rs hopen hc =>
    have hheld : s.place c = .session n := hguar.1 hopen (hearly n)
    rw [hheld] at hplace
    cases hplace
  | wroteReset =>
    exact h.mono (fun _ hq => mem_append_left _ hq) (fun _ => id) rfl
  | readReset hc => exact h.noteResets (hJ.tidy c).replies (hJ.tidy c).resetError hc
  | @answered q qs rs hc hrs hch =>
    subst hch
    have hcond : answersResets s (.answer c rs) = true := hcond
    simp only [answersResets, hc, or_eq_true, and_eq_true, decide_eq_true_eq,
      not_eq_true', isEmpty_eq_false_iff] at hcond
    exact h.answered hc hrs fun horigin => hcond.elim (absurd horigin) And.left

theorem Resets.step_locked (hguar : Guar s t o) (hinv : Owned cfg s)
    (hexec : exec s t o ch = some (r, s')) (hl : s'.conns.locked = some (u, c)) :
    s'.place c = .releasing u := by
  have heff : Effect s t ch c o (s'.place c) (s'.conn c) := effect_of_exec hinv hguar hexec
  have hkept : s.place c = .releasing u → s'.place c = .releasing u := by
    intro hplace
    generalize hq : s'.place c = q, hk : s'.conn c = k at heff
    cases heff with
    | same | shut | ended | wrote | read | wroteReset | readReset | exchanged | answered =>
      exact hplace
    | idled | discarded =>
      cases hexec
      cases hl
    | connected hc | prefetched hc =>
      rw [hinv.fresh c (le_of_eq hc.symm)] at hplace
      cases hplace
    | acquired hc | added hc | seen _ hc | returned hc | delivered _ hc | passed _ hc
    | dropped _ hc =>
      rw [hc] at hplace
      cases hplace
  cases locking_of_exec hexec with
  | same hl' | asked hl' => exact hkept (hJ.locked u c (hl'.symm.trans hl))
  | locked hl' =>
    cases hl'.symm.trans hl
    exact hkept hguar
  | freed hl' => cases hl'.symm.trans hl

theorem Resets.step (hearly : ∀ n, (s.session n).early = false)
    (hinv : Owned cfg s) (hguar : Guar s t o) (hcond : resetsFully s t o ch = true)
    (hexec : exec s t o ch = some (r, s')) : Resets s' where
  tidy c := hJ.step_tidy hearly hinv hguar hcond (effect_of_exec hinv hguar hexec)
  locked u c hl := hJ.step_locked hguar hinv hexec hl
  asked u c hl hasked := by
    cases locking_of_exec hexec with
    | same hl' hasked' =>
      have hlocked := hl'.symm.trans hl
      exact hJ.step_underway hearly hinv hguar hcond (hJ.locked u c hlocked)
        (hJ.asked u c hlocked (hasked'.symm.trans hasked)) (effect_of_exec hinv hguar hexec)
    | locked hl' hasked' => cases hasked'.symm.trans hasked
    | freed hl' => cases hl'.symm.trans hl
    | @asked d e hl' hreq =>
      cases hguar.2.1.symm.trans (hl'.symm.trans hl)
      exact .inl ⟨⟨.reset, e⟩, by rw [hreq]; exact mem_append_right _ mem_cons_self, rfl⟩

end Resets

theorem resets_of_run (hrun : Run resetsFully (system cfg users) cfg') : Resets cfg'.state :=
  holding_invariant holding_of_resetsFully ⟨fun _ => ⟨trivial, nofun, rfl⟩, nofun, nofun⟩
    Resets.step hrun

/-- Each message that is written next is written to a connection that no other
session has used since its last successful reset. -/
def WritesReset (C : Cond proxy) (cfg : Config proxy) : Prop :=
  ∀ t n c effect captured ch, cfg.Performs C t (.write n c effect captured) ch →
    (cfg.state.conn c).user = none ∨ (cfg.state.conn c).user = some n

/-- Every client sends one query. -/
def queries : Users := { messages := fun _ => [{}] }

/-- A pool in session mode with room for three connections. -/
def threePool : PoolConfig := { smallPool with maxServerConnections := 3 }

/-- The backend has no open transaction, and is not going to open one for a
message that it has not executed yet. -/
def finished (k : Conn) : Bool := !k.inTxn && k.requests.all fun q => decide (q.effect ≠ .opens)

/-- The discipline is kept and messages are written while holding; when a
transaction is aborted or the clean-up begins, the transactions on the
connections of the session are finished; and so is that on a connection which
a callback decides to release. -/
def endsTransactions : Cond proxy := fun s t o ch =>
  holding s t o ch &&
    match o with
    | .enter n r =>
      decide (r = .startup ∨ r = .message) ||
        (s.session n).serverConn.all (fun c => finished (s.conn c)) &&
          (s.session n).psConn.all fun c => finished (s.conn c)
    | .giveUp _ c _ => finished (s.conn c)
    | _ => true

theorem holding_of_endsTransactions (h : endsTransactions s t o ch = true) :
    holding s t o ch = true :=
  (and_eq_true_iff.mp h).1

/-- A callback of the session is going to release the connection. -/
def Leaving (V : View) (c : ConnId) : Prop :=
  V.giving = some c ∨
    (V.region = .abort ∨ V.region = .cleanup) ∧ (V.serverConn = some c ∨ V.psConn = some c)

/-- The invariant: the transactions on connections that are released, or are
going to be, are finished. -/
structure Concluded (s : State) : Prop where
  releasing : ∀ c u, s.place c = .releasing u → finished (s.conn c) = true
  leaving : ∀ n c, Leaving (view (s.session n)) c → s.place c = .session n →
    finished (s.conn c) = true

section Transactions

variable {s s' : State} {t : Thread} {o : Op} {ch : Choice} {c : ConnId} {q : Place} {k : Conn}
  {n : SessionId}

theorem Leaving.not_acquiring (h : Leaving (view (s.session n)) c) :
    ¬ Acquiring t (s.session n) := by
  intro hacq
  have hgiving : (view (s.session n)).giving = none := hacq.giving
  have hregion : (view (s.session n)).region = .startup ∨ (view (s.session n)).region = .message :=
    hacq.region
  rcases h with h | ⟨h | h, -⟩
  · rw [hgiving] at h
    cases h
  · rw [h] at hregion
    simp at hregion
  · rw [h] at hregion
    simp at hregion

theorem leaving_of_signal (hguar : Guar s t (.signal n c)) : Leaving (view (s.session n)) c := by
  rcases hguar with ⟨-, -, href, hstartup, hmessage, -⟩
  cases hregion : (s.session n).region with
  | startup => exact absurd hregion hstartup
  | message => exact .inl (hmessage hregion)
  | abort => exact .inr ⟨.inl hregion, href⟩
  | cleanup => exact .inr ⟨.inr hregion, href⟩

/-- A callback that is going to release a connection after an operation was so
before, or has found it finished. -/
theorem leaving_of_after (hguar : Guar s t o) (hcond : endsTransactions s t o ch = true)
    (h : Leaving ((view (s.session n)).after t n o) c) :
    Leaving (view (s.session n)) c ∨ finished (s.conn c) = true := by
  have hfound := (and_eq_true_iff.mp hcond).2
  cases o
  case enter m r =>
    by_cases hm : m = n
    · subst hm
      have hfound : (decide (r = .startup ∨ r = .message) ||
        (s.session m).serverConn.all (fun c => finished (s.conn c)) &&
          (s.session m).psConn.all fun c => finished (s.conn c)) = true := hfound
      simp only [View.after, if_true] at h
      rcases h with h | ⟨hr, h⟩
      · cases h
      · have hr : ¬ (r = .startup ∨ r = .message) := by rcases hr with rfl | rfl <;> simp
        simp only [hr, decide_false, Bool.false_or, Bool.and_eq_true] at hfound
        rcases h with hsc | hps
        · have hsc : (s.session m).serverConn = some c := hsc
          exact .inr (by simpa [hsc] using hfound.1)
        · have hps : (s.session m).psConn = some c := hps
          exact .inr (by simpa [hps] using hfound.2)
    · simp only [View.after, hm, if_false] at h
      exact .inl h
  case giveUp m d why =>
    simp only [View.after] at h
    split at h
    · rcases h with h | h
      · cases h
        exact .inr hfound
      · exact .inl (.inr h)
    · exact .inl h
  case signal m d =>
    simp only [View.after] at h
    split at h
    · rcases h with h | h
      · cases h
      · exact .inl (.inr h)
    · exact .inl h
  case leave m | goRelay m =>
    simp only [View.after] at h
    split at h <;> exact .inl h
  case setServerConn m v =>
    by_cases hm : m = n
    · subst hm
      simp only [View.after, if_true] at h
      rcases h with h | ⟨hregion, hsc | hps⟩
      · exact .inl (.inl h)
      · have hv : v ≠ none := by
          rw [show v = some c from hsc]
          exact Option.some_ne_none c
        rcases hguar.2 hv with hr | hr
        · rw [show (view (s.session m)).region = .startup from hr] at hregion
          simp at hregion
        · rw [show (view (s.session m)).region = .message from hr] at hregion
          simp at hregion
      · exact .inl (.inr ⟨hregion, .inr hps⟩)
    · simp only [View.after, hm, if_false] at h
      exact .inl h
  case setPsConn m v =>
    by_cases hm : m = n
    · subst hm
      simp only [View.after, if_true] at h
      rcases h with h | ⟨hregion, hsc | hps⟩
      · exact .inl (.inl h)
      · exact .inl (.inr ⟨hregion, .inl hsc⟩)
      · have hv : v ≠ none := by
          rw [show v = some c from hps]
          exact Option.some_ne_none c
        rw [show (view (s.session m)).region = .startup from hguar.2 hv] at hregion
        simp at hregion
    · simp only [View.after, hm, if_false] at h
      exact .inl h
  all_goals exact .inl h

theorem place_of_write {e : TxnEffect} {b : Bool} {r : Bool}
    (h : exec s t (.write n c e b) ch = some (r, s')) : s'.place = s.place := by
  simp only [exec, Option.some.injEq] at h
  split at h <;> cases h <;> rfl

/-- Only a message of a session can open a transaction. -/
theorem finished_of_effect (hguar : Guar s t o) (hwrite : ∀ n e b, o ≠ .write n c e b)
    (h : finished (s.conn c) = true) (heff : Effect s t ch c o q k) : finished k = true := by
  cases heff with
  | same | acquired | added | seen | returned | delivered | passed | idled => exact h
  | connected | prefetched => rfl
  | discarded | dropped | shut | ended | read | exchanged => exact h
  | wrote => exact absurd rfl (hwrite _ _ _)
  | wroteReset =>
    simp only [finished, and_eq_true, all_append, all_cons, all_nil] at h ⊢
    exact ⟨h.1, h.2, decide_eq_true hguar.2.2, trivial⟩
  | readReset hc =>
    obtain ⟨_, _, hk⟩ := Conn.noteResets_eq _ _
    rw [hk]
    exact h
  | @answered q qs rs hc hrs hch =>
    simp only [finished, hc, and_eq_true, all_cons, not_eq_true'] at h
    simp only [finished, answered, and_eq_true, not_eq_true']
    refine ⟨?_, h.2.2⟩
    cases hq : q.effect with
    | opens => simp [hq] at h
    | closes => rfl
    | keeps => exact h.1

theorem Concluded.step {r : o.Ret} (hJ : Concluded s)
    (hearly : ∀ n, (s.session n).early = false) (hinv : Owned cfg s) (hguar : Guar s t o)
    (hcond : endsTransactions s t o ch = true) (hexec : exec s t o ch = some (r, s')) :
    Concluded s' where
  releasing c u hplace := by
    have heff : Effect s t ch c o (s'.place c) (s'.conn c) := effect_of_exec hinv hguar hexec
    rw [hplace] at heff
    have hwrite : ∀ n e b, o ≠ .write n c e b := by
      rintro n e b rfl
      rw [place_of_write hexec, hguar.2.2.2.1 (hearly n)] at hplace
      cases hplace
    refine finished_of_effect hguar hwrite ?_ heff
    generalize hk : s'.conn c = k at heff
    generalize hq : Place.releasing u = q at heff
    cases heff with
    | same | prefetched | shut | ended | wrote | read | wroteReset | readReset | exchanged
    | answered => exact hJ.releasing c u hq.symm
    | passed _ hc => exact hJ.leaving _ c (leaving_of_signal hguar) hc
    | acquired | connected | added | seen | returned | delivered | idled | discarded | dropped =>
      cases hq
  leaving n c hleaving hplace := by
    have heff : Effect s t ch c o (s'.place c) (s'.conn c) := effect_of_exec hinv hguar hexec
    rw [view_of_exec hexec] at hleaving
    rw [hplace] at heff
    have hwrite : ∀ n e b, o ≠ .write n c e b := by
      rintro m e b rfl
      have hheld : s.place c = .session m := hguar.2.2.2.1 (hearly m)
      cases (congrFun (place_of_write hexec) c).symm.trans hplace |>.symm.trans hheld
      exact Leaving.not_acquiring hleaving ⟨hguar.1, .inr hguar.2.1, hguar.2.2.1⟩
    refine finished_of_effect hguar hwrite ?_ heff
    rcases leaving_of_after hguar hcond hleaving with hbefore | hfinished
    · generalize hk : s'.conn c = k at heff
      generalize hq : Place.session n = q at heff
      cases heff with
      | same | prefetched | shut | ended | wrote | read | wroteReset | readReset | exchanged
      | answered => exact hJ.leaving n c hbefore hq.symm
      | acquired =>
        cases hq
        exact absurd hguar hbefore.not_acquiring
      | added | returned =>
        cases hq
        exact absurd hguar.1 hbefore.not_acquiring
      | connected | seen | delivered | passed | idled | discarded | dropped => cases hq
    · exact hfinished

end Transactions

theorem concluded_of_run (hrun : Run endsTransactions (system cfg users) cfg') :
    Concluded cfg'.state :=
  holding_invariant holding_of_endsTransactions ⟨nofun, nofun⟩ Concluded.step hrun

/-- Whatever is given to a waiter or put on the idle list next has no open
transaction. -/
structure ReleasesFinished (C : Cond proxy) (cfg : Config proxy) : Prop where
  waiter : ∀ t n c ch, cfg.Performs C t (.signal n c) ch → cfg.state.queue.pop.1 ≠ none →
    (cfg.state.conn c).inTxn = false
  idle : ∀ t c ch, cfg.Performs C t (.releaseIdle c) ch → (cfg.state.conn c).inTxn = false

theorem inTxn_of_finished {k : Conn} (h : finished k = true) : k.inTxn = false := by
  simp only [finished, and_eq_true, not_eq_true'] at h
  exact h.1

def begin : ClientMessage := { begins := true, effect := .opens }

def commit : ClientMessage := { ends := true, commit := true, effect := .closes }

end Geryon.Ownership
