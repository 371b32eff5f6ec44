import Geryon.Ownership.Effects

/-!
# Exclusive ownership

What the discipline says about every state of a run: a connection that a session
can use is no other session's, neither idle nor on its way to a waiter, and only
a session that has acquired it and not released it since passes it to `Release`.

A session can use the connection it refers to unless one of its own callbacks has
just passed it to `Release` and is about to overwrite the reference.

And a message is written to a connection only while the session holds it, as long
as no transaction strategy releases the connection before the message that ends
the transaction is written.
-/

namespace Geryon.Ownership

open Conc Conc.Discipline Pool Proxy View

/-- The session refers to the connection, and has not released it in a
callback that is still running. -/
def Usable (s : State) (n : SessionId) (c : ConnId) : Prop :=
  ((s.session n).serverConn = some c ∨ (s.session n).psConn = some c) ∧
    ((s.session n).turn = none ∨ s.place c = .session n)

/-- At most one session can use a connection, and while one can, the
connection is neither idle nor delivered to a waiter. -/
structure Exclusive (s : State) : Prop where
  sole : ∀ n m c, Usable s n c → Usable s m c → n = m
  notIdle : ∀ n c, Usable s n c → c ∉ s.conns.idle
  notDelivered : ∀ n c w, Usable s n c → (s.waiter w).conn = some c → (s.waiter w).taken = true

/-- Whatever is passed to `Release` next was acquired for the session that
passes it, and not released since. -/
def ReleasesOwn (C : Cond proxy) (cfg : Config proxy) : Prop :=
  ∀ t n c ch, cfg.Performs C t (.signal n c) ch → cfg.state.place c = .session n

variable {cfg : PoolConfig} {s : State} {n : SessionId} {c : ConnId}

/-- A connection that a session can use is the session's. -/
theorem Usable.place_eq (h : Usable s n c) (hinv : Owned cfg s) : s.place c = .session n := by
  rcases h with ⟨href, hturn | hplace⟩
  · rcases href with hsc | hps
    · exact (hinv.rest n hturn).1 c hsc
    · rcases hinv.reader n c hps with h | h
      · exact h
      · rw [hturn] at h
        cases h.1
  · exact hplace

theorem Owned.exclusive (hinv : Owned cfg s) : Exclusive s where
  sole n m c hn hm := by
    have h := (hn.place_eq hinv).symm.trans (hm.place_eq hinv)
    exact Place.session.inj h
  notIdle n c hn hidle := by
    have h := (hn.place_eq hinv).symm.trans (hinv.idle c hidle)
    cases h
  notDelivered n c w hn hw := by
    by_contra htaken
    have h := (hn.place_eq hinv).symm.trans (hinv.delivered w c hw (eq_false_of_ne_true htaken))
    cases h

/-- In every run that nothing disturbs, ownership is exclusive in every state
reached, and no connection is released twice without being acquired in
between. -/
theorem exclusive_of_undisturbed {users : Users} {cfg' : Config proxy}
    (hrun : Run undisturbed (system cfg users) cfg') :
    Exclusive cfg'.state ∧ ReleasesOwn undisturbed cfg' := by
  refine ⟨(owned_of_run (fun _ _ _ _ h => h) hrun).exclusive, ?_⟩
  intro t n c ch hperf
  exact (guar_of_run (fun _ _ _ _ h => h) hrun hperf).2.1

/-! ### Runs of a small pool -/

/-- A pool in session mode with room for two connections. -/
def smallPool : PoolConfig where
  mode := .session
  body := .postgreSQL
  authMode := .passthrough
  maxServerConnections := 2
  minServerConnections := 0
  waitTimeout := true
  rounds := 3

/-- One goroutine moves alone. -/
def alone (t : Thread) (l : List Choice) : List (Thread × Choice) := l.map fun ch => (t, ch)

def oks (k : Nat) : List Choice := List.replicate k .ok

/-- `OnClientConnect` creates a connection. -/
def creates : List Choice :=
  [.ok, .ok, .ok, .ok, .backend ⟨0, .primary⟩, .ok, .ok, .ok, .ok]

/-- `Handle` up to the exchange with the backend. -/
def connects : List Choice := [.ok, .ok] ++ creates ++ [.ok, .ok]

/-- `Handle` up to the start of the relay's goroutines. -/
def startsRelay : List Choice := connects ++ [.ok] ++ creates ++ [.ok]

/-- A session whose relay has taken `k` steps for the client. -/
def relays (k : Nat) : List (Thread × Choice) :=
  alone (.handle 0) startsRelay ++ alone (.clientToServer 0) (oks k)

/-- `Handle` from there to the clean-up, which it begins without waiting for
the relay's goroutines. -/
def endsRelay : List Choice := [.alt, .ok, .ok, .ok, .alt, .ok, .alt, .ok]

/-- A session ends in good order: its clean-up is about to release the second
of its connections, which is its own. -/
theorem exclusive_of_undisturbed_disconnect : ∃ cfg', Run undisturbed (system smallPool {}) cfg' ∧
      cfg'.Performs undisturbed (.handle 0) (.signal 0 1) .ok ∧
      cfg'.state.place 1 = .session 0 ∧ Exclusive cfg'.state := by
  rcases exists_run_of_follow undisturbed (system smallPool {})
    (fun cfg' => cfg'.Performs undisturbed (.handle 0) (.signal 0 1) .ok)
    (alone (.handle 0) (startsRelay ++ endsRelay ++ [.ok])) (by decide +kernel) with
    ⟨cfg', hrun, hperf⟩
  have h := exclusive_of_undisturbed hrun
  exact ⟨cfg', hrun, hperf, h.2 _ _ _ _ hperf, h.1⟩

/-- The exchange with the backend fails.  The clean-up has released the connection
through `Session.serverConn`, so it is idle, and is about to release it again through
`ps.serverConn`. -/
theorem failed_startup_releases_twice :
    ¬ ∀ (cfg : PoolConfig) (users : Users) (cfg' : Config proxy),
      Run anyStep (system cfg users) cfg' → Exclusive cfg'.state ∧ ReleasesOwn anyStep cfg' := by
  intro h
  rcases exists_run_of_follow anyStep (system smallPool {})
    (fun cfg' => cfg'.Performs anyStep (.handle 0) (.signal 0 0) .ok ∧ cfg'.state.place 0 = .idle)
    (alone (.handle 0) (connects ++ [.fail, .ok, .ok, .ok, .ok, .ok, .ok, .fail, .ok, .ok, .ok]))
    (by decide +kernel) with ⟨cfg', hrun, hbad⟩
  rcases hbad with ⟨hperf, hidle⟩
  have hown := (h smallPool {} cfg' hrun).2 _ _ _ _ hperf
  rw [hidle] at hown
  cases hown

/-! ## Writing only while holding -/

/-- Nothing disturbs the discipline, and no strategy releases a connection for
the end of a transaction before the message that ends it is written. -/
def holding : Cond proxy := fun s t o ch =>
  undisturbed s t o ch &&
    match o with
    | .giveUp _ _ why => decide (why ≠ .transactionEnd)
    | _ => true

variable {t : Thread} {o : Op} {ch : Choice}

theorem undisturbed_of_holding (h : holding s t o ch = true) : undisturbed s t o ch = true :=
  (Bool.and_eq_true_iff.mp h).1

/-- Under the condition, no message is written after its transaction's
connection has been released. -/
theorem View.after_early {V : View} (hV : V.early = false) (hcond : holding s t o ch = true) :
    (V.after t n o).early = false := by
  cases o
  case giveUp m d why =>
    have hwhy : decide (why ≠ .transactionEnd) = true := (Bool.and_eq_true_iff.mp hcond).2
    simp only [after]
    split
    · simpa [hV] using hwhy
    · exact hV
  case enter | leave | goRelay | signal | setServerConn | setPsConn =>
    simp only [after]
    split
    · first | exact hV | rfl
    · exact hV
  all_goals exact hV

theorem early_of_exec {s' : State} {r : o.Ret} (h : ∀ n, (s.session n).early = false)
    (hcond : holding s t o ch = true) (hexec : exec s t o ch = some (r, s')) (n : SessionId) :
    (s'.session n).early = false := by
  have hview : (view (s'.session n)).early = ((view (s.session n)).after t n o).early :=
    congrArg early (view_of_exec hexec)
  exact hview.trans (after_early (h n) hcond)

/-- What is kept by every step, from any state in which no session has let go of
its connection too early, holds throughout. -/
theorem holding_invariant {C : Cond proxy} {J : State → Prop} {users : Users} {cfg' : Config proxy}
    (hC : ∀ {s t o ch}, C s t o ch = true → holding s t o ch = true) (hJ : J {})
    (hstep : ∀ {s t} {o : Op} {ch r s'}, J s → (∀ n, (s.session n).early = false) → Owned cfg s →
      Guar s t o → C s t o ch = true → exec s t o ch = some (r, s') → J s')
    (hrun : Run C (system cfg users) cfg') : J cfg'.state := by
  have hboth := run_invariant (J := fun s : State => J s ∧ ∀ n, (s.session n).early = false)
    (system_within cfg users) (fun _ _ _ _ h => undisturbed_of_holding (hC h)) ?_ ?_ hrun
  · exact hboth.1
  · exact ⟨hJ, fun _ => rfl⟩
  · intro s t o ch r s' ⟨hJ, hearly⟩ hinv hguar hcond hexec
    exact ⟨hstep hJ hearly hinv hguar hcond hexec, early_of_exec hearly (hC hcond) hexec⟩

theorem early_of_run {C : Cond proxy} {users : Users} {cfg' : Config proxy}
    (hC : ∀ s t o ch, C s t o ch = true → holding s t o ch = true)
    (hrun : Run C (system cfg users) cfg') (n : SessionId) : (cfg'.state.session n).early = false :=
  Run.invariant (fun _ => rfl)
    (fun hJ hcond hexec => early_of_exec hJ (hC _ _ _ _ hcond) hexec) hrun n

/-- Each message that is written next is written to a connection that is the
session's. -/
def WritesOwn (C : Cond proxy) (cfg : Config proxy) : Prop :=
  ∀ t n c effect captured ch, cfg.Performs C t (.write n c effect captured) ch →
    cfg.state.place c = .session n

/-- In every run that meets the condition, messages are written to
connections that were acquired for the session and not released since. -/
theorem writes_while_holding {users : Users} {cfg' : Config proxy}
    (hrun : Run holding (system cfg users) cfg') : WritesOwn holding cfg' := by
  intro t n c effect captured ch hperf
  have hguar := guar_of_run (fun _ _ _ _ => undisturbed_of_holding) hrun hperf
  exact hguar.2.2.2.1 (early_of_run (fun _ _ _ _ h => h) hrun n)

/-- The client of one session sends messages. -/
def sends (n : SessionId) (msgs : List ClientMessage) : Users :=
  { messages := fun m => if m = n then msgs else [] }

/-- A query is about to be written to the connection of its session. -/
theorem writes_while_holding_query : ∃ cfg', Run holding (system smallPool (sends 0 [{}])) cfg' ∧
      cfg'.Performs holding (.clientToServer 0) (.write 0 1 .keeps false) .ok ∧
      cfg'.state.place 1 = .session 0 := by
  rcases exists_run_of_follow holding (system smallPool (sends 0 [{}]))
    (fun cfg' => cfg'.Performs holding (.clientToServer 0) (.write 0 1 .keeps false) .ok)
    (relays 6) (by decide +kernel) with
    ⟨cfg', hrun, hperf⟩
  exact ⟨cfg', hrun, hperf, writes_while_holding hrun _ _ _ _ _ _ hperf⟩

/-- The transaction that `BEGIN` registers times out before `BEGIN` is
written: the monitor has passed the connection to `Release` when the relay
writes to it. -/
theorem aborted_before_written : ¬ ∀ (cfg : PoolConfig) (users : Users) (cfg' : Config proxy),
      Run anyStep (system cfg users) cfg' → WritesOwn anyStep cfg' := by
  intro h
  rcases exists_run_of_follow anyStep
    (system smallPool (sends 0 [{ begins := true, effect := .opens }]))
    (fun cfg' =>
      cfg'.Performs anyStep (.clientToServer 0) (.write 0 1 .opens false) .ok ∧
        cfg'.state.place 1 = .releasing .monitor)
    (relays 9 ++ alone .monitor [.txns [0] [], .ok, .ok, .ok, .ok, .ok, .ok])
    (by decide +kernel) with ⟨cfg', hrun, hbad⟩
  rcases hbad with ⟨hperf, hreleasing⟩
  have hown := h _ _ cfg' hrun _ _ _ _ _ _ hperf
  rw [hreleasing] at hown
  cases hown

end Geryon.Ownership
