import Geryon.Ownership.Effects

/-!
# Connections whose start-up is done

A backend takes queries only on a connection on which the start-up exchange
has been carried out.  The pool does not know whether it has: `Acquire` returns
a new connection or one that another session has started up.  `Handle` acquires
twice, carries out the exchange on the first connection, and the relay writes to
the second one.

`initialisesFirst` is the condition under which messages go to connections that
are ready: a session that starts up is given a new connection, after that only
used ones, and only connections whose start-up is done are passed to `Release`.

The discipline does not rest on that of ownership: the exchange is the only
operation that changes whether a start-up is done, whoever holds the connection.
-/

namespace Geryon.Initialised

open Conc Conc.Discipline Pool Ownership List Function

/-- One start-up exchange has been carried out, and it has succeeded. -/
def Ready (k : Conn) : Prop := k.startups = [true]

instance (k : Conn) : Decidable (Ready k) := inferInstanceAs (Decidable (_ = _))

/-- The session has no connection yet and is about to start one up. -/
def starting (k : Session) : Bool := k.psConn.isNone && !k.started

/-- A session that starts up is given a new connection, later it is given used
ones, and only those whose start-up is done are released. -/
def initialisesFirst : Cond proxy := fun s _ o ch =>
  match o with
  | .acquire n => !starting (s.session n) || s.conns.idle.isEmpty
  | .checkWaiter n w | .recheckWaiter n w =>
    !starting (s.session n) || (s.waiter w).conn.isNone
  | .tryConnect (some n) _ => starting (s.session n) || decide (ch ≠ .ok)
  | .signal _ c => decide (Ready (s.conn c))
  | _ => true

/-! ## The invariant, and what operations guarantee -/

/-- What the pool or a running relay gives away is ready. -/
structure AllReady (s : State) : Prop where
  idle : ∀ c ∈ s.conns.idle, Ready (s.conn c)
  waiter : ∀ w c, (s.waiter w).conn = some c → Ready (s.conn c)
  session : ∀ n c, (s.session n).started = true → (s.session n).serverConn = some c →
    Ready (s.conn c)
  txn : ∀ x k, s.txn x = some k → (s.session k.session).started = true
  fresh : ∀ c, s.nextConn ≤ c → (s.conn c).startups = []

/-- A connection that `Handle` of the session has created and nobody else has
seen. -/
structure New (s : State) (n : SessionId) (c : ConnId) : Prop where
  lt : c < s.nextConn
  startups : (s.conn c).startups = []
  place : s.place c = .handing n ∨ s.place c = .session n

/-- What is known of the state when an operation is performed. -/
def Guar (s : State) (t : Thread) : Op → Prop
  | .exchange n c | .addActive n c => t = .handle n ∧ New s n c
  | .write _ c _ _ | .dequeue _ _ (some c) | .releaseIdle c | .releaseClose c => Ready (s.conn c)
  | .setServerConn n v => ((s.session n).started = false → t = .handle n) ∧
      ∀ c, v = some c → (s.session n).started = true → Ready (s.conn c)
  | .setPsConn n _ => t = .handle n
  | .goRelay n => t = .handle n ∧ ∀ c, (s.session n).serverConn = some c → Ready (s.conn c)
  | .register n _ => (s.session n).started = true
  | _ => True

/-! ## What an operation changes -/

variable {s s' : State} {t u : Thread} {n : SessionId} {c : ConnId} {o : Op} {ch : Choice}

/-- The operations that move a connection, or take it from the idle list. -/
inductive Moves (s : State) (c : ConnId) : Op → Prop
  | acquire {n : SessionId} (hc : c ∈ s.conns.idle) : Moves s c (.acquire n)
  | connect {n : Option SessionId} {b : Backend} (hc : c = s.nextConn) : Moves s c (.tryConnect n b)
  | addActive {n : SessionId} : Moves s c (.addActive n c)
  | look {n : SessionId} {w : WaiterId} {o : Op} (ho : o = .checkWaiter n w ∨ o = .recheckWaiter n w)
      (hc : (s.waiter w).conn = some c) : Moves s c o
  | dequeue {n : SessionId} {w : WaiterId} : Moves s c (.dequeue n w (some c))
  | signal {n : SessionId} : Moves s c (.signal n c)
  | releaseIdle : Moves s c (.releaseIdle c)
  | releaseClose : Moves s c (.releaseClose c)
  | drop {o : Op} (ho : o = .closeAll ∨ ∃ address, o = .closeBackend address)
      (hc : c ∈ s.conns.idle) : Moves s c o

/-- What an operation changes. -/
structure Changes (s s' : State) (o : Op) : Prop where
  idle : ∀ c ∈ s'.conns.idle, c ∈ s.conns.idle ∨ o = .releaseIdle c
  waiter : ∀ w c, (s'.waiter w).conn = some c → (s.waiter w).conn = some c ∨ ∃ n, o = .signal n c
  started : ∀ n, (s'.session n).started = (s.session n).started ∨
    o = .goRelay n ∧ (s'.session n).started = true
  txn : ∀ x k, s'.txn x = some k →
    (∃ k', s.txn x = some k' ∧ k'.session = k.session) ∨ ∃ b, o = .register k.session b
  startups : ∀ c, (s'.conn c).startups = (s.conn c).startups ∨
    c = s.nextConn ∧ s'.nextConn = s.nextConn + 1 ∧ (s'.conn c).startups = [] ∨
    ∃ n, o = .exchange n c
  nextConn : s.nextConn ≤ s'.nextConn
  place : ∀ c, s'.place c = s.place c ∨ Moves s c o

theorem Changes.refl (s : State) : Changes s s o where
  idle _ h := .inl h
  waiter _ _ h := .inl h
  started _ := .inl rfl
  txn _ k h := .inl ⟨k, h, rfl⟩
  startups _ := .inl rfl
  nextConn := le_refl _
  place _ := .inl rfl

theorem startups_setConn {f : Conn → Conn} (hf : ∀ k, (f k).startups = k.startups) (d : ConnId) :
    ((s.setConn c f).conn d).startups = (s.conn d).startups := by
  by_cases hd : d = c
  · subst hd
    simpa [State.setConn] using hf _
  · simp [State.setConn, hd]

theorem Changes.setConn {f : Conn → Conn} (h : Changes s s' o)
    (hf : ∀ k, (f k).startups = k.startups) : Changes s (s'.setConn c f) o :=
  { h with
    startups := fun d => by
      rw [startups_setConn hf d]
      exact h.startups d }

theorem Changes.setSession {f : Session → Session} (h : Changes s s' o)
    (hf : ∀ k, (f k).started = k.started) : Changes s (s'.setSession n f) o :=
  { h with
    started := forall_session (P := fun m k => k.started = (s.session m).started ∨
      o = .goRelay m ∧ k.started = true) (by rw [hf]; exact h.started n) fun m _ => h.started m }

theorem Changes.setWaiter {w : WaiterId} {f : Waiter → Waiter} (h : Changes s s' o)
    (hf : ∀ k c, (f k).conn = some c → k.conn = some c ∨ ∃ n, o = .signal n c) :
    Changes s (s'.setWaiter w f) o :=
  { h with
    waiter := fun v c hc => by
      by_cases hv : v = w
      · subst hv
        exact (hf _ c (by simpa [State.setWaiter] using hc)).elim (h.waiter v c) .inr
      · exact h.waiter v c (by simpa [State.setWaiter, hv] using hc) }

theorem Changes.move {q : Place} (h : Changes s s' o) (hc : Moves s c o) :
    Changes s (s'.move c q) o :=
  { h with
    place := fun d => by
      by_cases hd : d = c
      · subst hd
        exact .inr hc
      · rw [show (s'.move c q).place d = s'.place d from update_of_ne hd ..]
        exact h.place d }

theorem changes_connect {m : Option SessionId} {b : Backend} :
    Changes s (s.connect t m b).2 (.tryConnect m b) :=
  { Changes.refl s with
    startups := fun c => by
      by_cases hc : c = s.nextConn
      · refine .inr (.inl ⟨hc, rfl, ?_⟩)
        show (update s.conn s.nextConn _ c).startups = []
        rw [hc, update_self]
      · left
        show (update s.conn s.nextConn _ c).startups = _
        rw [update_of_ne hc]
    nextConn := Nat.le_succ _
    place := fun c => by
      by_cases hc : c = s.nextConn
      · exact .inr (.connect hc)
      · left
        cases m with
        | none => rfl
        | some n => exact update_of_ne hc .. }

/-- Connections are closed, and those of the idle list among them are gone. -/
theorem changes_close {l l' : List ConnId} {conns : ServerConnPool}
    (ho : o = .closeAll ∨ ∃ address, o = .closeBackend address)
    (hl : ∀ d ∈ l, d ∈ s.conns.idle) (hidle : ∀ d ∈ conns.idle, d ∈ s.conns.idle) :
    Changes s { (s.closeMany l').dropMany l with conns := conns } o :=
  { Changes.refl s with
    idle := fun c hc => .inl (hidle c hc)
    startups := fun c => .inl (by
      show (if c ∈ l' then { s.conn c with closed := true } else s.conn c).startups = _
      split <;> rfl)
    place := fun c => by
      show (if c ∈ l then Place.nowhere else s.place c) = s.place c ∨ _
      split
      · rename_i hc
        exact .inr (.drop ho (hl c hc))
      · exact .inl rfl }

variable {r : o.Ret}

theorem changes_of_exec (h : exec s t o ch = some (r, s')) : Changes s s' o := by
  have href : Changes s s o := .refl s
  cases performed_of_exec h with
  | looked => exact href
  | counted | locked | lost | sent => exact { href with }
  | noted | serverConn | psConn | entered | left | gaveBack => exact href.setSession fun _ => rfl
  | flagged => exact href.setWaiter fun _ _ => .inl
  | @settled _ _ x v ho hv =>
    refine { href with txn := fun y k hk => .inl ?_ }
    by_cases hy : y = x
    · subst hy
      exact hv k (by simpa using hk)
    · exact ⟨k, by simpa [hy] using hk, rfl⟩
  | acquired hd =>
    refine Changes.move ?_ (.acquire (mem_of_getLast? hd))
    exact { href with idle := fun c hc => .inl ((dropLast_sublist _).subset hc) }
  | connected => exact changes_connect
  | added => exact Changes.move { href with } .addActive
  | idled =>
    refine Changes.move { href with idle := ?_ } .releaseIdle
    intro c hc
    rcases mem_append.mp hc with hc | hc
    · exact .inl hc
    · cases mem_singleton.mp hc
      exact .inr rfl
  | @discarded d =>
    have hset := href.setConn (c := d) (f := fun k => { k with closed := true }) fun _ => rfl
    exact Changes.move { hset with } .releaseClose
  | closedAll => exact changes_close (.inl rfl) (fun _ hd => hd) (by simp)
  | @closedBackend address =>
    exact changes_close (.inr ⟨address, rfl⟩) (fun _ hd => (mem_filter.mp hd).1)
      (fun _ hd => (mem_filter.mp hd).1)
  | enqueued =>
    refine { href with waiter := fun w c hc => .inl ?_ }
    by_cases hw : w = s.nextWaiter
    · subst hw
      simp at hc
    · simpa [hw] using hc
  | seen ho hd => exact Changes.move (href.setWaiter fun _ _ => .inl) (.look ho hd)
  | @dequeued m w conn =>
    have hset := href.setWaiter (w := w) (f := fun k => { k with finished := true })
      fun _ _ => .inl
    cases conn with
    | none => exact { hset with }
    | some d => exact Changes.move { hset with } .dequeue
  | @delivered m d w q hpop =>
    refine Changes.setSession (Changes.move ?_ .signal) fun _ => rfl
    refine Changes.setWaiter { href with } fun _ e he => ?_
    cases he
    exact .inr ⟨m, rfl⟩
  | passed => exact Changes.setSession (Changes.move { href with } .signal) fun _ => rfl
  | @wrote m d e b =>
    have hset := href.setConn (c := d) (f := fun k =>
      { k with requests := k.requests ++ [⟨.session m, e⟩], user := some m }) fun _ => rfl
    exact { hset with }
  | @received m d reply l rs =>
    have hset := href.setConn (c := d) (f := fun k => { k with replies := rs }) fun _ => rfl
    exact { hset with }
  | @wroteReset d e =>
    have hset := href.setConn (c := d) (f := fun k =>
      { k with requests := k.requests ++ [⟨.reset, e⟩], resetError := false }) fun _ => rfl
    exact { hset with }
  | readReset =>
    refine Changes.setConn (Changes.setConn href fun _ => rfl) fun k => ?_
    obtain ⟨_, _, hk⟩ := Conn.noteResets_eq _ _
    rw [hk]
  | @exchanged m d =>
    refine Changes.setSession { href with startups := fun c => ?_ } fun _ => rfl
    by_cases hd : c = d
    · exact .inr (.inr ⟨m, hd ▸ rfl⟩)
    · exact .inl (congrArg Conn.startups (update_of_ne hd ..))
  | @registered m b =>
    refine { href with txn := fun x k hk => ?_ }
    by_cases hx : x = s.nextTxn
    · subst hx
      have hk : some ({ session := m, abortFunc := b, status := .active } : Txn) = some k := by
        simpa using hk
      cases hk
      exact .inr ⟨b, rfl⟩
    · exact .inl ⟨k, by simpa [hx] using hk, rfl⟩
  | @started m =>
    exact { href with
      started := forall_session (P := fun k x => x.started = (s.session k).started ∨
        Op.goRelay m = .goRelay k ∧ x.started = true) (.inr ⟨rfl, rfl⟩) fun _ _ => .inl rfl }
  | ended hconn =>
    refine Changes.setSession { href with startups := fun c => .inl ?_ } fun _ => rfl
    rcases hconn c with hsame | ⟨-, hshut⟩
    · exact congrArg Conn.startups hsame
    · exact (congrArg Conn.startups hshut :)
  | answered => exact href.setConn fun _ => rfl

/-! ## What a step keeps -/

theorem New.not_ready (h : New s n c) : ¬ Ready (s.conn c) := by
  intro hr
  have hnil := h.startups.symm.trans hr
  cases hnil

theorem New.session_eq {m : SessionId} (h : New s n c) (h' : New s m c) : m = n := by
  rcases h.place with hn | hn <;> rcases h'.place with hm | hm <;> cases hn.symm.trans hm
  · rfl
  · rfl

theorem ready_of_changes (h : Changes s s' o) (hinv : AllReady s) (hguar : Guar s t o)
    (hc : Ready (s.conn c)) : Ready (s'.conn c) := by
  rcases h.startups c with hsame | ⟨hnext, -, -⟩ | ⟨n, rfl⟩
  · exact hsame.trans hc
  · have hnil := (hinv.fresh c (le_of_eq hnext.symm)).symm.trans hc
    cases hnil
  · exact absurd hc hguar.2.not_ready

theorem started_of_changes (h : Changes s s' o) (hn : (s.session n).started = true) :
    (s'.session n).started = true := by
  rcases h.started n with hsame | ⟨-, htrue⟩
  · exact hsame.trans hn
  · exact htrue

/-- The connections that a session refers to are those it referred to, or the
one that has been set. -/
theorem conns_of_exec (h : exec s t o ch = some (r, s')) (n : SessionId) :
    ((s'.session n).serverConn = (s.session n).serverConn ∨
      o = .setServerConn n (s'.session n).serverConn) ∧
    ((s'.session n).psConn = (s.session n).psConn ∨ o = .setPsConn n (s'.session n).psConn) := by
  have hsc : (s'.session n).serverConn = ((view (s.session n)).after t n o).serverConn :=
    congrArg View.serverConn (view_of_exec h)
  have hps : (s'.session n).psConn = ((view (s.session n)).after t n o).psConn :=
    congrArg View.psConn (view_of_exec h)
  rw [hsc, hps]
  cases o
  case setServerConn m v | setPsConn m v =>
    by_cases hm : m = n
    · subst hm
      simp [View.after, view]
    · simp only [View.after, hm, if_false]
      exact ⟨.inl rfl, .inl rfl⟩
  case enter | leave | goRelay | giveUp | signal =>
    simp only [View.after]
    split <;> exact ⟨.inl rfl, .inl rfl⟩
  all_goals exact ⟨.inl rfl, .inl rfl⟩

theorem AllReady.step (hinv : AllReady s) (hguar : Guar s t o)
    (hcond : initialisesFirst s t o ch = true) (hexec : exec s t o ch = some (r, s')) :
    AllReady s' := by
  have h := changes_of_exec hexec
  have hready : ∀ c, Ready (s.conn c) → Ready (s'.conn c) :=
    fun c => ready_of_changes h hinv hguar
  refine ⟨?_, ?_, ?_, ?_, ?_⟩
  · intro c hc
    apply hready
    rcases h.idle c hc with hc | rfl
    · exact hinv.idle c hc
    · exact hguar
  · intro w c hc
    apply hready
    rcases h.waiter w c hc with hc | ⟨n, rfl⟩
    · exact hinv.waiter w c hc
    · exact of_decide_eq_true hcond
  · intro n c hstart hc
    apply hready
    rcases h.started n with hsame | ⟨rfl, -⟩
    · have hstart : (s.session n).started = true := hsame.symm.trans hstart
      rcases (conns_of_exec hexec n).1 with hconn | hset
      · exact hinv.session n c hstart (hconn.symm.trans hc)
      · rw [hc] at hset
        subst hset
        exact hguar.2 c rfl hstart
    · rcases (conns_of_exec hexec n).1 with hconn | hset
      · exact hguar.2 c (hconn.symm.trans hc)
      · cases hset
  · intro x k hk
    rcases h.txn x k hk with ⟨k', hk', hsess⟩ | ⟨b, rfl⟩
    · exact started_of_changes h (hsess ▸ hinv.txn x k' hk')
    · exact started_of_changes h hguar
  · intro c hc
    rcases h.startups c with hsame | ⟨hnext, hsucc, -⟩ | ⟨n, rfl⟩
    · exact hsame.trans (hinv.fresh c (le_trans h.nextConn hc))
    · rw [hsucc, ← hnext] at hc
      exact absurd hc (Nat.not_succ_le_self c)
    · exact absurd (le_trans h.nextConn hc) (Nat.not_le_of_lt hguar.2.lt)

/-- What a step of `u` leaves to every other goroutine. -/
structure Rely (u : Thread) (s s' : State) : Prop where
  ready : ∀ c, Ready (s.conn c) → Ready (s'.conn c)
  started : ∀ n, (s.session n).started = true → (s'.session n).started = true
  unstarted : ∀ n, u ≠ .handle n → (s.session n).started = false →
    (s'.session n).started = false ∧ (s'.session n).psConn = (s.session n).psConn ∧
      (s'.session n).serverConn = (s.session n).serverConn
  new : ∀ n c, u ≠ .handle n → New s n c → New s' n c

/-- The operations that leave alone even what their own goroutine relies
on. -/
def calm : Op → Bool
  | .exchange _ _ | .addActive _ _ | .setServerConn _ _ | .setPsConn _ _ | .goRelay _ => false
  | _ => true

/-- A goroutine moves no new connection of another one, and neither does a calm
operation. -/
theorem New.place_eq (hnew : New s n c) (hu : u = t ∨ calm o = true) (hne : u ≠ .handle n)
    (hinv : AllReady s) (hguar : Guar s t o) (hcond : initialisesFirst s t o ch = true)
    (hexec : exec s t o ch = some (r, s')) : s'.place c = s.place c := by
  rcases (changes_of_exec hexec).place c with hsame | hmoves
  · exact hsame
  exfalso
  cases hmoves with
  | acquire hc | drop _ hc => exact hnew.not_ready (hinv.idle c hc)
  | connect hc => exact lt_irrefl _ (hc ▸ hnew.lt)
  | addActive =>
    rcases hu with rfl | hcalm
    · exact hne (hguar.1.trans (congrArg Thread.handle (hnew.session_eq hguar.2)))
    · cases hcalm
  | look _ hc => exact hnew.not_ready (hinv.waiter _ c hc)
  | dequeue | releaseIdle | releaseClose => exact hnew.not_ready hguar
  | signal => exact hnew.not_ready (of_decide_eq_true hcond)

theorem rely_of_exec (hu : u = t ∨ calm o = true) (hinv : AllReady s) (hguar : Guar s t o)
    (hcond : initialisesFirst s t o ch = true) (hexec : exec s t o ch = some (r, s')) :
    Rely u s s' := by
  have h := changes_of_exec hexec
  refine ⟨fun c => ready_of_changes h hinv hguar, fun n => started_of_changes h, ?_, ?_⟩
  · intro n hne hstart
    refine ⟨?_, ?_, ?_⟩
    · rcases h.started n with hsame | ⟨rfl, -⟩
      · exact hsame.trans hstart
      · rcases hu with rfl | hcalm
        · exact absurd hguar.1 hne
        · cases hcalm
    · rcases (conns_of_exec hexec n).2 with hsame | hset
      · exact hsame
      · rw [hset] at hu hguar
        rcases hu with rfl | hcalm
        · exact absurd hguar hne
        · cases hcalm
    · rcases (conns_of_exec hexec n).1 with hsame | hset
      · exact hsame
      · rw [hset] at hu hguar
        rcases hu with rfl | hcalm
        · exact absurd (hguar.1 hstart) hne
        · cases hcalm
  · intro n c hne hnew
    refine ⟨lt_of_lt_of_le hnew.lt h.nextConn, ?_, ?_⟩
    · rcases h.startups c with hsame | ⟨hnext, -, -⟩ | ⟨m, rfl⟩
      · exact hsame.trans hnew.startups
      · exact absurd (hnext ▸ hnew.lt) (lt_irrefl _)
      · rcases hu with rfl | hcalm
        · exact absurd (hguar.1.trans (congrArg Thread.handle (hnew.session_eq hguar.2))) hne
        · cases hcalm
    · rw [hnew.place_eq hu hne hinv hguar hcond hexec]
      exact hnew.place

/-! ## What a goroutine knows -/

/-- What `Handle` knows until the relay runs: the fields of its session, and
the connection that it has created. -/
structure Start where
  session : SessionId
  psConn : Option ConnId := none
  serverConn : Option ConnId := none
  hand : Option ConnId := none

structure Start.Holds (S : Start) (s : State) (t : Thread) : Prop where
  self : t = .handle S.session
  started : (s.session S.session).started = false
  psConn : (s.session S.session).psConn = S.psConn
  serverConn : (s.session S.session).serverConn = S.serverConn
  hand : ∀ c, S.hand = some c → New s S.session c

/-- What a goroutine knows: connections that are ready, relays that have been
started, and for `Handle` how far the start-up is. -/
structure Know where
  ready : List ConnId := []
  started : List SessionId := []
  start : Option Start := none

structure Know.Holds (κ : Know) (s : State) (t : Thread) : Prop where
  ready : ∀ c ∈ κ.ready, Ready (s.conn c)
  started : ∀ n ∈ κ.started, (s.session n).started = true
  start : ∀ S, κ.start = some S → S.Holds s t

theorem Start.Holds.stable {S : Start} (h : S.Holds s t) (hu : u ≠ t) (hrely : Rely u s s') :
    S.Holds s' t := by
  have hne : u ≠ .handle S.session := h.self ▸ hu
  rcases hrely.unstarted S.session hne h.started with ⟨hstart, hps, hsc⟩
  exact ⟨h.self, hstart, hps.trans h.psConn, hsc.trans h.serverConn,
    fun c hc => hrely.new _ c hne (h.hand c hc)⟩

theorem Know.Holds.stable {κ : Know} (h : κ.Holds s t) (hu : u ≠ t) (hrely : Rely u s s') :
    κ.Holds s' t where
  ready c hc := hrely.ready c (h.ready c hc)
  started n hn := hrely.started n (h.started n hn)
  start S hS := (h.start S hS).stable hu hrely

def initialising : Discipline proxy where
  cond := initialisesFirst
  Know := Know
  inv := AllReady
  knows s t κ := κ.Holds s t
  guar s t o _ := Guar s t o

variable {κ : Know} {α : Type}

theorem final : initialising.Final t κ := fun _ _ _ => id

variable {Q : o.Ret → Know → Prop}

theorem does_of
    (hguar : ∀ s ch, AllReady s → κ.Holds s t → initialisesFirst s t o ch = true → Guar s t o)
    (hQ : ∀ s ch r s', AllReady s → κ.Holds s t → initialisesFirst s t o ch = true →
      exec s t o ch = some (r, s') → Rely t s s' → ∃ κ', Know.Holds κ' s' t ∧ Q r κ') :
    initialising.Does t o Q κ := by
  refine ⟨nofun, ?_⟩
  intro s ch r s' hinv hknows hcond hexec
  have hg := hguar s ch hinv hknows hcond
  have hrely := rely_of_exec (.inl rfl) hinv hg hcond hexec
  exact ⟨hg, hinv.step hg hcond hexec, fun u hu κu hκu => Know.Holds.stable hκu hu.symm hrely,
    hQ s ch r s' hinv hknows hcond hexec hrely⟩

theorem exists_ne (t : Thread) : ∃ u, u ≠ t := by
  by_cases h : t = .backend
  · exact ⟨.monitor, by rw [h]; nofun⟩
  · exact ⟨.backend, Ne.symm h⟩

section

variable (ho : calm o = true)
include ho

/-- A calm operation that meets its guarantee leaves true what its goroutine
knows. -/
theorem does_calm
    (hguar : ∀ s ch, AllReady s → κ.Holds s t → initialisesFirst s t o ch = true → Guar s t o)
    (hQ : ∀ s ch r s', AllReady s → κ.Holds s t → initialisesFirst s t o ch = true →
      exec s t o ch = some (r, s') → κ.Holds s' t → ∃ κ', Know.Holds κ' s' t ∧ Q r κ') :
    initialising.Does t o Q κ := by
  apply does_of hguar
  intro s ch r s' hinv hκ hcond hexec _
  rcases exists_ne t with ⟨u, hu⟩
  have hrely := rely_of_exec (u := u) (.inr ho) hinv (hguar s ch hinv hκ hcond) hcond hexec
  exact hQ s ch r s' hinv hκ hcond hexec (hκ.stable hu hrely)

variable (hguar : (Guar · t o) = fun _ => True)
include hguar

/-- A calm operation that guarantees nothing and whose answer says nothing. -/
theorem wp_skip {f : o.Ret → Prog α} {Q : α → Know → Prop}
    (h : ∀ r, initialising.wp t (f r) Q κ) : initialising.wp t (act o >>= f) Q κ :=
  wp_act_bind (does_calm ho (fun s _ _ _ _ => (congrFun hguar s).mpr trivial)
    fun _ _ r _ _ _ _ _ hκ => ⟨κ, hκ, h r⟩)

theorem wp_last (h : ∀ r, Q r κ) : initialising.wp t (act o) Q κ :=
  wp_act (does_calm ho (fun s _ _ _ _ => (congrFun hguar s).mpr trivial)
    fun _ _ r _ _ _ _ _ hκ => ⟨κ, hκ, h r⟩)

end

theorem wp_stuck {f : Unit → Prog α} {Q : α → Know → Prop} :
    initialising.wp t (act .stuck >>= f) Q κ := by
  refine ⟨nofun, ?_⟩
  intro s ch r s' _ _ _ h
  cases h

end Geryon.Initialised
