import Geryon.Proxy.Proxy

/-!
# Who holds which connection

The discipline that the goroutines of the proxy keep as long as nothing
disturbs it.  `State.place` says where a connection is; the discipline says
who may move it from there: the goroutine whose turn it is in the session, the one
that releases it, or the one it was delivered to.

The source does not enforce any of this.  `undisturbed` collects the three
points where it can go wrong:

* two goroutines run callbacks of one session at the same time (a timeout
  abort or the clean-up while a message is being handled);
* the clean-up starts while both fields of the session refer to the same
  connection, as they do after a failed start-up, and releases it twice;
* `OnQuery` releases the connection for a role change and then fails to
  acquire another one, so the session goes on referring to the released one.

`Owned` is the invariant, `Know` what a goroutine knows, `Rely` what a step of
one goroutine leaves to the others, and `owning` the discipline.
-/

namespace Geryon.Ownership

open Conc Conc.Discipline Pool

/-- Callbacks of a session do not overlap, the clean-up finds two connections
or none, and no role change fails half-way. -/
def undisturbed : Cond proxy := fun s t o _ =>
  match o with
  | .enter n r =>
    (decide ((s.session n).turn = none) || decide ((s.session n).turn = some t)) &&
      (decide (r ≠ .cleanup) || decide ((s.session n).psConn = none) ||
        decide ((s.session n).psConn ≠ (s.session n).serverConn))
  | .acquireFailed n => !(s.session n).swapping
  | _ => true

/-- The fields of a session that belong to the goroutine whose turn it is. -/
structure View where
  turn : Option Thread := none
  region : Region := .startup
  psConn : Option ConnId := none
  serverConn : Option ConnId := none
  giving : Option ConnId := none
  swapping : Bool := false
  early : Bool := false
  deriving DecidableEq

def view (k : Session) : View where
  turn := k.turn
  region := k.region
  psConn := k.psConn
  serverConn := k.serverConn
  giving := k.giving
  swapping := k.swapping
  early := k.early

/-! ## The invariant -/

/-- Every connection that is referred to is where it should be. -/
structure Owned (cfg : PoolConfig) (s : State) : Prop where
  nodup : s.conns.idle.Nodup
  idle : ∀ c ∈ s.conns.idle, s.place c = .idle
  delivered : ∀ w c, (s.waiter w).conn = some c → (s.waiter w).taken = false →
    s.place c = .waiter w
  fresh : ∀ c, s.nextConn ≤ c → s.place c = .nowhere
  /-- Between two callbacks a session holds what it refers to. -/
  rest : ∀ n, (s.session n).turn = none →
    (∀ c, (s.session n).serverConn = some c → s.place c = .session n) ∧
      ∀ c, (s.session n).psConn = some c → (s.session n).serverConn ≠ some c
  /-- The connection that the relay reads from is held, or closed. -/
  reader : ∀ n c, (s.session n).psConn = some c → s.place c = .session n ∨
    (s.session n).turn = some (.handle n) ∧
      ((s.session n).started = false ∨ (s.conn c).closed = true)
  ended : ∀ n c, (s.session n).ended = true → (s.session n).psConn = some c →
    (s.conn c).closed = true
  relay : ∀ n, (s.session n).ended = true → (s.session n).started = true
  mode : ∀ n c, (s.session n).psConn = some c → cfg.mode = .session ∧ c < s.nextConn
  txn : ∀ x k, s.txn x = some k → (s.session k.session).started = true

/-! ## What a goroutine knows -/

/-- What a goroutine knows while it is its turn in a session: the session's
view, connections that are the session's, a connection in its hand, and the
waiter it waits with. -/
structure Turn where
  session : SessionId
  view : View
  mine : List ConnId := []
  hand : Option ConnId := none
  waiter : Option WaiterId := none

structure Turn.Holds (T : Turn) (s : State) (t : Thread) : Prop where
  view : Ownership.view (s.session T.session) = T.view
  turn : T.view.turn = some t
  mine : ∀ c ∈ T.mine, s.place c = .session T.session
  hand : ∀ c, T.hand = some c → s.place c = .handing T.session
  waiter : ∀ w, T.waiter = some w →
    w < s.nextWaiter ∧ (s.waiter w).owner = t ∧ (s.waiter w).taken = false
  began : t = .handle T.session ∨ (s.session T.session).started = true

/-- What a goroutine knows about the connection it is releasing: whether it holds the
mutex of the pool, and whether it has found the connection open and written a reset. -/
structure Releasing where
  conn : ConnId
  locked : Bool := false
  live : Bool := false

structure Releasing.Holds (R : Releasing) (s : State) (t : Thread) : Prop where
  place : s.place R.conn = .releasing t
  locked : R.locked = true → s.conns.locked = some (t, R.conn)
  live : R.live = true → R.locked = true ∧ s.asked = true ∧ (s.conn R.conn).closed = false

/-- What a goroutine knows about what has happened: relays that have started,
for `Handle` that it is before or after `Relay.Run`, the reply it has read, and
the connection whose answer it is reading. -/
structure Past where
  started : List SessionId := []
  before : Option SessionId := none
  after : Option SessionId := none
  unsent : Option (SessionId × Reply) := none
  answering : Option ConnId := none

structure Past.Holds (p : Past) (s : State) (t : Thread) : Prop where
  started : ∀ n ∈ p.started, (s.session n).started = true
  before : ∀ n, p.before = some n → t = .handle n ∧ (s.session n).started = false
  after : ∀ n, p.after = some n → t = .handle n ∧ (s.session n).ended = true
  unsent : (s.talk t).unsent = p.unsent
  answering : (s.talk t).dropped = false →
    (s.talk t).answering = none ∨ (s.talk t).answering = p.answering

/-- It has passed on what it has read, and is not reading an answer. -/
structure Past.Calm (p : Past) : Prop where
  unsent : p.unsent = none
  answering : p.answering = none

/-- What a goroutine knows. -/
structure Know where
  turn : Option Turn := none
  rel : Option Releasing := none
  past : Past := {}
  /-- The session whose `Handle` it is and has not begun. -/
  fresh : Option SessionId := none
  /-- The connection that `forwardServerToClient` reads from. -/
  reading : Option (SessionId × ConnId) := none

structure Know.Holds (κ : Know) (s : State) (t : Thread) : Prop where
  turn : ∀ T, κ.turn = some T → T.Holds s t
  /-- It is not its turn anywhere else. -/
  only : ∀ n, (s.session n).turn = some t → ∃ T, κ.turn = some T ∧ T.session = n
  rel : ∀ R, κ.rel = some R → R.Holds s t
  past : κ.past.Holds s t
  fresh : ∀ n, κ.fresh = some n →
    t = .handle n ∧ (s.session n).started = false ∧ view (s.session n) = {}
  reading : ∀ n c, κ.reading = some (n, c) → (s.session n).started = true ∧ c < s.nextConn ∧
    ((s.conn c).closed = true ∨ (s.session n).psConn = some c ∧ s.place c = .session n)

/-! ## What an operation guarantees -/

/-- A goroutine has passed on what it has read, and no answer to it is under
way that it is going to read. -/
structure Settled (k : Talk) : Prop where
  unsent : k.unsent = none
  answering : k.dropped = false → k.answering = none

theorem Past.Holds.settled {p : Past} {s : State} {t : Thread} (h : p.Holds s t)
    (hp : p.Calm) : Settled (s.talk t) where
  unsent := h.unsent.trans hp.unsent
  answering hd := (h.answering hd).elim id fun ha => ha.trans hp.answering

/-- The goroutine is where connections are acquired: it starts the session up
or handles a message, and has not decided to release anything. -/
structure Acquiring (t : Thread) (k : Session) : Prop where
  turn : k.turn = some t
  region : k.region = .startup ∨ k.region = .message
  giving : k.giving = none

/-- What is known of the state when an operation is performed. -/
def Guar (s : State) (t : Thread) : Op → Prop
  | .acquire n => Acquiring t (s.session n)
  | .tryConnect (some n) _ => (s.session n).turn = some t
  | .addActive n c | .dequeue n _ (some c) => Acquiring t (s.session n) ∧ s.place c = .handing n
  | .checkWaiter n w | .recheckWaiter n w =>
    (s.session n).turn = some t ∧ (s.waiter w).taken = false
  | .signal n c => (s.session n).turn = some t ∧ s.place c = .session n ∧
      ((s.session n).serverConn = some c ∨ (s.session n).psConn = some c) ∧
      (s.session n).region ≠ .startup ∧
      ((s.session n).region = .message → (s.session n).giving = some c) ∧ Settled (s.talk t)
  | .releaseLock c _ | .releaseClose c => s.place c = .releasing t
  | .writeReset c e => s.place c = .releasing t ∧ s.conns.locked = some (t, c) ∧ e ≠ .opens
  | .readReset c => s.place c = .releasing t ∧ s.conns.locked = some (t, c)
  | .releaseIdle c => s.place c = .releasing t ∧ s.conns.locked = some (t, c) ∧
      s.asked = true ∧ (s.conn c).closed = false
  | .write n c _ _ => (s.session n).turn = some t ∧ (s.session n).region = .message ∧
      (s.session n).giving = none ∧ ((s.session n).early = false → s.place c = .session n) ∧
      Settled (s.talk t)
  | .read n c => ((s.conn c).closed = false → (s.session n).early = false →
      s.place c = .session n) ∧ (s.talk t).unsent = none
  | .writeClient n r => (s.talk t).unsent = some (n, r)
  | .sendErr _ => Settled (s.talk t)
  | .enter n _ => (s.session n).turn = none ∨ (s.session n).region = .startup
  | .leave n => (s.session n).turn = some t ∧ Settled (s.talk t)
  | .setServerConn n v => (s.session n).turn = some t ∧
      (v ≠ none → (s.session n).region = .startup ∨ (s.session n).region = .message)
  | .setPsConn n v => (s.session n).turn = some t ∧
      (v ≠ none → (s.session n).region = .startup)
  | .goRelay n => (s.session n).turn = some t ∧ (s.session n).region = .startup
  | .closeRelay n => ∀ c, (s.session n).psConn = some c → s.place c = .session n
  | .giveUp n c _ => (s.session n).turn = some t ∧ (s.session n).region = .message ∧
      (s.session n).serverConn = some c ∧ Settled (s.talk t)
  | _ => True

def owning (cfg : PoolConfig) : Discipline proxy where
  cond := undisturbed
  Know := Know
  inv := Owned cfg
  knows s t κ := κ.Holds s t
  guar s t o _ := Guar s t o

variable {cfg : PoolConfig} {s s' : State} {t u : Thread}

theorem final {κ : Know} : (owning cfg).Final t κ := fun _ _ _ => id

/-! ## What a step leaves to the others -/

/-- What a step of `t` leaves to every other goroutine. -/
structure Rely (t : Thread) (s s' : State) : Prop where
  view : ∀ n, (s.session n).turn ≠ none → (s.session n).turn ≠ some t →
    view (s'.session n) = view (s.session n)
  fresh : ∀ n, t ≠ .handle n → (s.session n).started = false →
    Ownership.view (s'.session n) = Ownership.view (s.session n)
  turn : ∀ n u, u ≠ t → (s'.session n).turn = some u → (s.session n).turn = some u
  started : ∀ n, (s.session n).started = true → (s'.session n).started = true
  unstarted : ∀ n, t ≠ .handle n → (s.session n).started = false →
    (s'.session n).started = false
  ended : ∀ n, (s.session n).ended = true → (s'.session n).ended = true
  kept : ∀ c n, s.place c = .session n ∨ s.place c = .handing n →
    (s.session n).turn ≠ some t → s'.place c = s.place c
  releasing : ∀ c u, u ≠ t → s.place c = .releasing u → s'.place c = s.place c
  nextWaiter : s.nextWaiter ≤ s'.nextWaiter
  waiter : ∀ w < s.nextWaiter, (s.waiter w).owner ≠ t →
    (s'.waiter w).owner = (s.waiter w).owner ∧ (s'.waiter w).taken = (s.waiter w).taken
  nextConn : s.nextConn ≤ s'.nextConn
  closed : ∀ c < s.nextConn, (s.conn c).closed = true → (s'.conn c).closed = true
  locked : ∀ u c, u ≠ t → s.conns.locked = some (u, c) → s'.conns.locked = some (u, c) ∧
    (s.asked = true → s'.asked = true) ∧
    (s.place c = .releasing u → (s'.conn c).closed = (s.conn c).closed)
  reader : ∀ n c, (s.session n).started = true → (s.session n).psConn = some c →
    s.place c = .session n → (s.conn c).closed = true ∨
      (s'.session n).psConn = some c ∧ s'.place c = .session n
  talk : ∀ u, u ≠ t → s'.talk u = s.talk u

theorem Turn.Holds.stable {T : Turn} (h : T.Holds s u) (hu : u ≠ t) (hrely : Rely t s s') :
    T.Holds s' u := by
  have hturn : (s.session T.session).turn = some u := (congrArg View.turn h.view).trans h.turn
  have hother : (s.session T.session).turn ≠ some t := by
    rw [hturn]
    exact fun heq => hu (Option.some.inj heq)
  refine ⟨?_, h.turn, ?_, ?_, ?_, ?_⟩
  · rw [hrely.view _ (by rw [hturn]; exact Option.some_ne_none u) hother]
    exact h.view
  · intro c hc
    rw [hrely.kept c _ (.inl (h.mine c hc)) hother]
    exact h.mine c hc
  · intro c hc
    rw [hrely.kept c _ (.inr (h.hand c hc)) hother]
    exact h.hand c hc
  · intro w hw
    rcases h.waiter w hw with ⟨hlt, hown, htaken⟩
    have hsame := hrely.waiter w hlt (hown ▸ hu)
    exact ⟨lt_of_lt_of_le hlt hrely.nextWaiter, hsame.1.trans hown, hsame.2.trans htaken⟩
  · exact h.began.imp id (hrely.started _)

theorem Releasing.Holds.stable {R : Releasing} (h : R.Holds s u) (hu : u ≠ t)
    (hrely : Rely t s s') : R.Holds s' u := by
  refine ⟨?_, ?_, ?_⟩
  · rw [hrely.releasing _ u hu h.place]
    exact h.place
  · intro hl
    exact (hrely.locked u _ hu (h.locked hl)).1
  · intro hl
    rcases h.live hl with ⟨hlocked, hasked, hopen⟩
    have hsame := (hrely.locked u _ hu (h.locked hlocked)).2
    refine ⟨hlocked, hsame.1 hasked, ?_⟩
    rw [hsame.2 h.place]
    exact hopen

theorem Past.Holds.stable {p : Past} (h : p.Holds s u) (hu : u ≠ t) (hrely : Rely t s s') :
    p.Holds s' u where
  started n hn := hrely.started n (h.started n hn)
  before n hn := by
    rcases h.before n hn with ⟨rfl, hstart⟩
    exact ⟨rfl, hrely.unstarted n hu.symm hstart⟩
  after n hn := ⟨(h.after n hn).1, hrely.ended n (h.after n hn).2⟩
  unsent := by
    rw [hrely.talk u hu]
    exact h.unsent
  answering := by
    rw [hrely.talk u hu]
    exact h.answering

theorem Know.Holds.stable {κ : Know} (h : κ.Holds s u) (hu : u ≠ t) (hrely : Rely t s s') :
    κ.Holds s' u where
  turn T hT := (h.turn T hT).stable hu hrely
  only n hn := h.only n (hrely.turn n u hu hn)
  rel R hR := (h.rel R hR).stable hu hrely
  past := h.past.stable hu hrely
  fresh n hn := by
    rcases h.fresh n hn with ⟨rfl, hstart, hview⟩
    exact ⟨rfl, hrely.unstarted n hu.symm hstart, (hrely.fresh n hu.symm hstart).trans hview⟩
  reading n c hc := by
    rcases h.reading n c hc with ⟨hstart, hlt, hread⟩
    refine ⟨hrely.started n hstart, lt_of_lt_of_le hlt hrely.nextConn, ?_⟩
    rcases hread with hclosed | ⟨hps, hplace⟩
    · exact .inl (hrely.closed c hlt hclosed)
    · rcases hrely.reader n c hstart hps hplace with hclosed | hheld
      · exact .inl (hrely.closed c hlt hclosed)
      · exact .inr hheld

theorem Rely.stable (h : Rely t s s') : (owning cfg).Stable t s s' :=
  fun _ hu _ hκ => Know.Holds.stable hκ hu h

theorem Rely.refl (s : State) : Rely t s s where
  view _ _ _ := rfl
  fresh _ _ _ := rfl
  turn _ _ _ := id
  started _ := id
  unstarted _ _ := id
  ended _ := id
  kept _ _ _ _ := rfl
  releasing _ _ _ _ := rfl
  nextWaiter := le_refl _
  waiter _ _ _ := ⟨rfl, rfl⟩
  nextConn := le_refl _
  closed _ _ := id
  locked _ _ _ h := ⟨h, id, fun _ => rfl⟩
  reader _ _ _ h h' := .inr ⟨h, h'⟩
  talk _ _ := rfl

end Geryon.Ownership
