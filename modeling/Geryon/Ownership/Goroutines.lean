import Geryon.Conc.Alone
import Geryon.Ownership.Calls
import Geryon.Proxy.Messages

/-!
# The goroutines of the proxy under the ownership discipline

The strategies, the start-up, the relay, the clean-up and the monitor, with
what a goroutine knows before and after each of them.  At the end,
`system_within`: a proxy starts within the discipline, whatever its mode, its
clients and its administrators are.
-/

namespace Geryon.Ownership

open Conc Conc.Discipline Pool Proxy List Prog

variable {cfg : PoolConfig} {t : Thread} {n : SessionId} {c : ConnId} {T : Turn} {p : Past}

/-! ## The strategies -/

/-- Between two calls of a turn: the session refers to connections it holds,
and nothing is under way. -/
structure Turn.Ready (T : Turn) (p : Past) (n : SessionId) (r : Region) : Prop where
  calm : p.Calm
  session : T.session = n
  region : T.view.region = r
  idle : T.Idle
  giving : T.view.giving = none
  rests : T.Rests

/-- The turn goes on. -/
def Stays (n : SessionId) (r : Region) (p : Past) (κ : Know) : Prop :=
  ∃ T : Turn, κ = inside T p ∧ T.Ready p n r

variable {r : Region} {why : Reason} {targetRole : Option Role} {begins : Bool}
  {info : Option TxnId} {κ : Know}

theorem entered_ready {ps sc : Option ConnId} (hp : p.Calm) (h : ∀ c, ps = some c → sc ≠ some c) :
    (entered n t r ps sc).Ready p n r := by
  refine ⟨hp, rfl, rfl, ⟨rfl, rfl⟩, rfl, ?_, ?_, h⟩
  · intro c hc
    have hc : sc = some c := hc
    simp [entered, hc]
  · intro c hc
    have hc : ps = some c := hc
    simp [entered, hc]

/-- A session that has released the connection it refers to, and no longer
does. -/
theorem Turn.Rests.released {V : View} (h : T.Rests) (hsc : T.view.serverConn = some c)
    (hV : V.serverConn = none) (hps : V.psConn = T.view.psConn) :
    ({ T.drop c with view := V } : Turn).Rests := by
  refine ⟨?_, ?_, ?_⟩
  · intro c' hc'
    exact absurd (hV.symm.trans hc') nofun
  · intro c' hc'
    have hheld : T.view.psConn = some c' := hps.symm.trans hc'
    refine mem_filter.mpr ⟨h.psConn c' hheld, decide_eq_true ?_⟩
    rintro rfl
    exact h.two _ hheld hsc
  · intro c' _ hc'
    exact absurd (hV.symm.trans hc') nofun

theorem wp_onClientConnect (hn : T.session = n) (hregion : T.view.region = .startup)
    (hgiving : T.view.giving = none) (hidle : T.Idle) : (owning cfg).wp t (onClientConnect cfg n)
      (fun r κ => κ = inside T p ∧ (cfg.mode = .session → r ≠ .ok ()) ∨
        cfg.mode = .session ∧ r = .ok () ∧ ∃ c, c ∉ T.mine ∧ κ = inside { T.add c with
            view := { T.view with serverConn := some c, swapping := false } } p)
      (inside T p) := by
  unfold onClientConnect
  cases hmode : cfg.mode with
  | session =>
    apply wp_seq (wp_acquireWith ⟨hn, .inl hregion, hgiving⟩ hidle)
    intro result κ hκ
    cases result with
    | error err => exact .inl ⟨hκ, fun _ => nofun⟩
    | ok c =>
      rcases hκ with ⟨hc, rfl⟩
      refine wp_act_bind (does_setServerConn hn (fun _ => .inl hregion) ?_)
      exact .inr ⟨rfl, rfl, c, hc, rfl⟩
  | transaction | statement => exact .inl ⟨rfl, nofun⟩

theorem wp_onClientDisconnect (hT : T.Ready p n r) (hr : r = .abort ∨ r = .cleanup) :
    (owning cfg).wp t (onClientDisconnect cfg n) (fun _ => Stays n r p) (inside T p) := by
  have hstartup : T.view.region ≠ .startup := by
    rw [hT.region]
    rcases hr with rfl | rfl <;> nofun
  have hmessage : T.view.region ≠ .message := by
    rw [hT.region]
    rcases hr with rfl | rfl <;> nofun
  refine wp_act_bind (does_getServerConn hT.session ?_)
  cases hsc : T.view.serverConn with
  | none => exact ⟨T, rfl, hT⟩
  | some c =>
    have hrel : T.Releases p n c := {
      session := hT.session
      calm := hT.calm
      mine := hT.rests.serverConn c hsc
      hand := hT.idle.hand
      reader := fun hps => absurd hsc (hT.rests.two c hps)
      ref := .inl hsc
      region := hstartup
      giving := fun h => absurd h hmessage }
    refine wp_then (wp_release hrel) fun _ => ?_
    refine wp_act (does_setServerConn hT.session (fun h => absurd rfl h) ?_)
    exact ⟨_, rfl, hT.calm, hT.session, hT.region, ⟨hT.idle.hand, hT.idle.waiter⟩, rfl,
      hT.rests.released hsc rfl rfl⟩

/-- The turn after a callback has released the connection of its session. -/
def Turn.gaveBack (T : Turn) (c : ConnId) (why : Reason) : Turn :=
  ({ T with view := { T.view with
      giving := some c
      swapping := decide (why = .roleChange)
      early := T.view.early || decide (why = .transactionEnd) } } : Turn).drop c

theorem wp_giveBack (hT : T.Ready p n .message) (hsc : T.view.serverConn = some c) :
    (owning cfg).wp t (giveBack cfg n c why) (fun _ κ => κ = inside (T.gaveBack c why) p)
      (inside T p) := by
  refine wp_act_bind (does_giveUp hT.session hT.calm hT.region hsc ?_)
  exact wp_release {
    session := hT.session
    calm := hT.calm
    mine := hT.rests.serverConn c hsc
    hand := hT.idle.hand
    reader := fun hps => absurd hsc (hT.rests.two c hps)
    ref := .inl hsc
    region := by
      rw [hT.region]
      nofun
    giving := fun _ => rfl }

/-- The turn after a callback has released the connection of its session, and
the session no longer refers to it. -/
def Turn.left (T : Turn) (c : ConnId) (why : Reason) : Turn :=
  { T.gaveBack c why with
    view := { (T.gaveBack c why).view with serverConn := none, swapping := false } }

theorem Turn.Ready.left (hT : T.Ready p n .message) (hsc : T.view.serverConn = some c) :
    (T.left c why).Ready p n .message :=
  ⟨hT.calm, hT.session, hT.region, ⟨hT.idle.hand, hT.idle.waiter⟩, rfl, hT.rests.released hsc rfl rfl⟩

theorem wp_giveBack_clear {α : Type} {f : Unit → Prog α} {Q : α → Know → Prop}
    (hT : T.Ready p n .message) (hsc : T.view.serverConn = some c)
    (hf : (owning cfg).wp t (f ()) Q (inside (T.left c why) p)) : (owning cfg).wp t (do
        giveBack cfg n c why
        let r ← act (.setServerConn n none)
        f r) Q (inside T p) := by
  refine wp_then (wp_giveBack hT hsc) fun _ => ?_
  exact wp_act_bind (does_setServerConn hT.session
    (fun h => absurd rfl h) hf)

/-- What `OnQuery` leaves: the turn goes on, and the session refers to the
connection that is returned. -/
def Queried (n : SessionId) (p : Past) (r : Except PoolError ConnId) (κ : Know) : Prop :=
  ∃ T : Turn, κ = inside T p ∧ T.Ready p n .message ∧
    ∀ c, r = .ok c → T.view.serverConn = some c

theorem Queried.handling {result : Except PoolError ConnId} (h : Queried n p result κ) :
    (∃ T : Turn, κ = inside T p ∧ T.Ready p n .message ∧
      ∀ c, none = some c → T.view.early = false → c ∈ T.mine) ∧
    ∀ c, result = .ok c → Queried n p (.ok c) κ := by
  obtain ⟨T, rfl, hT, hconn⟩ := h
  refine ⟨⟨T, rfl, hT, nofun⟩, ?_⟩
  rintro c rfl
  exact ⟨T, rfl, hT, hconn⟩

theorem wp_acquireForQuery (hp : p.Calm) (hn : T.session = n) (hregion : T.view.region = .message)
    (hidle : T.Idle) (hgiving : T.view.giving = none)
    (hps : ∀ c, T.view.psConn = some c → c ∈ T.mine) (hrests : T.view.swapping = false → T.Rests) :
    (owning cfg).wp t (acquireForQuery cfg n targetRole) (Queried n p) (inside T p) := by
  refine Proxy.wp_acquireForQuery (L := (owning cfg).calculus t)
    (fun _ => wp_acquireWith ⟨hn, .inr hregion, hgiving⟩ hidle) ?_ ?_
  · rintro err _ rfl
    refine wp_act (does_acquireFailed hn fun hswap => ?_)
    exact ⟨T, rfl, ⟨hp, hn, hregion, hidle, hgiving, hrests hswap⟩, nofun⟩
  · rintro c _ ⟨hc, rfl⟩
    refine wp_act (does_setServerConn hn (fun _ => .inr hregion) ?_)
    refine ⟨_, rfl, ⟨hp, hn, hregion, ⟨hidle.hand, hidle.waiter⟩, hgiving, ?_, ?_, ?_⟩, ?_⟩
    · rintro _ ⟨⟩
      exact mem_cons_self
    · exact fun c' hc' => mem_cons_of_mem c (hps c' hc')
    · rintro _ hc' ⟨⟩
      exact hc (hps _ hc')
    · rintro _ ⟨⟩
      rfl

theorem Turn.Ready.acquire (hT : T.Ready p n .message) :
    (owning cfg).wp t (acquireForQuery cfg n targetRole) (Queried n p) (inside T p) :=
  wp_acquireForQuery hT.calm hT.session hT.region hT.idle hT.giving hT.rests.psConn fun _ => hT.rests

/-! ## From the client to the server -/

variable {msg : ClientMessage} {k : Nat}

theorem Past.Calm.eq (h : p.Calm) : ({ p with unsent := none, answering := none } : Past) = p := by
  rcases p with ⟨started, before, after, unsent, answering⟩
  cases h.unsent
  cases h.answering
  rfl

/-- The goroutine that has written a message reads the answer from the same
connection, and passes on each reply before it reads the next one. -/
theorem wp_captureLoop (hp : p.Calm) (hn : T.session = n) (hc : T.view.early = false → c ∈ T.mine) :
    (owning cfg).wp t (captureLoop n c k) (fun _ κ => κ = inside T p)
      (inside T { p with answering := some c }) := by
  have hleft : inside T { p with unsent := none, answering := none } = inside T p :=
    congrArg (inside T) hp.eq
  induction k with
  | zero => exact wp_stuck
  | succ k ih =>
    refine wp_act_bind (does_read ?_ hp.unsent (.inr rfl) hleft ?_)
    · intro s hκ _ hearly
      subst hn
      exact hκ.inside_turn.mine c (hc (hκ.inside_turn.early.symm.trans hearly))
    · intro reply
      refine wp_act_bind (does_writeClient rfl ?_ hleft)
      show (owning cfg).wp t (if reply.ready = true then _ else _) _
        (inside T { p with
          unsent := none, answering := if reply.ready = true then none else some c })
      split
      · exact hleft
      · have hnext : inside T { p with unsent := none, answering := some c } =
            inside T { p with answering := some c } := by
          rw [← hp.unsent]
        rw [hnext]
        exact ih

theorem wp_forward {captured : Bool} (hT : T.Ready p n .message)
    (hc : T.view.early = false → c ∈ T.mine) :
    (owning cfg).wp t (forward cfg n c msg captured) (fun _ κ => κ = inside T p) (inside T p) := by
  refine wp_act_bind (does_write hT.session hT.calm hT.region hT.giving hc ?_ rfl)
  cases captured with
  | true => exact wp_captureLoop hT.calm hT.session hc
  | false =>
    show inside T { p with answering := none } = inside T p
    rw [← hT.calm.answering]

theorem passes (cfg : PoolConfig) (t : Thread) : Passes ((owning cfg).calculus t) := by
  intro o κ ho
  cases o
  all_goals first
    | exact wp_act (does_aside rfl (fun _ _ _ => trivial) fun _ => rfl)
    | cases ho

/-- While messages are handled, the session holds the connection that a
message is written to, unless its transaction has ended. -/
def handling (hp : p.Calm) (hn : n ∈ p.started) :
    Handling ((owning cfg).calculus t) cfg n { past := p } where
  Ready v κ := ∃ T : Turn, κ = inside T p ∧ T.Ready p n .message ∧
    ∀ c, v = some c → T.view.early = false → c ∈ T.mine
  Holds c κ := Queried n p (.ok c) κ
  ready := by
    rintro v _ ⟨T, rfl, hT, -⟩
    exact ⟨T, rfl, hT, nofun⟩
  sends := by
    rintro c _ ⟨T, rfl, hT, hsc⟩
    refine ⟨T, rfl, hT, ?_⟩
    rintro _ ⟨⟩ _
    exact hT.rests.serverConn c (hsc c rfl)
  passes := passes cfg t
  enter := wp_act (does_enter (.inl hn) fun _ _ htwo => ⟨_, rfl, entered_ready hp htwo, nofun⟩)
  leave := by
    rintro _ ⟨T, rfl, hT, -⟩
    exact wp_act (does_leave hT.session hT.calm hT.rests rfl)
  register := by
    rintro b _ ⟨T, rfl, hT, -⟩
    exact wp_act (does_register hn fun _ => rfl)
  getServerConn := by
    rintro v _ ⟨T, rfl, hT, hv⟩
    exact wp_act (does_getServerConn hT.session ⟨⟨T, rfl, hT, hv⟩, fun c hc => ⟨T, rfl, hT, by
      rintro _ ⟨⟩
      exact hc⟩⟩)
  acquire := by
    rintro role _ ⟨T, rfl, hT, -⟩
    exact wp_mono hT.acquire fun r κ => Queried.handling
  swap := by
    rintro c role _ ⟨T, rfl, hT, hsc⟩
    -- The session goes on to refer to `c`; if no other connection can be
    -- acquired, `swapping` tells.
    refine wp_then (wp_giveBack hT (hsc c rfl)) fun _ => wp_mono (wp_acquireForQuery
      (T := T.gaveBack c .roleChange) hT.calm hT.session hT.region
      ⟨hT.idle.hand, hT.idle.waiter⟩ rfl ?_ nofun) fun r κ => Queried.handling
    intro d hd
    refine mem_filter.mpr ⟨hT.rests.psConn d hd, decide_eq_true ?_⟩
    rintro rfl
    exact hT.rests.two _ hd (hsc _ rfl)
  clear := by
    rintro v c why _ f - ⟨T, rfl, hT, hsc⟩ hwhy hf
    refine wp_giveBack_clear hT (hsc c rfl) (hf _ ⟨_, rfl, hT.left (hsc c rfl), ?_⟩)
    intro d hd hearly
    rcases hwhy with rfl | rfl
    · cases (Bool.or_true _).symm.trans hearly
    · cases hd
  forward := by
    rintro c msg captured _ ⟨T, rfl, hT, hc⟩
    refine wp_mono (wp_forward hT (hc c rfl)) ?_
    rintro _ _ rfl
    exact ⟨T, rfl, hT, nofun⟩

/-! ## From the server to the client -/

theorem wp_serverLoop (hmode : cfg.mode = .session) : (owning cfg).wp t (serverLoop cfg n c k)
      (fun _ κ => κ = { past := { started := [n] }, reading := some (n, c) })
      { past := { started := [n] }, reading := some (n, c) } := by
  induction k with
  | zero => exact wp_stuck
  | succ k ih =>
    refine wp_skip rfl rfl fun done => ?_
    cases done with
    | true => rfl
    | false =>
      refine wp_act_bind (does_read ?_ rfl (.inl rfl) rfl ?_)
      · intro s hκ hopen _
        rcases (hκ.reading n c rfl).2.2 with hclosed | ⟨-, hplace⟩
        · rw [hopen] at hclosed
          cases hclosed
        · exact hplace
      · intro reply
        have hnext : (owning cfg).wp t (do
            if ← act (.writeClient n reply) then serverLoop cfg n c k else return ())
            (fun _ κ => κ = { past := { started := [n] }, reading := some (n, c) })
            { past := { started := [n], unsent := some (n, reply) }, reading := some (n, c) } := by
          exact wp_act_bind (does_writeClient rfl ih rfl)
        have hnone : (if reply.ready = true then none else none : Option ConnId) = none :=
          ite_self _
        show (owning cfg).wp t _ _ { past := {
            started := [n]
            unsent := some (n, reply)
            answering := if reply.ready = true then none else none }, reading := some (n, c) }
        rw [hnone]
        dsimp only
        rcases reply.status with _ | _ | _
        · exact hnext
        · refine wp_skip rfl rfl fun _ => ?_
          simp only [onQueryComplete, hmode]
          exact hnext
        · exact wp_skip rfl rfl fun _ => hnext

theorem wp_forwardServerToClient :
    (owning cfg).wp t (forwardServerToClient cfg n) (fun _ κ => κ.past.Calm)
      { past := { started := [n] } } := by
  refine wp_act_bind (does_takePsConn ⟨rfl, rfl⟩ ?_)
  intro c hmode
  refine wp_mono (wp_serverLoop hmode) ?_
  rintro _ _ rfl
  exact ⟨rfl, rfl⟩

theorem wp_relayGoroutine {body : Prog Unit}
    (h : (owning cfg).wp t body (fun _ κ => κ.past.Calm) { past := { started := [n] } }) :
    (owning cfg).wp t (relayGoroutine n body) (fun _ κ => (owning cfg).Final t κ) {} := by
  refine wp_act_bind (does_awaitRelay ?_)
  apply wp_seq h
  intro _ κ hκ
  refine wp_act_bind (does_aside rfl (fun _ _ h => h.past.settled hκ) fun _ => ?_)
  exact wp_act (does_aside rfl (fun _ _ _ => trivial) fun _ => final)

/-! ## `Handle` -/

theorem wp_relayRun (hn : T.session = n) (hregion : T.view.region = .startup) (hrests : T.Rests) :
    (owning cfg).wp (.handle n) (relayRun n) (fun _ κ => κ = { past := { after := some n } })
      (inside T { before := some n }) := by
  refine wp_act_bind (does_goRelay hn hregion hrests ?_)
  refine wp_skip rfl rfl fun _ => ?_
  refine wp_act_bind (does_closeRelay ?_)
  exact wp_skip rfl rfl fun _ => wp_awaitGoroutines (k := 2) (passes cfg (.handle n))

theorem wp_cleanup (hp : p.before = some n ∨ p.after = some n)
    (henter : (owning cfg).Does t (.enter n .cleanup) (fun _ => Stays n .cleanup p) κ) :
    (owning cfg).wp t (cleanup cfg n) (fun _ κ' => (owning cfg).Final t κ') κ := by
  refine wp_act_bind (henter.mono ?_)
  rintro _ _ ⟨T, rfl, hT⟩
  apply wp_seq (wp_onClientDisconnect hT (.inr rfl))
  rintro _ _ ⟨T', rfl, hT'⟩
  refine wp_act_bind (does_getPsConn hT'.session ?_)
  cases hps : T'.view.psConn with
  | none => exact wp_act (does_leave hT'.session hT'.calm hT'.rests final)
  | some c =>
    have hrel : T'.Releases p n c := {
      session := hT'.session
      calm := hT'.calm
      mine := hT'.rests.psConn c hps
      hand := hT'.idle.hand
      reader := fun _ => hp
      ref := .inr hps
      region := by
        rw [hT'.region]
        nofun
      giving := by
        rw [hT'.region]
        nofun }
    refine wp_then (wp_release hrel) fun _ => ?_
    refine wp_act_bind (does_clearPsConn hT'.session hp ?_)
    refine wp_act (does_leave hT'.session hT'.calm ⟨?_, nofun, nofun⟩ final)
    intro c' hc'
    have hc' : T'.view.serverConn = some c' := hc'
    refine mem_filter.mpr ⟨hT'.rests.serverConn c' hc', decide_eq_true ?_⟩
    rintro rfl
    exact hT'.rests.two _ hps hc'

/-- `Handle` before the start-up. -/
def blank (n : SessionId) : Turn := entered n (.handle n) .startup none none

/-- `Handle` after the start-up: both fields refer to one connection. -/
def paired (n : SessionId) (c : ConnId) : Turn where
  session := n
  view := {
    turn := some (.handle n)
    psConn := some c
    serverConn := some c }
  mine := [c]

theorem wp_takeServerConn : (owning cfg).wp (.handle n) (takeServerConn cfg n)
      (fun r κ => match r with
        | .ok c => cfg.mode = .session ∧ κ = inside (paired n c) { before := some n }
        | .error _ => κ = inside (blank n) { before := some n })
      (inside (blank n) { before := some n }) := by
  apply wp_seq (wp_onClientConnect (T := blank n) rfl rfl rfl ⟨rfl, rfl⟩)
  rintro result κ (⟨rfl, hmode⟩ | ⟨hmode, rfl, c, -, rfl⟩)
  · cases result with
    | error err => rfl
    | ok u => exact wp_act_bind (does_getServerConn rfl rfl)
  · refine wp_act_bind (does_getServerConn rfl ?_)
    refine wp_act_bind (does_setPsConn rfl rfl rfl mem_cons_self hmode ?_)
    exact ⟨hmode, rfl⟩

theorem wp_handleStartup : (owning cfg).wp (.handle n) (handleStartup cfg n)
      (fun r κ => r ≠ .ok () ∧ κ = inside (blank n) { before := some n } ∨
        ∃ c, cfg.mode = .session ∧ κ = inside (paired n c) { before := some n })
      (inside (blank n) { before := some n }) := by
  refine Proxy.wp_handleStartup (passes cfg _) rfl wp_takeServerConn ?_ fun c _ hκ => ⟨c, hκ⟩
  rintro c _ ⟨hmode, rfl⟩
  exact wp_act (does_aside rfl (fun _ _ _ => trivial) fun _ => ⟨c, hmode, rfl⟩)

theorem blank_rests : (blank n).Rests := ⟨nofun, nofun, nofun⟩

theorem wp_cleanup_after :
    (owning cfg).wp (.handle n) (cleanup cfg n) (fun _ κ => (owning cfg).Final (.handle n) κ)
      { past := { after := some n } } :=
  wp_cleanup (.inr rfl) (does_enter (.inr rfl) fun _ _ htwo => ⟨_, rfl, entered_ready ⟨rfl, rfl⟩ htwo⟩)

/-- The clean-up after a start-up that did not get as far as a connection. -/
theorem wp_cleanup_blank :
    (owning cfg).wp (.handle n) (cleanup cfg n) (fun _ κ => (owning cfg).Final (.handle n) κ)
      (inside (blank n) { before := some n }) :=
  wp_cleanup (.inl rfl)
    (does_giveIn rfl rfl fun _ => ⟨_, rfl, entered_ready ⟨rfl, rfl⟩ nofun⟩)

/-- The clean-up does not begin while both fields refer to one connection. -/
theorem wp_cleanup_paired :
    (owning cfg).wp (.handle n) (cleanup cfg n) (fun _ κ => (owning cfg).Final (.handle n) κ)
      (inside (paired n c) { before := some n }) := by
  refine wp_cleanup (p := { before := some n }) (.inl rfl) (does_giveIn rfl rfl ?_)
  rintro (h | h)
  · cases h
  · exact absurd rfl h

theorem wp_handle :
    (owning cfg).wp (.handle n) (handle cfg n) (fun _ κ => (owning cfg).Final (.handle n) κ)
      { fresh := some n } := by
  refine wp_act_bind (does_begin ?_)
  apply wp_seq wp_handleStartup
  intro result κ hκ
  cases result with
  | error err =>
    rcases hκ with ⟨-, rfl⟩ | ⟨c, -, rfl⟩
    · exact wp_cleanup_blank
    · exact wp_cleanup_paired
  | ok u =>
    rcases hκ with ⟨h, -⟩ | ⟨c, hmode, rfl⟩
    · exact absurd rfl h
    · apply wp_seq (wp_onClientConnect (T := paired n c) rfl rfl rfl ⟨rfl, rfl⟩)
      rintro result κ (⟨rfl, hfail⟩ | ⟨-, rfl, c', hc', rfl⟩)
      · cases result with
        | error err => exact wp_cleanup_paired
        | ok u => exact absurd rfl (hfail hmode)
      · refine wp_seq (wp_relayRun rfl rfl ⟨?_, ?_, ?_⟩) ?_
        · rintro _ ⟨⟩
          exact mem_cons_self
        · rintro _ ⟨⟩
          exact mem_cons_of_mem _ mem_cons_self
        · rintro _ ⟨⟩ ⟨⟩
          exact hc' mem_cons_self
        · rintro _ κ rfl
          exact wp_cleanup_after

theorem wp_handleRelay : (owning cfg).wp (.handle n) (handleRelay cfg n)
      (fun _ κ => (owning cfg).Final (.handle n) κ) { fresh := some n } := by
  refine wp_act_bind (does_begin ?_)
  exact wp_then (wp_relayRun rfl rfl blank_rests) fun _ => wp_cleanup_after

/-! ## Timeouts, and the other goroutines -/

theorem wp_sendRollbackToBackend (hp : p.Calm) (hn : n ∈ p.started) :
    (owning cfg).wp t (sendRollbackToBackend cfg n) (fun _ κ => κ = { past := p })
      { past := p } := by
  refine wp_act_bind (does_enter (.inl hn) ?_)
  intro ps sc htwo
  have hT : (entered n t .abort ps sc).Ready p n .abort := entered_ready hp htwo
  refine wp_act_bind (does_getServerConn rfl ?_)
  cases sc with
  | none => exact wp_act (does_leave rfl hp hT.rests rfl)
  | some serverConn =>
    refine wp_skip rfl rfl fun _ => ?_
    apply wp_seq (wp_onClientDisconnect hT (.inl rfl))
    rintro _ _ ⟨T, rfl, hT⟩
    exact wp_act (does_leave hT.session hp hT.rests rfl)

theorem wp_checkTimeouts {l0 : List SessionId} :
    (owning cfg).wp t (checkTimeouts cfg) (fun _ κ => ∃ l, κ = { past := { started := l } })
      { past := { started := l0 } } := by
  refine wp_act_bind (does_timeouts ?_)
  intro l l'
  refine wp_then (wp_abortAll (passes cfg t) fun m x hm => ?_) fun _ => wp_mono
    (wp_abortAll (passes cfg t) fun m x hm => ?_) fun _ κ hκ => ⟨_, hκ⟩
  · refine wp_sendRollbackToBackend ⟨rfl, rfl⟩ ?_
    exact mem_filterMap.mpr ⟨_, mem_append_left _ hm, rfl⟩
  · refine wp_sendRollbackToBackend ⟨rfl, rfl⟩ ?_
    exact mem_filterMap.mpr ⟨_, mem_append_right _ hm, rfl⟩

theorem wp_monitorLoop {l : List SessionId} :
    (owning cfg).wp t (monitorLoop cfg k) (fun _ κ => (owning cfg).Final t κ)
      { past := { started := l } } := by
  induction k generalizing l with
  | zero => exact wp_act ⟨nofun, fun _ _ _ _ _ _ _ h => nomatch h⟩
  | succ k ih =>
    apply wp_seq wp_checkTimeouts
    rintro _ _ ⟨q, rfl⟩
    exact ih

/-! ## The goroutines that serve no session -/

/-- Their operations. -/
def Background : Op → Prop
  | .stuck | .free | .selectBackend _ | .isCircuitOpen | .tryConnect none _ | .hasBackends
  | .tryAlloc | .idleCount | .activeCount | .ctxDone | .sizeBelow none _ | .closeAll
  | .closeBackend _ | .countActive _ | .backend => True
  | _ => False

theorem uses_createServerConn : (createServerConn none).Uses Background := by
  have htry : ∀ k, (tryBackends none none 3 k).Uses Background := by
    intro k
    induction k with
    | zero => exact ⟨trivial, fun _ => trivial⟩
    | succ k ih =>
      refine ⟨trivial, fun backend => ?_⟩
      cases backend with
      | none => exact ⟨trivial, fun _ => trivial⟩
      | some b =>
        refine ⟨trivial, fun circuit => ?_⟩
        cases circuit with
        | true => exact ih
        | false =>
          refine ⟨trivial, fun r => ?_⟩
          cases r with
          | none => exact ih
          | some c => trivial
  refine ⟨trivial, fun some => ?_⟩
  cases some with
  | false => trivial
  | true =>
    refine ⟨trivial, fun room => ?_⟩
    cases room with
    | false => trivial
    | true => exact htry 3

theorem uses_prefetchLoop {target maxConns : Nat} :
    (prefetchLoop target maxConns k).Uses Background := by
  induction k with
  | zero => exact ⟨trivial, fun _ => trivial⟩
  | succ k ih =>
    refine ⟨trivial, fun idleCount => ⟨trivial, fun activeCount => ?_⟩⟩
    show (if idleCount + activeCount < target then _ else _ : Prog Unit).Uses Background
    split
    · refine ⟨trivial, fun done => ?_⟩
      cases done with
      | true => trivial
      | false =>
        refine ⟨trivial, fun below => ?_⟩
        cases below with
        | false => trivial
        | true => exact uses_bind (p := createServerConn none) uses_createServerConn fun _ => ih
    · trivial

theorem uses_prefetchConns : (prefetchConns cfg).Uses Background :=
  uses_ite.mpr ⟨fun _ => uses_prefetchLoop, fun _ => trivial⟩

theorem uses_adminCalls {calls : List AdminCall} : (adminCalls calls).Uses Background := by
  induction calls with
  | nil => trivial
  | cons call calls ih =>
    cases call with
    | close => exact ⟨trivial, fun _ => ih⟩
    | removeBackend address =>
      refine ⟨trivial, fun active => ?_⟩
      show ((if active = 0 then _ else _ : Prog Unit) >>= _).Uses Background
      split
      · exact ⟨trivial, fun _ => ih⟩
      · exact ih

theorem uses_backendLoop : (backendLoop k).Uses Background := by
  induction k with
  | zero => exact ⟨trivial, fun _ => trivial⟩
  | succ k ih => exact ⟨trivial, fun _ => ih⟩

theorem wp_background {p : Prog Unit} (hp : p.Uses Background) :
    (owning cfg).wp t p (fun _ κ => (owning cfg).Final t κ) {} := by
  refine wp_mono (wp_of_uses hp fun o ho => ?_) fun _ _ _ => final
  cases o
  case stuck => exact ⟨nofun, fun _ _ _ _ _ _ _ h => nomatch h⟩
  case closeAll => exact does_closeAll rfl
  case closeBackend => exact does_closeBackend rfl
  case tryConnect n b =>
    cases n with
    | none => exact does_prefetch fun _ => rfl
    | some n => exact ho.elim
  all_goals first | exact ho.elim | exact does_aside rfl (fun _ _ _ => trivial) fun _ => rfl

/-! ## The system -/

theorem owned_start : Owned cfg {} where
  nodup := nodup_nil
  idle _ h := nomatch h
  delivered _ _ h := nomatch h
  fresh _ _ := rfl
  rest _ _ := ⟨fun _ h => (nomatch h), fun _ h => nomatch h⟩
  reader _ _ h := nomatch h
  ended _ _ h := nomatch h
  relay _ h := nomatch h
  mode _ _ h := nomatch h
  txn _ _ h := nomatch h

theorem knows_start : ({} : Know).Holds {} t :=
  holds_outside (fun _ h => nomatch h)
    ⟨fun _ h => (nomatch h), fun _ h => (nomatch h), fun _ h => (nomatch h), rfl,
      fun _ => .inl rfl⟩

theorem system_within (cfg : PoolConfig) (users : Users) :
    (owning cfg).Within (system cfg users) := by
  refine ⟨owned_start, fun t => ?_⟩
  cases t with
  | handle n =>
    refine ⟨{ fresh := some n }, { knows_start with fresh := ?_ }, ?_⟩
    · rintro m ⟨⟩
      exact ⟨rfl, rfl, rfl⟩
    · simp only [system]
      cases users.entry n with
      | handle => exact wp_handle
      | relay => exact wp_handleRelay
  | clientToServer n =>
    refine ⟨{}, knows_start, wp_relayGoroutine ?_⟩
    refine wp_mono (handling ⟨rfl, rfl⟩ mem_cons_self).wp_forwardClientToServer ?_
    rintro _ _ rfl
    exact ⟨rfl, rfl⟩
  | serverToClient n => exact ⟨{}, knows_start, wp_relayGoroutine wp_forwardServerToClient⟩
  | monitor => exact ⟨{}, knows_start, wp_monitorLoop⟩
  | prefetch => exact ⟨{}, knows_start, wp_background uses_prefetchConns⟩
  | admin i => exact ⟨{}, knows_start, wp_background uses_adminCalls⟩
  | caller i => exact ⟨{}, knows_start, final⟩
  | backend => exact ⟨{}, knows_start, wp_background uses_backendLoop⟩

end Geryon.Ownership
