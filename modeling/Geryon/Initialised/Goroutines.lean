import Geryon.Initialised.Discipline
import Geryon.Ownership.Exclusive
import Geryon.Pool.Limit

/-!
# The goroutines of the proxy and start-ups

What a goroutine knows about start-ups before and after the calls of the pool,
the strategies, the start-up, the relay and the clean-up.  The result is that
a message goes only to a connection whose start-up is done, and that no
start-up is made twice on one connection.
-/

namespace Geryon.Initialised

open Conc Conc.Discipline Pool Proxy Ownership List Function Option

variable {cfg : PoolConfig} {s s' : State} {t : Thread} {n : SessionId} {c : ConnId} {κ : Know}
  {α : Type}

/-! ## Acquiring -/

/-- The goroutine starts the session up, and is to be given a new
connection. -/
def Know.Begins (κ : Know) (n : SessionId) : Prop :=
  ∃ S, κ.start = some S ∧ S.session = n ∧ S.psConn = none

/-- The session has a connection, and is to be given used ones. -/
def Know.Goes (κ : Know) (n : SessionId) : Prop :=
  n ∈ κ.started ∨ ∃ S, κ.start = some S ∧ S.session = n ∧ S.psConn ≠ none

/-- A connection has been created. -/
def Know.create (κ : Know) (c : ConnId) : Know :=
  { κ with start := κ.start.map fun S => { S with hand := some c } }

/-- A connection is ready. -/
def Know.learn (κ : Know) (c : ConnId) : Know := { κ with ready := c :: κ.ready }

theorem Know.Begins.starting (h : κ.Begins n) (hκ : κ.Holds s t) :
    starting (s.session n) = true := by
  obtain ⟨S, hS, rfl, hps⟩ := h
  have hS := hκ.start S hS
  simp [Initialised.starting, hS.started, hS.psConn, hps]

theorem Know.Goes.starting (h : κ.Goes n) (hκ : κ.Holds s t) : starting (s.session n) = false := by
  rcases h with hn | ⟨S, hS, rfl, hps⟩
  · simp [Initialised.starting, hκ.started n hn]
  · have hS := hκ.start S hS
    cases hc : S.psConn with
    | none => exact absurd hc hps
    | some c => simp [Initialised.starting, hS.psConn, hc]

theorem Know.Holds.learn (hκ : κ.Holds s t) (hc : Ready (s.conn c)) : (κ.learn c).Holds s t where
  ready d hd := by
    rcases mem_cons.mp hd with rfl | hd
    · exact hc
    · exact hκ.ready d hd
  started := hκ.started
  start := hκ.start

theorem Know.Holds.create (hκ : κ.Holds s t) (h : κ.Begins n) (hc : New s n c) :
    (κ.create c).Holds s t where
  ready := hκ.ready
  started := hκ.started
  start S' hS' := by
    obtain ⟨S, hS, rfl, -⟩ := h
    simp only [Know.create, hS, map_some, some.injEq] at hS'
    subst hS'
    refine { hκ.start S hS with hand := ?_ }
    rintro d hd
    cases hd
    exact hc

/-- What is known when a connection has been created, or not. -/
def Created (κ : Know) (n : SessionId) : Except PoolError ConnId → Know → Prop
  | .ok c, κ' => κ.Begins n ∧ κ' = κ.create c
  | .error _, κ' => κ' = κ

/-- What is known when a connection has been acquired, or not. -/
def Acquired (κ : Know) (n : SessionId) : Except PoolError ConnId → Know → Prop
  | .ok c, κ' => κ.Begins n ∧ κ' = κ.create c ∨ κ.Goes n ∧ κ' = κ.learn c
  | .error _, κ' => κ' = κ

variable {Q : Option ConnId → Know → Prop} {k : Nat} {w : WaiterId} {S : Start}
  {msg : ClientMessage}

theorem does_acquire (h : κ.Begins n ∨ κ.Goes n) (hnone : Q none κ)
    (hsome : ∀ c, κ.Goes n → Q (some c) (κ.learn c)) : initialising.Does t (.acquire n) Q κ := by
  refine does_calm rfl (fun _ _ _ _ _ => trivial) ?_
  intro s ch r s' hinv hκ hcond hexec hκ'
  cases r with
  | none => exact ⟨κ, hκ', hnone⟩
  | some c =>
    have hidle := mem_idle_of_acquire hexec
    rcases h with hbegins | hgoes
    · -- A session that starts up finds the idle list empty.
      have hcond : (!starting (s.session n) || s.conns.idle.isEmpty) = true := hcond
      rw [hbegins.starting hκ, Bool.not_true, Bool.false_or, List.isEmpty_iff] at hcond
      rw [hcond] at hidle
      cases hidle
    · have hready : Ready (s'.conn c) :=
        ready_of_changes (t := t) (changes_of_exec hexec) hinv trivial (hinv.idle c hidle)
      exact ⟨κ.learn c, hκ'.learn hready, hsome c hgoes⟩

theorem does_tryConnect {b : Backend} (h : κ.Begins n ∨ κ.Goes n) (hnone : Q none κ)
    (hsome : ∀ c, κ.Begins n → Q (some c) (κ.create c)) :
    initialising.Does t (.tryConnect (some n) b) Q κ := by
  refine does_calm rfl (fun _ _ _ _ _ => trivial) ?_
  intro s ch r s' _ hκ hcond hexec hκ'
  have hcond : (starting (s.session n) || decide (ch ≠ .ok)) = true := hcond
  simp only [exec, some.injEq] at hexec
  split at hexec
  · rename_i hok
    rcases h with hbegins | hgoes
    · cases hexec
      refine ⟨_, hκ'.create hbegins ⟨Nat.lt_succ_self _, ?_, .inl ?_⟩, hsome _ hbegins⟩
      · show (update s.conn s.nextConn _ s.nextConn).startups = []
        rw [update_self]
      · exact update_self ..
    · rw [hgoes.starting hκ] at hcond
      simp [hok] at hcond
  · cases hexec
    exact ⟨κ, hκ', hnone⟩

variable {role : Option Role} {o : Op} {timeout begins : Bool} {v : Option ConnId} {why : Reason}
  {info : Option TxnId} {g : List ConnId}

section

variable (h : κ.Begins n ∨ κ.Goes n)
include h

theorem wp_tryBackends {maxRetries : Nat} :
    initialising.wp t (tryBackends (some n) role maxRetries k) (Created κ n) κ := by
  induction k with
  | zero => exact wp_skip rfl rfl fun _ => rfl
  | succ k ih =>
    refine wp_skip rfl rfl fun backend => ?_
    cases backend with
    | none => exact wp_skip rfl rfl fun _ => rfl
    | some b =>
      refine wp_skip rfl rfl fun circuit => ?_
      cases circuit with
      | true => exact ih
      | false => exact wp_act_bind (does_tryConnect h ih fun c hb => ⟨hb, rfl⟩)

theorem wp_createWith : initialising.wp t (createWith (some n) role) (Created κ n) κ := by
  refine wp_skip rfl rfl fun some => ?_
  cases some with
  | false => rfl
  | true =>
    refine wp_skip rfl rfl fun room => ?_
    cases room with
    | false => rfl
    | true => exact wp_tryBackends h

theorem does_look {w : WaiterId} {o : Op} {Q : o.Ret → Know → Prop}
    (ho : o = .checkWaiter n w ∨ o = .recheckWaiter n w)
    (hQ : ∀ s ch r s', exec s t o ch = some (r, s') → ((s.waiter w).conn = none → Q r κ) ∧
        ∀ c, (s.waiter w).conn = some c → κ.Goes n → Q r (κ.learn c)) :
    initialising.Does t o Q κ := by
  have hcalm : calm o = true := by rcases ho with rfl | rfl <;> rfl
  have hguar : ∀ s, Guar s t o := by rcases ho with rfl | rfl <;> exact fun _ => trivial
  refine does_calm hcalm (fun s _ _ _ _ => hguar s) ?_
  intro s ch r s' hinv hκ hcond hexec hκ'
  have hcond : (!starting (s.session n) || (s.waiter w).conn.isNone) = true := by
    rcases ho with rfl | rfl <;> exact hcond
  cases hc : (s.waiter w).conn with
  | none => exact ⟨κ, hκ', (hQ s ch r s' hexec).1 hc⟩
  | some c =>
    rcases h with hbegins | hgoes
    · rw [hbegins.starting hκ, hc] at hcond
      cases hcond
    · have hready : Ready (s'.conn c) :=
        ready_of_changes (changes_of_exec hexec) hinv (hguar s) (hinv.waiter w c hc)
      exact ⟨κ.learn c, hκ'.learn hready, (hQ s ch r s' hexec).2 c hc hgoes⟩

theorem does_checkWaiter {Q : Option ConnId × Bool → Know → Prop}
    (hnone : ∀ b, Q (none, b) κ) (hsome : ∀ c b, κ.Goes n → Q (some c, b) (κ.learn c)) :
    initialising.Does t (.checkWaiter n w) Q κ := by
  refine does_look h (.inl rfl) ?_
  intro s ch r s' hexec
  simp only [exec, some.injEq, Prod.mk.injEq, State.lookAt] at hexec
  rcases hexec with ⟨rfl, -⟩
  constructor
  · intro hc
    simp only [hc]
    exact hnone _
  · intro c hc hgoes
    simp only [hc]
    exact hsome c _ hgoes

theorem does_recheckWaiter (hnone : Q none κ) (hsome : ∀ c, κ.Goes n → Q (some c) (κ.learn c)) :
    initialising.Does t (.recheckWaiter n w) Q κ := by
  refine does_look h (.inr rfl) ?_
  intro s ch r s' hexec
  simp only [exec, some.injEq] at hexec
  rw [show r = (s.lookAt n w).1 from (congrArg Prod.fst hexec).symm]
  unfold State.lookAt
  constructor
  · intro hc
    simp only [hc]
    exact hnone
  · intro c hc hgoes
    simp only [hc]
    exact hsome c hgoes

theorem wp_waitLoop : initialising.wp t (waitLoop n w timeout k) (fun r κ' => match r with
        | .ok c => κ.Goes n ∧ κ' = κ.learn c
        | .error _ => κ' = κ) κ := by
  induction k with
  | zero => exact wp_stuck
  | succ k ih =>
    refine wp_act_bind (does_checkWaiter h ?_ fun c _ hgoes => ⟨hgoes, rfl⟩)
    intro timedOut
    cases timedOut with
    | true => rfl
    | false =>
      refine wp_skip rfl rfl fun case => ?_
      cases case with
      | ready => exact wp_act_bind (does_recheckWaiter h ih fun c hgoes => ⟨hgoes, rfl⟩)
      | timeout | done => exact wp_skip rfl rfl fun _ => rfl

end

theorem does_ready {Q : o.Ret → Know → Prop} (ho : calm o = true) (hc : c ∈ κ.ready)
    (hguar : ∀ s, Ready (s.conn c) → Guar s t o) (hQ : ∀ r, Q r κ) : initialising.Does t o Q κ :=
  does_calm ho (fun s _ _ hκ _ => hguar s (hκ.ready c hc)) fun _ _ r _ _ _ _ _ hκ' => ⟨κ, hκ', hQ r⟩

theorem wp_wait {maxSize : Nat} (h : κ.Begins n ∨ κ.Goes n) :
    initialising.wp t (wait n maxSize timeout k) (Acquired κ n) κ := by
  refine wp_skip rfl rfl fun waiter => ?_
  cases waiter with
  | none => rfl
  | some w =>
    apply wp_seq (wp_waitLoop h)
    intro result κ' hκ'
    cases result with
    | error err =>
      subst hκ'
      exact wp_skip rfl rfl fun _ => rfl
    | ok c =>
      obtain ⟨hgoes, rfl⟩ := hκ'
      refine wp_act_bind (does_ready rfl mem_cons_self (fun _ => id) fun _ => ?_)
      exact .inr ⟨hgoes, rfl⟩

theorem does_addActive {Q : Unit → Know → Prop} (h : κ.Begins n) (hQ : Q () (κ.create c)) :
    initialising.Does t (.addActive n c) Q (κ.create c) := by
  have hnew : ∀ s, (κ.create c).Holds s t → t = .handle n ∧ New s n c := by
    intro s hκ
    obtain ⟨S, hS, rfl, -⟩ := h
    have hS' := hκ.start { S with hand := some c } (by simp [Know.create, hS])
    exact ⟨hS'.self, hS'.hand c rfl⟩
  refine does_of (fun s _ _ hκ _ => hnew s hκ) ?_
  intro s ch r s' hinv hκ _ hexec hrely
  simp only [exec] at hexec
  split at hexec <;> cases hexec
  refine ⟨κ.create c, ⟨hκ.ready, hκ.started, fun S' hS' => ?_⟩, hQ⟩
  refine { hκ.start S' hS' with hand := ?_ }
  intro d hd
  obtain ⟨S, hS, rfl, -⟩ := h
  simp only [Know.create, hS, map_some, some.injEq] at hS'
  subst hS'
  cases hd
  exact { (hnew s hκ).2 with place := .inr (update_self ..) }

theorem wp_acquireWith (h : κ.Begins n ∨ κ.Goes n) :
    initialising.wp t (acquireWith cfg n (createWith (some n) role)) (Acquired κ n) κ := by
  refine wp_act_bind (does_acquire h ?_ fun c hgoes => .inr ⟨hgoes, rfl⟩)
  refine wp_skip rfl rfl fun below => ?_
  cases below with
  | true =>
    apply wp_seq (wp_createWith h)
    intro result κ' hκ'
    cases result with
    | error err => exact hκ'
    | ok c =>
      obtain ⟨hbegins, rfl⟩ := hκ'
      exact wp_act_bind (does_addActive hbegins (.inl ⟨hbegins, rfl⟩))
  | false =>
    exact wp_act_bind (does_acquire h (wp_wait h) fun c hgoes => .inr ⟨hgoes, rfl⟩)

/-! ## Releasing -/

theorem Know.Holds.forget (h : (κ.learn c).Holds s t) : κ.Holds s t :=
  { h with ready := fun d hd => h.ready d (mem_cons_of_mem _ hd) }

/-- The connection that is released goes to the idle list, or is closed. -/
theorem wp_putBack (ho : calm o = true) (hguar : ∀ s, Ready (s.conn c) → Guar s t o) :
    initialising.wp t (act o) (fun _ κ' => κ' = κ) (κ.learn c) :=
  wp_act (does_calm ho (fun s _ _ hκ _ => hguar s (hκ.ready c mem_cons_self))
    fun _ _ _ _ _ _ _ _ hκ' => ⟨κ, hκ'.forget, rfl⟩)

theorem wp_release : initialising.wp t (release cfg n c) (fun _ κ' => κ' = κ) κ := by
  refine wp_act_bind (does_calm rfl (fun _ _ _ _ _ => trivial) ?_)
  intro s ch r s' hinv hκ hcond hexec hκ'
  cases r with
  | true => exact ⟨κ, hκ', rfl⟩
  | false =>
    have hready : Ready (s'.conn c) :=
      ready_of_changes (t := t) (changes_of_exec hexec) hinv trivial (of_decide_eq_true hcond)
    refine ⟨κ.learn c, hκ'.learn hready, ?_⟩
    refine wp_skip rfl rfl fun room => ?_
    cases room with
    | false => exact wp_putBack rfl fun _ => id
    | true =>
      have hreset : initialising.wp t (resetConnection cfg c) (fun _ κ' => κ' = κ.learn c)
          (κ.learn c) := by
        refine wp_resetConnection (L := initialising.calculus t) fun o ho => ?_
        cases o <;> first | exact wp_last rfl rfl fun _ => rfl | cases ho
      refine wp_then hreset fun ok => ?_
      cases ok with
      | true | false => exact wp_putBack rfl fun _ => id

/-! ## The fields of a session -/

/-- The relay of the session runs. -/
structure Know.Relays (κ : Know) (n : SessionId) : Prop where
  started : n ∈ κ.started
  start : κ.start = none

theorem Know.Relays.learn (h : κ.Relays n) (c : ConnId) : (κ.learn c).Relays n :=
  ⟨h.started, h.start⟩

/-- `Handle` changes the fields of its session before the relay is started. -/
theorem Start.Holds.setSession {R : Start} {f : Session → Session} (h : S.Holds s t)
    (hn : R.session = S.session) (hhand : R.hand = S.hand)
    (hstart : (f (s.session S.session)).started = (s.session S.session).started)
    (hps : (f (s.session S.session)).psConn = R.psConn)
    (hsc : (f (s.session S.session)).serverConn = R.serverConn) :
    R.Holds (s.setSession S.session f) t := by
  refine ⟨hn ▸ h.self, ?_, ?_, ?_, ?_⟩
  · rw [hn, session_self]
    exact hstart.trans h.started
  · rw [hn, session_self]
    exact hps
  · rw [hn, session_self]
    exact hsc
  · intro c hc
    have hnew := h.hand c (hhand ▸ hc)
    rw [hn]
    exact ⟨hnew.lt, hnew.startups, hnew.place⟩

theorem Know.Holds.step (hκ : κ.Holds s t) (hrely : Rely t s s') (hS : S.Holds s' t) :
    Know.Holds { κ with start := some S } s' t where
  ready c hc := hrely.ready c (hκ.ready c hc)
  started m hm := hrely.started m (hκ.started m hm)
  start S' hS' := by
    cases hS'
    exact hS

theorem does_setServerConn {S : Start} {v : Option ConnId} {Q : Unit → Know → Prop}
    (hS : κ.start = some S) (hn : S.session = n)
    (hQ : Q () { κ with start := some { S with serverConn := v } }) :
    initialising.Does t (.setServerConn n v) Q κ := by
  subst hn
  refine does_of ?_ ?_
  · intro s ch _ hκ _
    have h := hκ.start S hS
    refine ⟨fun _ => h.self, fun c _ hstart => ?_⟩
    rw [h.started] at hstart
    cases hstart
  · intro s ch r s' _ hκ _ hexec hrely
    cases hexec
    exact ⟨_, hκ.step hrely ((hκ.start S hS).setSession (R := { S with serverConn := v })
      rfl rfl rfl (hκ.start S hS).psConn rfl), hQ⟩

theorem does_setServerConn_relay {Q : Unit → Know → Prop} (hn : κ.Relays n)
    (hv : ∀ c, v = some c → c ∈ κ.ready) (hQ : Q () κ) :
    initialising.Does t (.setServerConn n v) Q κ := by
  refine does_of ?_ ?_
  · intro s ch _ hκ _
    refine ⟨fun h => ?_, fun c hc _ => hκ.ready c (hv c hc)⟩
    rw [hκ.started n hn.started] at h
    cases h
  · intro s ch r s' _ hκ _ hexec hrely
    refine ⟨κ, ⟨fun c hc => hrely.ready c (hκ.ready c hc),
      fun m hm => hrely.started m (hκ.started m hm), ?_⟩, hQ⟩
    rw [hn.start]
    exact fun _ h => nomatch h

theorem does_setPsConn {S : Start} {v : Option ConnId} {Q : Unit → Know → Prop}
    (hS : κ.start = some S) (hn : S.session = n)
    (hQ : Q () { κ with start := some { S with psConn := v } }) :
    initialising.Does t (.setPsConn n v) Q κ := by
  subst hn
  refine does_of (fun s ch _ hκ _ => (hκ.start S hS).self) ?_
  intro s ch r s' _ hκ _ hexec hrely
  cases hexec
  exact ⟨_, hκ.step hrely ((hκ.start S hS).setSession (R := { S with psConn := v })
    rfl rfl rfl rfl (hκ.start S hS).serverConn), hQ⟩

theorem does_getServerConn (hS : κ.start = some S) (hn : S.session = n) (hQ : Q S.serverConn κ) :
    initialising.Does t (.getServerConn n) Q κ := by
  refine does_calm rfl (fun _ _ _ _ _ => trivial) ?_
  intro s ch r s' _ hκ _ hexec hκ'
  cases hexec
  subst hn
  rw [(hκ.start S hS).serverConn]
  exact ⟨κ, hκ', hQ⟩

theorem does_getServerConn_relay (hn : κ.Relays n) (hnone : Q none κ)
    (hsome : ∀ c, Q (some c) (κ.learn c)) : initialising.Does t (.getServerConn n) Q κ := by
  refine does_calm rfl (fun _ _ _ _ _ => trivial) ?_
  intro s ch r s' hinv hκ _ hexec hκ'
  cases hexec
  cases hc : (s.session n).serverConn with
  | none => exact ⟨κ, hκ', hnone⟩
  | some c => exact ⟨κ.learn c, hκ'.learn (hinv.session n c (hκ.started n hn.started) hc), hsome c⟩

/-! ## The strategies -/

/-- What a callback of a running relay leaves: nothing has been forgotten but
connections, and a connection that is returned is ready. -/
structure Queried (κ : Know) (r : Except PoolError ConnId) (κ' : Know) : Prop where
  started : κ'.started = κ.started
  start : κ'.start = κ.start
  ready : ∀ c, r = .ok c → c ∈ κ'.ready

theorem queried_learn : Queried κ (.ok c) (κ.learn c) where
  started := rfl
  start := rfl
  ready := by
    rintro d hd
    cases hd
    exact mem_cons_self

theorem queried_error {err : PoolError} : Queried κ (.error err) κ := ⟨rfl, rfl, nofun⟩

theorem wp_acquireForQuery {targetRole : Option Role} (hn : κ.Relays n) :
    initialising.wp t (acquireForQuery cfg n targetRole) (Queried κ) κ := by
  have hgoes : κ.Begins n ∨ κ.Goes n := .inr (.inl hn.started)
  refine Proxy.wp_acquireForQuery (L := initialising.calculus t)
    (fun _ => wp_acquireWith hgoes) ?_ ?_
  · rintro err _ rfl
    exact wp_skip rfl rfl fun _ => queried_error
  · rintro c _ (⟨⟨S, hS, -⟩, -⟩ | ⟨-, rfl⟩)
    · rw [hn.start] at hS
      cases hS
    · refine wp_act (does_setServerConn_relay (hn.learn c) ?_ queried_learn)
      rintro d hd
      cases hd
      exact mem_cons_self

theorem wp_giveBack : initialising.wp t (giveBack cfg n c why) (fun _ κ' => κ' = κ) κ :=
  wp_skip rfl rfl fun _ => wp_release

theorem wp_giveBack_clear {f : Unit → Prog α} {Q : α → Know → Prop} (hn : κ.Relays n)
    (hf : initialising.wp t (f ()) Q κ) : initialising.wp t (do
        giveBack cfg n c why
        let r ← act (.setServerConn n none)
        f r) Q κ := by
  exact wp_then wp_giveBack fun _ => wp_act_bind (does_setServerConn_relay hn nofun hf)

/-! ## The relay -/

theorem wp_captureLoop : initialising.wp t (captureLoop n c k) (fun _ κ' => κ' = κ) κ := by
  induction k with
  | zero => exact wp_stuck
  | succ k ih =>
    refine wp_skip rfl rfl fun reply => ?_
    cases reply with
    | none => rfl
    | some r =>
      refine wp_skip rfl rfl fun sent => ?_
      cases sent with
      | false => rfl
      | true =>
        show initialising.wp t (if r.ready = true then _ else _) _ _
        split
        · rfl
        · exact ih

theorem wp_forward {captured : Bool} (hc : c ∈ κ.ready) :
    initialising.wp t (forward cfg n c msg captured) (fun _ κ' => κ' = κ) κ := by
  refine wp_act_bind (does_ready rfl hc (fun _ => id) fun written => ?_)
  cases written with
  | false => rfl
  | true =>
    cases captured with
    | true => exact wp_captureLoop
    | false => rfl

theorem passes (t : Thread) : Passes (initialising.calculus t) := by
  intro o κ ho
  cases o
  all_goals first
    | exact wp_last rfl rfl fun _ => rfl
    | cases ho

/-- The relay runs, and these connections are ready. -/
def relaying (n : SessionId) (g : List ConnId) : Know := { ready := g, started := [n] }

theorem relays_relaying : (relaying n g).Relays n := ⟨mem_cons_self, rfl⟩

theorem Queried.relaying {r : Except PoolError ConnId} (h : Queried (relaying n g) r κ) :
    (∃ g', κ = Initialised.relaying n g' ∧ ∀ c, none = some c → c ∈ g') ∧
    ∀ c, r = .ok c → ∃ g', κ = Initialised.relaying n g' ∧ c ∈ g' := by
  obtain ⟨ready, started, start⟩ := κ
  obtain ⟨rfl, rfl, hready⟩ := h
  exact ⟨⟨ready, rfl, nofun⟩, fun c hc => ⟨ready, rfl, hready c hc⟩⟩

/-- While messages are handled, the connection that a message is written to is
ready. -/
def handling : Handling (initialising.calculus t) cfg n (relaying n []) where
  Ready v κ := ∃ g, κ = relaying n g ∧ ∀ c, v = some c → c ∈ g
  Holds c κ := ∃ g, κ = relaying n g ∧ c ∈ g
  ready := by
    rintro v _ ⟨g, rfl, -⟩
    exact ⟨g, rfl, nofun⟩
  sends := by
    rintro c _ ⟨g, rfl, hc⟩
    refine ⟨g, rfl, ?_⟩
    rintro _ ⟨⟩
    exact hc
  passes := passes t
  enter := wp_last rfl rfl fun _ => ⟨[], rfl, nofun⟩
  leave := by
    rintro _ ⟨g, rfl, -⟩
    exact wp_act (does_calm rfl (fun _ _ _ _ _ => trivial)
      fun _ _ _ _ _ _ _ _ hκ' => ⟨relaying n [], ⟨nofun, hκ'.started, hκ'.start⟩, rfl⟩)
  register := by
    rintro b _ ⟨g, rfl, -⟩
    exact wp_act (does_calm rfl (fun _ _ _ hκ _ => hκ.started n mem_cons_self)
      fun _ _ _ _ _ _ _ _ hκ' => ⟨_, hκ', rfl⟩)
  getServerConn := by
    rintro v _ ⟨g, rfl, hv⟩
    refine wp_act (does_getServerConn_relay relays_relaying ⟨⟨g, rfl, hv⟩, nofun⟩ fun c => ?_)
    refine ⟨⟨c :: g, rfl, fun d hd => mem_cons_of_mem c (hv d hd)⟩, ?_⟩
    rintro _ ⟨⟩
    exact ⟨c :: g, rfl, mem_cons_self⟩
  acquire := by
    rintro role _ ⟨g, rfl, -⟩
    exact wp_mono (wp_acquireForQuery relays_relaying) fun _ _ => Queried.relaying
  swap := by
    rintro c role _ ⟨g, rfl, -⟩
    exact wp_then wp_giveBack fun _ =>
      wp_mono (wp_acquireForQuery relays_relaying) fun _ _ => Queried.relaying
  clear := by
    rintro v c why _ f ⟨g, rfl, hv⟩ - - hf
    exact wp_giveBack_clear relays_relaying (hf _ ⟨g, rfl, hv⟩)
  forward := by
    rintro c msg captured _ ⟨g, rfl, hc⟩
    refine wp_mono (wp_forward (hc c rfl)) ?_
    rintro _ _ rfl
    exact ⟨g, rfl, nofun⟩

theorem wp_forwardServerToClient :
    initialising.wp t (forwardServerToClient cfg n) (fun _ _ => True) (relaying n []) := by
  refine wp_skip rfl rfl fun conn => ?_
  cases conn with
  | none => trivial
  | some c =>
    refine wp_mono (handling.wp_serverLoop ?_ ⟨[], rfl, nofun⟩)
      fun _ _ _ => trivial
    rintro o κ (rfl | rfl | ⟨reply, rfl⟩)
    · exact wp_act ⟨nofun, fun _ _ _ _ _ _ _ h => nomatch h⟩
    · exact wp_last rfl rfl fun _ => rfl
    · exact wp_last rfl rfl fun _ => rfl

theorem wp_relayGoroutine {body : Prog Unit}
    (h : initialising.wp t body (fun _ _ => True) (relaying n [])) :
    initialising.wp t (relayGoroutine n body) (fun _ κ' => initialising.Final t κ') {} := by
  refine wp_act_bind (does_calm rfl (fun _ _ _ _ _ => trivial) ?_)
  intro s ch r s' _ _ _ hexec hκ'
  simp only [exec] at hexec
  split at hexec <;> cases hexec
  rename_i hstart
  refine ⟨relaying n [], ⟨hκ'.ready, ?_, hκ'.start⟩, ?_⟩
  · intro m hm
    cases mem_singleton.mp hm
    exact hstart
  · apply wp_seq h
    intro _ κ' _
    refine wp_skip rfl rfl fun _ => ?_
    exact wp_last rfl rfl fun _ => final

/-! ## The clean-up, and timeouts -/

theorem wp_onClientDisconnect (hn : κ.Relays n) :
    initialising.wp t (onClientDisconnect cfg n) (fun _ κ' => κ' = κ) κ := by
  refine wp_skip rfl rfl fun held => ?_
  cases held with
  | none => rfl
  | some conn =>
    exact wp_then wp_release fun _ => wp_act (does_setServerConn_relay hn nofun rfl)

theorem wp_cleanup (hn : κ.Relays n) : initialising.wp (.handle n) (cleanup cfg n)
      (fun _ κ' => initialising.Final (.handle n) κ') κ := by
  refine wp_skip rfl rfl fun _ => ?_
  refine wp_then (wp_onClientDisconnect hn) fun _ => ?_
  refine wp_skip rfl rfl fun held => ?_
  cases held with
  | none => exact wp_last rfl rfl fun _ => final
  | some conn =>
    refine wp_then wp_release fun _ => ?_
    refine wp_act_bind (does_of (fun _ _ _ _ _ => rfl) ?_)
    intro s ch r s' _ hκ _ _ hrely
    refine ⟨κ, ⟨fun c hc => hrely.ready c (hκ.ready c hc),
      fun m hm => hrely.started m (hκ.started m hm), ?_⟩, ?_⟩
    · rw [hn.start]
      exact fun _ h => nomatch h
    · exact wp_last rfl rfl fun _ => final

/-- What `Handle` knows while it cleans up after a start-up that has failed. -/
def Fails (n : SessionId) (κ : Know) : Prop := ∃ S, κ.start = some S ∧ S.session = n

theorem wp_onClientDisconnect_start (h : Fails n κ) :
    initialising.wp t (onClientDisconnect cfg n) (fun _ => Fails n) κ := by
  obtain ⟨S, hS, hn⟩ := h
  refine wp_act_bind (does_getServerConn hS hn ?_)
  cases S.serverConn with
  | none => exact ⟨S, hS, hn⟩
  | some conn =>
    exact wp_then wp_release fun _ => wp_act (does_setServerConn hS hn ⟨_, rfl, hn⟩)

theorem wp_cleanup_start (h : Fails n κ) :
    initialising.wp t (cleanup cfg n) (fun _ κ' => initialising.Final t κ') κ := by
  refine wp_skip rfl rfl fun _ => ?_
  apply wp_seq (wp_onClientDisconnect_start h)
  rintro _ _ ⟨S, hS, hn⟩
  refine wp_skip rfl rfl fun held => ?_
  cases held with
  | none => exact wp_last rfl rfl fun _ => final
  | some conn =>
    refine wp_then wp_release fun _ => ?_
    refine wp_act_bind (does_setPsConn hS hn ?_)
    exact wp_last rfl rfl fun _ => final

theorem wp_sendRollbackToBackend (hn : κ.Relays n) :
    initialising.wp t (sendRollbackToBackend cfg n) (fun _ κ' => κ' = κ) κ := by
  refine wp_skip rfl rfl fun _ => ?_
  refine wp_skip rfl rfl fun held => ?_
  cases held with
  | none => exact wp_last rfl rfl fun _ => rfl
  | some serverConn =>
    refine wp_skip rfl rfl fun _ => ?_
    exact wp_then (wp_onClientDisconnect hn) fun _ => wp_last rfl rfl fun _ => rfl

theorem wp_checkTimeouts {l0 : List SessionId} :
    initialising.wp t (checkTimeouts cfg) (fun _ κ' => ∃ l, κ' = { started := l })
      { started := l0 } := by
  refine wp_act_bind (does_calm rfl (fun _ _ _ _ _ => trivial) ?_)
  intro s ch r s' hinv _ _ hexec hκ'
  rcases r with ⟨l, l'⟩
  refine ⟨{ started := (l ++ l').filterMap Prod.fst }, { hκ' with started := ?_ }, ?_⟩
  · intro n hn
    rcases txn_of_timeouts hexec hn with ⟨x, k, hk, rfl⟩
    exact started_of_changes (changes_of_exec hexec) (hinv.txn x k hk)
  · show initialising.wp t (abortAll cfg .aborted l >>= fun _ => abortAll cfg .idle l') _ _
    refine wp_then (wp_abortAll (passes t) fun m x hm => ?_) fun _ => wp_mono
      (wp_abortAll (passes t) fun m x hm => ?_) fun _ κ hκ => ⟨_, hκ⟩
    · refine wp_sendRollbackToBackend ⟨?_, rfl⟩
      exact mem_filterMap.mpr ⟨_, mem_append_left _ hm, rfl⟩
    · refine wp_sendRollbackToBackend ⟨?_, rfl⟩
      exact mem_filterMap.mpr ⟨_, mem_append_right _ hm, rfl⟩

theorem wp_monitorLoop {l : List SessionId} :
    initialising.wp t (monitorLoop cfg k) (fun _ κ' => initialising.Final t κ')
      { started := l } := by
  induction k generalizing l with
  | zero => exact wp_act ⟨nofun, fun _ _ _ _ _ _ _ h => nomatch h⟩
  | succ k ih =>
    apply wp_seq wp_checkTimeouts
    rintro _ _ ⟨l, rfl⟩
    exact ih

/-! ## `Handle` -/

/-- `Handle` acquires a connection before the relay is started: a new one at
first, and then a used one. -/
theorem wp_onClientConnect (hn : S.session = n) : initialising.wp t (onClientConnect cfg n)
      (fun r κ' => κ' = { ready := g, start := some S } ∧ (cfg.mode = .session → r ≠ .ok ()) ∨
        cfg.mode = .session ∧ r = .ok () ∧ ∃ c, S.psConn = none ∧
            κ' = { ready := g, start := some { S with serverConn := some c, hand := some c } } ∨
          S.psConn ≠ none ∧ κ' = { ready := c :: g, start := some { S with serverConn := some c } })
      { ready := g, start := some S } := by
  unfold onClientConnect
  cases hmode : cfg.mode with
  | session =>
    have hkind : Know.Begins { ready := g, start := some S } n ∨
        Know.Goes { ready := g, start := some S } n := by
      cases hps : S.psConn with
      | none => exact .inl ⟨S, rfl, hn, hps⟩
      | some c => exact .inr (.inr ⟨S, rfl, hn, by rw [hps]; nofun⟩)
    apply wp_seq (wp_acquireWith hkind)
    intro result κ' hκ'
    cases result with
    | error err => exact .inl ⟨hκ', fun _ => nofun⟩
    | ok c =>
      rcases hκ' with ⟨⟨S', hS', -, hps⟩, rfl⟩ | ⟨hgoes, rfl⟩
      · cases hS'
        exact wp_act_bind (does_setServerConn rfl hn
          (.inr ⟨rfl, rfl, c, .inl ⟨hps, rfl⟩⟩))
      · rcases hgoes with hm | ⟨S', hS', -, hps⟩
        · cases hm
        · cases hS'
          exact wp_act_bind (does_setServerConn rfl hn
            (.inr ⟨rfl, rfl, c, .inr ⟨hps, rfl⟩⟩))
  | transaction | statement => exact .inl ⟨rfl, nofun⟩

/-- What `Handle` knows at its beginning. -/
def blank (n : SessionId) : Know := { start := some { session := n } }

/-- What it knows when it has a connection for the start-up. -/
def taken (n : SessionId) (c : ConnId) : Know :=
  { start := some { session := n, psConn := some c, serverConn := some c, hand := some c } }

theorem wp_takeServerConn : initialising.wp t (takeServerConn cfg n) (fun r κ' => match r with
        | .ok c => cfg.mode = .session ∧ κ' = taken n c
        | .error _ => Fails n κ') (blank n) := by
  apply wp_seq (wp_onClientConnect (S := { session := n }) rfl)
  rintro result κ' (⟨rfl, -⟩ | ⟨hmode, rfl, c, ⟨-, rfl⟩ | ⟨hps, -⟩⟩)
  · cases result with
    | error err => exact ⟨_, rfl, rfl⟩
    | ok u =>
      exact wp_act_bind (does_getServerConn rfl rfl ⟨_, rfl, rfl⟩)
  · refine wp_act_bind (does_getServerConn
      rfl rfl ?_)
    exact wp_act_bind (does_setPsConn
      rfl rfl ⟨hmode, rfl⟩)
  · exact absurd rfl hps

/-- What `Handle` knows when the start-up has succeeded. -/
def Begun (n : SessionId) (κ : Know) : Prop :=
  ∃ g S, κ = { ready := g, start := some S } ∧ S.session = n ∧ S.psConn ≠ none

theorem Begun.fails (h : Begun n κ) : Fails n κ := by
  obtain ⟨g, S, rfl, hn, -⟩ := h
  exact ⟨S, rfl, hn⟩

/-- The exchange is made on the connection that has been created for it. -/
theorem does_exchange {Q : Bool → Know → Prop} (hQ : ∀ ok κ, Begun n κ → Q ok κ) :
    initialising.Does t (.exchange n c) Q (taken n c) := by
  refine does_of (fun s _ _ hκ _ => ?_) ?_
  · have h := hκ.start _ rfl
    exact ⟨h.self, h.hand c rfl⟩
  · intro s ch r s' _ hκ _ hexec _
    have h := hκ.start _ rfl
    let S : Start := { session := n, psConn := some c, serverConn := some c }
    refine ⟨{ start := some S }, ⟨nofun, nofun, ?_⟩, hQ _ _ ⟨[], S, rfl, rfl, nofun⟩⟩
    rintro S' hS'
    cases hS'
    cases hexec
    have hset : S.Holds (s.setSession n fun k => { k with exchanged := some (decide (ch = .ok) &&
        !(s.conn c).closed) }) t :=
      Start.Holds.setSession (S := S) ⟨h.self, h.started, h.psConn, h.serverConn, nofun⟩ rfl rfl rfl
        h.psConn h.serverConn
    exact ⟨hset.self, hset.started, hset.psConn, hset.serverConn, nofun⟩

theorem wp_handleStartup : initialising.wp t (handleStartup cfg n)
      (fun r κ' => r ≠ .ok () ∧ Fails n κ' ∨ cfg.mode = .session ∧ Begun n κ') (blank n) := by
  refine Proxy.wp_handleStartup (passes t) ⟨_, rfl, rfl⟩ wp_takeServerConn ?_ ?_
  · rintro c _ ⟨hmode, rfl⟩
    exact wp_act (does_exchange fun _ _ hκ => ⟨hmode, hκ⟩)
  · rintro c _ ⟨hmode, rfl⟩
    exact ⟨hmode, [], _, rfl, rfl, nofun⟩

/-- The relay is started for a session that refers to a connection which is
ready, or to none. -/
theorem wp_relayRun (hn : S.session = n) (hready : ∀ c, S.serverConn = some c → c ∈ g) :
    initialising.wp t (relayRun n) (fun _ κ' => κ'.Relays n) { ready := g, start := some S } := by
  have hrelays : Know.Relays { started := [n] } n := ⟨mem_cons_self, rfl⟩
  subst hn
  refine wp_act_bind (does_of ?_ ?_)
  · intro s ch _ hκ _
    have h := hκ.start S rfl
    exact ⟨h.self, fun c hc => hκ.ready c (hready c (h.serverConn.symm.trans hc))⟩
  · intro s ch r s' _ _ _ hexec _
    cases hexec
    refine ⟨{ started := [S.session] }, ⟨nofun, ?_, nofun⟩, ?_⟩
    · intro m hm
      cases mem_singleton.mp hm
      rw [session_self]
    · refine wp_skip rfl rfl fun _ => ?_
      refine wp_skip rfl rfl fun _ => ?_
      refine wp_skip rfl rfl fun _ => ?_
      refine wp_mono (wp_awaitGoroutines (k := 2) (passes t)) ?_
      rintro _ _ rfl
      exact hrelays

theorem wp_handle : initialising.wp (.handle n) (handle cfg n)
      (fun _ κ' => initialising.Final (.handle n) κ') (blank n) := by
  refine wp_skip rfl rfl fun _ => ?_
  apply wp_seq wp_handleStartup
  intro result κ' hκ'
  have hfails : Fails n κ' := hκ'.elim And.right fun h => h.2.fails
  cases result with
  | error err => exact wp_cleanup_start hfails
  | ok u =>
    rcases hκ' with ⟨h, -⟩ | ⟨hmode, g, S, rfl, hn, hps⟩
    · exact absurd rfl h
    · apply wp_seq (wp_onClientConnect hn)
      rintro result κ' (⟨rfl, hfail⟩ | ⟨-, rfl, c, ⟨hnone, -⟩ | ⟨-, rfl⟩⟩)
      · cases result with
        | error err => exact wp_cleanup_start hfails
        | ok u => exact absurd rfl (hfail hmode)
      · exact absurd hnone hps
      · refine wp_seq (wp_relayRun hn ?_) ?_
        · rintro d hd
          cases hd
          exact mem_cons_self
        · exact fun _ _ hrelays => wp_cleanup hrelays

theorem wp_handleRelay : initialising.wp (.handle n) (handleRelay cfg n)
      (fun _ κ' => initialising.Final (.handle n) κ') (blank n) := by
  refine wp_skip rfl rfl fun _ => ?_
  apply wp_seq (wp_relayRun (S := { session := n }) rfl nofun)
  exact fun _ _ hrelays => wp_cleanup hrelays

/-! ## The other goroutines -/

theorem wp_background {p : Prog Unit} (hp : p.Uses Background) :
    initialising.wp t p (fun _ κ' => initialising.Final t κ') κ := by
  refine wp_mono (Prog.wp_of_uses hp fun o ho => ?_) fun _ _ _ => final
  cases o
  case stuck => exact ⟨nofun, fun _ _ _ _ _ _ _ h => nomatch h⟩
  all_goals first
    | exact ho.elim
    | exact does_calm rfl (fun _ _ _ _ _ => trivial) fun _ _ _ _ _ _ _ _ hκ => ⟨κ, hκ, rfl⟩

/-! ## The system -/

theorem allReady_start : AllReady {} := ⟨nofun, nofun, nofun, nofun, fun _ _ => rfl⟩

theorem knows_start : ({} : Know).Holds {} t := ⟨nofun, nofun, nofun⟩

theorem knows_blank : (blank n).Holds {} (.handle n) := by
  refine ⟨nofun, nofun, ?_⟩
  intro S hS
  cases hS
  exact ⟨rfl, rfl, rfl, rfl, nofun⟩

theorem system_initialising (cfg : PoolConfig) (users : Users) :
    initialising.Within (system cfg users) := by
  refine ⟨allReady_start, fun t => ?_⟩
  cases t with
  | handle n =>
    refine ⟨blank n, knows_blank, ?_⟩
    simp only [system]
    cases users.entry n with
    | handle => exact wp_handle
    | relay => exact wp_handleRelay
  | clientToServer n =>
    exact ⟨{}, knows_start, wp_relayGoroutine
      (wp_mono handling.wp_forwardClientToServer fun _ _ _ => trivial)⟩
  | serverToClient n =>
    exact ⟨{}, knows_start, wp_relayGoroutine wp_forwardServerToClient⟩
  | monitor => exact ⟨{}, knows_start, wp_monitorLoop⟩
  | prefetch => exact ⟨{}, knows_start, wp_background uses_prefetchConns⟩
  | admin i => exact ⟨{}, knows_start, wp_background uses_adminCalls⟩
  | caller i => exact ⟨{}, knows_start, final⟩
  | backend => exact ⟨{}, knows_start, wp_background uses_backendLoop⟩

/-- Messages are written to connections on which one start-up exchange has
been made, with success, and no exchange is made on a connection that has seen
one. -/
structure WritesReady (C : Cond proxy) (cfg : Config proxy) : Prop where
  write : ∀ t n c effect captured ch, cfg.Performs C t (.write n c effect captured) ch →
    (cfg.state.conn c).startups = [true]
  exchange : ∀ t n c ch, cfg.Performs C t (.exchange n c) ch → (cfg.state.conn c).startups = []

/-- In every run that meets the condition, messages go to connections whose
start-up is done, and no start-up is made twice. -/
theorem writes_ready {users : Users} {cfg' : Config proxy}
    (hrun : Run initialisesFirst (system cfg users) cfg') : WritesReady initialisesFirst cfg' := by
  refine ⟨?_, ?_⟩
  · intro t n c effect captured ch hperf
    exact guarantee_of_performs (system_initialising cfg users) (fun _ _ _ _ => id) hrun hperf
  · intro t n c ch hperf
    have h : t = .handle n ∧ New cfg'.state n c :=
      guarantee_of_performs (system_initialising cfg users) (fun _ _ _ _ => id) hrun hperf
    exact h.2.startups

/-- Two sessions have started up a connection each, and both wait for a second one. The
first times out, and its clean-up releases its connection to the other one, which is
about to write a query to it. -/
theorem writes_ready_waiter : ∃ cfg', Run initialisesFirst (system smallPool (sends 1 [{}])) cfg' ∧
      cfg'.Performs initialisesFirst (.clientToServer 1) (.write 1 0 .keeps false) .ok ∧
      (cfg'.state.conn 0).startups = [true] := by
  rcases exists_run_of_follow initialisesFirst (system smallPool (sends 1 [{}]))
    (fun cfg' => cfg'.Performs initialisesFirst (.clientToServer 1) (.write 1 0 .keeps false) .ok)
    (alone (.handle 0) (Ownership.connects ++ [.ok]) ++
      alone (.handle 1) (Ownership.connects ++ [.ok]) ++
      alone (.handle 0) (oks 5) ++ alone (.handle 1) (oks 5) ++
      alone (.handle 0) [.fail, .ok, .ok, .ok, .ok, .ok] ++
      alone (.handle 1) (oks 5) ++
      alone (.clientToServer 1) (oks 6))
    (by decide +kernel) with ⟨cfg', hrun, hperf⟩
  exact ⟨cfg', hrun, hperf, (writes_ready hrun).write _ _ _ _ _ _ hperf⟩

/-- `Handle` starts up its first connection and is given a new one the second
time: the client's query is about to be written to a connection that has seen
no start-up. -/
theorem second_connection_not_started :
    ¬ ∀ (cfg : PoolConfig) (users : Users) (cfg' : Config proxy),
      Run anyStep (system cfg users) cfg' → WritesReady anyStep cfg' := by
  intro h
  rcases exists_run_of_follow anyStep (system smallPool (sends 0 [{}]))
    (fun cfg' =>
      cfg'.Performs anyStep (.clientToServer 0) (.write 0 1 .keeps false) .ok ∧
        (cfg'.state.conn 1).startups = [])
    (relays 6) (by decide +kernel) with
    ⟨cfg', hrun, hbad⟩
  rcases hbad with ⟨hperf, hnone⟩
  have hdone := (h _ _ cfg' hrun).write _ _ _ _ _ _ hperf
  rw [hnone] at hdone
  cases hdone

end Geryon.Initialised
