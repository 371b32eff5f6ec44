import Geryon.Conc.Turns
import Geryon.Proxy.Proxy

/-!
# The connections that one session holds

The relay of one session in transaction or statement mode: the goroutines of
`Relay.Run` and the clean-up of `Handle`, interleaved operation by operation.
The programs are those of `Proxy`; the state is that of the session alone, from
`NewSession` on, with what it has acquired and released.  The pool gives it a
connection or refuses, and takes back what it releases.  Replies reach
`forwardServerToClient`, as they would if the start-up left it a connection.

In transaction mode a connection is kept beyond the end of a transaction that
`IsTransactionEnd` does not recognise, and in statement mode one is lost
whenever a message is handled before the last one is complete.
-/

namespace Geryon.Holding

open Conc Pool Proxy List

/-! ## The machine -/

/-- The fields of a session that its strategy works with, as `NewSession` sets
them, and below bookkeeping. -/
structure Held where
  inTxn : Bool := false
  autoRelease : Bool := true
  targetRole : Option Role := none
  serverConn : Option ConnId := none
  acquired : List ConnId := []
  released : List ConnId := []
  /-- Who is handling a message or a reply, or cleaning up. -/
  turn : Option Thread := none
  /-- A connection has been acquired, and no idle `ReadyForQuery` processed since. -/
  pending : Bool := false
  /-- `serverConn` was acquired in a transaction, or one was begun on it. -/
  begun : Bool := false
  /-- An idle `ReadyForQuery` has been processed, and no message handled since. -/
  idle : Bool := false
  /-- `Handle` has cleaned up. -/
  ended : Bool := false

/-- What the outside world decides at an operation. -/
inductive Given where
  | ok
  | fail
  | offer (c : ConnId)
  | reply (r : Reply)
  deriving DecidableEq

def isServer : Thread → Bool
  | .serverToClient _ => true
  | _ => false

def Held.acquire (h : Held) (c : ConnId) : Held :=
  { h with acquired := h.acquired ++ [c], pending := true }

def Held.release (h : Held) (c : ConnId) : Held := { h with released := h.released ++ [c] }

/-- `SetInTransaction`, by a callback or for a reply. -/
def Held.setInTxn (h : Held) (t : Thread) (b : Bool) : Held :=
  { h with inTxn := b, begun := bif b && !isServer t then true else h.begun }

/-- `forwardServerToClient` has processed a reply. -/
def Held.processed (h : Held) (r : Reply) : Held :=
  match r.status with
  | none => { h with turn := none }
  | some true => { h with turn := none, idle := false }
  | some false => { h with turn := none, idle := true, pending := false }

def hold (h : Held) (t : Thread) : (o : Op) → Given → Option (o.Ret × Held)
  | .acquire _, .offer c => some (some c, h.acquire c)
  | .acquire _, _ => some (none, h)
  | .sizeBelow _ _, _ => some (false, h)
  | .enqueue _ _, _ => some (none, h)
  | .signal _ c, _ => some (true, h.release c)
  | .getServerConn _, _ => some (h.serverConn, h)
  | .setServerConn _ v, _ => some ((), { h with serverConn := v, begun := h.inTxn })
  | .getPsConn _, _ => some (none, h)
  | .getTargetRole _, _ => some (h.targetRole, h)
  | .setTargetRole _ role, _ => some ((), { h with targetRole := some role })
  | .getInTxn _, _ => some (h.inTxn, h)
  | .setInTxn _ b, _ => some ((), h.setInTxn t b)
  | .getAutoRelease _, _ => some (h.autoRelease, h)
  | .setAutoRelease _ b, _ => some ((), { h with autoRelease := b })
  | .register _ _, _ => some (0, h)
  | .setStatus _ _, _ | .unregister _, _ | .acquireFailed _, _ | .giveUp _ _ _, _ => some ((), h)
  | .ctxDone, ch => some (decide (ch = .fail), h)
  | .readClient _, ch | .sendCached _, ch | .write _ _ _ _, ch | .writeEmpty _, ch =>
    some (decide (ch = .ok), h)
  | .read _ _, .reply r => some (some r, if isServer t then { h with turn := some t } else h)
  | .read _ _, _ => some (none, h)
  | .writeClient _ r, ch => some (decide (ch = .ok), if isServer t then h.processed r else h)
  | .enter _ _, _ => some ((), { h with turn := some t, idle := false })
  | .leave _, _ => some ((), { h with turn := none, ended := h.ended || decide (t = .handle 0) })
  | _, _ => none

@[reducible] def relaying : Machine := proxy.withState Held Given hold

/-- A session whose client sends these messages. -/
def relay (cfg : PoolConfig) (msgs : List ClientMessage) : Config relaying where
  state := {}
  prog
    | .clientToServer 0 => (forwardClientToServer cfg 0 none msgs).transfer
    | .serverToClient 0 => (serverLoop cfg 0 0 cfg.rounds).transfer
    | .handle 0 => (cleanup cfg 0).transfer
    | _ => .pure ()

/-! ## Conditions -/

/-- A message is handled, a reply is read and the session is cleaned up only
while nobody else runs callbacks. -/
def inTurn : Cond relaying := fun h t o ch =>
  match o, ch with
  | .enter _ _, _ => h.turn.isNone
  | .read _ _, .reply _ => !isServer t || h.turn.isNone
  | _, _ => true

/-- And an idle `ReadyForQuery` is not read while the session has a connection
on which it has begun a transaction: this has been ended by a message that
`IsTransactionEnd` recognises. -/
def endsSeen : Cond relaying := fun h t o ch =>
  inTurn h t o ch &&
    match o, ch with
    | .read _ _, .reply r =>
      !isServer t || decide (r.status ≠ some false) || h.serverConn.isNone || !h.begun
    | _, _ => true

/-- And a connection is acquired for a message only when an idle `ReadyForQuery`
has been processed since the last one, and before the clean-up. -/
def oneByOne : Cond relaying := fun h t o ch =>
  inTurn h t o ch &&
    match o with
    | .acquire _ => !h.pending && !h.ended
    | _ => true

/-! ## Programs in a turn -/

section Rules

variable {C : Cond relaying} {P : List ConnId → List ConnId → Bool → Prop} {I : Held → Prop}
  {t : Thread} {α β : Type} {Q : α → Option Held → Prop} {h h' : Held} {cfg : PoolConfig}

/-- The discipline of a session: `P` is about what has been acquired and
released. -/
abbrev Can (C : Cond relaying) (P : List ConnId → List ConnId → Bool → Prop) (I : Held → Prop)
    (t : Thread) (p : Prog α) (Q : α → Option Held → Prop) (κ : Option Held) : Prop :=
  (turns (M := relaying) Held.turn C (fun h => P h.acquired h.released h.ended) I).wp t p.transfer
    Q κ

theorem can_seq {p : Prog α} {f : α → Prog β} {Q : β → Option Held → Prop} {κ : Option Held}
    (hp : Can C P I t p (fun a κ' => Can C P I t (f a) Q κ') κ) : Can C P I t (p.bind f) Q κ :=
  Discipline.wp_transfer_bind hp

theorem can_pure {a : α} {κ : Option Held} (hQ : Q a κ) : Can C P I t (.pure a) Q κ := hQ

/-- An operation whose answer and effect are known. -/
theorem can_step {o : Op} {f : o.Ret → Prog α} {r : o.Ret}
    (hexec : ∀ ch, hold h t o ch = some (r, h'))
    (hP : P h.acquired h.released h.ended → P h'.acquired h'.released h'.ended)
    (hturn : h'.turn = h.turn) (hf : Can C P I t (f r) Q (some h')) :
    Can C P I t (act o >>= f) Q (some h) := by
  refine Turns.does_within fun ch r' h'' _ hp ht hexec' => ?_
  cases (hexec ch).symm.trans hexec'
  exact ⟨hP hp, .inl ⟨hturn.trans ht, hf⟩⟩

/-- An operation that leaves the session as it is. -/
theorem can_ask {o : Op} {f : o.Ret → Prog α} (hexec : ∀ ch r h', hold h t o ch = some (r, h') → h' = h)
    (hf : ∀ r, Can C P I t (f r) Q (some h)) : Can C P I t (act o >>= f) Q (some h) := by
  refine Turns.does_within fun ch r h' _ hp ht hexec' => ?_
  cases hexec ch r h' hexec'
  exact ⟨hp, .inl ⟨ht, hf r⟩⟩

theorem can_release {c : ConnId} {Q : Unit → Option Held → Prop}
    (hP : P h.acquired (h.released ++ [c]) h.ended) (hQ : Q () (some (h.release c))) :
    Can C P I t (release cfg 0 c) Q (some h) :=
  can_step (fun _ => rfl) (fun _ => hP) rfl hQ

theorem can_giveBack {c : ConnId} {why : Reason} {Q : Unit → Option Held → Prop}
    (hP : P h.acquired (h.released ++ [c]) h.ended) (hQ : Q () (some (h.release c))) :
    Can C P I t (giveBack cfg 0 c why) Q (some h) :=
  can_step (fun _ => rfl) id rfl (can_release hP hQ)

theorem can_acquireWith {create : Prog (Except PoolError ConnId)}
    {Q : Except PoolError ConnId → Option Held → Prop}
    (hok : ∀ c, C h t (.acquire 0) (.offer c) = true →
      P (h.acquired ++ [c]) h.released h.ended ∧ Q (.ok c) (some (h.acquire c)))
    (herr : ∀ err, Q (.error err) (some h)) :
    Can C P I t (acquireWith cfg 0 create) Q (some h) := by
  have hacquire : ∀ {f : Option ConnId → Prog (Except PoolError ConnId)},
      (∀ c, f (some c) = .pure (.ok c)) → Can C P I t (f none) Q (some h) →
      Can C P I t (act (.acquire 0) >>= f) Q (some h) := by
    intro f hsome hnone
    refine Turns.does_within fun ch r h' hcond hp ht hexec => ?_
    cases ch with
    | offer c =>
      cases hexec
      refine ⟨(hok c hcond).1, .inl ⟨ht, ?_⟩⟩
      show Can C P I t (f (some c)) Q _
      rw [hsome c]
      exact (hok c hcond).2
    | ok | fail | reply =>
      cases hexec
      exact ⟨hp, .inl ⟨ht, hnone⟩⟩
  refine hacquire (fun _ => rfl) (can_step (fun _ => rfl) id rfl ?_)
  exact hacquire (fun _ => rfl) (can_step (fun _ => rfl) id rfl (herr _))

/-- The session after `OnQuery` has acquired a connection. -/
def Held.taken (h : Held) (c : ConnId) : Held :=
  { h.acquire c with serverConn := some c, begun := h.inTxn }

theorem can_acquireForQuery {role : Option Role} {Q : Except PoolError ConnId → Option Held → Prop}
    (hok : ∀ c, C h t (.acquire 0) (.offer c) = true →
      P (h.acquired ++ [c]) h.released h.ended ∧ Q (.ok c) (some (h.taken c)))
    (herr : ∀ err, Q (.error err) (some h)) :
    Can C P I t (acquireForQuery cfg 0 role) Q (some h) := by
  cases role
  all_goals
    refine can_seq (can_acquireWith (fun c hcond => ⟨(hok c hcond).1, ?_⟩) fun err => ?_)
    · exact can_step (fun _ => rfl) id rfl (hok c hcond).2
    · exact can_step (fun _ => rfl) id rfl (herr err)

variable {n : SessionId} {c : ConnId} {msg : ClientMessage}

theorem can_captureLoop {rounds : Nat} {Q : Bool → Option Held → Prop}
    (hQ : ∀ ok, Q ok (some h)) :
    Can C P I (.clientToServer 0) (captureLoop n c rounds) Q (some h) := by
  induction rounds with
  | zero => exact Turns.does_within fun ch r h' _ _ _ hexec => by cases hexec
  | succ rounds ih =>
    refine can_ask (fun ch r h' hexec => by cases ch <;> cases hexec <;> rfl) fun r => ?_
    cases r with
    | none => exact hQ false
    | some reply =>
      refine can_ask (fun ch r h' hexec => by cases hexec; rfl) fun ok => ?_
      cases ok with
      | false => exact hQ false
      | true =>
        cases reply.ready with
        | true => exact hQ true
        | false => exact ih

theorem can_forward {captured : Bool} {Q : Bool → Option Held → Prop} (hQ : ∀ ok, Q ok (some h)) :
    Can C P I (.clientToServer 0) (forward cfg n c msg captured) Q (some h) := by
  refine can_ask (fun ch r h' hexec => by cases hexec; rfl) fun ok => ?_
  cases ok with
  | false => exact hQ false
  | true =>
    cases captured with
    | false => exact hQ true
    | true => exact can_captureLoop hQ

/-- After the callback, or part of one. -/
abbrev Ends (R : Held → Prop) : α → Option Held → Prop := fun _ κ => ∃ h', κ = some h' ∧ R h'

theorem can_mono {R R' : Held → Prop} {p : Prog α} {κ : Option Held}
    (hp : Can C P I t p (Ends R) κ) (hR : ∀ h, R h → R' h) : Can C P I t p (Ends R') κ :=
  Discipline.wp_mono hp fun _ _ ⟨h', hκ, hR'⟩ => ⟨h', hκ, hR h' hR'⟩

/-- What `onQuery` of the relay does after that of the strategy. -/
def trackQuery (cfg : PoolConfig) (msg : ClientMessage) (c : ConnId) :
    Prog (Except PoolError ConnId) := do
  if msg.begins then onTransactionBegin cfg 0
  else if msg.ends then onTransactionEnd cfg 0
  return .ok c

theorem can_onQuery {Q S : Except PoolError ConnId → Option Held → Prop}
    (hquery : ∀ role, Can C P I t (Pool.onQuery cfg 0 msg.begins) S
      (some { h with targetRole := role }))
    (herr : ∀ err κ, S (.error err) κ → Q (.error err) κ)
    (hok : ∀ c κ, S (.ok c) κ → Can C P I t (trackQuery cfg msg c) Q κ) :
    Can C P I t (Proxy.onQuery cfg 0 msg) Q (some h) := by
  have hnext : ∀ (role : Option Role) (f : Except PoolError ConnId → Prog (Except PoolError ConnId)),
      (∀ err, f (.error err) = .pure (.error err)) →
      (∀ c, f (.ok c) = trackQuery cfg msg c) →
      Can C P I t ((Pool.onQuery cfg 0 msg.begins).bind f) Q (some { h with targetRole := role }) := by
    intro role f hferr hfok
    refine can_seq (Discipline.wp_mono (hquery role) fun result κ hS => ?_)
    cases result with
    | error err =>
      rw [hferr]
      exact herr err κ hS
    | ok c =>
      rw [hfok]
      exact hok c κ hS
  unfold Proxy.onQuery
  cases msg.route with
  | none => exact hnext h.targetRole _ (fun _ => rfl) (fun _ => rfl)
  | some role => exact can_step (fun _ => rfl) id rfl (hnext _ _ (fun _ => rfl) (fun _ => rfl))

/-- What a message does, from `OnQuery` and `OnQueryComplete`. -/
theorem can_handleMessage {R : Held → Prop}
    (hquery : Can C P I (.clientToServer 0) (Proxy.onQuery cfg 0 msg) (Ends R) (some h))
    (hcomplete : ∀ h', R h' →
      Can C P I (.clientToServer 0) (onQueryComplete cfg 0) (Ends R) (some h')) :
    Can C P I (.clientToServer 0) (handleMessage cfg 0 msg) (Ends R) (some h) := by
  refine can_seq (Discipline.wp_mono hquery ?_)
  rintro (err | c) _ ⟨h', rfl, hR⟩
  · exact ⟨h', rfl, hR⟩
  · have hforward : Can C P I (.clientToServer 0)
        ((forward cfg 0 c msg (msg.cache ≠ .bypass)).bind fun ok =>
          if ok then do
            if msg.sync then onQueryComplete cfg 0
            return true
          else return false) (Ends R) (some h') := by
      refine can_seq (can_forward fun ok => ?_)
      cases ok with
      | false => exact ⟨h', rfl, hR⟩
      | true =>
        cases hsync : msg.sync with
        | false => exact ⟨h', rfl, hR⟩
        | true => exact can_seq (Discipline.wp_mono (hcomplete h' hR) fun _ _ hR' => hR')
    cases msg.reprepare with
    | false => exact hforward
    | true => exact can_ask (fun ch r h' hexec => by cases hexec; rfl) fun _ => hforward

end Rules

/-! ## The relay -/

/-- What holds while nobody runs callbacks, as far as the relay itself is
concerned. -/
structure Rests (I : Held → Prop) : Prop where
  turn : ∀ {h v}, I h → I { h with turn := v }
  busy : ∀ {h v}, I h → I { h with turn := v, idle := false }
  inTxn : ∀ {h n b}, I h → I (h.setInTxn (.serverToClient n) b)
  idle : ∀ {h}, I h → h.serverConn = none → I { h with turn := none, idle := true, pending := false }
  ended : ∀ {h}, I h → h.serverConn = none → I { h with turn := none, ended := true }

/-- The callbacks keep it, and what a session has acquired and released is as it
should be. -/
structure Serves (C : Cond relaying) (P : List ConnId → List ConnId → Bool → Prop) (I : Held → Prop)
    (cfg : PoolConfig) : Prop where
  cond : ∀ h t o ch, C h t o ch = true → inTurn h t o ch = true
  message : ∀ msg h, I h → h.idle = false →
    Can C P I (.clientToServer 0) (handleMessage cfg 0 msg) (Ends I) (some h)
  /-- The reply that is processed is one that `C` admits. -/
  complete : ∀ h r, I h → r.status = some false → C h (.serverToClient 0) (.read 0 0) (.reply r) = true →
    ∀ v, Can C P I (.serverToClient 0) (onQueryComplete cfg 0)
      (Ends fun h' => I h' ∧ h'.serverConn = none)
      (some (({ h with turn := v } : Held).setInTxn (.serverToClient 0) false))
  disconnect : ∀ h, I h → Can C P I (.handle 0) (onClientDisconnect cfg 0)
    (Ends fun h' => I h' ∧ h'.serverConn = none) (some h)
  finished : ∀ h, I h → h.serverConn = none → P h.acquired h.released h.ended →
    P h.acquired h.released true

section Relay

variable {C : Cond relaying} {P : List ConnId → List ConnId → Bool → Prop} {I : Held → Prop}
  {cfg : PoolConfig} {α : Type} {t : Thread} {Q : α → Option Held → Prop} {h : Held}

theorem can_enter (hI : Rests I) (hS : Serves C P I cfg) {region : Region} {f : Unit → Prog α}
    (hf : ∀ h, I h → h.idle = false → Can C P I t (f ()) Q (some h)) :
    Can C P I t (act (.enter 0 region) >>= f) Q none := by
  refine Turns.does_take fun h ch r h' hcond hp hexec => ?_
  have hturn := hS.cond _ _ _ _ hcond
  refine .inr ⟨Option.isNone_iff_eq_none.mp hturn, fun hrest => ?_⟩
  cases hexec
  exact ⟨hp, rfl, hf _ (hI.busy hrest) rfl⟩

/-- An operation without the turn. -/
theorem can_aside {o : Op} {f : o.Ret → Prog α}
    (hexec : ∀ h ch r h', hold h t o ch = some (r, h') → h' = h)
    (hf : ∀ r, Can C P I t (f r) Q none) : Can C P I t (act o >>= f) Q none :=
  Turns.does_aside fun h ch r h' hexec' => ⟨hexec h ch r h' hexec', hf r⟩

theorem can_trackTransaction {info : Option TxnId} {msg : ClientMessage}
    {Q : Option TxnId → Option Held → Prop} (hQ : ∀ info, Q info (some h)) :
    Can C P I t (trackTransaction 0 info msg) Q (some h) := by
  unfold trackTransaction
  split
  · exact can_step (fun _ => rfl) id rfl (can_step (fun _ => rfl) id rfl (hQ _))
  · split
    · cases info with
      | none => exact hQ none
      | some x => exact can_step (fun _ => rfl) id rfl (can_step (fun _ => rfl) id rfl (hQ _))
    · exact hQ info

theorem can_leave (hI : Rests I) {n : SessionId} {f : Unit → Prog α} (hrest : I h)
    (hf : Can C P I (.clientToServer n) (f ()) Q none) :
    Can C P I (.clientToServer n) (act (.leave 0) >>= f) Q (some h) := by
  refine Turns.does_within fun ch r h' _ hp _ hexec => ?_
  cases hexec
  have hended : (h.ended || decide (Thread.clientToServer n = .handle 0)) = h.ended := by simp
  rw [hended]
  exact ⟨hp, .inr ⟨rfl, hI.turn hrest, hf⟩⟩

theorem can_answerOrHandle (hS : Serves C P I cfg) {msg : ClientMessage} (hrest : I h)
    (hidle : h.idle = false) :
    Can C P I (.clientToServer 0) (answerOrHandle cfg 0 msg) (Ends I) (some h) := by
  have hhandle := hS.message msg h hrest hidle
  unfold answerOrHandle
  cases msg.cache with
  | bypass | miss => exact hhandle
  | hit =>
    refine can_ask (fun ch r h' hexec => by cases hexec; rfl) fun ok => ?_
    cases ok with
    | true => exact ⟨h, rfl, hrest⟩
    | false => exact hhandle

theorem can_forwardClientToServer (hI : Rests I) (hS : Serves C P I cfg) {info : Option TxnId}
    {msgs : List ClientMessage} : Can C P I (.clientToServer 0) (forwardClientToServer cfg 0 info msgs)
      (fun _ _ => True) none := by
  induction msgs generalizing info with
  | nil => trivial
  | cons msg msgs ih =>
    refine can_aside (fun h ch r h' hexec => by cases hexec; rfl) fun done => ?_
    cases done with
    | true => trivial
    | false =>
      refine can_aside (fun h ch r h' hexec => by cases hexec; rfl) fun ok => ?_
      cases ok with
      | false => trivial
      | true =>
        cases msg.terminate with
        | true => trivial
        | false =>
          refine can_enter hI hS fun h hrest hidle => can_seq (can_trackTransaction fun info => ?_)
          refine can_seq (Discipline.wp_mono (can_answerOrHandle hS hrest hidle) ?_)
          rintro goesOn _ ⟨h', rfl, hrest'⟩
          refine can_leave hI hrest' ?_
          cases goesOn with
          | true => exact ih
          | false => trivial

theorem can_processed {n : SessionId} {r : Reply} {f : Bool → Prog α}
    (hrest : I (h.processed r)) (hf : ∀ ok, Can C P I (.serverToClient n) (f ok) Q none) :
    Can C P I (.serverToClient n) (act (.writeClient 0 r) >>= f) Q (some h) := by
  refine Turns.does_within fun ch ok h' _ hp _ hexec => ?_
  cases hexec
  have hsame : ∀ r : Reply, (h.processed r).turn = none ∧ (h.processed r).acquired = h.acquired ∧
      (h.processed r).released = h.released ∧ (h.processed r).ended = h.ended := by
    intro r
    unfold Held.processed
    split <;> exact ⟨rfl, rfl, rfl, rfl⟩
  obtain ⟨hturn, hacquired, hreleased, hended⟩ := hsame r
  show P (h.processed r).acquired (h.processed r).released (h.processed r).ended ∧ _
  rw [hacquired, hreleased, hended]
  exact ⟨hp, .inr ⟨hturn, hrest, hf _⟩⟩

theorem can_serverLoop (hI : Rests I) (hS : Serves C P I cfg) {rounds : Nat} :
    Can C P I (.serverToClient 0) (serverLoop cfg 0 0 rounds) (fun _ _ => True) none := by
  induction rounds with
  | zero => exact Turns.does_aside fun h ch r h' hexec => by cases hexec
  | succ rounds ih =>
    refine can_aside (fun h ch r h' hexec => by cases hexec; rfl) fun done => ?_
    cases done with
    | true => trivial
    | false =>
      have hnext : ∀ ok : Bool, Can C P I (.serverToClient 0)
          (if ok then serverLoop cfg 0 0 rounds else return ()) (fun _ _ => True) none := by
        intro ok
        cases ok with
        | true => exact ih
        | false => trivial
      refine Turns.does_take fun h ch r h' hcond hp hexec => ?_
      cases ch with
      | ok | fail | offer =>
        cases hexec
        exact .inl ⟨rfl, trivial⟩
      | reply reply =>
        cases hexec
        have hturn := hS.cond _ _ _ _ hcond
        refine .inr ⟨Option.isNone_iff_eq_none.mp hturn, fun hrest => ⟨hp, rfl, ?_⟩⟩
        have hcomplete := hS.complete h reply hrest
        obtain ⟨origin, last, error, ready, status⟩ := reply
        -- What the relay makes of the reply, and what `Held.processed` records.
        cases status with
        | none => exact can_processed (hI.turn (hI.turn hrest)) hnext
        | some inTxn =>
          cases inTxn with
          | true =>
            exact can_step (fun _ => rfl) id rfl
              (can_processed (hI.busy (hI.inTxn (hI.turn hrest))) hnext)
          | false =>
            refine can_step (fun _ => rfl) id rfl (can_seq (Discipline.wp_mono
              (hcomplete rfl hcond _) ?_))
            rintro _ _ ⟨h', rfl, hrest', hnone⟩
            exact can_processed (hI.idle hrest' hnone) hnext

theorem can_cleanup (hI : Rests I) (hS : Serves C P I cfg) :
    Can C P I (.handle 0) (cleanup cfg 0) (fun _ _ => True) none := by
  refine can_enter hI hS fun h hrest _ => can_seq (Discipline.wp_mono (hS.disconnect h hrest) ?_)
  rintro _ _ ⟨h', rfl, hrest', hnone⟩
  refine can_step (fun _ => rfl) id rfl ?_
  refine Turns.does_within fun ch r h'' _ hp _ hexec => ?_
  cases hexec
  have hended : (h'.ended || decide (Thread.handle 0 = .handle 0)) = true := by simp
  rw [hended]
  exact ⟨hS.finished h' hrest' hnone hp, .inr ⟨rfl, hI.ended hrest' hnone, trivial⟩⟩

/-- All runs of a session. -/
theorem run_relay (hI : Rests I) (hS : Serves C P I cfg) {msgs : List ClientMessage}
    {cfg' : Config relaying} (hstart : I {}) (hP : P [] [] false)
    (hrun : Run C (relay cfg msgs) cfg') :
    P cfg'.state.acquired cfg'.state.released cfg'.state.ended ∧
      (cfg'.state.turn = none → I cfg'.state) := by
  have hwithin : (turns (M := relaying) Held.turn C
      (fun h => P h.acquired h.released h.ended) I).Within (relay cfg msgs) := by
    refine ⟨⟨hP, fun _ => hstart⟩, fun t => ⟨none, ?_, ?_⟩⟩
    · intro heq
      cases heq
    · have hfinal : ∀ κ, (turns (M := relaying) Held.turn C
          (fun h => P h.acquired h.released h.ended) I).Final t κ := fun _ _ _ _ => id
      unfold relay
      dsimp only
      split
      · exact Discipline.wp_mono (can_forwardClientToServer hI hS) fun _ κ _ => hfinal κ
      · exact Discipline.wp_mono (can_serverLoop hI hS) fun _ κ _ => hfinal κ
      · exact Discipline.wp_mono (can_cleanup hI hS) fun _ κ _ => hfinal κ
      · exact hfinal none
  exact (Discipline.sound hwithin hrun).1

end Relay

/-! ## Transaction mode -/

/-- A connection on which no transaction has been begun is released when the
query is complete, and after an idle `ReadyForQuery` there is none. -/
def Freeing (h : Held) : Prop :=
  (h.idle = true → h.serverConn = none) ∧
    (h.serverConn = none ∨ h.begun = true ∨ h.autoRelease = true)

theorem rests_freeing : Rests Freeing where
  turn h := h
  busy h := ⟨nofun, h.2⟩
  inTxn {h n b} hrest := by cases b <;> exact hrest
  idle h hnone := ⟨fun _ => hnone, .inl hnone⟩
  ended h _ := h

section Transaction

variable {C : Cond relaying} {cfg : PoolConfig} {t : Thread} {h : Held}

/-- Nothing is said about what has been acquired and released. -/
abbrev CanFree (C : Cond relaying) (t : Thread) {α : Type} (p : Prog α)
    (Q : α → Option Held → Prop) (κ : Option Held) : Prop :=
  Can C (fun _ _ _ => True) Freeing t p Q κ

theorem can_disconnect_freeing (hrest : Freeing h) : CanFree C t (onClientDisconnect cfg 0)
    (Ends fun h' => Freeing h' ∧ h'.serverConn = none) (some h) := by
  refine can_step (fun _ => rfl) id rfl ?_
  cases hconn : h.serverConn with
  | none => exact ⟨h, rfl, hrest, hconn⟩
  | some c =>
    refine can_seq (can_release trivial ?_)
    exact can_step (fun _ => rfl) id rfl ⟨_, rfl, ⟨fun _ => rfl, .inl rfl⟩, rfl⟩

theorem can_complete_freeing (hmode : cfg.mode = .transaction) (hrest : Freeing h) :
    CanFree C t (onQueryComplete cfg 0) (Ends fun h' => Freeing h' ∧ h'.idle = h.idle ∧
      (h.inTxn = false → h.serverConn = none ∨ h.autoRelease = true → h'.serverConn = none))
      (some h) := by
  rw [onQueryComplete, hmode]
  refine can_step (fun _ => rfl) id rfl ?_
  cases hin : h.inTxn with
  | true => exact ⟨h, rfl, hrest, rfl, nofun⟩
  | false =>
    refine can_step (fun _ => rfl) id rfl ?_
    cases hauto : h.autoRelease with
    | false => exact ⟨h, rfl, hrest, rfl, fun _ hor => hor.resolve_right nofun⟩
    | true =>
      refine can_step (fun _ => rfl) id rfl ?_
      cases hconn : h.serverConn with
      | none => exact ⟨h, rfl, hrest, rfl, fun _ _ => hconn⟩
      | some c =>
        refine can_seq (can_giveBack trivial ?_)
        refine can_step (fun _ => rfl) id rfl (can_step (fun _ => rfl) id rfl ?_)
        exact ⟨_, rfl, ⟨fun _ => rfl, .inl rfl⟩, rfl, fun _ _ => rfl⟩

/-- The connection is one on which no transaction has been begun, unless the
message begins one or comes in one. -/
theorem can_strategyOnQuery (hmode : cfg.mode = .transaction) (begins : Bool) (hrest : Freeing h)
    (hidle : h.idle = false) : CanFree C t (Pool.onQuery cfg 0 begins) (fun result κ => ∃ h', κ = some h' ∧
      h'.idle = false ∧ (Freeing h' ∨ begins = true ∧ ∃ c, result = .ok c)) (some h) := by
  rw [Pool.onQuery, hmode]
  refine can_step (fun _ => rfl) id rfl ?_
  cases hconn : h.serverConn with
  | some c => exact ⟨h, rfl, hidle, .inl hrest⟩
  | none =>
    refine can_step (fun _ => rfl) id rfl (can_seq (can_acquireForQuery (fun c _ =>
      ⟨trivial, ?_⟩) fun err => ⟨h, rfl, hidle, .inl hrest⟩))
    have hnot : ∀ {h' : Held}, h'.idle = h.idle → h'.idle = true → h'.serverConn = none := by
      intro h' heq htrue
      cases hidle.symm.trans (heq.symm.trans htrue)
    refine can_step (fun _ => rfl) id rfl ?_
    show CanFree C t (if (!h.inTxn && !begins) = true then _ else _) _ (some (h.taken c))
    cases hin : h.inTxn with
    | true => exact ⟨_, rfl, hidle, .inl ⟨hnot rfl, .inr (.inl hin)⟩⟩
    | false =>
      cases begins with
      | true => exact ⟨_, rfl, hidle, .inr ⟨rfl, c, rfl⟩⟩
      | false =>
        exact can_step (fun _ => rfl) id rfl ⟨_, rfl, hidle, .inl ⟨hnot rfl, .inr (.inr rfl)⟩⟩

theorem can_onQuery_freeing (hmode : cfg.mode = .transaction) (msg : ClientMessage)
    (hrest : Freeing h) (hidle : h.idle = false) :
    CanFree C (.clientToServer 0) (Proxy.onQuery cfg 0 msg) (Ends Freeing) (some h) := by
  refine can_onQuery (fun role => can_strategyOnQuery hmode msg.begins hrest hidle) ?_ ?_
  · rintro err _ ⟨h', rfl, -, hfree⟩
    exact ⟨h', rfl, hfree.resolve_right (by simp)⟩
  · rintro c _ ⟨h', rfl, hidle', hfree⟩
    rw [trackQuery, onTransactionBegin, onTransactionEnd, hmode]
    have hnot : ∀ {h'' : Held}, h''.idle = h'.idle → h''.idle = true → h''.serverConn = none := by
      intro h'' heq htrue
      cases hidle'.symm.trans (heq.symm.trans htrue)
    cases hbegins : msg.begins with
    | true =>
      -- A transaction is begun, so nothing is asked of `AutoCommitRelease`.
      exact can_step (fun _ => rfl) id rfl ⟨_, rfl, hnot rfl, .inr (.inl rfl)⟩
    | false =>
      have hfree : Freeing h' := hfree.resolve_right (by simp [hbegins])
      cases msg.ends with
      | false => exact ⟨h', rfl, hfree⟩
      | true =>
        refine can_step (fun _ => rfl) id rfl (can_step (fun _ => rfl) id rfl ?_)
        cases hconn : (h'.setInTxn (.clientToServer 0) false).serverConn with
        | none => exact ⟨_, rfl, hnot rfl, .inl hconn⟩
        | some d =>
          refine can_seq (can_seq (can_pure (can_seq (can_giveBack trivial ?_))))
          exact can_step (fun _ => rfl) id rfl ⟨_, rfl, fun _ => rfl, .inl rfl⟩

theorem serves_freeing (hmode : cfg.mode = .transaction) :
    Serves endsSeen (fun _ _ _ => True) Freeing cfg where
  cond h t o ch hcond := (Bool.and_eq_true_iff.mp hcond).1
  message msg h hrest hidle := by
    refine can_handleMessage (can_onQuery_freeing hmode msg hrest hidle) fun h' hrest' => ?_
    exact can_mono (can_complete_freeing hmode hrest') fun _ hends => hends.1
  complete h r hrest hr hcond v := by
    refine can_mono (can_complete_freeing hmode (rests_freeing.inTxn hrest)) ?_
    rintro h' ⟨hrest', -, hnone⟩
    refine ⟨hrest', hnone rfl ?_⟩
    have hseen : h.serverConn = none ∨ h.begun = false := by
      have := (Bool.and_eq_true_iff.mp hcond).2
      simpa [isServer, hr] using this
    rcases hrest.2 with hconn | hbegun | hauto
    · exact .inl hconn
    · exact .inl (hseen.resolve_right (by simp [hbegun]))
    · exact .inr hauto
  disconnect h hrest := can_disconnect_freeing hrest
  finished _ _ _ _ := trivial

end Transaction

/-- A pool in a mode. -/
def pooled (mode : PoolMode) : PoolConfig := ⟨mode, .postgreSQL, .passthrough, 1, 0, false, 9⟩

/-- `ReadyForQuery`, with whether a transaction is open. -/
def readyForQuery (inTxn : Bool) : Reply :=
  { origin := .session 0, last := true, ready := true, status := some inTxn }

/-- The goroutine performs operations that succeed. -/
def succeeds (t : Thread) (steps : Nat) : List (Thread × Given) := replicate steps (t, .ok)

/-- A message is handled: so many operations before the connection is acquired, and so
many after it. -/
def handles (before : Nat) (c : ConnId) (after : Nat) : List (Thread × Given) :=
  succeeds (.clientToServer 0) before ++ [(.clientToServer 0, .offer c)] ++
    succeeds (.clientToServer 0) after

/-- A reply is processed, by so many operations. -/
def replies (inTxn : Bool) (steps : Nat) : List (Thread × Given) :=
  (.serverToClient 0, .ok) :: (.serverToClient 0, .reply (readyForQuery inTxn)) ::
    succeeds (.serverToClient 0) steps

/-- A query, `BEGIN` as a simple query, and `COMMIT` by `Parse`, `Bind`, `Execute` and
`Sync`. -/
def commits : List ClientMessage :=
  [{}, { begins := true }, {}, { query := false }, { query := false },
    { query := false, sync := true }]

/-- At most one connection has not been released, and none after the end. -/
def Balanced (acquired released : List ConnId) (ended : Bool) : Prop :=
  (∃ l : List ConnId, l.length ≤ 1 ∧ acquired.Perm (released ++ l)) ∧
    (ended = true → acquired.Perm released)

/-- What has not been released is `serverConn`, and that is only while a message
is pending. -/
def Accounted (h : Held) : Prop :=
  h.acquired.Perm (h.released ++ h.serverConn.toList) ∧
    (h.pending = false ∨ h.ended = true → h.serverConn = none)

theorem rests_accounted : Rests Accounted where
  turn h := h
  busy h := h
  inTxn h := h
  idle h hnone := ⟨h.1, fun _ => hnone⟩
  ended h hnone := ⟨h.1, fun _ => hnone⟩

theorem Accounted.balanced {h : Held} (hrest : Accounted h) :
    Balanced h.acquired h.released h.ended := by
  refine ⟨⟨h.serverConn.toList, ?_, hrest.1⟩, fun hended => ?_⟩
  · cases h.serverConn <;> simp
  · have hperm := hrest.1
    rwa [hrest.2 (.inr hended), Option.toList_none, append_nil] at hperm

section Statement

variable {C : Cond relaying} {cfg : PoolConfig} {t : Thread} {h : Held}

/-- The connection is released by a callback or at the end. -/
theorem Accounted.release {c : ConnId} (hrest : Accounted h) (hconn : h.serverConn = some c) :
    Balanced h.acquired (h.released ++ [c]) h.ended ∧
      Accounted { h.release c with serverConn := none, begun := h.inTxn } := by
  have hperm : h.acquired.Perm (h.released ++ [c]) := by
    have hall := hrest.1
    rwa [hconn] at hall
  have hall : h.acquired.Perm (h.released ++ [c] ++ []) := by rwa [append_nil]
  exact ⟨⟨⟨[], by simp, hall⟩, fun _ => hperm⟩, hall, fun _ => rfl⟩

theorem can_complete_accounted (hmode : cfg.mode = .statement) (hrest : Accounted h) :
    Can C Balanced Accounted t (onQueryComplete cfg 0)
      (Ends fun h' => Accounted h' ∧ h'.serverConn = none) (some h) := by
  rw [onQueryComplete, hmode]
  refine can_step (fun _ => rfl) id rfl ?_
  cases hconn : h.serverConn with
  | none => exact ⟨h, rfl, hrest, hconn⟩
  | some c =>
    obtain ⟨hbalanced, hrest'⟩ := hrest.release hconn
    exact can_seq (can_giveBack hbalanced (can_step (fun _ => rfl) id rfl ⟨_, rfl, hrest', rfl⟩))

theorem can_disconnect_accounted (hrest : Accounted h) :
    Can C Balanced Accounted t (onClientDisconnect cfg 0)
      (Ends fun h' => Accounted h' ∧ h'.serverConn = none) (some h) := by
  refine can_step (fun _ => rfl) id rfl ?_
  cases hconn : h.serverConn with
  | none => exact ⟨h, rfl, hrest, hconn⟩
  | some c =>
    obtain ⟨hbalanced, hrest'⟩ := hrest.release hconn
    exact can_seq (can_release hbalanced (can_step (fun _ => rfl) id rfl ⟨_, rfl, hrest', rfl⟩))

/-- A message that comes after the last one is complete finds no connection. -/
theorem Accounted.taken (hrest : Accounted h) (hpending : h.pending = false)
    (hended : h.ended = false) (c : ConnId) :
    Balanced (h.acquired ++ [c]) h.released h.ended ∧ Accounted (h.taken c) := by
  have hperm := hrest.1
  rw [hrest.2 (.inl hpending), Option.toList_none, append_nil] at hperm
  have hall : (h.acquired ++ [c]).Perm (h.released ++ [c]) := hperm.append_right [c]
  have hnot : h.ended ≠ true := by simp [hended]
  refine ⟨⟨⟨[c], by simp, hall⟩, fun heq => absurd heq hnot⟩, hall, ?_⟩
  rintro (heq | heq)
  · cases heq
  · exact absurd heq hnot

theorem can_onQuery_accounted (hmode : cfg.mode = .statement) (msg : ClientMessage)
    (hrest : Accounted h) :
    Can oneByOne Balanced Accounted (.clientToServer 0) (Proxy.onQuery cfg 0 msg)
      (Ends Accounted) (some h) := by
  refine can_onQuery (S := Ends Accounted) (fun role => ?_) (fun _ _ => id) ?_
  · rw [Pool.onQuery, hmode]
    refine can_step (fun _ => rfl) id rfl (can_acquireForQuery (fun c hcond => ?_)
      fun err => ⟨_, rfl, hrest⟩)
    have hfree : h.pending = false ∧ h.ended = false := by
      simpa using (Bool.and_eq_true_iff.mp hcond).2
    obtain ⟨hbalanced, hrest'⟩ := hrest.taken hfree.1 hfree.2 c
    exact ⟨hbalanced, _, rfl, hrest'⟩
  · rintro c _ ⟨h', rfl, hrest'⟩
    rw [trackQuery, onTransactionBegin, onTransactionEnd, hmode]
    cases msg.begins <;> cases msg.ends <;> exact ⟨_, rfl, hrest'⟩

theorem serves_accounted (hmode : cfg.mode = .statement) :
    Serves oneByOne Balanced Accounted cfg where
  cond h t o ch hcond := (Bool.and_eq_true_iff.mp hcond).1
  message msg h hrest _ := by
    refine can_handleMessage (can_onQuery_accounted hmode msg hrest) fun h' hrest' => ?_
    exact can_mono (can_complete_accounted hmode hrest') fun _ hends => hends.1
  complete h r hrest _ _ v := can_complete_accounted hmode (rests_accounted.inTxn hrest)
  disconnect h hrest := can_disconnect_accounted hrest
  finished h hrest hnone _ := by
    refine ⟨hrest.balanced.1, fun _ => ?_⟩
    have hperm := hrest.1
    rwa [hnone, Option.toList_none, append_nil] at hperm

end Statement

/-- In every run that meets the condition, at most one connection has been acquired and
not released, and when the session has ended each has been released once. -/
theorem statement_balanced {cfg : PoolConfig} {msgs : List ClientMessage} {cfg' : Config relaying}
    (hmode : cfg.mode = .statement) (hrun : Run oneByOne (relay cfg msgs) cfg') :
    Balanced cfg'.state.acquired cfg'.state.released cfg'.state.ended :=
  (run_relay rests_accounted (serves_accounted hmode) ⟨.refl _, fun _ => rfl⟩
    ⟨⟨[], by simp, .refl _⟩, nofun⟩ hrun).1

/-- Two queries one after the other, and the end of the session. -/
theorem statement_balanced_queries :
    ∃ cfg', Run oneByOne (relay (pooled .statement) [{}, {}]) cfg' ∧
      cfg'.state.ended = true ∧ cfg'.state.acquired = [0, 1] ∧
      Balanced cfg'.state.acquired cfg'.state.released cfg'.state.ended := by
  obtain ⟨cfg', hrun, hended, hacquired⟩ := exists_run_of_follow oneByOne
    (relay (pooled .statement) [{}, {}])
    (fun cfg' => cfg'.state.ended = true ∧ cfg'.state.acquired = [0, 1])
    (handles 4 0 3 ++ replies false 6 ++ handles 4 1 3 ++ replies false 6 ++
      succeeds (.handle 0) 4) (by decide +kernel)
  exact ⟨cfg', hrun, hended, hacquired, statement_balanced rfl hrun⟩

/-- `Parse`, `Bind`, `Execute` and `Sync`. -/
def pipeline : List ClientMessage :=
  [{}, { query := false }, { query := false }, { query := false, sync := true }]

/-- They take a connection each, and only the last one is released. -/
theorem pipeline_loses : ¬ ∀ (msgs : List ClientMessage) (cfg' : Config relaying),
      Run inTurn (relay (pooled .statement) msgs) cfg' →
        Balanced cfg'.state.acquired cfg'.state.released cfg'.state.ended := by
  intro hall
  obtain ⟨cfg', hrun, hended, hacquired, hreleased⟩ := exists_run_of_follow inTurn
    (relay (pooled .statement) pipeline)
    (fun cfg' => cfg'.state.ended = true ∧ cfg'.state.acquired = [0, 1, 2, 3] ∧
      cfg'.state.released = [3])
    (handles 4 0 3 ++ handles 4 1 3 ++ handles 4 2 3 ++ handles 4 3 7 ++ replies false 3 ++
      succeeds (.handle 0) 4) (by decide +kernel)
  have hlen := ((hall pipeline cfg' hrun).2 hended).length_eq
  rw [hacquired, hreleased] at hlen
  cases hlen

end Geryon.Holding
