import Geryon.Pool.Limit
import Geryon.Proxy.Messages

/-!
# What stays open between two operations

Two operations of the pool leave something behind that the same goroutine has to
settle.  `TryAlloc` reserves memory, and a successful `tryConnect` uses it or
`Free` gives it back.  `release` takes the mutex of `serverConnPool` and keeps it
until the connection is on the idle list or closed.

`Phase` is what a goroutine has open, `poolCalls` the protocol of these
operations.  Every function of the pool, of the strategies and of the proxy
settles what it opens (`Whole`), so every goroutine of `Proxy.system` and of
`Pool.callers` keeps to the protocol.
-/

namespace Geryon.Manager

open Conc Pool Proxy Protocol

/-- What a goroutine has open. -/
structure Phase where
  /-- It has reserved memory, and has neither connected nor given it back. -/
  reserved : Bool := false
  /-- It is inside `release`, with this connection. -/
  locked : Option ConnId := none
  deriving DecidableEq

/-- The phase after an operation and its answer. -/
def Phase.next (q : Phase) : (o : Op) → o.Ret → Option Phase
  | .tryAlloc, ok => if q.reserved then none else some { q with reserved := ok }
  | .free, _ => if q.reserved then some { q with reserved := false } else none
  | .tryConnect _ _, conn =>
    if q.reserved then some { q with reserved := conn.isNone } else none
  | .releaseLock c _, _ => if q.locked.isSome then none else some { q with locked := some c }
  | .releaseIdle c, _ => if q.locked = some c then some { q with locked := none } else none
  | .releaseClose c, _ => if q.locked = some c then some { q with locked := none } else none
  | _, _ => some q

/-- The protocol of the pool's operations. -/
def poolCalls : Protocol proxy := ⟨Phase, Phase.next⟩

/-- The program settles everything that it opens. -/
def Whole {α : Type} (p : Prog α) : Prop :=
  poolCalls.Obeys p (fun _ q => q = ({} : Phase)) ({} : Phase)

/-- Neither opens nor settles anything. -/
def plain : Op → Bool
  | .tryAlloc | .free | .tryConnect _ _ => false
  | .releaseLock _ _ | .releaseIdle _ | .releaseClose _ => false
  | _ => true

theorem next_of_plain {o : Op} (h : plain o = true) (q : Phase) (r : o.Ret) :
    q.next o r = some q := by
  cases o <;> first | rfl | simp [plain] at h

section

variable {α β : Type} {cfg : PoolConfig} {n : SessionId} {c : ConnId}

theorem Whole.pure (a : α) : Whole (.pure a : Prog α) := rfl

theorem Whole.act {o : Op} (h : plain o = true) : Whole (act o) :=
  fun r => ⟨{}, next_of_plain h {} r, rfl⟩

variable {p : Prog α} {m : Option SessionId} {role : Option Role} {timeout begins : Bool}
  {q : Phase} {info : Option TxnId}

theorem Whole.bind {f : α → Prog β} (hp : Whole p) (hf : ∀ a, Whole (f a)) : Whole (p >>= f) :=
  poolCalls.calculus.andThen hp hf

theorem Whole.step {o : Op} {f : o.Ret → Prog β} (h : plain o = true) (hf : ∀ r, Whole (f r)) :
    Whole (Geryon.act o >>= f) :=
  (Whole.act h).bind hf

theorem Whole.after {Q : α → Phase → Prop} (h : Whole p) (hq : q = ({} : Phase))
    (hQ : ∀ a, Q a ({} : Phase)) : poolCalls.Obeys p Q q := by
  subst hq
  refine obeys_mono h ?_
  rintro a _ rfl
  exact hQ a

theorem Whole.ite {P : Prop} [Decidable P] {q : Prog α} (hp : Whole p) (hq : Whole q) :
    Whole (if P then p else q) :=
  poolCalls.calculus.ite hp hq

/-! ## The pool -/

variable {k : Nat} {msg : ClientMessage}

theorem obeys_tryBackends {maxRetries : Nat} :
    poolCalls.Obeys (tryBackends m role maxRetries k) (fun _ q => q = ({} : Phase))
      { reserved := true } := by
  have hfree : ∀ e : PoolError, poolCalls.Obeys
      (Geryon.act .free >>= fun _ => (Pure.pure (.error e) : Prog (Except PoolError ConnId)))
      (fun _ q => q = ({} : Phase)) { reserved := true } :=
    fun _ _ => ⟨{}, rfl, rfl⟩
  induction k with
  | zero => exact hfree _
  | succ k ih =>
    intro backend
    refine ⟨{ reserved := true }, rfl, ?_⟩
    cases backend with
    | none => exact hfree _
    | some b =>
      intro circuit
      refine ⟨{ reserved := true }, rfl, ?_⟩
      cases circuit with
      | true => exact ih
      | false =>
        intro conn
        cases conn with
        | some c => exact ⟨{}, rfl, rfl⟩
        | none => exact ⟨{ reserved := true }, rfl, ih⟩

theorem whole_createWith : Whole (createWith m role) := by
  refine .step rfl fun any => .ite ?_ (.pure _)
  intro ok
  cases ok with
  | true => exact ⟨{ reserved := true }, rfl, obeys_tryBackends⟩
  | false => exact ⟨{}, rfl, rfl⟩

theorem whole_prefetchLoop {target maxConns : Nat} : Whole (prefetchLoop target maxConns k) := by
  induction k with
  | zero => exact .act rfl
  | succ k ih =>
    refine .step rfl fun idleCount => .step rfl fun activeCount => ?_
    refine .ite (.step rfl fun done => .ite (.pure _) ?_) (.pure _)
    refine .step rfl fun below => .ite ?_ (.pure _)
    exact whole_createWith.bind fun _ => ih

theorem whole_prefetchConns : Whole (prefetchConns cfg) :=
  .ite whole_prefetchLoop (.pure _)

theorem whole_waitLoop {w : WaiterId} : Whole (waitLoop n w timeout k) := by
  induction k with
  | zero => exact .step rfl fun _ => .pure _
  | succ k ih =>
    refine .step rfl fun check => ?_
    split
    · exact .pure _
    · exact .pure _
    · refine .step rfl fun case => ?_
      cases case with
      | ready =>
        refine .step rfl fun conn => ?_
        cases conn with
        | some c => exact .pure _
        | none => exact ih
      | timeout | done => exact .step rfl fun _ => .pure _

theorem whole_wait {maxSize : Nat} : Whole (wait n maxSize timeout k) := by
  refine .step rfl fun w => ?_
  cases w with
  | none => exact .pure _
  | some w =>
    exact whole_waitLoop.bind fun result => .step rfl fun _ => .pure _

theorem whole_acquireWith : Whole (acquireWith cfg n (createWith (some n) role)) := by
  refine .step rfl fun conn => ?_
  cases conn with
  | some c => exact .pure _
  | none =>
    refine .step rfl fun below => .ite ?_ ?_
    · refine whole_createWith.bind fun result => ?_
      cases result with
      | error err => exact .pure _
      | ok c => exact .step rfl fun _ => .pure _
    · refine .step rfl fun conn => ?_
      cases conn with
      | some c => exact .pure _
      | none => exact whole_wait

theorem whole_acquire : Whole (Pool.acquire cfg n) := whole_acquireWith

theorem whole_acquireToRole {role : Role} : Whole (acquireToRole cfg n role) :=
  whole_acquireWith

theorem whole_release : Whole (release cfg n c) := by
  refine .step rfl fun signalled => .ite (.pure _) ?_
  have hclose : poolCalls.Obeys (Geryon.act (.releaseClose c)) (fun _ q => q = ({} : Phase))
      { locked := some c } := fun _ => ⟨{}, if_pos rfl, rfl⟩
  intro room
  refine ⟨{ locked := some c }, rfl, ?_⟩
  cases room with
  | false => exact hclose
  | true =>
    have hreset : poolCalls.Obeys (resetConnection cfg c) (fun _ q => q = { locked := some c })
        { locked := some c } := by
      refine wp_resetConnection (L := poolCalls.calculus) fun o ho r => ⟨_, next_of_plain ?_ _ r, rfl⟩
      cases o <;> first | rfl | cases ho
    apply obeys_seq hreset
    intro ok q hq
    subst hq
    cases ok with
    | true => exact fun _ => ⟨{}, if_pos rfl, rfl⟩
    | false => exact hclose

theorem whole_backendLoop : Whole (backendLoop k) := by
  induction k with
  | zero => exact .act rfl
  | succ k ih => exact .step rfl fun _ => ih

theorem whole_calls {l : List Call} : Whole (calls cfg n l) := by
  induction l with
  | nil => exact .pure _
  | cons call l ih =>
    refine Whole.bind ?_ fun _ => ih
    cases call with
    | acquire => exact whole_acquire.bind fun _ => .pure _
    | acquireToRole role => exact whole_acquireToRole.bind fun _ => .pure _
    | release c => exact whole_release

/-! ## The strategies -/

theorem whole_onClientConnect : Whole (onClientConnect cfg n) := by
  unfold onClientConnect
  split
  · refine whole_acquire.bind fun result => ?_
    cases result with
    | error err => exact .pure _
    | ok c => exact .step rfl fun _ => .pure _
  · exact .pure _
  · exact .pure _

theorem whole_onClientDisconnect : Whole (onClientDisconnect cfg n) := by
  refine .step rfl fun held => ?_
  cases held with
  | none => exact .pure _
  | some c => exact whole_release.bind fun _ => .act rfl

theorem whole_giveBack {why : Reason} : Whole (giveBack cfg n c why) :=
  .step rfl fun _ => whole_release

theorem whole_acquireForQuery {targetRole : Option Role} :
    Whole (acquireForQuery cfg n targetRole) := by
  refine wp_acquireForQuery (L := poolCalls.calculus) (fun _ => whole_acquireWith) ?_ ?_
  · rintro err _ rfl
    exact Whole.act rfl
  · rintro c _ rfl
    exact Whole.act rfl

/-! ## The proxy -/

theorem whole_takeServerConn : Whole (takeServerConn cfg n) := by
  refine whole_onClientConnect.bind fun result => ?_
  cases result with
  | error err => exact .pure _
  | ok _ =>
    refine .step rfl fun held => ?_
    cases held with
    | none => exact .pure _
    | some c => exact .step rfl fun _ => .pure _

theorem passes : Passes poolCalls.calculus := by
  intro o q ho r
  refine ⟨q, next_of_plain ?_ q r, rfl⟩
  cases o <;> first | rfl | cases ho

theorem whole_handleStartup : Whole (handleStartup cfg n) := by
  have h : poolCalls.calculus.wp (handleStartup cfg n)
      (fun r q => r ≠ .ok () ∧ q = ({} : Phase) ∨ q = ({} : Phase)) ({} : Phase) :=
    wp_handleStartup passes rfl (whole_takeServerConn.after rfl fun r => by cases r <;> rfl)
      (fun _ _ hq => (Whole.act rfl).after hq fun _ => rfl) fun _ _ hq => hq
  exact obeys_mono h fun _ _ h => h.elim And.right id

theorem whole_captureLoop : Whole (captureLoop n c k) := by
  induction k with
  | zero => exact .step rfl fun _ => .pure _
  | succ k ih =>
    refine .step rfl fun reply => ?_
    cases reply with
    | none => exact .pure _
    | some r =>
      exact .step rfl fun sent => .ite (.ite (.pure _) ih) (.pure _)

theorem whole_forward {captured : Bool} : Whole (forward cfg n c msg captured) :=
  .step rfl fun _ => .ite (.ite whole_captureLoop (.pure _)) (.pure _)

/-- In the handling of a message everything that is opened is settled by one
call. -/
def handling : Handling poolCalls.calculus cfg n ({} : Phase) where
  Ready _ q := q = ({} : Phase)
  Holds _ q := q = ({} : Phase)
  ready := id
  sends := id
  passes := passes
  enter := Whole.act rfl
  leave hq := (Whole.act rfl).after hq fun _ => rfl
  register hq := (Whole.act rfl).after hq fun _ => hq.symm
  getServerConn hq := (Whole.act rfl).after hq fun _ => ⟨rfl, fun _ _ => rfl⟩
  acquire hq := whole_acquireForQuery.after hq fun _ => ⟨rfl, fun _ _ => rfl⟩
  swap hq :=
    (whole_giveBack.bind fun _ => whole_acquireForQuery).after hq fun _ => ⟨rfl, fun _ _ => rfl⟩
  clear hq _ _ hf :=
    (whole_giveBack.bind fun _ => .step rfl fun _ => hf _ rfl).after hq fun _ => rfl
  forward hq := whole_forward.after hq fun _ => rfl

theorem whole_serverLoop : Whole (serverLoop cfg n c k) := by
  refine handling.wp_serverLoop (fun {o q} ho r => ⟨q, next_of_plain ?_ q r, rfl⟩) rfl
  rcases ho with rfl | rfl | ⟨reply, rfl⟩ <;> rfl

theorem whole_forwardServerToClient : Whole (forwardServerToClient cfg n) := by
  refine .step rfl fun held => ?_
  cases held with
  | none => exact .pure _
  | some c => exact whole_serverLoop

theorem whole_relayGoroutine {body : Prog Unit} (h : Whole body) : Whole (relayGoroutine n body) :=
  .step rfl fun _ => h.bind fun _ => .step rfl fun _ => .act rfl

theorem whole_awaitGoroutines : Whole (awaitGoroutines n k) := wp_awaitGoroutines passes

theorem whole_relayRun : Whole (relayRun n) :=
  .step rfl fun _ => .step rfl fun _ => .step rfl fun _ =>
    .step rfl fun _ => whole_awaitGoroutines

theorem whole_cleanup : Whole (cleanup cfg n) := by
  refine .step rfl fun _ => whole_onClientDisconnect.bind fun _ => ?_
  refine .step rfl fun held => ?_
  cases held with
  | none => exact .act rfl
  | some c => exact whole_release.bind fun _ => .step rfl fun _ => .act rfl

theorem whole_handle : Whole (handle cfg n) := by
  refine .step rfl fun _ => whole_handleStartup.bind fun result => ?_
  cases result with
  | error err => exact whole_cleanup
  | ok _ =>
    refine whole_onClientConnect.bind fun result => ?_
    cases result with
    | error err => exact whole_cleanup
    | ok _ => exact whole_relayRun.bind fun _ => whole_cleanup

theorem whole_handleRelay : Whole (handleRelay cfg n) :=
  .step rfl fun _ => whole_relayRun.bind fun _ => whole_cleanup

theorem whole_sendRollbackToBackend : Whole (sendRollbackToBackend cfg n) := by
  refine .step rfl fun _ => .step rfl fun held => ?_
  cases held with
  | none => exact .act rfl
  | some c =>
    exact .step rfl fun _ => whole_onClientDisconnect.bind fun _ => .act rfl

theorem whole_abortAll {status : TxnStatus} {l : List (Option SessionId × TxnId)} :
    Whole (abortAll cfg status l) :=
  wp_abortAll passes fun _ _ _ => whole_sendRollbackToBackend

theorem whole_monitorLoop : Whole (monitorLoop cfg k) := by
  induction k with
  | zero => exact .act rfl
  | succ k ih =>
    have hcheck : Whole (checkTimeouts cfg) :=
      .step rfl fun _ => whole_abortAll.bind fun _ => whole_abortAll
    exact hcheck.bind fun _ => ih

theorem whole_adminCalls {l : List AdminCall} : Whole (adminCalls l) := by
  induction l with
  | nil => exact .pure _
  | cons call l ih =>
    refine Whole.bind ?_ fun _ => ih
    cases call with
    | close => exact .act rfl
    | removeBackend address => exact .step rfl fun _ => .ite (.act rfl) (.pure _)

end

/-! ## The goroutines -/

theorem whole_system (cfg : PoolConfig) (users : Users) (t : Thread) :
    Whole ((system cfg users).prog t) := by
  simp only [system]
  cases t with
  | handle n =>
    dsimp only
    split
    · exact whole_handle
    · exact whole_handleRelay
  | clientToServer n => exact whole_relayGoroutine handling.wp_forwardClientToServer
  | serverToClient n => exact whole_relayGoroutine whole_forwardServerToClient
  | monitor => exact whole_monitorLoop
  | prefetch => exact whole_prefetchConns
  | admin i => exact whole_adminCalls
  | caller i => exact .pure _
  | backend => exact whole_backendLoop

end Geryon.Manager
