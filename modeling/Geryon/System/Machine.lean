import Geryon.Conc.Logic
import Geryon.System.State

/-!
# The atomic operations

The operations that the goroutines of the proxy perform between two points
where another one may run: one critical section, one access to a field, one
read or write on a connection.  The programs that are made of them are in the
modules of the pool and of the proxy.

An operation on `serverConnPool` is not enabled while another goroutine holds
its mutex.  A read is not enabled while there is nothing to read; it may fail
at any time, and it does fail once the proxy has closed the connection.

`enter`, `leave`, `giveUp` and `acquireFailed` change bookkeeping only.
-/

namespace Geryon

open Function State

open Pool (WaiterId WaitQueue)

/-- The case that the `select` of `Wait` takes. -/
inductive SelectCase where
  | ready
  | timeout
  | done
  deriving DecidableEq

inductive Op where
  /-- Never enabled: a loop that has used up its rounds. -/
  | stuck
  -- `serverConnPool`
  | acquire (n : SessionId)
  | sizeBelow (n : Option SessionId) (limit : Nat)
  | idleCount
  | activeCount
  | countActive (address : Nat)
  | addActive (n : SessionId) (c : ConnId)
  | releaseLock (c : ConnId) (maxSize : Nat)
  | releaseIdle (c : ConnId)
  | releaseClose (c : ConnId)
  | closeAll
  | closeBackend (address : Nat)
  -- `createServerConn` and `tryConnect`
  | hasBackends
  | tryAlloc
  | free
  | selectBackend (role : Option Role)
  | isCircuitOpen
  | tryConnect (n : Option SessionId) (b : Backend)
  -- `WaitQueue`
  | enqueue (n : SessionId) (maxSize : Nat)
  | checkWaiter (n : SessionId) (w : WaiterId)
  | select (w : WaiterId) (timeout : Bool)
  | recheckWaiter (n : SessionId) (w : WaiterId)
  | timeOut (w : WaiterId)
  | dequeue (n : SessionId) (w : WaiterId) (conn : Option ConnId)
  | signal (n : SessionId) (c : ConnId)
  -- Messages on a server connection
  | write (n : SessionId) (c : ConnId) (effect : TxnEffect) (captured : Bool)
  | writeEmpty (c : ConnId)
  | read (n : SessionId) (c : ConnId)
  | writeReset (c : ConnId) (effect : TxnEffect)
  | setReadDeadline (c : ConnId)
  | readReset (c : ConnId)
  | exchange (n : SessionId) (c : ConnId)
  -- The fields of a session
  | getServerConn (n : SessionId)
  | setServerConn (n : SessionId) (v : Option ConnId)
  | getPsConn (n : SessionId)
  | setPsConn (n : SessionId) (v : Option ConnId)
  | getTargetRole (n : SessionId)
  | setTargetRole (n : SessionId) (r : Role)
  | getInTxn (n : SessionId)
  | setInTxn (n : SessionId) (b : Bool)
  | getAutoRelease (n : SessionId)
  | setAutoRelease (n : SessionId) (b : Bool)
  | roleOf (c : ConnId)
  -- `TransactionManager`
  | register (n : SessionId) (abortFunc : Bool)
  | setStatus (x : TxnId) (status : TxnStatus)
  | unregister (x : TxnId)
  | timeouts
  -- `Relay`
  | authenticate (n : SessionId)
  | goRelay (n : SessionId)
  | awaitRelay (n : SessionId)
  | sendErr (n : SessionId)
  | setDone (n : SessionId)
  | awaitErr (n : SessionId)
  | closeRelay (n : SessionId)
  | drainErr (n : SessionId)
  | isDone (n : SessionId)
  | awaitErrOrTimer (n : SessionId)
  | ctxDone
  | readClient (n : SessionId)
  | sendCached (n : SessionId)
  | writeClient (n : SessionId) (r : Reply)
  -- Marks
  | enter (n : SessionId) (r : Region)
  | leave (n : SessionId)
  | giveUp (n : SessionId) (c : ConnId) (why : Reason)
  | acquireFailed (n : SessionId)
  -- The backends
  | backend
  deriving DecidableEq

@[reducible] def Op.Ret : Op → Type
  | .acquire _ | .tryConnect _ _ | .recheckWaiter _ _ => Option ConnId
  | .getServerConn _ | .getPsConn _ => Option ConnId
  | .checkWaiter _ _ => Option ConnId × Bool
  | .enqueue _ _ => Option WaiterId
  | .select _ _ => SelectCase
  | .selectBackend _ => Option Backend
  | .idleCount | .activeCount | .countActive _ => Nat
  | .register _ _ => TxnId
  | .timeouts => List (Option SessionId × TxnId) × List (Option SessionId × TxnId)
  | .getTargetRole _ => Option Role
  | .roleOf _ => Role
  | .read _ _ | .readReset _ => Option Reply
  | .sizeBelow _ _ | .releaseLock _ _ | .hasBackends | .tryAlloc | .isCircuitOpen => Bool
  | .signal _ _ | .write _ _ _ _ | .writeEmpty _ | .writeReset _ _ | .exchange _ _ => Bool
  | .setReadDeadline _ => Bool
  | .getInTxn _ | .getAutoRelease _ | .authenticate _ | .isDone _ | .ctxDone => Bool
  | .readClient _ | .sendCached _ | .writeClient _ _ => Bool
  | _ => Unit

/-- What the outside world decides at an operation. -/
inductive Choice where
  | ok
  | fail
  | alt
  | backend (b : Backend)
  | txns (timeouts idleTimeouts : List TxnId)
  | answer (c : ConnId) (rs : List Reply)
  /-- A read takes `k` messages more than the one it returns. -/
  | over (k : Nat)
  deriving DecidableEq

/-- A read returns a message. -/
def Choice.reads : Choice → Bool
  | .ok | .over _ => true
  | _ => false

/-- The messages behind it that came in the same segments.  They are in the
`bufio.Reader` of `ReadMessage`, which is gone when it returns. -/
def Choice.lost : Choice → Nat
  | .over k => k
  | _ => 0

namespace Talk

/-- A message has been written; nobody reads the answer of one that is not
`captured` here. -/
def wrote (c : ConnId) (captured : Bool) (k : Talk) : Talk :=
  { k with answering := some c, dropped := k.dropped || !captured }

/-- A reply has been read.  Reading ends with a `ReadyForQuery`, whatever else
is to come. -/
def read (n : SessionId) (c : ConnId) (r : Reply) (k : Talk) : Talk where
  unsent := some (n, r)
  answering := if k.answering = some c ∧ r.last = true then none else k.answering
  dropped := k.dropped || decide (k.answering = some c) && r.ready && !r.last

/-- A read has failed. -/
def lost (c : ConnId) (k : Talk) : Talk :=
  { k with dropped := k.dropped || decide (k.answering = some c) }

/-- A reply has been passed to the client, or that has failed. -/
def sent (ok : Bool) (k : Talk) : Talk :=
  { k with unsent := none, dropped := k.dropped || !ok && k.answering.isSome }

end Talk

/-- Reading a reply in the drain loop of a reset.  A complete reply without an
error makes the connection a fresh one. -/
def Conn.noteReset (k : Conn) (r : Reply) : Conn :=
  if r.origin = .reset then
    { k with
      resetError := k.resetError || r.error
      user := if r.last && !(k.resetError || r.error) then none else k.user }
  else k

/-- The same for all that a read takes from the connection: the backend has
executed what the lost messages answer. -/
def Conn.noteResets (k : Conn) (rs : List Reply) : Conn := rs.foldl Conn.noteReset k

theorem Conn.noteResets_eq (k : Conn) (rs : List Reply) :
    ∃ e u, k.noteResets rs = { k with resetError := e, user := u } := by
  induction rs generalizing k with
  | nil => exact ⟨_, _, rfl⟩
  | cons r rs ih =>
    obtain ⟨e, u, h⟩ := ih (k.noteReset r)
    refine ⟨e, u, h.trans ?_⟩
    unfold noteReset
    split <;> rfl

namespace State

/-- The mutex of `serverConnPool` is free. -/
def unlocked (s : State) : Bool := s.conns.locked.isNone

/-- `serverConnPool.acquire`: the most recently used idle connection. -/
def acquire (s : State) (n : SessionId) : Option ConnId × State :=
  match s.conns.idle.getLast? with
  | none => (none, s)
  | some c =>
    (some c,
      { s with conns := { s.conns with
          idle := s.conns.idle.dropLast, active := s.conns.active.insert c } }.move c (.session n))

def size (s : State) : Nat := s.conns.idle.length + s.conns.active.length

/-- The check before a connection is created. -/
def sizeBelow (s : State) (t : Thread) (limit : Nat) : Bool × State :=
  if s.size < limit then (true, { s with creating := t :: s.creating }) else (false, s)

def addActive (s : State) (n : SessionId) (c : ConnId) : State :=
  { s with
      conns := { s.conns with active := s.conns.active.insert c }
      unregistered := s.unregistered.erase c }.move c (.session n)

/-- `serverConnPool.release` up to its test of the number of idle
connections. -/
def releaseLock (s : State) (t : Thread) (c : ConnId) : State :=
  { s with
      conns := { s.conns with active := s.conns.active.erase c, locked := some (t, c) }
      asked := false }

/-- `serverConnPool.release` where it puts the connection on the idle list. -/
def releaseIdle (s : State) (c : ConnId) : State :=
  { s with conns := { s.conns with idle := s.conns.idle ++ [c], locked := none } }.move c .idle

def close (s : State) (c : ConnId) : State :=
  s.setConn c fun k => { k with closed := true }

/-- `serverConnPool.release` where it closes the connection. -/
def releaseClose (s : State) (c : ConnId) : State :=
  { s with conns := { s.conns with locked := none } }.close c |>.move c .nowhere

def closeMany (s : State) (l : List ConnId) : State :=
  { s with conn := fun c => if c ∈ l then { s.conn c with closed := true } else s.conn c }

/-- The given connections are in nobody's hands. -/
def dropMany (s : State) (l : List ConnId) : State :=
  { s with place := fun c => if c ∈ l then .nowhere else s.place c }

def closeAll (s : State) : State :=
  { (s.closeMany (s.conns.idle ++ s.conns.active)).dropMany s.conns.idle with
      conns := { s.conns with idle := [], active := [] } }

def closeBackend (s : State) (address : Nat) : State :=
  let l := s.conns.idle.filter fun c => (s.conn c).backend.address = address
  { (s.closeMany l).dropMany l with
      conns := { s.conns with
        idle := s.conns.idle.filter fun c => (s.conn c).backend.address ≠ address } }

/-- A goroutine gives up creating a connection. -/
def notCreating (s : State) (t : Thread) : State :=
  { s with creating := s.creating.erase t }

/-- `tryConnect` when the dial succeeds.  A connection that is created for a
session is on its way to it; one that is prefetched is in nobody's hands. -/
def connect (s : State) (t : Thread) (n : Option SessionId) (b : Backend) : ConnId × State :=
  let c := s.nextConn
  (c, { s with
      conn := update s.conn c { backend := b }
      nextConn := c + 1
      creating := s.creating.erase t
      unregistered := s.unregistered ++ [c]
      place := match n with
        | some n => update s.place c (.handing n)
        | none => s.place })

/-- The critical section of `Wait` that enters the queue. -/
def enqueue (s : State) (t : Thread) (maxSize : Nat) : Option WaiterId × State :=
  if maxSize ≤ s.queue.len then (none, s)
  else
    let w := s.nextWaiter
    (some w, { s with
      queue := s.queue.push w
      waiter := update s.waiter w { owner := t }
      nextWaiter := w + 1 })

/-- `Wait` looks at its waiter. -/
def lookAt (s : State) (n : SessionId) (w : WaiterId) : Option ConnId × State :=
  match (s.waiter w).conn with
  | none => (none, s)
  | some c => (some c, (s.setWaiter w fun k => { k with taken := true }).move c (.handing n))

/-- The deferred critical section of `Wait`, after which it returns. -/
def dequeue (s : State) (n : SessionId) (w : WaiterId) (conn : Option ConnId) : State :=
  let s := { s with queue := s.queue.remove w }.setWaiter w fun k => { k with finished := true }
  match conn with
  | none => s
  | some c => { s with returned := s.returned ++ [(c, w)] }.move c (.session n)

def signal (s : State) (t : Thread) (c : ConnId) : Bool × State :=
  match s.queue.pop with
  | (none, q) => (false, { s with queue := q }.move c (.releasing t))
  | (some w, q) =>
    (true, ({ s with queue := q, served := s.served ++ [(c, w)] }.setWaiter w
      fun k => { k with conn := some c }).move c (.waiter w))

def write (s : State) (n : SessionId) (c : ConnId) (effect : TxnEffect) : State :=
  s.setConn c fun k =>
    { k with requests := k.requests ++ [⟨.session n, effect⟩], user := some n }

def writeReset (s : State) (c : ConnId) (effect : TxnEffect) : State :=
  { s.setConn c fun k =>
      { k with requests := k.requests ++ [⟨.reset, effect⟩], resetError := false } with
    asked := true }

/-- A backend executes the oldest request on a connection and answers it. -/
def answer (s : State) (c : ConnId) (rs : List Reply) : Option State :=
  match (s.conn c).requests with
  | [] => none
  | q :: qs =>
    if rs.all (fun r => r.origin = q.origin) && rs.dropLast.all (fun r => !r.last) &&
        rs.getLast?.all (fun r => r.last) then
      some (s.setConn c fun k => { k with
        requests := qs
        replies := k.replies ++ rs
        inTxn := match q.effect with
          | .opens => true
          | .closes => false
          | .keeps => k.inTxn })
    else none

/-- The next message on a connection, if it is there, and the connection after
a read that takes `lost` messages more. -/
def nextReply (s : State) (c : ConnId) (lost : Nat) : Option (Reply × State) :=
  match (s.conn c).replies with
  | [] => none
  | r :: rs => some (r, s.setConn c fun k => { k with replies := rs.drop lost })

/-- The session that the timeout of a transaction is reported to, if it has an
`AbortFunc`. -/
def abortFn (s : State) (x : TxnId) : Option SessionId × TxnId :=
  ((s.txn x).bind fun k => if k.abortFunc then some k.session else none, x)

/-- Replies are read in the drain loop of a reset. -/
def noteResets (s : State) (c : ConnId) (rs : List Reply) : State :=
  s.setConn c fun k => k.noteResets rs

end State

/-- The answer of an operation and the state after it. -/
def exec (s : State) (t : Thread) : (o : Op) → Choice → Option (o.Ret × State)
  | .stuck, _ => none
  | .acquire n, _ => if s.unlocked then some (s.acquire n) else none
  | .sizeBelow _ limit, _ => if s.unlocked then some (s.sizeBelow t limit) else none
  | .idleCount, _ => if s.unlocked then some (s.conns.idle.length, s) else none
  | .activeCount, _ => if s.unlocked then some (s.conns.active.length, s) else none
  | .countActive address, _ =>
    if s.unlocked then
      some ((s.conns.active.filter fun c => (s.conn c).backend.address = address).length, s)
    else none
  | .addActive n c, _ => if s.unlocked then some ((), s.addActive n c) else none
  | .releaseLock c maxSize, _ =>
    if s.unlocked then some (decide (s.conns.idle.length < maxSize), s.releaseLock t c) else none
  | .releaseIdle c, _ => some ((), s.releaseIdle c)
  | .releaseClose c, _ => some ((), s.releaseClose c)
  | .closeAll, _ => if s.unlocked then some ((), s.closeAll) else none
  | .closeBackend address, _ => if s.unlocked then some ((), s.closeBackend address) else none
  | .hasBackends, ch => some (if ch = .ok then (true, s) else (false, s.notCreating t))
  | .tryAlloc, ch => some (if ch = .ok then (true, s) else (false, s.notCreating t))
  | .free, _ => some ((), s.notCreating t)
  | .selectBackend _, ch =>
    some (match ch with
      | .backend b => (some b, s)
      | _ => (none, s))
  | .isCircuitOpen, ch => some (decide (ch = .alt), s)
  | .tryConnect n b, ch =>
    some (if ch = .ok then (some (s.connect t n b).1, (s.connect t n b).2) else (none, s))
  | .enqueue _ maxSize, _ => some (s.enqueue t maxSize)
  | .checkWaiter n w, _ =>
    some (((s.lookAt n w).1, (s.waiter w).timedOut), (s.lookAt n w).2)
  | .select w timeout, ch =>
    match ch with
    | .ok => if (s.waiter w).conn.isSome then some (.ready, s) else none
    | .fail =>
      if timeout then some (.timeout, s.setWaiter w fun k => { k with gaveUp := true }) else none
    | .alt => some (.done, s.setWaiter w fun k => { k with gaveUp := true })
    | _ => none
  | .recheckWaiter n w, _ => some (s.lookAt n w)
  | .timeOut w, _ => some ((), s.setWaiter w fun k => { k with timedOut := true })
  | .dequeue n w conn, _ => some ((), s.dequeue n w conn)
  | .signal n c, _ =>
    some ((s.setSession n fun k => { k with giving := none }).signal t c)
  | .write n c effect captured, ch =>
    some (if ch = .ok ∧ (s.conn c).closed = false then
      (true, (s.write n c effect).say t (.wrote c captured))
      else (false, s))
  | .writeEmpty c, ch => some (decide (ch = .ok ∧ (s.conn c).closed = false), s)
  | .read n c, ch =>
    if ch.reads = true ∧ (s.conn c).closed = false then
      match s.nextReply c ch.lost with
      | none => none
      | some (r, s') => some (some r, s'.say t (.read n c r))
    else some (none, s.say t (.lost c))
  | .writeReset c effect, ch =>
    some (if ch = .ok ∧ (s.conn c).closed = false then
      (true, s.writeReset c effect)
      else (false, s))
  | .setReadDeadline c, _ => some (!(s.conn c).closed, s)
  | .readReset c, ch =>
    if ch.reads = true ∧ (s.conn c).closed = false then
      match s.nextReply c ch.lost with
      | none => none
      | some (r, s') => some (some r, s'.noteResets c ((s.conn c).replies.take (ch.lost + 1)))
    else some (none, s)
  | .exchange n c, ch =>
    let ok := decide (ch = .ok) && !(s.conn c).closed
    some (ok, (s.setSession n fun k => { k with exchanged := some ok }).setConn c fun k =>
      { k with startups := if ch = .alt then k.startups else k.startups ++ [ok] })
  | .getServerConn n, _ => some ((s.session n).serverConn, s)
  | .setServerConn n v, _ =>
    some ((), s.setSession n fun k => { k with serverConn := v, swapping := false })
  | .getPsConn n, _ => some ((s.session n).psConn, s)
  | .setPsConn n v, _ => some ((), s.setSession n fun k => { k with psConn := v })
  | .getTargetRole n, _ => some ((s.session n).targetRole, s)
  | .setTargetRole n r, _ => some ((), s.setSession n fun k => { k with targetRole := some r })
  | .getInTxn n, _ => some ((s.session n).inTxn, s)
  | .setInTxn n b, _ => some ((), s.setSession n fun k => { k with inTxn := b })
  | .getAutoRelease n, _ => some ((s.session n).autoRelease, s)
  | .setAutoRelease n b, _ => some ((), s.setSession n fun k => { k with autoRelease := b })
  | .roleOf c, _ => some ((s.conn c).backend.role, s)
  | .register n abortFunc, _ =>
    some (s.nextTxn, { s with
      txn := update s.txn s.nextTxn (some ⟨n, abortFunc, .active⟩)
      nextTxn := s.nextTxn + 1 })
  | .setStatus x status, _ =>
    some ((), { s with
      txn := update s.txn x ((s.txn x).map fun k => { k with status := status }) })
  | .unregister x, _ => some ((), { s with txn := update s.txn x none })
  | .timeouts, ch =>
    match ch with
    | .txns l l' =>
      if (l ++ l').all (fun x => (s.txn x).any fun k => k.status = .active) then
        some ((l.map s.abortFn, l'.map s.abortFn), s)
      else none
    | _ => none
  | .authenticate _, ch => some (decide (ch = .ok), s)
  | .goRelay n, _ =>
    some ((), s.setSession n fun k => { k with started := true, turn := none })
  | .awaitRelay n, _ => if (s.session n).started then some ((), s) else none
  | .sendErr n, _ => some ((), s.setSession n fun k => { k with errCh := k.errCh + 1 })
  | .setDone n, _ => some ((), s.setSession n fun k => { k with done := true })
  | .awaitErr n, ch =>
    if ch = .alt then some ((), s)
    else if 0 < (s.session n).errCh then
      some ((), s.setSession n fun k => { k with errCh := k.errCh - 1 })
    else none
  | .closeRelay n, _ =>
    let s := match (s.session n).psConn with
      | none => s
      | some c => s.close c
    some ((), { s.setSession n fun k => { k with ended := true } with
      clientClosed := update s.clientClosed n true })
  | .drainErr n, _ => some ((), s.setSession n fun k => { k with errCh := k.errCh - 1 })
  | .isDone n, _ => some ((s.session n).done, s)
  | .awaitErrOrTimer n, ch =>
    if ch = .alt then some ((), s)
    else if 0 < (s.session n).errCh then
      some ((), s.setSession n fun k => { k with errCh := k.errCh - 1 })
    else none
  | .ctxDone, ch => some (decide (ch = .alt), s)
  | .readClient n, ch => some (decide (ch = .ok ∧ s.clientClosed n = false), s)
  | .sendCached n, ch => some (decide (ch = .ok ∧ s.clientClosed n = false), s)
  | .writeClient n _, ch =>
    let ok := decide (ch = .ok ∧ s.clientClosed n = false)
    some (ok, s.say t (.sent ok))
  | .enter n r, _ =>
    some ((), s.setSession n fun k =>
      { k with turn := some t, region := r, giving := none, swapping := false, early := false })
  | .leave n, _ => some ((), s.setSession n fun k => { k with turn := none })
  | .giveUp n c why, _ =>
    some ((), s.setSession n fun k => { k with
      giving := some c
      swapping := decide (why = .roleChange)
      early := k.early || decide (why = .transactionEnd) })
  | .acquireFailed _, _ => some ((), s)
  | .backend, ch =>
    match ch with
    | .answer c rs => (s.answer c rs).map fun s' => ((), s')
    | _ => none

@[reducible] def proxy : Conc.Machine where
  State := State
  Thread := Thread
  decEq := inferInstance
  Op := Op
  Ret := Op.Ret
  Choice := Choice
  exec := exec

abbrev Prog := Conc.Prog proxy

abbrev act (o : Op) : Prog o.Ret := Conc.Prog.act (M := proxy) o

/-! ## What an operation does -/

/-- The operations that write a field of a session that its callbacks rely
on. -/
def Op.turns : Op → Bool
  | .enter _ _ | .leave _ | .goRelay _ | .giveUp _ _ _ | .signal _ _ => true
  | .setServerConn _ _ | .setPsConn _ _ => true
  | _ => false

/-- The operations that only change who is creating a connection. -/
def Op.counts : Op → Bool
  | .sizeBelow _ _ | .hasBackends | .tryAlloc | .free => true
  | _ => false

/-- The state after an operation of `t`, outcome by outcome. -/
inductive Performed (s : State) (t : Thread) (ch : Choice) : (o : Op) → o.Ret → State → Prop
  | looked {o : Op} {r : o.Ret} (ho : o.turns = false) : Performed s t ch o r s
  | counted {o : Op} {r : o.Ret} {creating : List Thread} (ho : o.turns = false)
      (hcount : o.counts = true) :
    Performed s t ch o r { s with creating }
  | noted {o : Op} {r : o.Ret} {n : SessionId} {targetRole : Option Role}
      {inTxn autoRelease done : Bool} {errCh : Nat} (ho : o.turns = false) :
    Performed s t ch o r (s.setSession n fun k =>
      { k with targetRole, inTxn, autoRelease, done, errCh })
  | flagged {o : Op} {r : o.Ret} {w : WaiterId} {gaveUp timedOut : Bool} (ho : o.turns = false) :
    Performed s t ch o r (s.setWaiter w fun k => { k with gaveUp, timedOut })
  | settled {o : Op} {r : o.Ret} {x : TxnId} {v : Option Txn} (ho : o.turns = false)
      (hv : ∀ k, v = some k → ∃ k', s.txn x = some k' ∧ k'.session = k.session) :
    Performed s t ch o r { s with txn := update s.txn x v }
  | acquired {n : SessionId} {c : ConnId} (hc : s.conns.idle.getLast? = some c) :
    Performed s t ch (.acquire n) (some c) (move { s with conns := { s.conns with
      idle := s.conns.idle.dropLast, active := s.conns.active.insert c } } c (.session n))
  | connected {n : Option SessionId} {b : Backend} :
    Performed s t ch (.tryConnect n b) (some s.nextConn) (s.connect t n b).2
  | added {n : SessionId} {c : ConnId} : Performed s t ch (.addActive n c) () (s.addActive n c)
  | locked {c : ConnId} {maxSize : Nat} {r : Bool} (hfree : s.unlocked = true) :
    Performed s t ch (.releaseLock c maxSize) r (s.releaseLock t c)
  | idled {c : ConnId} : Performed s t ch (.releaseIdle c) () (s.releaseIdle c)
  | discarded {c : ConnId} : Performed s t ch (.releaseClose c) () (s.releaseClose c)
  | closedAll : Performed s t ch .closeAll () s.closeAll
  | closedBackend {address : Nat} :
    Performed s t ch (.closeBackend address) () (s.closeBackend address)
  | enqueued {n : SessionId} {maxSize : Nat} :
    Performed s t ch (.enqueue n maxSize) (some s.nextWaiter) { s with
      queue := s.queue.push s.nextWaiter
      waiter := update s.waiter s.nextWaiter { owner := t }
      nextWaiter := s.nextWaiter + 1 }
  | seen {n : SessionId} {w : WaiterId} {o : Op} {r : o.Ret} {c : ConnId}
      (ho : o = .checkWaiter n w ∨ o = .recheckWaiter n w) (hc : (s.waiter w).conn = some c) :
    Performed s t ch o r ((s.setWaiter w fun k => { k with taken := true }).move c (.handing n))
  | dequeued {n : SessionId} {w : WaiterId} {conn : Option ConnId} :
    Performed s t ch (.dequeue n w conn) () (s.dequeue n w conn)
  | delivered {n : SessionId} {c : ConnId} {w : WaiterId} {q : WaitQueue}
      (hpop : s.queue.pop = (some w, q)) :
    Performed s t ch (.signal n c) true (setSession ((setWaiter
      { s with queue := q, served := s.served ++ [(c, w)] } w fun k =>
        { k with conn := some c }).move c (.waiter w)) n fun k => { k with giving := none })
  | passed {n : SessionId} {c : ConnId} {q : WaitQueue} (hpop : s.queue.pop = (none, q)) :
    Performed s t ch (.signal n c) false (setSession
      (move { s with queue := q } c (.releasing t)) n fun k => { k with giving := none })
  | wrote {n : SessionId} {c : ConnId} {e : TxnEffect} {captured : Bool} :
    Performed s t ch (.write n c e captured) true ((s.write n c e).say t (.wrote c captured))
  | received {n : SessionId} {c : ConnId} {r : Reply} {l rs : List Reply}
      (hopen : (s.conn c).closed = false) (hc : (s.conn c).replies = r :: (l ++ rs)) :
    Performed s t ch (.read n c) (some r)
      ((s.setConn c fun k => { k with replies := rs }).say t (.read n c r))
  | lost {n : SessionId} {c : ConnId} : Performed s t ch (.read n c) none (s.say t (.lost c))
  | sent {n : SessionId} {r : Reply} {ok : Bool} :
    Performed s t ch (.writeClient n r) ok (s.say t (.sent ok))
  | wroteReset {c : ConnId} {e : TxnEffect} :
    Performed s t ch (.writeReset c e) true (s.writeReset c e)
  | readReset {c : ConnId} {r : Reply} {l rs : List Reply} (hc : (s.conn c).replies = l ++ rs) :
    Performed s t ch (.readReset c) (some r)
      ((s.setConn c fun k => { k with replies := rs }).noteResets c l)
  | exchanged {n : SessionId} {c : ConnId} {ok : Bool} {startups : List Bool} :
    Performed s t ch (.exchange n c) ok ((s.setConn c fun k =>
      { k with startups }).setSession n fun k => { k with exchanged := some ok })
  | serverConn {n : SessionId} {v : Option ConnId} :
    Performed s t ch (.setServerConn n v) () (s.setSession n fun k =>
      { k with serverConn := v, swapping := false })
  | psConn {n : SessionId} {v : Option ConnId} :
    Performed s t ch (.setPsConn n v) () (s.setSession n fun k => { k with psConn := v })
  | registered {n : SessionId} {abortFunc : Bool} :
    Performed s t ch (.register n abortFunc) s.nextTxn { s with
      txn := update s.txn s.nextTxn (some ⟨n, abortFunc, .active⟩)
      nextTxn := s.nextTxn + 1 }
  | started {n : SessionId} :
    Performed s t ch (.goRelay n) () (s.setSession n fun k =>
      { k with started := true, turn := none })
  | ended {n : SessionId} {conn : ConnId → Conn}
      (hconn : ∀ c, conn c = s.conn c ∨ (s.session n).psConn = some c ∧
        conn c = { s.conn c with closed := true }) :
    Performed s t ch (.closeRelay n) () (setSession
      { s with conn, clientClosed := update s.clientClosed n true } n fun k =>
        { k with ended := true })
  | entered {n : SessionId} {r : Region} :
    Performed s t ch (.enter n r) () (s.setSession n fun k =>
      { k with turn := some t, region := r, giving := none, swapping := false, early := false })
  | left {n : SessionId} :
    Performed s t ch (.leave n) () (s.setSession n fun k => { k with turn := none })
  | gaveBack {n : SessionId} {c : ConnId} {why : Reason} :
    Performed s t ch (.giveUp n c why) () (s.setSession n fun k => { k with
      giving := some c
      swapping := decide (why = .roleChange)
      early := k.early || decide (why = .transactionEnd) })
  | answered {c : ConnId} {rs : List Reply} {q : Request} {qs : List Request}
      (hq : (s.conn c).requests = q :: qs)
      (hrs : (rs.all (fun r => r.origin = q.origin) && rs.dropLast.all (fun r => !r.last) &&
        rs.getLast?.all (fun r => r.last)) = true) (hch : ch = .answer c rs) :
    Performed s t ch .backend () (s.setConn c fun k => { k with
      requests := qs
      replies := k.replies ++ rs
      inTxn := match q.effect with
        | .opens => true
        | .closes => false
        | .keeps => k.inTxn })

theorem State.nextReply_eq_some {s s' : State} {c : ConnId} {r : Reply}
    {lost : Nat} (h : s.nextReply c lost = some (r, s')) : ∃ rs, (s.conn c).replies = r :: rs ∧
      s' = s.setConn c fun k => { k with replies := rs.drop lost } := by
  unfold nextReply at h
  split at h
  · cases h
  · rename_i r rs hrs
    cases h
    exact ⟨rs, hrs, rfl⟩

theorem performed_of_exec {s s' : State} {t : Thread} {o : Op} {ch : Choice} {r : o.Ret}
    (h : exec s t o ch = some (r, s')) : Performed s t ch o r s' := by
  cases o <;> simp only [exec] at h
  case stuck => cases h
  case acquire n =>
    simp only [acquire] at h
    split at h
    · split at h
      · cases h
        exact .looked rfl
      · rename_i c hc
        cases h
        exact .acquired hc
    · cases h
  case sizeBelow =>
    simp only [sizeBelow] at h
    split at h
    · split at h <;> cases h
      · exact .counted rfl rfl
      · exact .looked rfl
    · cases h
  case hasBackends | tryAlloc =>
    split at h <;> cases h
    · exact .looked rfl
    · exact .counted rfl rfl
  case free =>
    cases h
    exact .counted rfl rfl
  case addActive | closeAll | closeBackend | releaseLock =>
    split at h <;> cases h
    constructor <;> assumption
  case selectBackend =>
    split at h <;> cases h <;> exact .looked rfl
  case tryConnect =>
    split at h <;> cases h
    · exact .connected
    · exact .looked rfl
  case enqueue =>
    simp only [enqueue] at h
    split at h <;> cases h
    · exact .looked rfl
    · exact .enqueued
  case checkWaiter n w =>
    simp only [lookAt] at h
    split at h <;> cases h
    · exact .looked rfl
    · rename_i c hc
      exact .seen (.inl rfl) hc
  case recheckWaiter n w =>
    simp only [lookAt] at h
    split at h <;> cases h
    · exact .looked rfl
    · rename_i c hc
      exact .seen (.inr rfl) hc
  case select w timeout =>
    split at h
    · split at h <;> cases h
      exact .looked rfl
    · split at h <;> cases h
      exact .flagged rfl
    · cases h
      exact .flagged rfl
    · cases h
  case timeOut =>
    cases h
    exact .flagged rfl
  case signal n c =>
    simp only [signal] at h
    split at h <;> cases h
    · rename_i q hpop
      exact .passed hpop
    · rename_i w q hpop
      exact .delivered hpop
  case write =>
    split at h <;> cases h
    · exact .wrote
    · exact .looked rfl
  case writeReset =>
    split at h <;> cases h
    · exact .wroteReset
    · exact .looked rfl
  case read =>
    split at h
    · rename_i hopen
      split at h
      · cases h
      · rename_i hnext
        obtain ⟨rs, hc, rfl⟩ := nextReply_eq_some hnext
        cases h
        exact .received hopen.2 (by rw [hc, List.take_append_drop])
    · cases h
      exact .lost
  case readReset =>
    split at h
    · split at h
      · cases h
      · rename_i hnext
        obtain ⟨rs, hc, rfl⟩ := nextReply_eq_some hnext
        cases h
        exact .readReset (by rw [hc, List.take_succ_cons, List.cons_append, List.take_append_drop])
    · cases h
      exact .looked rfl
  case setStatus x status =>
    cases h
    refine .settled rfl fun k hk => ?_
    obtain ⟨k', hk', rfl⟩ := Option.map_eq_some_iff.mp hk
    exact ⟨k', hk', rfl⟩
  case unregister =>
    cases h
    refine .settled rfl fun k hk => ?_
    cases hk
  case timeouts =>
    split at h
    · split at h <;> cases h
      exact .looked rfl
    · cases h
  case idleCount | activeCount | countActive | awaitRelay =>
    split at h <;> cases h
    exact .looked rfl
  case awaitErr | awaitErrOrTimer =>
    split at h
    · cases h
      exact .looked rfl
    · split at h <;> cases h
      exact .noted rfl
  case setTargetRole | setInTxn | setAutoRelease | sendErr | setDone | drainErr =>
    cases h
    exact .noted rfl
  case closeRelay n =>
    cases hps : (s.session n).psConn with
    | none =>
      simp only [hps] at h
      cases h
      exact .ended fun _ => .inl rfl
    | some d =>
      simp only [hps] at h
      cases h
      refine .ended fun c => ?_
      by_cases hc : c = d
      · subst hc
        exact .inr ⟨hps, update_self ..⟩
      · exact .inl (update_of_ne hc ..)
  case backend =>
    simp only [answer] at h
    split at h
    · obtain ⟨s1, hs1, heq⟩ := Option.map_eq_some_iff.mp h
      cases heq
      split at hs1
      · cases hs1
      · rename_i hq
        split at hs1 <;> cases hs1
        rename_i hrs
        exact .answered hq hrs rfl
    · cases h
  all_goals
    cases h
    first | exact .looked rfl | constructor

end Geryon
