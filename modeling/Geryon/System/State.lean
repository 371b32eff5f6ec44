import Geryon.Pool.WaitQueue
import Geryon.Protocol.Message

/-!
# The shared state of the proxy

What the goroutines of `internal/pool` and `internal/proxy` share: the server
connections with their backends, `serverConnPool`, `WaitQueue`, the sessions
and the transaction manager.

A `ServerConn` is its id.  The network connection behind it and the backend at
its other end are one record, `Conn`: what the proxy has written and the backend
has not executed yet, what the backend has answered and nobody has read yet, and
whether the backend has an open transaction.

The last fields of several records are bookkeeping, which no modelled function
reads.  The most important one is `place`: where a connection is by the last
operation that moved it.
-/

namespace Geryon

open Function

open Pool (WaiterId WaitQueue)

/-- The id of a `ServerConn`, from `connIDCounter`. -/
abbrev ConnId := Nat

/-- A `ProxySession` together with its `pool.Session`. -/
abbrev SessionId := Nat

/-- The id of a `TransactionInfo`, from `txnIDCounter`. -/
abbrev TxnId := Nat

inductive Thread where
  | handle (n : SessionId)
  | clientToServer (n : SessionId)
  | serverToClient (n : SessionId)
  /-- `TransactionManager.monitorLoop`. -/
  | monitor
  | prefetch
  /-- A goroutine that closes the pool or removes a backend. -/
  | admin (i : Nat)
  /-- A goroutine that calls the pool directly. -/
  | caller (i : Nat)
  | backend
  deriving DecidableEq

/-- `Backend.Role`. -/
inductive Role where
  | primary
  | replica
  | other
  deriving DecidableEq

structure Backend where
  address : Nat
  role : Role
  deriving DecidableEq

/-- Who wrote a message to a backend: a session's relay, or the pool when it
resets the connection. -/
inductive Origin where
  | session (n : SessionId)
  | reset
  deriving DecidableEq

/-- What executing a message does to the backend's transaction. -/
inductive TxnEffect where
  | opens
  | closes
  | keeps
  deriving DecidableEq

/-- A message on its way to the backend. -/
structure Request where
  origin : Origin
  effect : TxnEffect
  deriving DecidableEq

/-- A message of a backend's answer to a request. -/
structure Reply where
  origin : Origin
  /-- It ends the answer. -/
  last : Bool
  /-- It is an error response. -/
  error : Bool := false
  /-- Its type is `'Z'`, PostgreSQL's `ReadyForQuery`. -/
  ready : Bool := false
  /-- What the relay makes of it: nothing, or the end of a query with the
  transaction status it then sets. -/
  status : Option Bool := none
  deriving DecidableEq

/-- A network connection to a backend, with what is under way on it. -/
structure Conn where
  backend : Backend := ⟨0, .other⟩
  /-- The proxy has closed the `net.Conn`. -/
  closed : Bool := false
  /-- Written and not executed yet, the oldest first. -/
  requests : List Request := []
  /-- Answered and not read yet, the oldest first. -/
  replies : List Reply := []
  /-- The backend has an open transaction. -/
  inTxn : Bool := false
  /-- Bookkeeping: how the start-up exchanges on it ended. -/
  startups : List Bool := []
  /-- Bookkeeping: the session that used it since it was last reset. -/
  user : Option SessionId := none
  /-- Bookkeeping: the reset under way has been answered with an error. -/
  resetError : Bool := false

/-- A `waiter` of the wait queue. -/
structure Waiter where
  conn : Option ConnId := none
  timedOut : Bool := false
  /-- Bookkeeping: the goroutine in `Wait`. -/
  owner : Thread := .backend
  /-- Bookkeeping: its `select` has taken the timeout or the cancellation. -/
  gaveUp : Bool := false
  /-- Bookkeeping: `Wait` has seen the connection. -/
  taken : Bool := false
  /-- Bookkeeping: `Wait` has returned. -/
  finished : Bool := false

/-- Bookkeeping: what a goroutine of a session is doing. -/
inductive Region where
  | startup
  | message
  | abort
  | cleanup
  deriving DecidableEq

/-- Bookkeeping: why a callback releases the connection it holds. -/
inductive Reason where
  /-- `OnQuery` needs a backend of another role. -/
  | roleChange
  | queryComplete
  | transactionEnd
  deriving DecidableEq

/-- A `ProxySession` and its `pool.Session`. -/
structure Session where
  /-- `Session.serverConn`. -/
  serverConn : Option ConnId := none
  /-- `ProxySession.serverConn`. -/
  psConn : Option ConnId := none
  targetRole : Option Role := none
  inTxn : Bool := false
  /-- `AutoCommitRelease`. -/
  autoRelease : Bool := true
  /-- The goroutines of `Relay.Run` have been started. -/
  started : Bool := false
  /-- `Relay.Run` has closed the connections. -/
  ended : Bool := false
  /-- The number of values in `errCh`. -/
  errCh : Nat := 0
  done : Bool := false
  /-- Bookkeeping: the goroutine that is in one of the session's callbacks. -/
  turn : Option Thread := none
  region : Region := .startup
  /-- Bookkeeping: whether the start-up exchange has succeeded, once it has
  been carried out. -/
  exchanged : Option Bool := none
  /-- Bookkeeping: the connection a callback has decided to release. -/
  giving : Option ConnId := none
  /-- Bookkeeping: a role change is under way. -/
  swapping : Bool := false
  /-- Bookkeeping: the end of a transaction has been seen in this message, and
  the connection released for it. -/
  early : Bool := false

/-- `TransactionStatus`. -/
inductive TxnStatus where
  | active
  | idle
  | aborted
  | committed
  deriving DecidableEq

/-- A `TransactionInfo`.  `abortFunc` says whether it has one. -/
structure Txn where
  session : SessionId
  abortFunc : Bool
  status : TxnStatus := .active

/-- Bookkeeping: where a connection is. -/
inductive Place where
  /-- In nobody's hands: not created, closed, or never registered. -/
  | nowhere
  /-- In `serverConnPool.idle`. -/
  | idle
  /-- Delivered to a waiter that has not seen it yet. -/
  | waiter (w : WaiterId)
  /-- Inside a call of `Acquire` that is going to return it. -/
  | handing (n : SessionId)
  /-- Acquired for the session and not passed to `Release` since. -/
  | session (n : SessionId)
  /-- Passed to `Release`, and on its way to the idle list. -/
  | releasing (t : Thread)
  deriving DecidableEq

/-- `serverConnPool`.  `locked` is set while `mu` is held across more than one
operation: `release` does so while it resets a connection. -/
structure ServerConnPool where
  idle : List ConnId := []
  active : List ConnId := []
  locked : Option (Thread × ConnId) := none

/-- Bookkeeping: what a goroutine has written to backends, and what it has read
from them. -/
structure Talk where
  /-- The reply that it has read and not passed to the client yet. -/
  unsent : Option (SessionId × Reply) := none
  /-- The connection that it has written a message to, and not read the answer
  to the end from. -/
  answering : Option ConnId := none
  /-- It has left an answer before its end. -/
  dropped : Bool := false

structure State where
  conns : ServerConnPool := {}
  queue : WaitQueue := .empty
  waiter : WaiterId → Waiter := fun _ => {}
  nextWaiter : WaiterId := 0
  conn : ConnId → Conn := fun _ => {}
  nextConn : ConnId := 0
  session : SessionId → Session := fun _ => {}
  txn : TxnId → Option Txn := fun _ => none
  nextTxn : TxnId := 0
  clientClosed : SessionId → Bool := fun _ => false
  /-- Bookkeeping: where each connection is. -/
  place : ConnId → Place := fun _ => .nowhere
  /-- Bookkeeping: the goroutines that have passed a size check and have not
  connected or failed since. -/
  creating : List Thread := []
  /-- Bookkeeping: the connections that were created and are not registered. -/
  unregistered : List ConnId := []
  /-- Bookkeeping: the reset under way has been written. -/
  asked : Bool := false
  /-- Bookkeeping: what each goroutine has written and read. -/
  talk : Thread → Talk := fun _ => {}
  /-- Bookkeeping: the deliveries of `Signal`, the oldest first. -/
  served : List (ConnId × WaiterId) := []
  /-- Bookkeeping: what the calls of `Wait` returned without an error, the
  oldest first. -/
  returned : List (ConnId × WaiterId) := []

namespace State

def setConn (s : State) (c : ConnId) (f : Conn → Conn) : State :=
  { s with conn := update s.conn c (f (s.conn c)) }

def setSession (s : State) (n : SessionId) (f : Session → Session) : State :=
  { s with session := update s.session n (f (s.session n)) }

def setWaiter (s : State) (w : WaiterId) (f : Waiter → Waiter) : State :=
  { s with waiter := update s.waiter w (f (s.waiter w)) }

/-- Record where a connection is. -/
def move (s : State) (c : ConnId) (p : Place) : State :=
  { s with place := update s.place c p }

/-- Record what a goroutine has written or read. -/
def say (s : State) (t : Thread) (f : Talk → Talk) : State :=
  { s with talk := update s.talk t (f (s.talk t)) }

end State

end Geryon
