import Geryon.Cache.Store
import Geryon.Conc.Protocol
import Geryon.System.State

/-!
# Sessions that share a cache: state and operations

The sessions of one listener share a `cache.Store` and the `sync.Pool` of
response buffers.  This module has that state and the atomic operations on it;
`Geryon.Cache.Relay` has the functions of the relay that are made of them.

A connection to the backend is what has been written and not executed yet, and
what has been answered and not read yet.  Messages are whole here.  The pool,
which is outside, decides on which connection a query runs.

The last fields of `State`, the operation `finish` and the last argument of
`set` are bookkeeping, which no modelled function reads.
-/

namespace Geryon.Cache

open Go Function

inductive ClientMessage where
  /-- `IsQuery`, with the text of the query. -/
  | query (text : Str)
  /-- A message that the relay does not take for a query, and the statement that
  the backend executes when it receives it, if any. -/
  | other (stmt : Option Str)
  | terminate
  deriving DecidableEq

namespace ClientMessage

/-- The variable `query` of `forwardClientToServer`. -/
def text : ClientMessage → Str
  | .query q => q
  | .other _ | .terminate => []

/-- The statement that the backend executes on receiving the message. -/
def stmt : ClientMessage → Option Str
  | .query q => some q
  | .other s => s
  | .terminate => none

end ClientMessage

structure Conn where
  /-- Written and not executed yet, the oldest first. -/
  requests : List ClientMessage := []
  /-- Sent by the backend and not read yet, the oldest first. -/
  replies : List Reply := []
  deriving DecidableEq

/-- Bookkeeping: a hit, and the statements that had been executed then. -/
structure Hit where
  session : SessionId
  query : Str
  capture : Capture
  executed : List Str
  deriving DecidableEq

/-- Bookkeeping: the bytes that were written to a client on a hit. -/
structure Replay where
  capture : Capture
  bytes : List UInt8
  deriving DecidableEq

structure State where
  heap : Heap := {}
  bufferPool : List Slice := []
  store : Store
  now : Nat := 0
  conn : ConnId → Conn := fun _ => {}
  /-- `ps.currentQuery`, a field that both goroutines of a relay write. -/
  currentQuery : SessionId → Str := fun _ => []
  /-- Bookkeeping: the message that the relay of a session is handling. -/
  handling : SessionId → Option ClientMessage := fun _ => none
  /-- Bookkeeping: the statements that the backend has executed, the oldest
  first. -/
  executed : List Str := []
  /-- Bookkeeping: what the last hit of a session has found. -/
  found : SessionId → Option Capture := fun _ => none
  hits : List Hit := []
  replays : List Replay := []

inductive Thread where
  | clientToServer (n : SessionId)
  | serverToClient (n : SessionId)
  /-- The goroutine of `StartCleanup`. -/
  | cleanup
  | clock
  /-- The garbage collector, which may empty a `sync.Pool`. -/
  | collector
  | backend
  deriving DecidableEq

inductive Op where
  /-- Never enabled: a loop that has used up its rounds, or a panic. -/
  | stuck
  | readClient (n : SessionId) (msg : ClientMessage)
  | finish (n : SessionId)
  | getCurrentQuery (n : SessionId)
  | setCurrentQuery (n : SessionId) (query : Str)
  -- `Store`
  | get (n : SessionId) (query key : Str)
  | set (key : Str) (value : Slice) (tables : List Str) (ttl : Nat) (capture : Capture)
  | invalidateTable (table : Str)
  | cleanupExpired
  -- The response buffer
  | getBuffer
  | bufferWrite (b : Buffer) (p : List UInt8)
  | putBuffer (buf : Slice)
  | dropBuffer
  -- Connections
  | onQuery (n : SessionId)
  | psConn (n : SessionId)
  | writeServer (n : SessionId) (c : ConnId) (msg : ClientMessage) (captured : Bool)
  | readServer (n : SessionId) (c : ConnId)
  | writeClient (n : SessionId) (msg : Wire.Message)
  | sendCached (n : SessionId) (data : Slice)
  | tick
  | execute
  deriving DecidableEq

@[reducible] def Op.Ret : Op → Type
  | .readClient _ _ | .set _ _ _ _ _ | .writeServer _ _ _ _ => Bool
  | .writeClient _ _ | .sendCached _ _ => Bool
  | .getCurrentQuery _ => Str
  | .get _ _ _ => Option Slice
  | .getBuffer => Slice
  | .bufferWrite _ _ => Buffer
  | .onQuery _ | .psConn _ => Option ConnId
  | .readServer _ _ => Option Reply
  | _ => Unit

/-- What the outside world decides at an operation. -/
inductive Choice where
  | ok
  | fail
  /-- The connection that the pool gives out. -/
  | conn (c : ConnId)
  /-- The buffer of the `sync.Pool` that is meant. -/
  | pooled (i : Nat)
  /-- The oldest request on a connection is executed and answered. -/
  | answer (c : ConnId) (msgs : List Wire.Message)
  deriving DecidableEq

namespace State

/-- `getBuffer`: any buffer of the pool, or a new one. -/
def getBuffer (s : State) : Choice → Option (Slice × State)
  | .pooled i =>
    match s.bufferPool[i]? with
    | none => none
    | some buf => some (buf, { s with bufferPool := s.bufferPool.eraseIdx i })
  | _ => some ((s.heap.make 4096).1, { s with heap := (s.heap.make 4096).2 })

def putBuffer (s : State) (buf : Slice) : State :=
  let buf := if 8192 < buf.cap then { buf with len := 0, cap := 4096 } else buf
  { s with bufferPool := buf :: s.bufferPool }

/-- `Store.Get`, and what it finds. -/
def get (s : State) (n : SessionId) (query key : Str) : Option Slice × State :=
  let r := s.store.get s.now key
  match r.1 with
  | none => (none, { s with store := r.2 })
  | some e =>
    (some e.value, { s with
      store := r.2
      found := update s.found n (some e.capture)
      hits := s.hits ++ [⟨n, query, e.capture, s.executed⟩] })

def set (s : State) (key : Str) (value : Slice) (tables : List Str) (ttl : Nat)
    (capture : Capture) : Bool × State :=
  let r := s.store.set s.now key value tables ttl capture
  (r.1, { s with store := r.2 })

def setConn (s : State) (c : ConnId) (k : Conn) : State :=
  { s with conn := update s.conn c k }

@[simp] theorem conn_setConn_self (s : State) (c : ConnId) (k : Conn) :
    (s.setConn c k).conn c = k := by
  simp [setConn]

@[simp] theorem conn_setConn_of_ne {c c' : ConnId} (s : State) (k : Conn) (h : c' ≠ c) :
    (s.setConn c k).conn c' = s.conn c' := by
  simp [setConn, h]

/-- The oldest reply on a connection. -/
def readServer (s : State) (c : ConnId) : Option (Reply × State) :=
  match (s.conn c).replies with
  | [] => none
  | r :: rs => some (r, s.setConn c { s.conn c with replies := rs })

/-- The backend executes the oldest request on a connection and answers it. -/
def execute (s : State) (c : ConnId) (msgs : List Wire.Message) : Option State :=
  match (s.conn c).requests with
  | [] => none
  | q :: qs =>
    let executed := s.executed ++ q.stmt.toList
    some { s.setConn c ⟨qs, (s.conn c).replies ++ msgs.map (⟨·, executed.length⟩)⟩ with
      executed := executed }

/-- `clientConn.Write(data)` of a cached response. -/
def sendCached (s : State) (n : SessionId) (data : Slice) : State :=
  { s with replays := s.replays ++ (s.found n).toList.map (⟨·, s.heap.bytes data⟩) }

end State

/-- The answer of an operation and the state after it. -/
def exec (s : State) (_ : Thread) : (o : Op) → Choice → Option (o.Ret × State)
  | .stuck, _ => none
  | .readClient n msg, ch =>
    some (if ch = .ok then
      (true, { s with handling := update s.handling n (some msg) })
      else (false, s))
  | .finish n, _ => some ((), { s with handling := update s.handling n none })
  | .getCurrentQuery n, _ => some (s.currentQuery n, s)
  | .setCurrentQuery n query, _ =>
    some ((), { s with currentQuery := update s.currentQuery n query })
  | .get n query key, _ => some (s.get n query key)
  | .set key value tables ttl capture, _ => some (s.set key value tables ttl capture)
  | .invalidateTable table, _ => some ((), { s with store := s.store.invalidateTable table })
  | .cleanupExpired, _ => some ((), { s with store := s.store.cleanupExpired s.now })
  | .getBuffer, ch => s.getBuffer ch
  | .bufferWrite b p, _ => some ((b.write s.heap p).1, { s with heap := (b.write s.heap p).2 })
  | .putBuffer buf, _ => some ((), s.putBuffer buf)
  | .dropBuffer, ch =>
    match ch with
    | .pooled i => some ((), { s with bufferPool := s.bufferPool.eraseIdx i })
    | _ => none
  | .onQuery _, ch =>
    some (match ch with
      | .conn c => (some c, s)
      | _ => (none, s))
  | .psConn _, ch =>
    some (match ch with
      | .conn c => (some c, s)
      | _ => (none, s))
  | .writeServer _ c msg _, ch =>
    some (if ch = .ok then
      (true, s.setConn c { s.conn c with requests := (s.conn c).requests ++ [msg] })
      else (false, s))
  | .readServer _ c, ch =>
    if ch = .ok then (s.readServer c).map fun r => (some r.1, r.2) else some (none, s)
  | .writeClient _ _, ch => some (decide (ch = .ok), s)
  | .sendCached n data, ch => some (if ch = .ok then (true, s.sendCached n data) else (false, s))
  | .tick, _ => some ((), { s with now := s.now + 1 })
  | .execute, ch =>
    match ch with
    | .answer c msgs => (s.execute c msgs).map fun s' => ((), s')
    | _ => none

@[reducible] def sessions : Conc.Machine where
  State := State
  Thread := Thread
  decEq := inferInstance
  Op := Op
  Ret := Op.Ret
  Choice := Choice
  exec := exec

abbrev Prog := Conc.Prog sessions

abbrev act (o : Op) : Prog o.Ret := Conc.Prog.act (M := sessions) o

end Geryon.Cache
