import Geryon.System.Machine

/-!
# `Acquire`, `Release` and what they call

The calls of `Pool` in `internal/pool/pool.go` and of the resetters in
`internal/pool/reset.go`, as programs over the operations of the machine.

`Acquire` and `AcquireToRole` differ in the backend that a new connection is
made to, and in nothing else; `acquireWith` is their body, and `createWith` is
that of `createServerConn` and `createServerConnToRole`.
-/

namespace Geryon.Pool

inductive PoolMode where
  | session
  | transaction
  | statement
  deriving DecidableEq

/-- How clients are authenticated: `authMode`. -/
inductive AuthMode where
  | passthrough
  | interception
  deriving DecidableEq

/-- The configuration of a pool.  `rounds` bounds the loops that the program
does not bound itself. -/
structure PoolConfig where
  mode : PoolMode
  body : Wire.Protocol
  authMode : AuthMode
  maxServerConnections : Nat
  minServerConnections : Nat
  /-- `ConnectionTimeout` is positive, so `Wait` has a timeout. -/
  waitTimeout : Bool
  rounds : Nat

inductive PoolError where
  | noBackends
  | memoryLimit
  | noHealthyBackend (role : Option Role)
  | connectFailed (role : Option Role) (attempts : Nat)
  | queueFull (maxSize : Nat)
  | timeout
  | ctxDone
  deriving DecidableEq

/-! ## Creating a connection -/

/-- The loop of `createServerConn` over its attempts. -/
def tryBackends (n : Option SessionId) (role : Option Role) (maxRetries : Nat) :
    Nat → Prog (Except PoolError ConnId)
  | 0 => do
    act .free
    return .error (.connectFailed role maxRetries)
  | left + 1 => do
    match ← act (.selectBackend role) with
    | none =>
      act .free
      return .error (.noHealthyBackend role)
    | some backend =>
      if ← act .isCircuitOpen then tryBackends n role maxRetries left
      else
        match ← act (.tryConnect n backend) with
        | some conn => return .ok conn
        | none => tryBackends n role maxRetries left

/-- The common body of `createServerConn` and `createServerConnToRole`. -/
def createWith (n : Option SessionId) (role : Option Role) :
    Prog (Except PoolError ConnId) := do
  if ← act .hasBackends then
    if ← act .tryAlloc then tryBackends n role 3 3
    else return .error .memoryLimit
  else return .error .noBackends

def createServerConn (n : Option SessionId) : Prog (Except PoolError ConnId) :=
  createWith n none

def createServerConnToRole (n : Option SessionId) (role : Role) :
    Prog (Except PoolError ConnId) :=
  createWith n (some role)

/-- The goroutine of `prefetchConns`.  The connections it creates are neither
registered nor returned to anyone. -/
def prefetchLoop (target maxConns : Nat) : Nat → Prog Unit
  | 0 => act .stuck
  | rounds + 1 => do
    let idleCount ← act .idleCount
    let activeCount ← act .activeCount
    if idleCount + activeCount < target then
      if ← act .ctxDone then return ()
      else if ← act (.sizeBelow none maxConns) then
        let _ ← createServerConn none
        prefetchLoop target maxConns rounds
      else return ()
    else return ()

/-- `prefetchConns`, as `NewPool` calls it. -/
def prefetchConns (cfg : PoolConfig) : Prog Unit :=
  let maxConns := if cfg.maxServerConnections = 0 then 100 else cfg.maxServerConnections
  if 0 < cfg.minServerConnections then
    prefetchLoop (min cfg.minServerConnections maxConns) maxConns cfg.rounds
  else return ()

/-! ## Waiting for a connection -/

def waitLoop (n : SessionId) (w : WaiterId) (timeout : Bool) :
    Nat → Prog (Except PoolError ConnId)
  | 0 => do
    act .stuck
    return .error .timeout
  | rounds + 1 => do
    match ← act (.checkWaiter n w) with
    | (some conn, _) => return .ok conn
    | (none, true) => return .error .timeout
    | (none, false) =>
      match ← act (.select w timeout) with
      | .ready =>
        match ← act (.recheckWaiter n w) with
        | some conn => return .ok conn
        | none => waitLoop n w timeout rounds
      | .timeout =>
        act (.timeOut w)
        return .error .timeout
      | .done =>
        act (.timeOut w)
        return .error .ctxDone

def wait (n : SessionId) (maxSize : Nat) (timeout : Bool) (rounds : Nat) :
    Prog (Except PoolError ConnId) := do
  match ← act (.enqueue n maxSize) with
  | none => return .error (.queueFull maxSize)
  | some w =>
    let result ← waitLoop n w timeout rounds
    act (.dequeue n w result.toOption)
    return result

/-! ## `Acquire` -/

/-- The common body of `Acquire` and `AcquireToRole`. -/
def acquireWith (cfg : PoolConfig) (n : SessionId) (create : Prog (Except PoolError ConnId)) :
    Prog (Except PoolError ConnId) := do
  match ← act (.acquire n) with
  | some conn => return .ok conn
  | none =>
    if ← act (.sizeBelow (some n) cfg.maxServerConnections) then
      match ← create with
      | .error err => return .error err
      | .ok conn =>
        act (.addActive n conn)
        return .ok conn
    else
      match ← act (.acquire n) with
      | some conn => return .ok conn
      | none => wait n 1000 cfg.waitTimeout cfg.rounds

def acquire (cfg : PoolConfig) (n : SessionId) : Prog (Except PoolError ConnId) :=
  acquireWith cfg n (createServerConn (some n))

def acquireToRole (cfg : PoolConfig) (n : SessionId) (role : Role) :
    Prog (Except PoolError ConnId) :=
  acquireWith cfg n (createServerConnToRole (some n) role)

/-! ## `Release` -/

/-- What executing a reset does to an open transaction: MySQL's
`COM_RESET_CONNECTION` rolls it back, and PostgreSQL refuses `DISCARD ALL`
inside one. -/
def resetEffect : Wire.Protocol → TxnEffect
  | .mySQL => .closes
  | .postgreSQL | .msSQL => .keeps

/-- The drain loop of the PostgreSQL and MSSQL resetters.  It ends with
success at the first read that fails, whatever the reason. -/
def drain (conn : ConnId) : Nat → Prog Bool
  | 0 => do
    act .stuck
    return false
  | rounds + 1 => do
    if ← act (.setReadDeadline conn) then
      match ← act (.readReset conn) with
      | none => return true
      | some _ => drain conn rounds
    else return false

/-- `ResetConnection`: whether it returns without an error. -/
def resetConnection (cfg : PoolConfig) (conn : ConnId) : Prog Bool := do
  if ← act (.writeReset conn (resetEffect cfg.body)) then
    match cfg.body with
    | .mySQL =>
      match ← act (.readReset conn) with
      | none => return false
      | some _ => return true
    | .postgreSQL | .msSQL => drain conn cfg.rounds
  else return false

/-- `serverConnPool.release`.  The mutex is held to the end. -/
def releaseConn (cfg : PoolConfig) (conn : ConnId) : Prog Unit := do
  if ← act (.releaseLock conn cfg.maxServerConnections) then
    if ← resetConnection cfg conn then act (.releaseIdle conn)
    else act (.releaseClose conn)
  else act (.releaseClose conn)

def release (cfg : PoolConfig) (n : SessionId) (conn : ConnId) : Prog Unit := do
  if ← act (.signal n conn) then return ()
  else releaseConn cfg conn

/-! ## The backends -/

/-- The backends, answering request by request. -/
def backendLoop : Nat → Prog Unit
  | 0 => act .stuck
  | rounds + 1 => do
    act .backend
    backendLoop rounds

end Geryon.Pool
