import Geryon.Pool.Strategy

/-!
# Sessions, the relay and the goroutines of the proxy

`ProxySession` and `Relay` of `internal/proxy/listener.go` and the monitor of
`internal/pool/transaction.go`, as programs over the operations of the
machine, and the configuration in which all goroutines are about to start.

A `ClientMessage` is what a message is to the proxy: the answers of the codec, of
the router and of the cache, and what it does to the backend's transaction.

`enter` and `leave` mark where a goroutine runs callbacks of a session: during the
start-up, while it handles a message, when it aborts a transaction, and in the
deferred clean-up.  The source has no lock there.
-/

namespace Geryon.Proxy

open Pool

/-- What the cache makes of a message. -/
inductive CacheCase where
  /-- It is not to be cached. -/
  | bypass
  /-- It is in the cache. -/
  | hit
  /-- It is to be cached, and is not there yet. -/
  | miss
  deriving DecidableEq

/-- A message of a client, as the relay sees it. -/
structure ClientMessage where
  /-- `IsTerminate`. -/
  terminate : Bool := false
  /-- `IsQuery`. -/
  query : Bool := true
  /-- `IsTransactionBegin`. -/
  begins : Bool := false
  /-- `IsTransactionEnd`. -/
  ends : Bool := false
  /-- The query text starts with `COMMIT`. -/
  commit : Bool := false
  /-- Its type is `'S'`. -/
  sync : Bool := false
  /-- It executes a statement that has to be prepared again. -/
  reprepare : Bool := false
  /-- The role that the router picks, if there is a router and it succeeds. -/
  route : Option Role := none
  cache : CacheCase := .bypass
  effect : TxnEffect := .keeps
  deriving DecidableEq

inductive StartupError where
  /-- The client is refused before a backend is involved. -/
  | refused
  | connect (err : PoolError)
  | noServerConn
  /-- The exchange with the backend fails. -/
  | exchange
  deriving DecidableEq

variable (cfg : PoolConfig) (n : SessionId)

/-! ## The start-up -/

/-- What all start-up functions do before the exchange: `OnClientConnect`,
then `ps.serverConn` from `ServerConn()`. -/
def takeServerConn : Prog (Except StartupError ConnId) := do
  match ← onClientConnect cfg n with
  | .error err => return .error (.connect err)
  | .ok () =>
    match ← act (.getServerConn n) with
    | none => return .error .noServerConn
    | some serverConn =>
      act (.setPsConn n (some serverConn))
      return .ok serverConn

/-- `connectToBackend`, and what `handleMySQLPassthrough`,
`handleMSSQLPassthrough` and `handleMSSQLInterception` do once they turn to
the backend. -/
def connectToBackend : Prog (Except StartupError Unit) := do
  match ← takeServerConn cfg n with
  | .error err => return .error err
  | .ok serverConn =>
    if ← act (.exchange n serverConn) then return .ok ()
    else return .error .exchange

/-- `handleMySQLInterception` once the client is authenticated: nothing is
exchanged with the backend. -/
def handleMySQLInterception : Prog (Except StartupError Unit) := do
  match ← takeServerConn cfg n with
  | .error err => return .error err
  | .ok _ => return .ok ()

def handleStartup : Prog (Except StartupError Unit) := do
  if ← act (.authenticate n) then
    match cfg.body, cfg.authMode with
    | .mySQL, .interception => handleMySQLInterception cfg n
    | _, _ => connectToBackend cfg n
  else return .error .refused

/-! ## From the client to the server -/

def onQuery (msg : ClientMessage) : Prog (Except PoolError ConnId) := do
  match msg.route with
  | some role => act (.setTargetRole n role)
  | none => pure ()
  match ← Pool.onQuery cfg n msg.begins with
  | .error err => return .error err
  | .ok conn =>
    if msg.begins then onTransactionBegin cfg n
    else if msg.ends then onTransactionEnd cfg n
    return .ok conn

/-- The bookkeeping of transactions in `forwardClientToServer`.  `info` is
`ps.transactionInfo`. -/
def trackTransaction (info : Option TxnId) (msg : ClientMessage) : Prog (Option TxnId) := do
  if msg.query && msg.begins then
    let serverConn ← act (.getPsConn n)
    let x ← act (.register n serverConn.isSome)
    return some x
  else if msg.query && msg.ends then
    match info with
    | none => return none
    | some x =>
      act (.setStatus x (if msg.commit then .committed else .aborted))
      act (.unregister x)
      return none
  else return info

/-- The loop of `forwardAndCapture`: whether it ends without an error. -/
def captureLoop (conn : ConnId) : Nat → Prog Bool
  | 0 => do
    act .stuck
    return false
  | rounds + 1 => do
    match ← act (.read n conn) with
    | none => return false
    | some reply =>
      if ← act (.writeClient n reply) then
        if reply.ready then return true else captureLoop conn rounds
      else return false

/-- Write a message to the server; one that is to be cached is answered by
`forwardAndCapture`. -/
def forward (conn : ConnId) (msg : ClientMessage) (captured : Bool) : Prog Bool := do
  if ← act (.write n conn msg.effect captured) then
    if captured then captureLoop n conn cfg.rounds else return true
  else return false

/-- What `forwardClientToServer` does with a message once it has to go to a
server: whether the loop goes on. -/
def handleMessage (msg : ClientMessage) : Prog Bool := do
  match ← onQuery cfg n msg with
  | .error _ => return false
  | .ok conn =>
    if msg.reprepare then
      let _ ← act (.writeEmpty conn)
    if ← forward cfg n conn msg (msg.cache ≠ .bypass) then
      if msg.sync then onQueryComplete cfg n
      return true
    else return false

/-- A message whose answer is in the cache is answered from there, unless the
client cannot be written to. -/
def answerOrHandle (msg : ClientMessage) : Prog Bool := do
  match msg.cache with
  | .hit => if ← act (.sendCached n) then return true else handleMessage cfg n msg
  | .bypass | .miss => handleMessage cfg n msg

/-- The loop of `forwardClientToServer`, for a client that sends the given
messages and then ends the connection. -/
def forwardClientToServer : Option TxnId → List ClientMessage → Prog Unit
  | _, [] => return ()
  | info, msg :: msgs => do
    if ← act .ctxDone then return ()
    else if ← act (.readClient n) then
      if msg.terminate then return ()
      else
        act (.enter n .message)
        let info ← trackTransaction n info msg
        let goesOn ← answerOrHandle cfg n msg
        act (.leave n)
        if goesOn then forwardClientToServer info msgs else return ()
    else return ()

/-! ## From the server to the client -/

def serverLoop (conn : ConnId) : Nat → Prog Unit
  | 0 => act .stuck
  | rounds + 1 => do
    if ← act .ctxDone then return ()
    else
      match ← act (.read n conn) with
      | none => return ()
      | some reply =>
        match reply.status with
        | none => pure ()
        | some true => act (.setInTxn n true)
        | some false =>
          act (.setInTxn n false)
          onQueryComplete cfg n
        if ← act (.writeClient n reply) then serverLoop conn rounds else return ()

/-- `forwardServerToClient`: it reads from `ps.serverConn` as it is at the
start. -/
def forwardServerToClient : Prog Unit := do
  match ← act (.getPsConn n) with
  | none => return ()
  | some conn => serverLoop cfg n conn cfg.rounds

/-! ## `Relay.Run` and `Handle` -/

def relayGoroutine (body : Prog Unit) : Prog Unit := do
  act (.awaitRelay n)
  body
  act (.sendErr n)
  act (.setDone n)

/-- The last loop of `Relay.Run`. -/
def awaitGoroutines : Nat → Prog Unit
  | 0 => return ()
  | left + 1 => do
    if ← act (.isDone n) then return ()
    else
      act (.awaitErrOrTimer n)
      awaitGoroutines left

def relayRun : Prog Unit := do
  act (.goRelay n)
  act (.awaitErr n)
  act (.closeRelay n)
  act (.drainErr n)
  awaitGoroutines n 2

/-- The function that `Handle` defers. -/
def cleanup : Prog Unit := do
  act (.enter n .cleanup)
  onClientDisconnect cfg n
  match ← act (.getPsConn n) with
  | none => pure ()
  | some serverConn =>
    release cfg n serverConn
    act (.setPsConn n none)
  act (.leave n)

def handle : Prog Unit := do
  act (.enter n .startup)
  match ← handleStartup cfg n with
  | .error _ => cleanup cfg n
  | .ok () =>
    match ← onClientConnect cfg n with
    | .error _ => cleanup cfg n
    | .ok () =>
      relayRun n
      cleanup cfg n

/-- `Handle` without the start-up: the relay of a session that has no connection yet. In
transaction and statement mode there is no connection to start up, so this is how the
relay is reached. -/
def handleRelay : Prog Unit := do
  act (.enter n .startup)
  relayRun n
  cleanup cfg n

/-! ## Timeouts of transactions -/

/-- `sendRollbackToBackend`.  The message has no `Raw`, so nothing is
written. -/
def sendRollbackToBackend : Prog Unit := do
  act (.enter n .abort)
  match ← act (.getServerConn n) with
  | none => act (.leave n)
  | some serverConn =>
    let _ ← act (.writeEmpty serverConn)
    onClientDisconnect cfg n
    act (.leave n)

/-- The loops of `checkTimeouts` over the transactions it has found. -/
def abortAll (status : TxnStatus) : List (Option SessionId × TxnId) → Prog Unit
  | [] => return ()
  | (session, x) :: l => do
    act (.setStatus x status)
    match session with
    | none => pure ()
    | some m => sendRollbackToBackend cfg m
    abortAll status l

def checkTimeouts : Prog Unit := do
  let (timeouts, idleTimeouts) ← act .timeouts
  abortAll cfg .aborted timeouts
  abortAll cfg .idle idleTimeouts

def monitorLoop : Nat → Prog Unit
  | 0 => act .stuck
  | rounds + 1 => do
    checkTimeouts cfg
    monitorLoop rounds

/-! ## The system -/

/-- What an administrator can do to the pool. -/
inductive AdminCall where
  | close
  | removeBackend (address : Nat)
  deriving DecidableEq

/-- `Pool.Close` and `Pool.RemoveBackend`, as far as they concern
connections. -/
def AdminCall.run : AdminCall → Prog Unit
  | .close => act .closeAll
  | .removeBackend address => do
    if (← act (.countActive address)) = 0 then act (.closeBackend address)

def adminCalls : List AdminCall → Prog Unit
  | [] => return ()
  | call :: calls => do
    call.run
    adminCalls calls

inductive Entry where
  | handle
  | relay
  deriving DecidableEq

/-- The clients and the administrators of a proxy. -/
structure Users where
  entry : SessionId → Entry := fun _ => .handle
  messages : SessionId → List ClientMessage := fun _ => []
  admin : Nat → List AdminCall := fun _ => []

/-- A proxy with one pool, as it is started. -/
def system (cfg : PoolConfig) (users : Users) : Conc.Config proxy where
  state := {}
  prog
    | .handle n =>
      match users.entry n with
      | .handle => handle cfg n
      | .relay => handleRelay cfg n
    | .clientToServer n => relayGoroutine n (forwardClientToServer cfg n none (users.messages n))
    | .serverToClient n => relayGoroutine n (forwardServerToClient cfg n)
    | .monitor => monitorLoop cfg cfg.rounds
    | .prefetch => prefetchConns cfg
    | .admin i => adminCalls (users.admin i)
    | .caller _ => .pure ()
    | .backend => backendLoop cfg.rounds

end Geryon.Proxy
