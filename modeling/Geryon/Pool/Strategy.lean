import Geryon.Pool.Pool

/-!
# The strategies of the three pool modes

`SessionStrategy`, `TransactionStrategy` and `StatementStrategy` of
`internal/pool/strategy.go`.  The callbacks of one kind are one function with
the mode as an argument; where the three modes do the same, it has one body.

The operations `giveUp` and `acquireFailed` mark two points that the source
has and the state does not show: a callback has decided to release the
connection of its session, and `OnQuery` returns because it could not acquire
one.
-/

namespace Geryon.Pool

variable (cfg : PoolConfig) (n : SessionId)

/-- `OnClientConnect`: a connection for the whole session in session mode, and
nothing yet in the other modes. -/
def onClientConnect : Prog (Except PoolError Unit) :=
  match cfg.mode with
  | .session => do
    match ← acquire cfg n with
    | .error err => return .error err
    | .ok conn =>
      act (.setServerConn n (some conn))
      return .ok ()
  | .transaction | .statement => return .ok ()

/-- `OnClientDisconnect`, in all modes. -/
def onClientDisconnect : Prog Unit := do
  match ← act (.getServerConn n) with
  | none => return ()
  | some conn =>
    release cfg n conn
    act (.setServerConn n none)

/-- Release the connection of the session inside one of its callbacks. -/
def giveBack (conn : ConnId) (why : Reason) : Prog Unit := do
  act (.giveUp n conn why)
  release cfg n conn

/-- What the strategies have in common where they acquire in `OnQuery`. -/
def acquireForQuery (targetRole : Option Role) : Prog (Except PoolError ConnId) := do
  let result ← match targetRole with
    | some role => acquireToRole cfg n role
    | none => acquire cfg n
  match result with
  | .error err =>
    act (.acquireFailed n)
    return .error err
  | .ok conn =>
    act (.setServerConn n (some conn))
    return .ok conn

/-- `SessionStrategy.OnQuery`.  On a role change the session goes on to refer
to the connection that has been released, until the new one is there. -/
def sessionOnQuery : Prog (Except PoolError ConnId) := do
  let held ← act (.getServerConn n)
  let targetRole ← act (.getTargetRole n)
  match held, targetRole with
  | some conn, some role =>
    if (← act (.roleOf conn)) = role then return .ok conn
    else
      giveBack cfg n conn .roleChange
      acquireForQuery cfg n targetRole
  | some conn, none => return .ok conn
  | none, _ => acquireForQuery cfg n targetRole

/-- `TransactionStrategy.OnQuery`.  `begins` is `IsTransactionBegin`. -/
def transactionOnQuery (begins : Bool) : Prog (Except PoolError ConnId) := do
  match ← act (.getServerConn n) with
  | some conn => return .ok conn
  | none =>
    let targetRole ← act (.getTargetRole n)
    match ← acquireForQuery cfg n targetRole with
    | .error err => return .error err
    | .ok conn =>
      if !(← act (.getInTxn n)) && !begins then act (.setAutoRelease n true)
      return .ok conn

def statementOnQuery : Prog (Except PoolError ConnId) := do
  let targetRole ← act (.getTargetRole n)
  acquireForQuery cfg n targetRole

def onQuery (begins : Bool) : Prog (Except PoolError ConnId) :=
  match cfg.mode with
  | .session => sessionOnQuery cfg n
  | .transaction => transactionOnQuery cfg n begins
  | .statement => statementOnQuery cfg n

def onQueryComplete : Prog Unit :=
  match cfg.mode with
  | .session => return ()
  | .transaction => do
    if !(← act (.getInTxn n)) then
      if ← act (.getAutoRelease n) then
        match ← act (.getServerConn n) with
        | none => return ()
        | some conn =>
          giveBack cfg n conn .queryComplete
          act (.setServerConn n none)
          act (.setAutoRelease n false)
  | .statement => do
    match ← act (.getServerConn n) with
    | none => return ()
    | some conn =>
      giveBack cfg n conn .queryComplete
      act (.setServerConn n none)

/-- `OnTransactionBegin`.  In statement mode it returns an error, which
`ProxySession.OnQuery` ignores. -/
def onTransactionBegin : Prog Unit :=
  match cfg.mode with
  | .session | .transaction => act (.setInTxn n true)
  | .statement => return ()

def onTransactionEnd : Prog Unit :=
  match cfg.mode with
  | .session => act (.setInTxn n false)
  | .transaction => do
    act (.setInTxn n false)
    match ← act (.getServerConn n) with
    | none => return ()
    | some conn =>
      giveBack cfg n conn .transactionEnd
      act (.setServerConn n none)
  | .statement => return ()

end Geryon.Pool
