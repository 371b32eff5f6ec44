import Geryon.Startup.Auth

/-!
# The MySQL start-up

`handleMySQLStartup` of `internal/proxy/listener.go` and what it calls.

The packets that the proxy writes are assembled by hand in the source, and so
they are here: which header goes with which payload is part of the model.
-/

namespace Geryon.Startup

open List

open Wire (littleEndian)
open Pool (AuthMode)

/-! ## Packets -/

/-- The length in a packet header. -/
def mysqlLength (header : Bytes) : Nat := littleEndian (header.take 3)

/-- `createMySQLHandshake`.  A scramble that is too short is filled up with
zeros. -/
def createMySQLHandshake (connID : Nat) (scramble : Bytes) : Bytes :=
  let part1 := if 8 ≤ scramble.length then scramble.take 8 else replicate 8 0
  let part2 :=
    if 20 ≤ scramble.length then (scramble.drop 8).take 12
    else if 8 < scramble.length then
      scramble.drop 8 ++ replicate (20 - scramble.length) 0
    else replicate 12 0
  10 :: ascii "5.7.42-geryon" ++ 0 :: putLittleEndian 4 connID ++ part1 ++ 0 ::
    putLittleEndian 2 0x85a6 ++ 255 :: putLittleEndian 2 0x0002 ++ putLittleEndian 2 0x800f ++
    21 :: replicate 10 0 ++ part2 ++ 0 :: ascii "mysql_native_password" ++ [0]

/-- `createMySQLOKPacket`: eleven bytes, without a header. -/
def createMySQLOKPacket : Bytes := [0, 0, 0, 0, 0, 2, 0, 0, 0, 0, 0]

/-- `createMySQLErrorPacket`, without a header. -/
def createMySQLErrorPacket (code : Nat) (state message : String) : Bytes :=
  0xff :: putLittleEndian 2 code ++ '#'.toUInt8 :: ascii state ++ ascii message

def extractMySQLScramble (data : Bytes) : Handler Bytes := do
  if data.length < 10 then errorf "handshake too short"
  else if data.headD 0 ≠ 10 then
    let protoVersion := (data.headD 0).toNat
    errorf s!"unsupported protocol version: {protoVersion}"
  else
    -- the protocol version, the server version with its null, the connection id
    let pos := 1 + (untilNull (data.drop 1)).length + 1 + 4
    if pos + 8 > data.length then errorf "handshake too short for auth part 1"
    else
      let scramble := (data.drop pos).take 8
      let pos := pos + 8 + 1 + 5
      if pos + 2 > data.length then return scramble
      else
        let pos := pos + 2
        match data.drop pos with
        | [] => crash
        | authLen :: _ =>
          let pos := pos + 1 + 10
          -- `data[pos:pos+part2Len]`, cut off at the end of the data
          let part2 := (data.drop pos).take (min (authLen.toNat - 8) 12)
          return (scramble ++ part2 ++ replicate 12 0).take 20

/-- `parseMySQLHandshakeResponse`: user name and database. -/
def parseMySQLHandshakeResponse (data : Bytes) : Except Err (Bytes × Bytes) :=
  if data.length < 32 then .error (.errorf "response too short")
  else
    let username := untilNull (data.drop 32)
    let rest := data.drop (32 + username.length + 1)
    let rest :=
      match rest with
      | [] => []
      | authLen :: rest => rest.drop authLen.toNat
    .ok (username, untilNull rest)

/-- `parseMySQLHandshakeResponseWithAuth`: user name and authentication
response. -/
def parseMySQLHandshakeResponseWithAuth (data : Bytes) : Except Err (Bytes × Bytes) :=
  if data.length < 32 then .error (.errorf "response too short")
  else
    let username := untilNull (data.drop 32)
    let authResponse :=
      match data.drop (32 + username.length + 1) with
      | [] => []
      | authLen :: rest => if authLen.toNat ≤ rest.length then rest.take authLen.toNat else []
    .ok (username, authResponse)

/-! ## The exchange with a backend -/

variable (lib : Lib) (cfg : Config)

/-- The verification of an answer to an authentication switch, for a user with
a stored NT hash. -/
def verifyAuthSwitch (clientHeader clientPayload : Bytes) : Handler Unit := do
  match ← op .getNTLMUser with
  | none => return ()
  | some user =>
    if user.ntlmPasswordHash ≠ [] then
      let challenge ← op .getNTLMServerChallenge
      match verifyNTLMClientResponse lib user challenge clientPayload (clientHeader.headD 0) with
      | .error err =>
        op .recordAuthFailure
        fail (.wrap "NTLM authentication failed" err)
      | .ok () => return ()
    else return ()

/-- The client's answer to an authentication switch goes to the server. -/
def forwardAuthSwitch (seq : UInt8) : Handler Unit := do
  let clientHeader ← readDirect .client 4
  let clientLength := mysqlLength clientHeader
  if clientLength > maxMySQLPayload then
    errorf s!"mysql auth response too large: {clientLength} bytes"
  else
    let clientPayload ← readDirect .client clientLength
    verifyAuthSwitch lib clientHeader clientPayload
    write .server (clientHeader.take 3 ++ (seq + 1) :: clientPayload)

/-- `forwardMySQLAuth`.  Every packet of the server is read through a reader of
its own. -/
def forwardMySQLAuth : Nat → Handler Unit
  | 0 => op .stuck
  | rounds + 1 => do
    let (header, reader) ← readFull .server [] 4
    let length := mysqlLength header
    if length > maxMySQLPayload then errorf s!"mysql payload too large: {length} bytes"
    else
      let (payload, _) ← readFull .server reader length
      write .client (header ++ payload)
      match payload with
      | 0x00 :: _ => return ()
      | 0xff :: _ =>
        op .recordAuthFailure
        errorf "authentication failed"
      | 0xfe :: _ =>
        forwardAuthSwitch lib (header.getD 3 0)
        forwardMySQLAuth rounds
      | _ => forwardMySQLAuth rounds

/-- The handshake of the backend: its header and its payload. -/
def readBackendHandshake : Handler (Bytes × Bytes) := do
  let (header, reader) ← wrap "failed to read handshake header" (readFull .server [] 4)
  let length := mysqlLength header
  if length > maxMySQLPayload then errorf s!"mysql handshake too large: {length} bytes"
  else
    let (handshakeData, _) ← wrap "failed to read handshake data"
      (readFull .server reader length)
    return (header, handshakeData)

/-- The handshake response of the client: its header and its payload. -/
def readHandshakeResponse : Handler (Bytes × Bytes) := do
  let respHeader ← wrap "failed to read response header" (readDirect .client 4)
  let respLength := mysqlLength respHeader
  if respLength > maxMySQLPayload then
    errorf s!"mysql handshake response too large: {respLength} bytes"
  else
    let respData ← wrap "failed to read response data" (readDirect .client respLength)
    return (respHeader, respData)

/-- The access check of `handleMySQLPassthrough`. -/
def checkPassthroughAccess (username : Bytes) : Handler Unit := do
  if cfg.authMode = .interception then
    let denied :=
      "access denied for user " ++ text username ++ " to pool " ++ text cfg.poolName
    match ← op (.getUser username) with
    | none => errorf denied
    | some user => if user.canAccessPool cfg.poolName then return () else errorf denied
  else return ()

/-- `handleMySQLPassthrough`.  The client gets the proxy's handshake behind the
header of the backend's. -/
def handleMySQLPassthrough : Handler Unit := do
  takeServerConn cfg.mode
  let (header, handshakeData) ← readBackendHandshake
  let scramble ← wrap "failed to extract scramble" (extractMySQLScramble handshakeData)
  let ourHandshake := createMySQLHandshake (← op .getId) scramble
  wrap "failed to send handshake" (write .client (header.take 3 ++ 0 :: ourHandshake))
  let (respHeader, respData) ← readHandshakeResponse
  match parseMySQLHandshakeResponse respData with
  | .error err => fail (.wrap "failed to parse handshake response" err)
  | .ok (username, database) =>
    op (.setUsername username)
    op (.setDatabase database)
    checkPassthroughAccess cfg username
    wrap "failed to forward response" (write .server (respHeader.take 3 ++ 1 :: respData))
    wrap "mysql auth failed" (forwardMySQLAuth lib cfg.rounds)
    op .setAuthenticated
    op .recordAuthSuccess

/-! ## Authentication by the proxy -/

/-- Every error of `handleMySQLInterception` counts as a failed
authentication. -/
def orRecordFailure {α : Type} (p : Handler α) : Handler α := onError p (op .recordAuthFailure)

/-- `readMySQLClientHandshake`: the user name of the client. -/
def readMySQLClientHandshake : Handler Bytes := do
  let (header, reader) ← wrap "failed to read handshake header" (readFull .client [] 4)
  let length := mysqlLength header
  if length > maxMySQLPayload then errorf s!"mysql handshake too large: {length} bytes"
  else
    let (handshakeData, _) ← wrap "failed to read handshake data"
      (readFull .client reader length)
    op (.note (.heard (.handshake handshakeData)))
    match parseMySQLHandshakeResponse handshakeData with
    | .error err => fail (.wrap "failed to parse handshake" err)
    | .ok (username, _) => return username

/-- The checks that `handleMySQLInterception` and `handleMSSQLInterception`
make of the user: the limit and the pool. -/
def checkInterceptedUser (user : User) : Handler Unit := do
  let username ← op .getUsername
  checkConnectionLimit cfg.rounds username user do
    op .recordAuthFailure
    errorf ("too many connections for user " ++ text username)
  if user.canAccessPool cfg.poolName then op (.note (.checked user.username))
  else
    op .recordAuthFailure
    errorf ("access denied for user " ++ text username ++ " to pool " ++ text cfg.poolName)

/-- The handshake packet of `handleMySQLInterception`.  The length takes four bytes, the
sequence number a fifth one, and the last byte of the handshake has no room. -/
def interceptionHandshake (handshake : Bytes) : Bytes :=
  putLittleEndian 4 handshake.length ++ 0 :: handshake.take (handshake.length - 1)

/-- The client's answer to the proxy's handshake. -/
def readInterceptedResponse : Handler Bytes := do
  let (header, reader) ← orRecordFailure
    (wrap "failed to read handshake header" (readFull .client [] 4))
  let length := mysqlLength header
  if length > maxMySQLPayload then
    op .recordAuthFailure
    errorf s!"handshake response too large: {length} bytes"
  else
    let (payload, _) ← orRecordFailure
      (wrap "failed to read handshake payload" (readFull .client reader length))
    op (.note (.heard (.handshake payload)))
    return payload

/-- Refuse a client with an error packet; whether it can be written does not
matter. -/
def refuseMySQL (message : String) (err : Err) : Handler Unit := do
  op .recordAuthFailure
  let _ ← op (.write .client (createMySQLErrorPacket 1045 "28000" message))
  fail err

/-- The verification of the client's proof. -/
def verifyIntercepted (user : User) (scramble authResponse : Bytes) : Handler Unit := do
  if user.mysqlPasswordHash ≠ [] then
    match verifyMySQLPassword lib user.mysqlPasswordHash scramble authResponse with
    | .error err => refuseMySQL "Access denied" (.wrap "authentication failed" err)
    | .ok () => op (.note (.verified user.username))
  else if user.passwordHash ≠ [] then
    refuseMySQL "MySQL password not configured"
      (.errorf "MySQL password hash required for interception mode")
  else
    refuseMySQL "Access denied"
      (.errorf ("no password hash available for user " ++ text (← op .getUsername)))

/-- The name in the second handshake response replaces the first one, if it is
given. -/
def updateUsername (username : Bytes) : Handler Unit :=
  if username ≠ [] then op (.setUsername username) else return ()

def handleMySQLInterception (user : Option User) : Handler Unit := do
  match user with
  | none =>
    op .recordAuthFailure
    errorf ("unknown user: " ++ text (← op .getUsername))
  | some user =>
    checkInterceptedUser cfg user
    match ← op (.random 20) with
    | none =>
      op .recordAuthFailure
      fail (.wrap "failed to generate scramble" .system)
    | some scramble =>
      let handshake := createMySQLHandshake (← op .getId) scramble
      orRecordFailure (wrap "failed to send handshake"
        (write .client (interceptionHandshake handshake)))
      let payload ← readInterceptedResponse
      match parseMySQLHandshakeResponseWithAuth payload with
      | .error err =>
        op .recordAuthFailure
        fail (.wrap "failed to parse handshake response" err)
      | .ok (username, authResponse) =>
        updateUsername username
        verifyIntercepted lib user scramble authResponse
        orRecordFailure (wrap "failed to send auth response"
          (write .client createMySQLOKPacket))
        orRecordFailure (takeServerConn cfg.mode)
        op .setAuthenticated
        op .recordAuthSuccess

def handleMySQLStartup : Handler Unit := do
  if ← op .isLimited then errorf "too many failed attempts, try again later"
  else if cfg.authMode = .interception then
    let username ← wrap "failed to read client handshake" readMySQLClientHandshake
    op (.setUsername username)
    let user ← op (.getUser username)
    handleMySQLInterception lib cfg user
  else handleMySQLPassthrough lib cfg

end Geryon.Startup
