import Geryon.Startup.Auth

/-!
# The PostgreSQL start-up

`handlePostgreSQLStartup` of `internal/proxy/listener.go` and what it calls,
with the messages of `internal/protocol/postgresql/codec.go` that it sends.

A handler that makes a `bufio.Reader` starts with an empty buffer, `[]`, and
hands the reader on from read to read.  Where the source makes a second reader
on the same connection, so does the model.
-/

namespace Geryon.Startup

open Wire (bigEndian)
open Pool (AuthMode)

/-! ## Messages -/

/-- A message: its type, the length of what follows, and the payload. -/
def pgMessage (msgType : Char) (payload : Bytes) : Bytes :=
  msgType.toUInt8 :: putBigEndian 4 (4 + payload.length) ++ payload

def authMessage (authType : Nat) (data : Bytes) : Bytes :=
  pgMessage 'R' (putBigEndian 4 authType ++ data)

def createErrorResponse (code message : String) : Bytes :=
  pgMessage 'E' (ascii "SERROR" ++ 0 :: ascii "C" ++ ascii code ++ 0 :: ascii "M" ++
    ascii message ++ [0, 0])

/-- `CreateAuthenticationSCRAM`.  The mechanisms take the place of the authentication
type: they are appended to the first five bytes of a buffer with the type behind them. -/
def createAuthenticationSCRAM : Bytes :=
  pgMessage 'R' (ascii "SCRAM-SHA-256" ++ 0 :: ascii "SCRAM-SHA-256-PLUS" ++ [0, 0])

def createAuthenticationSASLContinue (challenge : Bytes) : Bytes := authMessage 11 challenge

def createAuthenticationSASLFinal (data : Bytes) : Bytes := authMessage 12 data

def createAuthenticationOk : Bytes := authMessage 0 []

def createParameterStatus (name value : String) : Bytes :=
  pgMessage 'S' (ascii name ++ 0 :: ascii value ++ [0])

def createReadyForQuery (status : Char) : Bytes := pgMessage 'Z' [status.toUInt8]

def createPasswordMessage (password : Bytes) : Bytes := pgMessage 'p' (password ++ [0])

def createSCRAMResponse (mechanism data : Bytes) : Bytes :=
  pgMessage 'p' (mechanism ++ 0 :: putBigEndian 4 data.length ++ data)

/-- `CreateStartupMessage`.  The parameters come from a map, in either
order. -/
def createStartupMessage (userFirst : Bool) (user database : Bytes) : Bytes :=
  let userParam := ascii "user" ++ 0 :: user ++ [0]
  let databaseParam := ascii "database" ++ 0 :: database ++ [0]
  let params := if userFirst then userParam ++ databaseParam else databaseParam ++ userParam
  putBigEndian 4 (9 + params.length) ++ putBigEndian 4 196608 ++ params ++ [0]

def md5PasswordHash (lib : Lib) (user password salt : Bytes) : Bytes :=
  ascii "md5" ++ hex (lib.md5 (hex (lib.md5 (password ++ user)) ++ salt))

/-- The parameters that the proxy reports after the authentication. -/
def reportedParams : List (String × String) :=
  [("server_version", "14.0 (Geryon)"), ("server_encoding", "UTF8"),
    ("client_encoding", "UTF8"), ("DateStyle", "ISO, MDY"), ("TimeZone", "UTC"),
    ("is_superuser", "off")]

/-! ## The start-up message -/

/-- The loop over the parameters of a `StartupMessage`, which has `rest` still
to parse.  The latest value of a key comes first. -/
def parseParams : Nat → Nat → Bytes → List (Bytes × Bytes) → Except Err (List (Bytes × Bytes))
  | 0, _, _, params => .ok params
  | fuel + 1, count, rest, params =>
    if 1 < rest.length then
      if 64 ≤ count then .error (.errorf "too many startup parameters (max 64)")
      else
        match cut 0 rest with
        | none => .ok params
        | some (key, rest) =>
          match cut 0 rest with
          | none => .ok params
          | some (val, rest) =>
            if 256 < val.length then
              .error (.errorf ("startup parameter \"" ++ text key ++
                "\" value exceeds max length (256 bytes)"))
            else if key ≠ [] then parseParams fuel (count + 1) rest ((key, val) :: params)
            else parseParams fuel count rest params
    else .ok params

/-- The parameters of a `StartupMessage`, given what follows its length. -/
def startupParams (startupData : Bytes) : Except Err (List (Bytes × Bytes)) :=
  parseParams startupData.length 0 (startupData.drop 4) []

/-- `params[key]`. -/
def param (params : List (Bytes × Bytes)) (key : String) : Bytes :=
  (params.lookup (ascii key)).getD []

/-- The characters that are refused in a user or database name. -/
def controlCharacter (b : UInt8) : Bool := b < 0x20 || b = 0x7F

/-! ## Messages that are passed on -/

/-- A message as it is passed on. -/
structure Relayed where
  msgType : UInt8
  payload : Bytes
  raw : Bytes
  deriving DecidableEq

/-- Read one message, of at most `maxMySQLPayload` bytes of payload. -/
def readRelayed (side : Side) (reader : Bytes) (invalid : String) :
    Handler (Relayed × Bytes) := do
  let (msgType, reader) ← readByte side reader
  let (lenBuf, reader) ← readFull side reader 4
  let payloadLen : Int := bigEndian lenBuf - 4
  if payloadLen < 0 ∨ payloadLen > maxMySQLPayload then
    errorf s!"{invalid}: {payloadLen}"
  else
    let (payload, reader) ← readFull side reader payloadLen.toNat
    return (⟨msgType, payload, msgType :: lenBuf ++ payload⟩, reader)

def forwardAuthToBackend : Handler Unit := do
  let (msg, _) ← readRelayed .client [] "invalid client message length"
  write .server msg.raw

def forwardAuthLoop : Nat → Bytes → Handler Unit
  | 0, _ => op .stuck
  | rounds + 1, reader => do
    let (msg, reader) ← readRelayed .server reader "invalid backend message length"
    write .client msg.raw
    if msg.msgType = 'R'.toUInt8 then
      let authType := bigEndian (← slice msg.payload 0 4)
      if authType = 0 then
        op .setAuthenticated
        op .recordAuthSuccess
        forwardAuthLoop rounds reader
      else
        forwardAuthToBackend
        forwardAuthLoop rounds reader
    else if msg.msgType = 'Z'.toUInt8 then return ()
    else forwardAuthLoop rounds reader

def forwardAuthFromBackend (rounds : Nat) : Handler Unit := forwardAuthLoop rounds []

/-! ## Authentication to a backend -/

variable (lib : Lib)

/-- The length and the payload of a message whose type is read already. -/
def readAuthPayload (reader : Bytes) (lenText payloadText : String) :
    Handler (Bytes × Bytes × Bytes) := do
  let (lenBuf, reader) ← wrap lenText (readFull .server reader 4)
  let payloadLen ← makeLen (bigEndian lenBuf - 4)
  let (payload, reader) ← wrap payloadText (readFull .server reader payloadLen)
  return (lenBuf, payload, reader)

def forwardErrorResponse (reader : Bytes) : Handler Unit := do
  let (lenBuf, payload, _) ←
    readAuthPayload reader "failed to read error length" "failed to read error payload"
  wrap "failed to forward error" (write .client ('E'.toUInt8 :: lenBuf ++ payload))
  errorf "backend error"

def processSCRAMAuthCycle : Nat → Bytes → SCRAMClient → Handler Unit
  | 0, _, _ => op .stuck
  | rounds + 1, reader, client => do
    let (msgType, reader) ← wrap "failed to read SASL message" (readByte .server reader)
    if msgType = 'R'.toUInt8 then
      let (_, payload, reader) ←
        readAuthPayload reader "failed to read SASL length" "failed to read SASL payload"
      let authType := bigEndian (← slice payload 0 4)
      let serverData := payload.drop 4
      if authType = 11 then
        let (clientFinal, client) := client.buildClientFinal lib serverData
        wrap "failed to send SCRAM final"
          (write .server (createSCRAMResponse (ascii "SCRAM-SHA-256") clientFinal))
        processSCRAMAuthCycle rounds reader client
      else if authType = 12 then
        if client.verifyServerFinal lib serverData then return ()
        else errorf "server final verification failed"
      else processSCRAMAuthCycle rounds reader client
    else if msgType = 'E'.toUInt8 then forwardErrorResponse reader
    else if msgType = 'Z'.toUInt8 then return ()
    else processSCRAMAuthCycle rounds reader client

def authenticateLoop (username password : Bytes) (rounds : Nat) : Nat → Bytes → Handler Unit
  | 0, _ => op .stuck
  | fuel + 1, reader => do
    let (msgType, reader) ← wrap "failed to read auth message" (readByte .server reader)
    if msgType = 'R'.toUInt8 then
      let (_, payload, reader) ←
        readAuthPayload reader "failed to read auth length" "failed to read auth payload"
      let authType := bigEndian (← slice payload 0 4)
      if authType = 5 then
        let salt ← slice payload 4 8
        wrap "failed to send password"
          (write .server (createPasswordMessage (md5PasswordHash lib username password salt)))
        authenticateLoop username password rounds fuel reader
      else if authType = 10 then
        let mechanism := untilNull (payload.drop 4)
        let client ← SCRAMClient.buildClientFirst lib ⟨username, password, mechanism,
          [], none, [], [], [], []⟩ username
        wrap "failed to send SCRAM initial"
          (write .server (createSCRAMResponse mechanism client.clientFirst))
        processSCRAMAuthCycle lib rounds reader client
      else if authType = 0 then return ()
      else errorf s!"unsupported auth type: {authType}"
    else if msgType = 'E'.toUInt8 then forwardErrorResponse reader
    else if msgType = 'Z'.toUInt8 then return ()
    else errorf ("unexpected message during auth: " ++ text [msgType])

def authenticateToBackend (username password : Bytes) (rounds : Nat) : Handler Unit :=
  authenticateLoop lib username password rounds rounds []

variable (cfg : Config)

/-- The credentials for the backend: the configured ones in interception mode,
and else the client's user name without a password. -/
def backendCredentials : Handler (Bytes × Bytes) := do
  if cfg.authMode = .interception ∧ cfg.backendUser ≠ [] then
    if cfg.passwordFile then
      match ← op .readFile with
      | none => fail (.wrap "failed to read backend password file" .system)
      | some password => return (cfg.backendUser, lib.trimSpace password)
    else return (cfg.backendUser, [])
  else return (← op .getUsername, [])

def connectToBackend : Handler Unit := do
  takeServerConn cfg.mode
  let (backendUsername, backendPassword) ← backendCredentials lib cfg
  if backendUsername ≠ [] then
    let startup := createStartupMessage (← op .mapOrder) backendUsername (← op .getDatabase)
    wrap "failed to send startup to backend" (write .server startup)
    if backendPassword ≠ [] then
      wrap "backend authentication failed"
        (authenticateToBackend lib backendUsername backendPassword cfg.rounds)
    else if ← op .isLimited then errorf "too many failed attempts, try again later"
    else wrap "backend authentication failed" (forwardAuthFromBackend cfg.rounds)
  else return ()

/-! ## Authentication of the client -/

/-- Refuse a client with an error message. -/
def refuse {α : Type} (code message : String) (unsent sent : Err) : Handler α := do
  if ← op (.write .client (createErrorResponse code message)) then fail sent
  else fail unsent

def readPasswordMessage (reader : Bytes) (what : String) : Handler (Bytes × Bytes) := do
  let (msgType, reader) ← wrap ("failed to read " ++ what ++ " type") (readByte .client reader)
  if msgType ≠ 'p'.toUInt8 then errorf ("expected password message, got: " ++ text [msgType])
  else
    let (lenBuf, reader) ← wrap ("failed to read " ++ what ++ " length")
      (readFull .client reader 4)
    -- `make([]byte, respLen-4)`, with the subtraction of a `uint32`
    let dataLen := (bigEndian lenBuf + 4294967292) % 4294967296
    wrap ("failed to read " ++ what ++ " data") (readFull .client reader dataLen)

/-- The mechanism and the client-first-message of a `SASLInitialResponse`. -/
def parseSASLInitial (respData : Bytes) : Handler Bytes := do
  let mechanism := untilNull respData
  if mechanism ≠ ascii "SCRAM-SHA-256" then errorf ("unsupported mechanism: " ++ text mechanism)
  else
    let start := mechanism.length + 1
    let clientDataLen := bigEndian (← slice respData start (start + 4))
    slice respData (start + 4) (start + 4 + clientDataLen)

/-- What follows a successful authentication: the server's signature, then
`AuthenticationOk`, the parameters and `ReadyForQuery`. -/
def sendAuthenticated (state : SCRAMState) : Handler Unit := do
  wrap "failed to send SASL final"
    (write .client (createAuthenticationSASLFinal (generateServerFinal lib state)))
  wrap "failed to send auth ok" (write .client createAuthenticationOk)
  reportedParams.forM fun p =>
    wrap "failed to send parameter status" (write .client (createParameterStatus p.1 p.2))
  wrap "failed to send ready for query" (write .client (createReadyForQuery 'I'))

/-- The SCRAM exchange with the client: the state after it. -/
def scramExchange : Handler SCRAMState := do
  wrap "failed to send SASL auth request" (write .client createAuthenticationSCRAM)
  let (respData, reader) ← readPasswordMessage [] "SASL response"
  op (.note (.heard (.saslInitial respData)))
  let clientFirst ← parseSASLInitial respData
  match parseClientFirst clientFirst with
  | .error err =>
    op .recordAuthFailure
    refuse "28P01" "authentication failed" (.wrap "authentication failed" err) err
  | .ok state =>
    let state ← (generateServerFirst lib state).handle fun
      | .err err => do
        op .recordAuthFailure
        refuse "28P01" "authentication failed" (.wrap "authentication failed" err) err
      | .panic => crash
    wrap "failed to send SASL continue"
      (write .client (createAuthenticationSASLContinue state.serverFirst))
    let (finalData, _) ← readPasswordMessage reader "client final"
    match verifyClientFinal lib state finalData with
    | .error err =>
      op .recordAuthFailure
      refuse "28P01" "authentication failed: invalid password"
        (.wrap "authentication failed" err) (.wrap "authentication failed" err)
    | .ok state =>
      op (.note (.verified state.username))
      return state

def handlePostgreSQLAuth : Handler Unit := do
  if ← op .isLimited then
    refuse "28P01" "too many failed attempts, try again later"
      (.wrap "client is rate limited, failed to send error" .write)
      (.errorf "client is rate limited")
  else
    let state ← scramExchange lib
    sendAuthenticated lib state
    op .setAuthenticated
    op .recordAuthSuccess
    connectToBackend lib cfg

/-! ## The handler -/

def authenticateWithCertificate (cert : Option Certificate) : Handler Unit := do
  match cert with
  | none => return ()
  | some cert =>
    match cert.identity with
    | none => return ()
    | some username =>
      if !cert.valid then errorf "client certificate is not valid (expired or not yet valid)"
      else
        if cfg.authMode = .interception then
          match ← op (.getUser username) with
          | none =>
            errorf ("access denied for certificate user " ++ text username ++
              ": not in proxy user database")
          | some user =>
            if user.canAccessPool cfg.poolName then op (.setUsername username)
            else errorf ("access denied for certificate user " ++ text username ++ " to pool " ++
              text cfg.poolName)
        else op (.setUsername username)

/-- The answer to an SSL request. -/
def handleSSLRequest : Handler Unit := do
  if cfg.tlsMode ≠ .disable ∧ cfg.hasTLS then
    wrap "failed to send SSL response" (write .client (ascii "S"))
    match ← op .startTLS with
    | none => fail (.wrap "TLS handshake failed" .system)
    | some cert => authenticateWithCertificate cfg cert
  else if cfg.tlsMode = .require ∨ cfg.tlsMode = .verifyCA ∨ cfg.tlsMode = .verifyFull then
    errorf "TLS required but client refused SSL upgrade"
  else wrap "failed to send SSL rejection" (write .client (ascii "N"))

/-- The checks of a user of the database: the limit and the pool. -/
def checkPostgreSQLUser (username : Bytes) (user : User) : Handler Unit := do
  checkConnectionLimit cfg.rounds username user
    (refuse "28P01" "too many connections for user"
      (.wrap ("user " ++ text username ++ " connection limit exceeded, failed to send error")
        .write)
      (.errorf ("too many connections for user " ++ text username)))
  if user.canAccessPool cfg.poolName then op (.note (.checked user.username))
  else
    let denied := "access denied for user " ++ text username ++ " to pool " ++ text cfg.poolName
    refuse "28000" "access to pool denied" (.wrap (denied ++ ", failed to send error") .write)
      (.errorf denied)

/-- What `handlePostgreSQLStartup` does with a start-up message that is not an
SSL request. -/
def handleStartupMessage (startupData : Bytes) : Handler Unit := do
  let protoVersion := bigEndian (startupData.take 4)
  if protoVersion ≠ 196608 then errorf s!"unsupported protocol version: {protoVersion}"
  else
    op (.note (.heard (.startup startupData)))
    match startupParams startupData with
    | .error err => fail err
    | .ok params =>
      let username := param params "user"
      let database := param params "database"
      op (.setUsername username)
      op (.setDatabase database)
      if username.any controlCharacter || database.any controlCharacter then
        errorf "invalid character in startup parameter value"
      else if username = [] then errorf "no username provided"
      else
        match ← op (.getUser username) with
        | none =>
          refuse "28P01" "authentication failed"
            (.wrap ("unknown user: " ++ text username ++ ", failed to send error") .write)
            (.errorf ("unknown user: " ++ text username))
        | some user =>
          checkPostgreSQLUser cfg username user
          if cfg.authMode = .passthrough then connectToBackend lib cfg
          else handlePostgreSQLAuth lib cfg

/-- `handlePostgreSQLStartup`; it calls itself after an SSL request. -/
def handlePostgreSQLStartup : Nat → Handler Unit
  | 0 => op .stuck
  | rounds + 1 => do
    let (lenBuf, reader) ← wrap "failed to read startup length" (readFull .client [] 4)
    let length := bigEndian lenBuf
    if length < 8 ∨ length > 10000 then errorf s!"invalid startup message length: {length}"
    else
      let (startupData, _) ← wrap "failed to read startup data"
        (readFull .client reader (length - 4))
      if length = 8 ∧ bigEndian startupData = 80877103 then
        handleSSLRequest cfg
        handlePostgreSQLStartup rounds
      else handleStartupMessage lib cfg startupData

end Geryon.Startup
