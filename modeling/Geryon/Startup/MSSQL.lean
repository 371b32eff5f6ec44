import Geryon.Startup.MySQL

/-!
# The MSSQL start-up

`handleMSSQLStartup` of `internal/proxy/listener.go` and what it calls.

Both handlers end in the same way: the answer to `Login7` is passed on to the
client, with the SSPI rounds in it, and then the session counts as
authenticated.  `completeMSSQLLogin` is that end.
-/

namespace Geryon.Startup

open UInt8

open Wire (bigEndian littleEndian)
open Pool (AuthMode)

/-! ## Packets -/

/-- The length in a packet header. -/
def tdsLength (header : Bytes) : Nat := bigEndian (field header 2 2)

def endOfMessage (header : Bytes) : Bool := (header.getD 1 0).toNat % 2 = 1

/-- Whether a packet of the server is taken for an SSPI challenge: it starts
with the token `0xED`, or its type is `0x11`. -/
def isSSPI (header payload : Bytes) : Bool :=
  payload ≠ [] && (payload.headD 0 = 0xED || header.headD 0 = 0x11)

/-- Read a packet: header, payload and the reader after it.  `invalid` is the
text of the error for a length that leaves no room for the header. -/
def readTDS (side : Side) (reader : Bytes) (headerText payloadText : String)
    (invalid : Int → String) : Handler (Bytes × Bytes × Bytes) := do
  let (header, reader) ← wrap headerText (readFull side reader 8)
  let payloadLen : Int := tdsLength header - 8
  if payloadLen < 0 ∨ payloadLen > maxMySQLPayload then errorf (invalid payloadLen)
  else
    let (payload, reader) ← wrap payloadText (readFull side reader payloadLen.toNat)
    return (header, payload, reader)

/-- Read a packet of the given type from the client. -/
def readClientTDS (reader : Bytes) (packetType : UInt8) (name : String) :
    Handler (Bytes × Bytes) := do
  let (header, reader) ← wrap ("failed to read " ++ name ++ " header")
    (readFull .client reader 8)
  if header.headD 0 ≠ packetType then
    errorf ("expected " ++ name ++ " packet, got 0x" ++ text (hex (header.take 1)))
  else
    let payloadLen : Int := tdsLength header - 8
    if payloadLen < 0 ∨ payloadLen > maxMySQLPayload then
      errorf s!"invalid MSSQL {name} length: {payloadLen}"
    else
      let (payload, reader) ← wrap ("failed to read " ++ name ++ " payload")
        (readFull .client reader payloadLen.toNat)
      return (header ++ payload, reader)

/-- `readMSSQLClientHandshake`: the Pre-Login and the Login7 packet. -/
def readMSSQLClientHandshake : Handler (Bytes × Bytes) := do
  let (preLoginData, reader) ← readClientTDS [] 0x12 "Pre-Login"
  let (login7Data, _) ← readClientTDS reader 0x10 "Login7"
  return (preLoginData, login7Data)

/-! ## The user in Login7 -/

/-- `WriteRune` of a 16-bit unit; a surrogate becomes U+FFFD. -/
def encodeRune (r : Nat) : Bytes :=
  if r < 0x80 then [ofNat r]
  else if r < 0x800 then [ofNat (0xC0 + r / 64), ofNat (0x80 + r % 64)]
  else if 0xD800 ≤ r ∧ r < 0xE000 then [0xEF, 0xBF, 0xBD]
  else [ofNat (0xE0 + r / 4096), ofNat (0x80 + r / 64 % 64),
    ofNat (0x80 + r % 64)]

/-- A string of 16-bit units, up to the first null. -/
def login7String (data : Bytes) : Bytes := ((units data).takeWhile (· ≠ 0)).flatMap encodeRune

def extractLogin7Credentials (data : Bytes) : Handler Unit := do
  if data.length < 36 then return ()
  else
    let usernameOffset := littleEndian (field data 28 2)
    let usernameLen := littleEndian (field data 30 2)
    if usernameOffset + usernameLen * 2 > data.length then return ()
    else
      op (.setUsername (login7String (field data usernameOffset (usernameLen * 2))))
      let dbOffset := littleEndian (← slice data 36 38)
      let dbLen := littleEndian (← slice data 38 40)
      if dbOffset + dbLen * 2 ≤ data.length then
        op (.setDatabase (login7String (field data dbOffset (dbLen * 2))))
      else return ()

/-! ## The exchange with the server -/

/-- `captureNTLMChallenge`.  The packet type is compared with the number of a
token. -/
def captureNTLMChallenge (payload : Bytes) (packetType : UInt8) : Handler Unit := do
  let ntlmData := if packetType = 0xED then unwrapNTLM payload else payload
  match parseNTLMChallenge ntlmData with
  | .error _ => return ()
  | .ok challenge => op (.setNTLMServerChallenge challenge)

/-- The challenge is captured for a user with a stored NT hash. -/
def captureForNTLMUser (payload : Bytes) (packetType : UInt8) : Handler Unit := do
  if (← op .getNTLMUser).isSome then captureNTLMChallenge payload packetType else return ()

def forwardMSSQLPreLoginResponse : Nat → Bytes → Handler Unit
  | 0, _ => op .stuck
  | rounds + 1, reader => do
    let (header, payload, reader) ← readTDS .server reader
      "failed to read Pre-Login response header" "failed to read Pre-Login response payload"
      fun payloadLen => s!"invalid MSSQL Pre-Login response length: {payloadLen}"
    wrap "failed to send Pre-Login response" (write .client (header ++ payload))
    if endOfMessage header then return () else forwardMSSQLPreLoginResponse rounds reader

/-- The client's SSPI response goes to the server. -/
def forwardClientSSPI : Handler Unit := do
  let header ← wrap "failed to read client SSPI response header" (readDirect .client 8)
  let length := tdsLength header
  if length < 8 then errorf s!"invalid MSSQL client SSPI response length: {length}"
  else
    let payload ← wrap "failed to read client SSPI response payload"
      (readDirect .client (length - 8))
    wrap "failed to forward client SSPI response" (write .server (header ++ payload))

/-- The loop of `forwardMSSQLClientSSPIResponse` over the server's answer: the
reader after it.  Another challenge starts the function again. -/
def forwardSSPIAnswer : Nat → Bytes → Handler Bytes
  | 0, _ => do
    op .stuck
    return []
  | rounds + 1, reader => do
    let (header, payload, reader) ← readTDS .server reader
      "failed to read server SSPI response header" "failed to read server SSPI response payload"
      fun payloadLen =>
        let length := payloadLen + 8
        s!"invalid MSSQL server SSPI response length: {length}"
    if isSSPI header payload then
      wrap "failed to send SSPI challenge" (write .client (header ++ payload))
      forwardClientSSPI
      forwardSSPIAnswer rounds reader
    else
      wrap "failed to forward server response" (write .client (header ++ payload))
      if endOfMessage header then return reader else forwardSSPIAnswer rounds reader

def forwardMSSQLClientSSPIResponse (rounds : Nat) (serverReader : Bytes) : Handler Bytes := do
  forwardClientSSPI
  forwardSSPIAnswer rounds serverReader

/-- The loop of `forwardMSSQLLogin7Response`.  After an SSPI round it goes on
to read, whatever the round ended with. -/
def forwardLogin7Loop (rounds : Nat) : Nat → Bytes → Handler Unit
  | 0, _ => op .stuck
  | fuel + 1, reader => do
    let (header, payload, reader) ← readTDS .server reader
      "failed to read Login7 response header" "failed to read Login7 response payload"
      fun payloadLen =>
        let length := payloadLen + 8
        s!"invalid MSSQL Login7 response length: {length}"
    if isSSPI header payload then
      captureForNTLMUser payload (header.headD 0)
      wrap "failed to send SSPI challenge" (write .client (header ++ payload))
      let reader ← wrap "client SSPI response failed"
        (forwardMSSQLClientSSPIResponse rounds reader)
      forwardLogin7Loop rounds fuel reader
    else
      wrap "failed to send Login7 response" (write .client (header ++ payload))
      if endOfMessage header then return () else forwardLogin7Loop rounds fuel reader

def forwardMSSQLLogin7Response (rounds : Nat) : Handler Unit := forwardLogin7Loop rounds rounds []

def forwardMSSQLPreLogin (rounds : Nat) : Handler Unit := do
  let (preLogin, _) ← readClientTDS [] 0x12 "Pre-Login"
  wrap "failed to forward Pre-Login" (write .server preLogin)
  forwardMSSQLPreLoginResponse rounds []

/-! ## The handlers -/

variable (cfg : Config)

/-- What both handlers do once `Login7` is with the server. -/
def completeMSSQLLogin : Handler Unit := do
  wrap "login response failed" (forwardMSSQLLogin7Response cfg.rounds)
  op .setAuthenticated
  op .recordAuthSuccess

/-- `handleMSSQLPassthrough`, up to the `Login7` packet. -/
def passMSSQLLogin : Handler Unit := do
  takeServerConn cfg.mode
  wrap "pre-login failed" (forwardMSSQLPreLogin cfg.rounds)
  let (login7, _) ← readClientTDS [] 0x10 "Login7"
  wrap "failed to forward Login7" (write .server login7)

def handleMSSQLPassthrough : Handler Unit := do
  passMSSQLLogin cfg
  completeMSSQLLogin cfg

/-- A user with a stored NT hash is kept for the SSPI exchange. -/
def storeNTLMUser (user : User) : Handler Unit :=
  if user.ntlmPasswordHash ≠ [] then op (.setNTLMUser user) else return ()

/-- `handleMSSQLInterception`, up to the `Login7` packet. -/
def interceptMSSQLLogin (user : Option User) (preLoginData login7Data : Bytes) :
    Handler Unit := do
  match user with
  | none =>
    op .recordAuthFailure
    errorf ("unknown user: " ++ text (← op .getUsername))
  | some user =>
    storeNTLMUser user
    checkInterceptedUser cfg user
    orRecordFailure (takeServerConn cfg.mode)
    wrap "failed to forward Pre-Login" (write .server preLoginData)
    wrap "pre-login response failed" (forwardMSSQLPreLoginResponse cfg.rounds [])
    wrap "failed to forward Login7" (write .server login7Data)

def handleMSSQLInterception (user : Option User) (preLoginData login7Data : Bytes) :
    Handler Unit := do
  interceptMSSQLLogin cfg user preLoginData login7Data
  completeMSSQLLogin cfg

def handleMSSQLStartup : Handler Unit := do
  if ← op .isLimited then errorf "too many failed attempts, try again later"
  else if cfg.authMode = .interception then
    let (preLoginData, login7Data) ← wrap "failed to read MSSQL handshake"
      readMSSQLClientHandshake
    -- There is always a `Login7` packet: it has a header of eight bytes.
    extractLogin7Credentials login7Data
    let user ← op (.getUser (← op .getUsername))
    handleMSSQLInterception cfg user preLoginData login7Data
  else handleMSSQLPassthrough cfg

end Geryon.Startup
