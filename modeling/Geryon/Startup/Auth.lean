import Geryon.Startup.Machine

/-!
# Passwords and their proofs

Package `internal/auth`: `SCRAMServer`, with which the proxy authenticates a
PostgreSQL client, `SCRAMClient`, with which it authenticates itself to a
backend, `VerifyMySQLPassword` for MySQL clients, and the NTLM messages of
MSSQL clients.

The hash functions and the encodings of Go's standard library are a parameter,
`Lib`.
-/

namespace Geryon.Startup

open List UInt8

/-- The functions of Go's standard library that the authentication rests on. -/
structure Lib where
  md5 : Bytes → Bytes
  sha1 : Bytes → Bytes
  sha256 : Bytes → Bytes
  /-- `hmac.New(md5.New, key)`, fed with the data. -/
  hmacMD5 : Bytes → Bytes → Bytes
  /-- `hmac.New(sha256.New, key)`, fed with the data. -/
  hmacSHA256 : Bytes → Bytes → Bytes
  /-- `base64.StdEncoding.EncodeToString`. -/
  encodeBase64 : Bytes → Bytes
  /-- `base64.StdEncoding.DecodeString`: the data, and whether all of the text
  was decoded. -/
  decodeBase64 : Bytes → Bytes × Bool
  /-- `fmt.Sscanf` with `%d`. -/
  scanInt : Bytes → Option Int
  /-- `fmt.Sscanf` with `%02x`. -/
  scanHex : Bytes → Option UInt8
  /-- `strings.ToUpper`. -/
  toUpper : Bytes → Bytes
  /-- `string(utf16.Decode(..))`. -/
  decodeUTF16 : List Nat → Bytes
  /-- `[]rune(s)`. -/
  runes : Bytes → List Nat
  /-- `strings.TrimSpace`. -/
  trimSpace : Bytes → Bytes

/-- A library for examples, in which nothing is encoded and all hashes are the
same. -/
def Lib.plain : Lib where
  md5 b := b
  sha1 _ := replicate 20 0
  sha256 _ := []
  hmacMD5 _ _ := []
  hmacSHA256 _ _ := []
  encodeBase64 b := b
  decodeBase64 b := (b, true)
  scanInt _ := some 0
  scanHex b := b.head?
  toUpper b := b
  decodeUTF16 l := l.map ofNat
  runes b := b.map toNat
  trimSpace b := b

variable (lib : Lib)

/-! ## Strings -/

/-- `strings.Split(s, sep)`. -/
def split (sep : UInt8) : Bytes → List Bytes
  | [] => [[]]
  | b :: s =>
    if b = sep then [] :: split sep s
    else
      match split sep s with
      | [] => [[b]]
      | part :: parts => (b :: part) :: parts

def join (sep : UInt8) : List Bytes → Bytes
  | [] => []
  | [part] => part
  | part :: parts => part ++ sep :: join sep parts

def decimal (n : Int) : Bytes := ascii (toString n)

/-- `hex.EncodeToString`. -/
def hex (b : Bytes) : Bytes :=
  b.flatMap fun x => [digit (x.toNat / 16), digit (x.toNat % 16)]
where
  digit (n : Nat) : UInt8 := ofNat (if n < 10 then 48 + n else 87 + n)

/-- `xor`: the shorter length where the lengths differ. -/
def xor (a b : Bytes) : Bytes := zipWith (· ^^^ ·) a b

def comma : UInt8 := ','.toUInt8

/-! ## SCRAM: the server's side -/

structure SCRAMState where
  username : Bytes := []
  nonce : Bytes := []
  clientFirst : Bytes
  serverFirst : Bytes := []
  authMessage : Bytes := []
  storedKey : Bytes := []
  serverKey : Bytes := []
  iterations : Int := 0
  salt : Bytes := []
  deriving DecidableEq

/-- One part of the client-first-data. -/
def SCRAMState.parsePart (state : SCRAMState) (part : Bytes) : SCRAMState :=
  if (ascii "n=").isPrefixOf part then { state with username := part.drop 2 }
  else if (ascii "r=").isPrefixOf part then { state with nonce := part.drop 2 }
  else state

def parseClientFirst (msg : Bytes) : Except Err SCRAMState :=
  match cut comma msg with
  | none => .error (.errorf "invalid client-first-message format")
  | some (flag, rest) =>
    match cut comma rest with
    | none => .error (.errorf "invalid client-first-message format")
    | some (authzid, data) =>
      if (ascii "n,").isPrefixOf (flag ++ comma :: authzid) then
        let state := (split comma data).foldl SCRAMState.parsePart { clientFirst := msg }
        if state.username = [] then .error (.errorf "username not provided")
        else if state.nonce = [] then .error (.errorf "nonce not provided")
        else .ok state
      else .error (.errorf "unsupported GS2 mechanism")

/-- The keys of a stored password hash. -/
structure SCRAMKeys where
  storedKey : Bytes
  serverKey : Bytes
  salt : Bytes
  iterations : Int
  deriving DecidableEq

/-- A part of a password hash that is encoded in base64. -/
def decodePart (what : String) (part : Bytes) : Except Err Bytes :=
  if (lib.decodeBase64 part).2 then .ok (lib.decodeBase64 part).1
  else .error (.wrap ("invalid " ++ what) .system)

/-- The number of iterations in a password hash. -/
def scanIterations (part : Bytes) : Except Err Int :=
  match lib.scanInt part with
  | none => .error (.wrap "invalid iterations" .system)
  | some n => .ok n

def parseSCRAMHash (hash : Bytes) : Except Err SCRAMKeys :=
  let format := ascii "SCRAM-SHA-256$"
  if format.isPrefixOf hash then
    let data := hash.drop format.length
    match split '$'.toUInt8 data with
    | [first, second] =>
      match split ':'.toUInt8 first with
      | [iterations, salt] => do
        let iterations ← scanIterations lib iterations
        let salt ← decodePart lib "salt" salt
        match split ':'.toUInt8 second with
        | [storedKey, serverKey] =>
          let storedKey ← decodePart lib "stored key" storedKey
          let serverKey ← decodePart lib "server key" serverKey
          return { storedKey, serverKey, salt, iterations }
        | _ => .error (.errorf "invalid keys format")
      | _ => .error (.errorf "invalid iterations/salt format")
    | _ =>
      -- The older format: colons only.
      match split ':'.toUInt8 data with
      | [iterations, salt, storedKey, serverKey] => do
        let iterations ← scanIterations lib iterations
        let salt ← decodePart lib "salt" salt
        let storedKey ← decodePart lib "stored key" storedKey
        let serverKey ← decodePart lib "server key" serverKey
        return { storedKey, serverKey, salt, iterations }
      | _ => .error (.errorf "invalid hash format")
  else .error (.errorf "unsupported hash format")

def extractBare (clientFirst : Bytes) : Bytes :=
  if (ascii "n,,").isPrefixOf clientFirst then clientFirst.drop 3
  else
    match cut comma clientFirst with
    | none => clientFirst
    | some (_, rest) =>
      match cut comma rest with
      | none => clientFirst
      | some (_, bare) => bare

/-- The server-first-message, for a server nonce and the keys of the user. -/
def SCRAMState.serverFirstWith (state : SCRAMState) (keys : SCRAMKeys) (serverNonce : Bytes) :
    SCRAMState :=
  let nonce := state.nonce ++ lib.encodeBase64 serverNonce
  let serverFirst := ascii "r=" ++ nonce ++ ascii ",s=" ++ lib.encodeBase64 keys.salt ++
    ascii ",i=" ++ decimal keys.iterations
  { state with
    storedKey := keys.storedKey
    serverKey := keys.serverKey
    salt := keys.salt
    iterations := keys.iterations
    nonce
    serverFirst
    authMessage := extractBare state.clientFirst ++ comma :: serverFirst }

/-- `GenerateServerFirst`.  The hash is that of the user the client names in
its client-first-message. -/
def generateServerFirst (state : SCRAMState) : Handler SCRAMState := do
  match ← op (.getUser state.username) with
  | none => errorf "user not found"
  | some user =>
    match parseSCRAMHash lib user.passwordHash with
    | .error err => fail (.wrap "invalid password hash" err)
    | .ok keys =>
      match ← op (.random 24) with
      | none => fail (.wrap "failed to generate nonce" .system)
      | some serverNonce => return state.serverFirstWith lib keys serverNonce

/-- `VerifyClientFinal`: the state after it where it accepts. -/
def verifyClientFinal (state : SCRAMState) (msg : Bytes) : Except Err SCRAMState :=
  let parts := split comma msg
  let proof := parts.foldl
    (fun proof part => if (ascii "p=").isPrefixOf part then part.drop 2 else proof) []
  let withoutProof := parts.filter fun part => !(ascii "p=").isPrefixOf part
  if proof = [] then .error (.errorf "proof not provided")
  else
    let state :=
      { state with authMessage := state.authMessage ++ comma :: join comma withoutProof }
    if (lib.decodeBase64 proof).2 then
      let clientSig := lib.hmacSHA256 state.storedKey state.authMessage
      let clientKey := xor (lib.decodeBase64 proof).1 clientSig
      if lib.sha256 clientKey = state.storedKey then .ok state
      else .error (.errorf "invalid password")
    else .error (.wrap "invalid proof encoding" .system)

def generateServerFinal (state : SCRAMState) : Bytes :=
  ascii "v=" ++ lib.encodeBase64 (lib.hmacSHA256 state.serverKey state.authMessage)

/-! ## SCRAM: the client's side -/

/-- `SCRAMClient`.  `salt` is `none` until a server sends one. -/
structure SCRAMClient where
  username : Bytes
  password : Bytes
  mechanism : Bytes
  clientNonce : Bytes := []
  salt : Option Bytes := none
  saltedPass : Bytes := []
  clientFirst : Bytes := []
  serverFirst : Bytes := []
  clientFinal : Bytes := []
  deriving DecidableEq

/-- `BuildClientFirst`.  The error of `rand.Read` is ignored. -/
def SCRAMClient.buildClientFirst (c : SCRAMClient) (username : Bytes) : Handler SCRAMClient := do
  let nonceBytes := (← op (.random 18)).getD (replicate 18 0)
  let clientNonce := lib.encodeBase64 nonceBytes
  return { c with
    clientNonce
    username
    clientFirst := ascii "n=" ++ username ++ ascii ",r=" ++ clientNonce }

/-- The inner loop of `pbkdf2Key`: `n` more rounds on `u`, collected in `t`. -/
def pbkdf2Rounds (password : Bytes) : Nat → Bytes → Bytes → Bytes
  | 0, _, t => t
  | n + 1, u, t =>
    let u := lib.hmacSHA256 password u
    pbkdf2Rounds password n u (xor t u)

/-- `pbkdf2Key` for SHA-256, whose sums have 32 bytes. -/
def pbkdf2Key (password salt : Bytes) (iter keyLen : Nat) : Bytes :=
  let block (i : Nat) :=
    let u := lib.hmacSHA256 password (salt ++ putBigEndian 4 (i + 1))
    pbkdf2Rounds lib password (iter - 1) u u
  ((range ((keyLen + 31) / 32)).flatMap block).take keyLen

/-- `BuildClientFinal`: the message, and the client after it. -/
def SCRAMClient.buildClientFinal (c : SCRAMClient) (serverFirst : Bytes) :
    Bytes × SCRAMClient :=
  let parts := split comma serverFirst
  let serverNonce := parts.foldl
    (fun nonce part => if (ascii "r=").isPrefixOf part then part.drop 2 else nonce) []
  let salt := parts.foldl
    (fun salt part =>
      if (ascii "r=").isPrefixOf part then salt
      else if (ascii "s=").isPrefixOf part then some (lib.decodeBase64 (part.drop 2)).1
      else salt) c.salt
  match salt with
  | none => ([], c)
  | some saltBytes =>
    if serverNonce = [] then ([], { c with salt })
    else
      let combinedNonce := serverNonce ++ c.clientNonce
      let saltedPass := pbkdf2Key lib c.password saltBytes 120000 32
      let clientKey := lib.hmacSHA256 saltedPass (ascii "Client Key")
      let clientFinal := ascii "c=biws,r=" ++ combinedNonce
      let authMessage := c.clientFirst ++ comma :: serverFirst ++ comma :: clientFinal
      let clientProof := xor clientKey (lib.hmacSHA256 saltedPass authMessage)
      (clientFinal ++ ascii ",p=" ++ lib.encodeBase64 clientProof,
        { c with salt, serverFirst, saltedPass, clientFinal })

def SCRAMClient.verifyServerFinal (c : SCRAMClient) (serverFinal : Bytes) : Bool :=
  if (ascii "v=").isPrefixOf serverFinal then
    let signature := lib.decodeBase64 (serverFinal.drop 2)
    let serverKey := lib.hmacSHA256 c.saltedPass (ascii "Server Key")
    let authMessage := c.clientFirst ++ comma :: c.serverFirst ++ comma :: c.clientFinal
    signature.2 && signature.1 = lib.hmacSHA256 serverKey authMessage
  else false

/-! ## MySQL passwords -/

/-- `xorBytes`: nothing where the lengths differ. -/
def xorBytes (a b : Bytes) : Bytes := if a.length = b.length then xor a b else []

def verifyCachingSHA2Password (storedHash scramble clientResponse : Bytes) : Except Err Unit :=
  let hashLen := storedHash.length
  let responseLen := clientResponse.length
  let scrambleLen := scramble.length
  if hashLen ≠ 32 then .error (.errorf s!"invalid caching_sha2_password hash length: {hashLen}")
  else if responseLen ≠ 32 then .error (.errorf s!"invalid client response length: {responseLen}")
  else if scrambleLen < 20 then .error (.errorf s!"scramble too short: {scrambleLen}")
  else
    let passwordHash := xorBytes clientResponse (lib.sha256 (storedHash ++ scramble.take 20))
    if lib.sha256 (passwordHash ++ scramble.take 20) = storedHash then .ok ()
    else .error (.errorf "password verification failed")

def verifyNativePassword (storedHash scramble clientResponse : Bytes) : Except Err Unit :=
  let hashLen := storedHash.length
  let responseLen := clientResponse.length
  let scrambleLen := scramble.length
  if hashLen ≠ 20 then .error (.errorf s!"invalid mysql_native_password hash length: {hashLen}")
  else if responseLen ≠ 20 then .error (.errorf s!"invalid client response length: {responseLen}")
  else if scrambleLen < 8 then .error (.errorf s!"scramble too short: {scrambleLen}")
  else
    let result := xorBytes clientResponse (lib.sha1 (scramble.take 8 ++ storedHash))
    if lib.sha1 result = storedHash then .ok ()
    else .error (.errorf "password verification failed")

def verifyMySQLPassword (storedHash scramble clientResponse : Bytes) : Except Err Unit :=
  if storedHash = [] then .error (.errorf "no MySQL password hash stored for user")
  else
    let hashBytes :=
      if (lib.decodeBase64 storedHash).2 then (lib.decodeBase64 storedHash).1 else storedHash
    let hashLen := hashBytes.length
    if hashLen = 32 then verifyCachingSHA2Password lib hashBytes scramble clientResponse
    else if hashLen = 20 then verifyNativePassword lib hashBytes scramble clientResponse
    else .error (.errorf s!"unknown MySQL password hash format (length: {hashLen})")

/-! ## NTLM messages -/

open Wire (littleEndian)

/-- `data[i:i+n]`, where it is known to be there. -/
def field (data : Bytes) (i n : Nat) : Bytes := (data.drop i).take n

/-- The signature and the type of an NTLM message. -/
def checkNTLMMessage (data : Bytes) (ntlmType : Nat) : Except Err Unit :=
  let found := littleEndian (field data 8 4)
  if field data 0 8 ≠ ascii "NTLMSSP" ++ [0] then .error (.errorf "invalid NTLMSSP signature")
  else if found ≠ ntlmType then .error (.errorf s!"expected Type {ntlmType}, got Type {found}")
  else .ok ()

/-- `ParseNTLMChallenge`: the challenge of a Type 2 message. -/
def parseNTLMChallenge (data : Bytes) : Except Err Bytes := do
  if data.length < 32 then .error (.errorf "NTLM challenge message too short")
  else
    checkNTLMMessage data 2
    return field data 24 8

/-- `NTLMAuthenticate`, as far as the verification reads it. -/
structure NTLMAuthenticate where
  ntlmResponse : Bytes
  domain : Bytes
  user : Bytes
  deriving DecidableEq

def readField (data : Bytes) (offset : Nat) : Bytes :=
  if offset + 8 > data.length then []
  else
    let length := littleEndian (field data offset 2)
    let fieldOffset := littleEndian (field data (offset + 4) 4)
    if fieldOffset + length > data.length then [] else field data fieldOffset length

/-- The 16-bit units of a byte string; an odd byte at the end is left out. -/
def units : Bytes → List Nat
  | a :: b :: data => (a.toNat + 256 * b.toNat) :: units data
  | _ => []

def decodeNTLMString (data : Bytes) (unicode : Bool) : Bytes :=
  let s := if unicode ∧ 2 ≤ data.length then lib.decodeUTF16 (units data) else data
  (s.reverse.dropWhile (· = 0)).reverse

/-- `encodeNTLMString(s, true)`. -/
def encodeNTLMString (s : Bytes) : Bytes := (lib.runes s).flatMap (putLittleEndian 2)

/-- `ParseNTLMAuthenticate`: a Type 3 message. -/
def parseNTLMAuthenticate (data : Bytes) : Except Err NTLMAuthenticate := do
  if data.length < 64 then .error (.errorf "NTLM authenticate message too short")
  else
    checkNTLMMessage data 3
    let unicode := (littleEndian (field data 60 4)) % 2 = 1
    return {
      ntlmResponse := readField data 20
      domain := decodeNTLMString lib (readField data 28) unicode
      user := decodeNTLMString lib (readField data 36) unicode }

def verifyNTLMResponse (auth : NTLMAuthenticate) (serverChallenge passwordHash : Bytes) : Bool :=
  if auth.ntlmResponse.length < 16 then false
  else
    let responseKeyNT := lib.hmacMD5 passwordHash
      (encodeNTLMString lib (lib.toUpper auth.user ++ lib.toUpper auth.domain))
    let expectedProof :=
      lib.hmacMD5 responseKeyNT (serverChallenge ++ auth.ntlmResponse.drop 16)
    auth.ntlmResponse.take 16 = expectedProof

/-- An NT hash that is stored in hexadecimal. -/
def ntHash (hash : Bytes) : Except Err Bytes :=
  (range (hash.length / 2)).mapM fun i =>
    match lib.scanHex (field hash (2 * i) 2) with
    | none => .error (.wrap "invalid NTLM password hash format" .system)
    | some b => .ok b

/-- The NTLM message in a payload that may have a token header before it. -/
def unwrapNTLM (payload : Bytes) : Bytes :=
  if 3 < payload.length then
    let ntlmLen := littleEndian (field payload 1 2)
    if 3 + ntlmLen ≤ payload.length then field payload 3 ntlmLen else payload
  else payload

/-- `verifyNTLMClientResponse`, for the hash of the user and the challenge that
the session has. -/
def verifyNTLMClientResponse (user : User) (challenge payload : Bytes) (packetType : UInt8) :
    Except Err Unit := do
  let ntlmData := if packetType = 0x11 then payload else unwrapNTLM payload
  match parseNTLMAuthenticate lib ntlmData with
  | .error err => .error (.wrap "failed to parse NTLM authenticate" err)
  | .ok auth =>
    let hash ← ntHash lib user.ntlmPasswordHash
    if verifyNTLMResponse lib auth challenge hash then return ()
    else .error (.errorf ("NTLMv2 response verification failed for user " ++
      text user.username))

end Geryon.Startup
