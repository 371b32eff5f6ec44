import Geryon.Startup.PostgreSQL
import Geryon.Startup.MSSQL

/-!
# Which operations the handlers use

`handleStartup` and `Handle` for all protocols, and what the parts of the
handlers leave alone.

`Quiet` parts neither rename the user nor touch a counter, note anything or
record a failed authentication: they exchange messages.  `Uncounted` parts do
not take the session onto a counter or off it.
-/

namespace Geryon.Startup

open Conc Conc.Fallible
open Wire (bigEndian)
open Pool (AuthMode)

variable {α : Type} {lib : Lib} {cfg : Config}

/-! ## Handle -/

def handleStartup (lib : Lib) (cfg : Config) : Handler Unit :=
  match cfg.body with
  | .postgreSQL => handlePostgreSQLStartup lib cfg cfg.rounds
  | .mySQL => handleMySQLStartup lib cfg
  | .msSQL => handleMSSQLStartup cfg

/-- `Handle` before its deferred function: the start-up, the second call of
`OnClientConnect`, and the relay. -/
def serve (lib : Lib) (cfg : Config) : Handler Unit := do
  handleStartup lib cfg
  match ← op (.onClientConnect cfg.mode) with
  | .error e => fail (.wrap "failed to acquire server connection" (.pool e))
  | .ok () => op .relay

/-- The function that `Handle` defers, as far as the counters go. -/
def deferred : Handler Unit := do
  decrementUserCount (← op .getUsername)
  op .finish

/-- `Handle`.  The deferred function runs after an error and after a panic,
too. -/
def handle (lib : Lib) (cfg : Config) : Conc.Prog sessions Unit := do
  let _ ← (serve lib cfg).run
  let _ ← deferred.run
  return ()

/-! ## Quiet parts -/

/-- The operations of an exchange of messages. -/
def Quiet : Op → Prop
  | .setUsername _ | .compareAndSwap .. | .addCount _ | .finish | .note _ | .reload
  | .recordAuthFailure => False
  | _ => True

/-- The operations that do not take a session onto a counter or off it. -/
def Uncounted : Op → Prop
  | .compareAndSwap .. | .addCount _ | .finish | .reload => False
  | _ => True

theorem Quiet.uncounted : ∀ o : Op, Quiet o → Uncounted o := by
  intro o h
  cases o <;> trivial

/-- The operations on the two connections, with random numbers for what is
said there. -/
def Talk : Op → Prop
  | .stuck | .readFull .. | .readDirect .. | .write .. | .random _ => True
  | _ => False

theorem Talk.quiet : ∀ o : Op, Talk o → Quiet o := by
  intro o h
  cases o <;> trivial

/-- The operations of a relay between the two connections. -/
def Relays : Op → Prop
  | .startTLS | .onClientConnect _ => False
  | o => Quiet o

theorem Relays.quiet : ∀ o : Op, Relays o → Quiet o := by
  intro o h
  cases o <;> first | exact h | trivial

variable {e : Err} {n i j fuel : Nat} {data username password payload : Bytes} {s' : String}
  {client : SCRAMClient} {packetType : UInt8}

variable {s : String} {side : Side} {reader : Bytes} {rounds : Nat} {p : Handler α}

theorem quiet_wrap (hp : p.Uses Quiet) : (wrap s p).Uses Quiet :=
  uses_mapError hp

theorem quiet_readFull : (readFull side reader n).Uses Quiet :=
  uses_readFull trivial

theorem quiet_readByte : (readByte side reader).Uses Quiet :=
  uses_readByte trivial

theorem quiet_write {b : Bytes} : (write side b).Uses Quiet := uses_write trivial

theorem quiet_slice : (slice data i j).Uses Quiet :=
  uses_ite uses_pure uses_throw

theorem quiet_takeServerConn {mode : Pool.PoolMode} : (takeServerConn mode).Uses Quiet := by
  refine uses_step trivial fun r => ?_
  split
  · exact uses_throw
  · exact uses_bind (uses_op trivial) fun _ => uses_ite uses_pure uses_throw

/-! ### PostgreSQL -/

theorem relays_readRelayed : (readRelayed side reader s).Uses Relays :=
  uses_bind (uses_readByte trivial) fun _ => uses_bind (uses_readFull trivial) fun _ =>
    uses_ite uses_throw (uses_bind (uses_readFull trivial) fun _ => uses_pure)

theorem relays_forwardAuthLoop : (forwardAuthLoop rounds reader).Uses Relays := by
  induction rounds generalizing reader with
  | zero => exact uses_op trivial
  | succ rounds ih =>
    refine uses_bind relays_readRelayed fun _ => uses_bind (uses_write trivial) fun _ => ?_
    refine uses_ite (uses_bind (uses_ite uses_pure uses_throw) fun _ => uses_ite ?_ ?_)
      (uses_ite uses_pure ih)
    · exact uses_step trivial fun _ => uses_step trivial fun _ => ih
    · exact uses_bind (uses_bind relays_readRelayed fun _ => uses_write trivial) fun _ => ih

theorem quiet_of_relays (hp : p.Uses Relays) : p.Uses Quiet :=
  Prog.uses_mono hp Relays.quiet

theorem talk_readAuthPayload : (readAuthPayload reader s s').Uses Talk :=
  uses_bind (uses_mapError (uses_readFull trivial)) fun _ =>
    uses_bind (uses_ite uses_throw uses_pure) fun _ =>
      uses_bind (uses_mapError (uses_readFull trivial)) fun _ => uses_pure

theorem talk_forwardErrorResponse : (forwardErrorResponse reader).Uses Talk :=
  uses_bind talk_readAuthPayload fun _ => uses_bind (uses_mapError (uses_write trivial)) fun _ =>
    uses_throw

theorem talk_slice : (slice data i j).Uses Talk :=
  uses_ite uses_pure uses_throw

theorem talk_processSCRAMAuthCycle :
    (processSCRAMAuthCycle lib rounds reader client).Uses Talk := by
  induction rounds generalizing reader client with
  | zero => exact uses_op trivial
  | succ rounds ih =>
    refine uses_bind (uses_mapError (uses_readByte trivial)) fun _ => ?_
    refine uses_ite ?_ (uses_ite talk_forwardErrorResponse (uses_ite uses_pure ih))
    refine uses_bind talk_readAuthPayload fun _ => uses_bind talk_slice fun _ => ?_
    refine uses_ite (uses_bind (uses_mapError (uses_write trivial)) fun _ => ih) (uses_ite ?_ ih)
    exact uses_ite uses_pure uses_throw

theorem talk_buildClientFirst : (client.buildClientFirst lib username).Uses Talk :=
  uses_step trivial fun _ => uses_pure

theorem talk_authenticateLoop :
    (authenticateLoop lib username password rounds fuel reader).Uses Talk := by
  induction fuel generalizing reader with
  | zero => exact uses_op trivial
  | succ fuel ih =>
    refine uses_bind (uses_mapError (uses_readByte trivial)) fun _ => ?_
    refine uses_ite ?_ (uses_ite talk_forwardErrorResponse (uses_ite uses_pure uses_throw))
    refine uses_bind talk_readAuthPayload fun _ => uses_bind talk_slice fun _ => ?_
    refine uses_ite ?_ (uses_ite ?_ (uses_ite uses_pure uses_throw))
    · exact uses_bind talk_slice fun _ => uses_bind (uses_mapError (uses_write trivial)) fun _ => ih
    · exact uses_bind talk_buildClientFirst fun _ => uses_bind (uses_mapError (uses_write trivial))
        fun _ => talk_processSCRAMAuthCycle

theorem quiet_backendCredentials : (backendCredentials lib cfg).Uses Quiet := by
  refine uses_ite (uses_ite (uses_step trivial fun r => ?_) uses_pure) ?_
  · split
    · exact uses_throw
    · exact uses_pure
  · exact uses_step trivial fun _ => uses_pure

theorem quiet_connectToBackend : (connectToBackend lib cfg).Uses Quiet := by
  refine uses_bind quiet_takeServerConn fun _ => uses_bind quiet_backendCredentials fun _ => ?_
  refine uses_ite (uses_step trivial fun _ => uses_step trivial fun _ =>
    uses_bind (quiet_wrap quiet_write) fun _ => ?_) uses_pure
  refine uses_ite (quiet_wrap (Prog.uses_mono talk_authenticateLoop Talk.quiet))
    (uses_bind (uses_op trivial) fun _ => ?_)
  exact uses_ite uses_throw (quiet_wrap (quiet_of_relays relays_forwardAuthLoop))

theorem quiet_readPasswordMessage : (readPasswordMessage reader s).Uses Quiet :=
  uses_bind (quiet_wrap quiet_readByte) fun _ => uses_ite uses_throw
    (uses_bind (quiet_wrap quiet_readFull) fun _ => quiet_wrap quiet_readFull)

theorem quiet_sendAuthenticated {state : SCRAMState} :
    (sendAuthenticated lib state).Uses Quiet := by
  refine uses_bind (quiet_wrap quiet_write) fun _ => uses_bind (quiet_wrap quiet_write)
    fun _ => uses_bind ?_ fun _ => quiet_wrap quiet_write
  induction reportedParams with
  | nil => exact uses_pure
  | cons p params ih => exact uses_bind (quiet_wrap quiet_write) fun _ => ih

theorem quiet_refuse {code message : String} {e' : Err} :
    (refuse code message e e' : Handler α).Uses Quiet :=
  uses_bind (uses_op trivial) fun _ => uses_ite uses_throw uses_throw

/-! ### MSSQL -/

theorem relays_write {b : Bytes} : (wrap s (write side b)).Uses Relays :=
  uses_mapError (uses_write trivial)

theorem relays_readTDS {invalid : Int → String} : (readTDS side reader s s' invalid).Uses Relays :=
  uses_bind (uses_mapError (uses_readFull trivial)) fun _ => uses_ite uses_throw
    (uses_bind (uses_mapError (uses_readFull trivial)) fun _ => uses_pure)

theorem quiet_readClientTDS : (readClientTDS reader packetType s).Uses Quiet :=
  uses_bind (quiet_wrap quiet_readFull) fun _ => uses_ite uses_throw
    (uses_ite uses_throw (uses_bind (quiet_wrap quiet_readFull) fun _ => uses_pure))

theorem quiet_readMSSQLClientHandshake : readMSSQLClientHandshake.Uses Quiet :=
  uses_bind quiet_readClientTDS fun _ => uses_bind quiet_readClientTDS fun _ => uses_pure

theorem relays_captureForNTLMUser : (captureForNTLMUser payload packetType).Uses Relays := by
  refine uses_step trivial fun _ => uses_ite ?_ uses_pure
  unfold captureNTLMChallenge
  dsimp only
  generalize parseNTLMChallenge _ = res
  cases res with
  | error _ => exact uses_pure
  | ok _ => exact uses_op trivial

theorem relays_forwardMSSQLPreLoginResponse :
    (forwardMSSQLPreLoginResponse rounds reader).Uses Relays := by
  induction rounds generalizing reader with
  | zero => exact uses_op trivial
  | succ rounds ih =>
    exact uses_bind relays_readTDS fun _ => uses_bind relays_write fun _ => uses_ite uses_pure ih

theorem relays_forwardClientSSPI : forwardClientSSPI.Uses Relays :=
  uses_bind (uses_mapError (uses_readDirect trivial)) fun _ => uses_ite uses_throw
    (uses_bind (uses_mapError (uses_readDirect trivial)) fun _ => relays_write)

theorem relays_forwardSSPIAnswer : (forwardSSPIAnswer rounds reader).Uses Relays := by
  induction rounds generalizing reader with
  | zero => exact uses_step trivial fun _ => uses_pure
  | succ rounds ih =>
    refine uses_bind relays_readTDS fun _ => uses_ite ?_ ?_
    · exact uses_bind relays_write fun _ => uses_bind relays_forwardClientSSPI fun _ => ih
    · exact uses_bind relays_write fun _ => uses_ite uses_pure ih

theorem relays_forwardLogin7Loop : (forwardLogin7Loop rounds fuel reader).Uses Relays := by
  induction fuel generalizing reader with
  | zero => exact uses_op trivial
  | succ fuel ih =>
    refine uses_bind relays_readTDS fun _ => uses_ite ?_ ?_
    · exact uses_bind relays_captureForNTLMUser fun _ => uses_bind relays_write fun _ =>
        uses_bind (uses_mapError (uses_bind relays_forwardClientSSPI fun _ =>
          relays_forwardSSPIAnswer)) fun _ => ih
    · exact uses_bind relays_write fun _ => uses_ite uses_pure ih

theorem relays_completeMSSQLLogin : (completeMSSQLLogin cfg).Uses Relays :=
  uses_bind (uses_mapError relays_forwardLogin7Loop) fun _ => uses_step trivial fun _ =>
    uses_op trivial

theorem quiet_passMSSQLLogin : (passMSSQLLogin cfg).Uses Quiet := by
  refine uses_bind quiet_takeServerConn fun _ => uses_bind (quiet_wrap ?_) fun _ =>
    uses_bind quiet_readClientTDS fun _ => quiet_wrap quiet_write
  exact uses_bind quiet_readClientTDS fun _ => uses_bind (quiet_wrap quiet_write) fun _ =>
    quiet_of_relays relays_forwardMSSQLPreLoginResponse

/-! ## The messages to the client -/

/-- `AuthenticationOk`. -/
def isAuthOk (b : Bytes) : Bool := b.headD 0 = 'R'.toUInt8 && bigEndian (field b 5 4) = 0

/-- `ReadyForQuery`. -/
def isReady (b : Bytes) : Bool := b.headD 0 = 'Z'.toUInt8

/-- A message that does not tell the client that the start-up is over, or
nearly so. -/
def Untelling (b : Bytes) : Prop := isAuthOk b = false ∧ isReady b = false

theorem untelling_of_head (hR : b.headD 0 ≠ 'R'.toUInt8) (hZ : b.headD 0 ≠ 'Z'.toUInt8) :
    Untelling b := by
  simp only [Untelling, isAuthOk, isReady, decide_eq_false hR, decide_eq_false hZ,
    Bool.false_and, and_self]

theorem untelling_pgMessage {t : Char} {payload : Bytes} (hR : t.toUInt8 ≠ 'R'.toUInt8)
    (hZ : t.toUInt8 ≠ 'Z'.toUInt8) : Untelling (pgMessage t payload) :=
  untelling_of_head hR hZ

theorem field_authMessage (authType : Nat) (data : Bytes) :
    field (authMessage authType data) 5 4 = putBigEndian 4 authType := by
  simp [field, authMessage, pgMessage]

theorem untelling_authMessage {authType : Nat} {data : Bytes} (hpos : 0 < authType)
    (hlt : authType < 4294967296) : Untelling (authMessage authType data) := by
  refine ⟨?_, rfl⟩
  rw [isAuthOk, field_authMessage, bigEndian_put hlt]
  simp
  omega

/-! ## Checking a client -/

/-- The operations that check a client: they do not count its session, do not
connect to the backend, and write only what `T` allows to the client. -/
def Checks (T : Bytes → Prop) : Op → Prop
  | .write .client b => T b
  | .onClientConnect _ | .compareAndSwap .. | .addCount _ | .finish | .reload => False
  | _ => True

/-- The operations that count it. -/
def Counts : Op → Prop
  | .stuck | .loadCount _ | .compareAndSwap .. | .loadOrStore _ => True
  | _ => False

variable {T : Bytes → Prop} {code message : String} {e' : Err} {state : SCRAMState} {user : User}

theorem uses_checkConnectionLimit {A : Op → Prop} {refused : Handler Unit}
    (hA : ∀ o, Counts o → A o) (h : refused.Uses A) :
    (checkConnectionLimit rounds username user refused).Uses A := by
  have hloop : ∀ max rounds, (tryIncrementLoop username max rounds).Uses A := by
    intro max rounds
    induction rounds with
    | zero => exact uses_step (hA _ trivial) fun _ => uses_pure
    | succ rounds ih =>
      exact uses_bind (uses_op (hA _ trivial)) fun _ => uses_ite uses_pure
        (uses_bind (uses_op (hA _ trivial)) fun _ => uses_ite uses_pure ih)
  exact uses_ite (uses_bind (uses_ite uses_pure (uses_step (hA _ trivial) fun _ => hloop _ _))
    fun _ => uses_ite uses_pure h) uses_pure

theorem checks_refuse : (refuse code message e e' : Handler α).Uses (Checks Untelling) :=
  uses_bind (uses_op (untelling_pgMessage (by decide) (by decide))) fun _ =>
    uses_ite uses_throw uses_throw

theorem checks_readPasswordMessage : (readPasswordMessage reader s).Uses (Checks Untelling) :=
  uses_bind (uses_mapError (uses_readByte trivial)) fun _ => uses_ite uses_throw
    (uses_bind (uses_mapError (uses_readFull trivial)) fun _ =>
      uses_mapError (uses_readFull trivial))

theorem checks_parseSASLInitial {respData : Bytes} :
    (parseSASLInitial respData).Uses (Checks Untelling) := by
  have hslice : ∀ i j, (slice respData i j).Uses (Checks Untelling) :=
    fun _ _ => uses_ite uses_pure uses_throw
  exact uses_ite uses_throw (uses_bind (hslice _ _) fun _ => hslice _ _)

theorem checks_generateServerFirst : (generateServerFirst lib state).Uses (Checks Untelling) := by
  refine uses_step trivial fun user => ?_
  cases user with
  | none => exact uses_throw
  | some user =>
    dsimp only
    cases parseSCRAMHash lib user.passwordHash with
    | error err => exact uses_throw
    | ok keys =>
      refine uses_step trivial fun serverNonce => ?_
      cases serverNonce with
      | none => exact uses_throw
      | some serverNonce => exact uses_pure

theorem checks_scramExchange : (scramExchange lib).Uses (Checks Untelling) := by
  have hfailure : ∀ code message e e', (op .recordAuthFailure >>= fun _ =>
      (refuse code message e e' : Handler SCRAMState)).Uses (Checks Untelling) :=
    fun _ _ _ _ => uses_step trivial fun _ => checks_refuse
  have hrequest : Untelling createAuthenticationSCRAM := by
    constructor <;> decide
  refine uses_bind (uses_mapError (uses_write hrequest)) fun _ =>
    uses_bind checks_readPasswordMessage fun respData => uses_step trivial fun _ =>
      uses_bind checks_parseSASLInitial fun clientFirst => ?_
  dsimp only
  cases parseClientFirst clientFirst with
  | error err => exact hfailure _ _ _ _
  | ok state =>
    refine uses_bind (uses_handle checks_generateServerFirst fun e => ?_) fun state' => ?_
    · cases e with
      | err err => exact hfailure _ _ _ _
      | panic => exact uses_throw
    · refine uses_bind (uses_mapError (uses_write
        (untelling_authMessage (by decide) (by decide)))) fun _ =>
          uses_bind checks_readPasswordMessage fun finalData => ?_
      cases verifyClientFinal lib state' finalData.1 with
      | error err => exact hfailure _ _ _ _
      | ok state'' => exact uses_step trivial fun _ => uses_pure

theorem checks_handleSSLRequest : (handleSSLRequest cfg).Uses (Checks Untelling) := by
  have hcert : ∀ cert, (authenticateWithCertificate cfg cert).Uses (Checks Untelling) := by
    intro cert
    unfold authenticateWithCertificate
    split
    · exact uses_pure
    · split
      · exact uses_pure
      · refine uses_ite uses_throw (uses_ite (uses_step trivial fun user => ?_) (uses_op trivial))
        cases user with
        | none => exact uses_throw
        | some user => exact uses_ite (uses_op trivial) uses_throw
  have hletter : ∀ s t, Untelling (ascii t) →
      (wrap s (write .client (ascii t))).Uses (Checks Untelling) :=
    fun _ _ h => uses_mapError (uses_write h)
  refine uses_ite (uses_bind (hletter _ _ (untelling_of_head (by decide) (by decide))) fun _ =>
    uses_step trivial fun cert => ?_) (uses_ite uses_throw
      (hletter _ _ (untelling_of_head (by decide) (by decide))))
  cases cert with
  | none => exact uses_throw
  | some cert => exact hcert cert

theorem checks_orRecordFailure (hp : p.Uses (Checks T)) : (orRecordFailure p).Uses (Checks T) := by
  refine uses_handle hp fun e => ?_
  cases e with
  | err e => exact uses_step trivial fun _ => uses_throw
  | panic => exact uses_throw

theorem checks_readInterceptedResponse : readInterceptedResponse.Uses (Checks fun _ => True) :=
  uses_bind (checks_orRecordFailure (uses_mapError (uses_readFull trivial))) fun _ =>
    uses_ite (uses_step trivial fun _ => uses_throw)
      (uses_bind (checks_orRecordFailure (uses_mapError (uses_readFull trivial))) fun _ =>
        uses_step trivial fun _ => uses_pure)

theorem checks_verifyIntercepted {scramble authResponse : Bytes} :
    (verifyIntercepted lib user scramble authResponse).Uses (Checks fun _ => True) := by
  have hrefuse : ∀ message e, (refuseMySQL message e).Uses (Checks fun _ => True) := fun _ _ =>
    uses_step trivial fun _ => uses_step trivial fun _ => uses_throw
  refine uses_ite ?_ (uses_ite (hrefuse _ _) (uses_step trivial fun _ => hrefuse _ _))
  cases verifyMySQLPassword lib user.mysqlPasswordHash scramble authResponse with
  | error err => exact hrefuse _ _
  | ok _ => exact uses_op trivial

/-! ## Passing a client through -/

/-- The operations of a session that has its server connection. -/
def Serves : Op → Prop
  | .startTLS | .onClientConnect _ | .compareAndSwap .. | .addCount _ | .finish | .reload => False
  | _ => True

/-- Those that neither read from the server nor write to the client. -/
def Responds : Op → Prop
  | .readFull .server .. | .readDirect .server _ | .write .client _ => False
  | o => Serves o

theorem Responds.serves : ∀ o : Op, Responds o → Serves o := by
  intro o h
  cases o <;> first | exact h | trivial

theorem responds_forwardAuthSwitch {seq : UInt8} : (forwardAuthSwitch lib seq).Uses Responds := by
  have hverify : ∀ header payload, (verifyAuthSwitch lib header payload).Uses Responds := by
    intro header payload
    refine uses_step trivial fun user => ?_
    cases user with
    | none => exact uses_pure
    | some user =>
      refine uses_ite (uses_step trivial fun challenge => ?_) uses_pure
      cases verifyNTLMClientResponse lib user challenge payload (header.headD 0) with
      | error err => exact uses_step trivial fun _ => uses_throw
      | ok _ => exact uses_pure
  exact uses_bind (uses_readDirect trivial) fun _ => uses_ite uses_throw
    (uses_bind (uses_readDirect trivial) fun _ => uses_bind (hverify _ _) fun _ =>
      uses_write trivial)

theorem responds_checkPassthroughAccess : (checkPassthroughAccess cfg username).Uses Responds := by
  refine uses_ite (uses_step trivial fun user => ?_) uses_pure
  cases user with
  | none => exact uses_throw
  | some user => exact uses_ite uses_pure uses_throw

theorem responds_readHandshakeResponse : readHandshakeResponse.Uses Responds :=
  uses_bind (uses_mapError (uses_readDirect trivial)) fun _ => uses_ite uses_throw
    (uses_bind (uses_mapError (uses_readDirect trivial)) fun _ => uses_pure)

theorem serves_forwardMySQLAuth : (forwardMySQLAuth lib rounds).Uses Serves := by
  induction rounds with
  | zero => exact uses_op trivial
  | succ rounds ih =>
    refine uses_bind (uses_readFull trivial) fun _ => uses_ite uses_throw
      (uses_bind (uses_readFull trivial) fun _ => uses_bind (uses_write trivial) fun _ => ?_)
    split
    · exact uses_pure
    · exact uses_step trivial fun _ => uses_throw
    · exact uses_bind (Prog.uses_mono responds_forwardAuthSwitch Responds.serves) fun _ => ih
    · exact ih

theorem serves_extractMySQLScramble : (extractMySQLScramble data).Uses Serves := by
  unfold extractMySQLScramble
  dsimp only
  refine uses_ite uses_throw (uses_ite uses_throw (uses_ite uses_throw (uses_ite uses_pure ?_)))
  split
  · exact uses_throw
  · exact uses_pure

theorem serves_handleMySQLPassthrough (lib : Lib) (cfg : Config) :
    ∃ f, handleMySQLPassthrough lib cfg = takeServerConn cfg.mode >>= f ∧ (f ()).Uses Serves := by
  have hbackend : readBackendHandshake.Uses Serves :=
    uses_bind (uses_mapError (uses_readFull trivial)) fun _ => uses_ite uses_throw
      (uses_bind (uses_mapError (uses_readFull trivial)) fun _ => uses_pure)
  refine ⟨_, rfl, uses_bind hbackend fun _ =>
    uses_bind (uses_mapError serves_extractMySQLScramble) fun _ => uses_step trivial fun _ =>
      uses_bind (uses_mapError (uses_write trivial)) fun _ =>
        uses_bind (Prog.uses_mono responds_readHandshakeResponse Responds.serves) fun resp => ?_⟩
  obtain ⟨respHeader, respData⟩ := resp
  dsimp only
  cases parseMySQLHandshakeResponse respData with
  | error err => exact uses_throw
  | ok names =>
    exact uses_step trivial fun _ => uses_step trivial fun _ =>
      uses_bind (Prog.uses_mono responds_checkPassthroughAccess Responds.serves) fun _ =>
        uses_bind (uses_mapError (uses_write trivial)) fun _ =>
          uses_bind (uses_mapError serves_forwardMySQLAuth) fun _ =>
            uses_step trivial fun _ => uses_op trivial

end Geryon.Startup
