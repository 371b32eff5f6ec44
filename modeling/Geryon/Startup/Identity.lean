import Geryon.Startup.Exchange

/-!
# Who the user of a session is

In interception mode the proxy authenticates the client itself.  A client gives
a user name in more than one message: in the `StartupMessage` and in the
`SASLInitialResponse` for PostgreSQL, and in two handshake responses for MySQL.

`Identity` is what a session says about its user.  Only `note` and
`setUsername` change it, so the handlers can be read as programs of these few
operations; `Says` is partial correctness in these terms.
-/

namespace Geryon.Startup

open Conc Conc.Fallible List World Prog Quiet
open Wire (bigEndian)
open Pool (AuthMode)

variable {α β : Type} {lib : Lib} {cfg : Config}

/-! ## What a session says about its user -/

/-- The user of a session, what the client sent about it, and what the proxy
checked. -/
structure Identity where
  username : Bytes
  heard : List Heard
  checked : Option Bytes
  verified : Option Bytes

/-- What a session says about its user. -/
def World.identity (w : World) : Identity :=
  ⟨w.sess.username, w.sess.heard, w.sess.checked, w.sess.verified⟩

def Identity.note (i : Identity) : Note → Identity
  | .heard msg => { i with heard := i.heard ++ [msg] }
  | .checked username => { i with checked := some username }
  | .verified username => { i with verified := some username }

/-- The operations that do not touch the identity. -/
def Nameless : Op → Prop
  | .setUsername _ | .note _ => False
  | _ => True

theorem Quiet.nameless : ∀ o : Op, Quiet o → Nameless o := by
  intro o h
  cases o <;> trivial

theorem step_nameless {w w' : World} {o : Op} {r : o.Ret} (ho : Nameless o)
    (h : step w o = some (r, w')) : w'.identity = w.identity := by
  cases o
  case setUsername | note => exact ho.elim
  case stuck | reload => cases h
  case readFull | readDirect | write | startTLS | isLimited | random | mapOrder
      | onClientConnect =>
    exact congrArg (fun c : Core => Identity.mk c.username c.heard c.checked c.verified)
      (step_outer h trivial).2
  case loadOrStore | compareAndSwap =>
    simp only [step] at h
    split at h <;> cases h <;> rfl
  all_goals
    cases h
    rfl

/-- If the handler returns, `Q` holds of its result and of the identity
then. -/
abbrev Says (p : Handler α) (i : Identity) (Q : α → Identity → Prop) : Prop :=
  p.Ensures (M := sessions) step identity i Q

variable {p : Handler α} {i : Identity} {Q : β → Identity → Prop} {u : Bytes} {user : User}

theorem says_of_nameless (hp : p.Uses Nameless) : Says p i fun _ j => j = i :=
  ensures_of_uses hp step_nameless

theorem says_quiet (hp : p.Uses Quiet) : Says p i fun _ j => j = i :=
  says_of_nameless (uses_mono hp nameless)

variable {f : α → Handler β} {n : Note} {e : Err} {rounds : Nat} {state : SCRAMState}
  {response : Bytes}

theorem says_nameless_bind (hp : p.Uses Nameless) (hf : ∀ a, Says (f a) i Q) :
    Says (p >>= f) i Q := by
  refine ensures_bind (says_of_nameless hp) fun a j hj => ?_
  rw [hj]
  exact hf a

theorem says_quiet_bind (hp : p.Uses Quiet) (hf : ∀ a, Says (f a) i Q) : Says (p >>= f) i Q :=
  says_nameless_bind (uses_mono hp nameless) hf

theorem says_note : Says (op (.note n)) i fun _ j => j = i.note n := by
  refine ensures_op fun w r w' hw hstep => ?_
  cases hstep
  rw [← hw]
  cases n <;> rfl

variable {f : Unit → Handler β}

theorem says_note_bind (hf : Says (f ()) (i.note n) Q) : Says (op (.note n) >>= f) i Q := by
  refine ensures_bind says_note fun a v hv => ?_
  rw [hv]
  exact hf

theorem says_setUsername :
    Says (op (.setUsername u)) i fun _ j => j = { i with username := u } := by
  refine ensures_op fun w r w' hw hstep => ?_
  cases hstep
  rw [← hw]
  rfl

theorem says_setUsername_bind {u : Bytes} {i : Identity}
    {Q : β → Identity → Prop} (hf : Says (f ()) { i with username := u } Q) :
    Says (op (.setUsername u) >>= f) i Q := by
  refine ensures_bind says_setUsername fun a v hv => ?_
  rw [hv]
  exact hf

/-- A user that is found has the name that was looked for. -/
theorem says_getUser_bind {f : Option User → Handler β} (hnone : Says (f none) i Q)
    (hsome : ∀ user, user.username = u → Says (f (some user)) i Q) :
    Says (op (.getUser u) >>= f) i Q := by
  refine ensures_bind (Q := fun r v => v = i ∧ ∀ user, r = some user → user.username = u)
    (ensures_op fun w r w' hw hstep => ?_) ?_
  · cases hstep
    refine ⟨hw, fun user huser => ?_⟩
    have hfind := find?_some huser
    simpa using hfind
  · intro r v hv
    rw [hv.1]
    cases r with
    | none => exact hnone
    | some user => exact hsome user (hv.2 user rfl)

theorem says_fail {Q : α → Identity → Prop} : Says (fail e) i Q :=
  ensures_throw

theorem says_bind_fail : Says (p >>= fun _ => fail e) i Q :=
  ensures_bind (Q := fun _ _ => True) (fun _ _ _ _ _ => trivial) fun _ _ _ => ensures_throw

theorem says_onError {q : Handler Unit} {Q : α → Identity → Prop} (hp : Says p i Q) :
    Says (onError p q) i Q := by
  refine ensures_handle hp fun e v => ?_
  cases e with
  | err e => exact says_bind_fail
  | panic => exact ensures_throw

theorem says_refuse {code message : String} {e' : Err} {Q : α → Identity → Prop} :
    Says (refuse code message e e') i Q :=
  says_quiet_bind (uses_op trivial) fun _ =>
    ensures_ite (fun _ => ensures_throw) fun _ => ensures_throw

/-! ## The names in the messages -/

/-- The user name in a `StartupMessage`. -/
def startupUser (startupData : Bytes) : Option Bytes :=
  match startupParams startupData with
  | .error _ => none
  | .ok params => some (param params "user")

/-- The client-first-message in a `SASLInitialResponse`. -/
def clientFirstOf (respData : Bytes) : Bytes :=
  let start := (untilNull respData).length + 1
  field respData (start + 4) (bigEndian (field respData start 4))

/-- The user name in a `SASLInitialResponse`. -/
def saslUser (respData : Bytes) : Option Bytes :=
  match parseClientFirst (clientFirstOf respData) with
  | .error _ => none
  | .ok state => some state.username

/-- The user name in a MySQL handshake response. -/
def handshakeUser (payload : Bytes) : Option Bytes :=
  match parseMySQLHandshakeResponse payload with
  | .error _ => none
  | .ok (username, _) => some username

/-- The messages of a client give the same user name.  A second handshake
response may leave it out. -/
def namesAgree : List Heard → Bool
  | [.startup startupData, .saslInitial respData] => startupUser startupData = saslUser respData
  | [.handshake first, .handshake second] =>
    handshakeUser second = some [] || handshakeUser second = handshakeUser first
  | _ => false

/-! ## PostgreSQL -/

theorem nameless_checkConnectionLimit {refused : Handler Unit} (h : refused.Uses Nameless) :
    (checkConnectionLimit rounds u user refused).Uses Nameless :=
  uses_checkConnectionLimit (by intro o h; cases o <;> trivial) h

theorem nameless_of_quiet (hp : p.Uses Quiet) : p.Uses Nameless :=
  uses_mono hp nameless

theorem says_checkPostgreSQLUser : Says (checkPostgreSQLUser cfg u user) i fun _ j =>
      j = { i with checked := some user.username } := by
  refine says_nameless_bind
    (nameless_checkConnectionLimit (nameless_of_quiet quiet_refuse)) fun _ => ?_
  exact ensures_ite (fun _ => says_note) fun _ => says_refuse

/-- The client-first-message that the proxy parses is the one in the
response. -/
theorem says_parseSASLInitial {respData : Bytes} :
    Says (parseSASLInitial respData) i fun clientFirst j =>
      clientFirst = clientFirstOf respData ∧ j = i := by
  have hslice : ∀ a b, Says (slice respData a b) i fun r j =>
      r = field respData a (b - a) ∧ j = i := fun a b =>
    ensures_ite (fun _ => ensures_pure ⟨rfl, rfl⟩) fun _ => ensures_throw
  refine ensures_ite (fun _ => ensures_throw) fun _ =>
    ensures_bind (hslice _ _) fun lenBuf j hj => ?_
  rw [hj.1, hj.2]
  refine ensures_mono (hslice _ _) fun r j' hj' => ⟨?_, hj'.2⟩
  rw [hj'.1, clientFirstOf, Nat.add_sub_cancel_left, Nat.add_sub_cancel_left]

theorem says_generateServerFirst : Says (generateServerFirst lib state) i fun state' j =>
      state'.username = state.username ∧ j = i := by
  refine says_getUser_bind says_fail fun user _ => ?_
  dsimp only
  cases parseSCRAMHash lib user.passwordHash with
  | error err => exact says_fail
  | ok keys =>
    refine says_quiet_bind (uses_op trivial) fun nonce => ?_
    cases nonce with
    | none => exact says_fail
    | some serverNonce => exact ensures_pure ⟨rfl, rfl⟩

theorem verifyClientFinal_username {state' : SCRAMState} {msg : Bytes}
    (h : verifyClientFinal lib state msg = .ok state') : state'.username = state.username := by
  simp only [verifyClientFinal] at h
  split at h
  · cases h
  · split at h
    · split at h
      · cases h
        rfl
      · cases h
    · cases h

/-- The proof is verified for the user whom the `SASLInitialResponse` names. -/
theorem says_scramExchange :
    Says (scramExchange lib) i fun _ j => ∃ respData u, saslUser respData = some u ∧
      j = { i with heard := i.heard ++ [.saslInitial respData], verified := some u } := by
  refine says_quiet_bind (quiet_wrap quiet_write) fun _ =>
    says_quiet_bind quiet_readPasswordMessage fun resp => ?_
  obtain ⟨respData, reader⟩ := resp
  refine says_note_bind (ensures_bind says_parseSASLInitial fun clientFirst j hj => ?_)
  obtain ⟨rfl, rfl⟩ := hj
  cases hfirst : parseClientFirst (clientFirstOf respData) with
  | error err =>
    exact says_nameless_bind (uses_op trivial) fun _ => says_refuse
  | ok state =>
    refine ensures_bind (ensures_handle says_generateServerFirst fun e v => ?_)
      fun state' j hj => ?_
    · cases e with
      | err err => exact says_nameless_bind (uses_op trivial) fun _ => says_refuse
      | panic => exact ensures_throw
    · obtain ⟨hname, rfl⟩ := hj
      refine says_quiet_bind (quiet_wrap quiet_write) fun _ =>
        says_quiet_bind quiet_readPasswordMessage fun final => ?_
      obtain ⟨finalData, _⟩ := final
      dsimp only
      cases hverify : verifyClientFinal lib state' finalData with
      | error err =>
        exact says_nameless_bind (uses_op trivial) fun _ => says_refuse
      | ok state'' =>
        refine says_note_bind (ensures_pure ?_)
        refine ⟨respData, state.username, by simp only [saslUser, hfirst], ?_⟩
        rw [verifyClientFinal_username hverify, hname]
        rfl

/-- The user of the `StartupMessage` is checked, the one of the
`SASLInitialResponse` is verified. -/
theorem says_handleStartupMessage (hmode : cfg.authMode = .interception) {startupData : Bytes} :
    Says (handleStartupMessage lib cfg startupData) i fun _ j => ∃ respData u v,
      startupUser startupData = some u ∧ saslUser respData = some v ∧
      j = ⟨u, i.heard ++ [.startup startupData, .saslInitial respData], some u, some v⟩ := by
  refine ensures_ite (fun _ => ensures_throw) fun _ => says_note_bind ?_
  cases hparams : startupParams startupData with
  | error err => exact says_fail
  | ok params =>
    refine says_setUsername_bind (says_nameless_bind (uses_op trivial) fun _ =>
      ensures_ite (fun _ => ensures_throw) fun _ => ensures_ite (fun _ => ensures_throw)
      fun _ => says_getUser_bind says_refuse fun user huser => ?_)
    refine ensures_bind says_checkPostgreSQLUser fun _ j hj => ?_
    subst hj
    refine ensures_ite (fun hpass => by rw [hmode] at hpass; cases hpass) fun _ => ?_
    refine says_quiet_bind (uses_op trivial) fun _ => ensures_ite (fun _ => says_refuse) fun _ =>
      ensures_bind says_scramExchange fun state j hj => ?_
    obtain ⟨respData, v, hsasl, rfl⟩ := hj
    refine says_quiet_bind quiet_sendAuthenticated fun _ =>
      says_quiet_bind (uses_op trivial) fun _ => says_quiet_bind (uses_op trivial) fun _ =>
      ensures_mono (says_quiet quiet_connectToBackend) fun _ j hj => ?_
    refine ⟨respData, param params "user", v, by rw [startupUser, hparams], hsasl, ?_⟩
    rw [hj, huser]
    simp [Identity.note]

/-- A certificate can change the user name before the `StartupMessage`, and
nothing else. -/
theorem says_handleSSLRequest : Says (handleSSLRequest cfg) i fun _ j => j.heard = i.heard := by
  have hset : ∀ u, Says (op (.setUsername u)) i fun _ j => j.heard = i.heard := by
    intro u
    exact ensures_mono says_setUsername fun _ j hj => hj ▸ rfl
  refine ensures_ite (fun _ => says_quiet_bind (quiet_wrap quiet_write) fun _ =>
    says_quiet_bind (uses_op trivial) fun cert => ?_) fun _ =>
    ensures_ite (fun _ => ensures_throw) fun _ =>
      ensures_mono (says_quiet (quiet_wrap quiet_write)) fun _ j hj => hj ▸ rfl
  cases cert with
  | none => exact says_fail
  | some cert =>
    dsimp only
    unfold authenticateWithCertificate
    split
    · exact ensures_pure rfl
    · split
      · exact ensures_pure rfl
      · refine ensures_ite (fun _ => ensures_throw) fun _ =>
          ensures_ite (fun _ => says_getUser_bind says_fail fun user _ => ?_) fun _ => hset _
        exact ensures_ite (fun _ => hset _) fun _ => says_fail

theorem says_handlePostgreSQLStartup (hmode : cfg.authMode = .interception) :
    Says (handlePostgreSQLStartup lib cfg rounds) i fun _ j => ∃ startupData respData u v,
      startupUser startupData = some u ∧ saslUser respData = some v ∧
      j = ⟨u, i.heard ++ [.startup startupData, .saslInitial respData], some u, some v⟩ := by
  induction rounds generalizing i with
  | zero =>
    refine ensures_op fun w r w' hw hstep => ?_
    cases hstep
  | succ rounds ih =>
    refine says_quiet_bind (quiet_wrap quiet_readFull) fun _ => ensures_ite
      (fun _ => ensures_throw) fun _ => says_quiet_bind (quiet_wrap quiet_readFull) fun data => ?_
    obtain ⟨startupData, _⟩ := data
    refine ensures_ite (fun _ => ensures_bind says_handleSSLRequest fun _ j hj => ?_) fun _ => ?_
    · rw [← hj]
      exact ih
    · exact ensures_mono (says_handleStartupMessage hmode) fun _ j hj => ⟨startupData, hj⟩

/-! ## MySQL -/

theorem says_readMySQLClientHandshake : Says readMySQLClientHandshake i fun u j => ∃ payload,
      handshakeUser payload = some u ∧ j = { i with heard := i.heard ++ [.handshake payload] } := by
  refine says_quiet_bind (quiet_wrap quiet_readFull) fun _ => ensures_ite
    (fun _ => ensures_throw) fun _ => says_quiet_bind (quiet_wrap quiet_readFull) fun data => ?_
  obtain ⟨payload, _⟩ := data
  refine says_note_bind ?_
  cases hparse : parseMySQLHandshakeResponse payload with
  | error err => exact says_fail
  | ok names => exact ensures_pure ⟨payload, by rw [handshakeUser, hparse], rfl⟩

theorem says_checkInterceptedUser : Says (checkInterceptedUser cfg user) i fun _ j =>
      j = { i with checked := some user.username } := by
  have hrefused : ∀ s, (do op .recordAuthFailure; errorf s : Handler Unit).Uses Nameless :=
    fun s => uses_step trivial fun _ => trivial
  refine says_quiet_bind (uses_op trivial) fun u =>
    says_nameless_bind (nameless_checkConnectionLimit (hrefused _)) fun _ => ?_
  exact ensures_ite (fun _ => says_note) fun _ => says_bind_fail

theorem says_readInterceptedResponse : Says readInterceptedResponse i fun payload j =>
      j = { i with heard := i.heard ++ [.handshake payload] } := by
  have hread : ∀ s reader n, Says (orRecordFailure (wrap s (readFull .client reader n))) i
      fun _ j => j = i := fun s reader n => says_onError (says_quiet (quiet_wrap quiet_readFull))
  refine ensures_bind (hread _ _ _) fun header j hj => ?_
  subst hj
  refine ensures_ite (fun _ => says_bind_fail) fun _ =>
    ensures_bind (hread _ _ _) fun data j hj => ?_
  subst hj
  obtain ⟨payload, _⟩ := data
  exact says_note_bind (ensures_pure rfl)

/-- The two parsers find the same user name. -/
theorem handshakeUser_of_withAuth {payload : Bytes}
    (h : parseMySQLHandshakeResponseWithAuth payload = .ok (u, response)) :
    handshakeUser payload = some u := by
  simp only [parseMySQLHandshakeResponseWithAuth] at h
  split at h
  · cases h
  · rename_i hlen
    cases h
    simp only [handshakeUser, parseMySQLHandshakeResponse, if_neg hlen]

theorem says_verifyIntercepted {scramble : Bytes} :
    Says (verifyIntercepted lib user scramble response) i fun _ j =>
      j = { i with verified := some user.username } := by
  have hrefuse : ∀ message err, Says (refuseMySQL message err) i fun _ j =>
      j = { i with verified := some user.username } := fun message err =>
    says_nameless_bind (uses_op trivial) fun _ => says_bind_fail
  refine ensures_ite (fun _ => ?_) fun _ => ensures_ite (fun _ => hrefuse _ _) fun _ =>
    says_quiet_bind (uses_op trivial) fun _ => hrefuse _ _
  cases verifyMySQLPassword lib user.mysqlPasswordHash scramble response with
  | error err => exact hrefuse _ _
  | ok _ => exact says_note

/-- The user of the first handshake response is checked and verified; the
second one names the user of the session, if it names one. -/
theorem says_handleMySQLInterception :
    Says (handleMySQLInterception lib cfg (some user)) i fun _ j => ∃ payload v,
      handshakeUser payload = some v ∧
      j = ⟨if v ≠ [] then v else i.username, i.heard ++ [.handshake payload],
        some user.username, some user.username⟩ := by
  refine ensures_bind says_checkInterceptedUser fun _ j hj => ?_
  subst hj
  refine says_quiet_bind (uses_op trivial) fun scramble => ?_
  cases scramble with
  | none => exact says_bind_fail
  | some scramble =>
    refine says_quiet_bind (uses_op trivial) fun id =>
      ensures_bind (says_onError (says_quiet (quiet_wrap quiet_write))) fun _ j hj => ?_
    subst hj
    refine ensures_bind says_readInterceptedResponse fun payload j hj => ?_
    subst hj
    cases hparse : parseMySQLHandshakeResponseWithAuth payload with
    | error err => exact says_bind_fail
    | ok names =>
      obtain ⟨v, response⟩ := names
      have hupdate : ∀ i : Identity, Says (updateUsername v) i fun _ j =>
          j = { i with username := if v ≠ [] then v else i.username } := by
        intro i
        refine ensures_ite (fun hv => ?_) fun hv => ensures_pure (by rw [if_neg hv])
        exact ensures_mono says_setUsername fun _ j hj => by rw [if_pos hv, hj]
      refine ensures_bind (hupdate _) fun _ j hj => ?_
      subst hj
      refine ensures_bind says_verifyIntercepted fun _ j hj => ?_
      subst hj
      refine ensures_bind (says_onError (says_quiet (quiet_wrap quiet_write))) fun _ j hj => ?_
      subst hj
      refine ensures_bind (says_onError (says_quiet quiet_takeServerConn)) fun _ j hj => ?_
      subst hj
      refine says_quiet_bind (uses_op trivial) fun _ =>
        ensures_mono (says_quiet (uses_op trivial)) fun _ j hj => ?_
      exact ⟨payload, v, handshakeUser_of_withAuth hparse, hj⟩

theorem says_handleMySQLStartup (hmode : cfg.authMode = .interception) :
    Says (handleMySQLStartup lib cfg) i fun _ j => ∃ first second u v,
      handshakeUser first = some u ∧ handshakeUser second = some v ∧
      j = ⟨if v ≠ [] then v else u, i.heard ++ [.handshake first, .handshake second],
        some u, some u⟩ := by
  refine says_quiet_bind (uses_op trivial) fun _ => ensures_ite (fun _ => ensures_throw)
    fun _ => ensures_ite (fun _ => ?_) fun hpass => absurd hmode hpass
  refine ensures_bind (ensures_mapError says_readMySQLClientHandshake) fun u j hj => ?_
  obtain ⟨first, hfirst, rfl⟩ := hj
  have hunknown : ∀ i Q, Says (handleMySQLInterception lib cfg none) i Q := fun i Q =>
    says_nameless_bind (uses_op trivial) fun _ => says_quiet_bind (uses_op trivial) fun _ =>
      says_fail
  refine says_setUsername_bind (says_getUser_bind (hunknown _ _) fun user huser => ?_)
  refine ensures_mono says_handleMySQLInterception fun _ j hj => ?_
  obtain ⟨second, v, hsecond, rfl⟩ := hj
  refine ⟨first, second, u, v, hfirst, hsecond, ?_⟩
  rw [huser]
  simp

/-! ## The user of a session -/

/-- The user whose proof was verified, the user who was checked and the user
of the session are one. -/
def Session.oneUser (s : Session) : Prop :=
  s.verified = s.checked ∧ s.checked = some s.username

instance (s : Session) : Decidable s.oneUser := inferInstanceAs (Decidable (_ ∧ _))

/-- In interception mode, when the start-up of a PostgreSQL or MySQL session
returns, the user who was verified, the one who was checked and the one of the
session are the same if and only if the client gave the same name in both its
messages. -/
theorem oneUser_iff_namesAgree {lib : Lib} {cfg : Config} (hbody : cfg.body ≠ .msSQL)
    (hmode : cfg.authMode = .interception) (shared : Shared) (a : Arrival) (w' : World)
    (hrun : eval (handleStartup lib cfg) ⟨shared, newSession a⟩ = (some (.ok ()), w')) :
    w'.sess.oneUser ↔ namesAgree w'.sess.heard = true := by
  cases hcase : cfg.body with
  | msSQL => exact absurd hcase hbody
  | postgreSQL =>
    simp only [handleStartup, hcase] at hrun
    obtain ⟨startupData, respData, u, v, hstartup, hsasl, hid⟩ :=
      says_handlePostgreSQLStartup hmode _ _ _ rfl hrun
    simp only [identity, Identity.mk.injEq] at hid
    obtain ⟨hname, hheard, hchecked, hverified⟩ := hid
    rw [Session.oneUser, hname, hheard, hchecked, hverified]
    change _ ↔ decide (startupUser startupData = saslUser respData) = true
    rw [hstartup, hsasl, decide_eq_true_eq]
    exact ⟨fun h => h.1.symm, fun h => ⟨h.symm, rfl⟩⟩
  | mySQL =>
    simp only [handleStartup, hcase] at hrun
    obtain ⟨first, second, u, v, hfirst, hsecond, hid⟩ :=
      says_handleMySQLStartup hmode _ _ _ rfl hrun
    simp only [identity, Identity.mk.injEq] at hid
    obtain ⟨hname, hheard, hchecked, hverified⟩ := hid
    rw [Session.oneUser, hname, hheard, hchecked, hverified]
    change _ ↔ (decide (handshakeUser second = some []) ||
      decide (handshakeUser second = handshakeUser first)) = true
    rw [hfirst, hsecond, Bool.or_eq_true, decide_eq_true_eq, decide_eq_true_eq]
    by_cases hv : v = []
    · simp [hv]
    · simp [hv, eq_comm]

def intercepting (body : Wire.Protocol) : Config where
  body
  authMode := .interception
  poolName := ascii "p"
  rounds := 5

/-- A user of that pool; with `Lib.plain`, every proof fits. -/
def permitted (name : String) : User where
  username := ascii name
  passwordHash := ascii "SCRAM-SHA-256$1:s$:"
  mysqlPasswordHash := replicate 20 0
  allowedPools := [ascii "p"]

/-- A client that starts up as `first`, authenticates as `second`, and a
backend that asks for nothing. -/
def twoNames (first second : String) : Arrival where
  id := 0
  client := {
    peer := { reply := fun _ => [] }
    inp := [putBigEndian 4 16 ++ [0, 3, 0, 0] ++ ascii "user" ++ 0 :: ascii first ++ [0, 0],
      pgMessage 'p' (ascii "SCRAM-SHA-256" ++ 0 :: putBigEndian 4 10 ++ ascii "n,,n=" ++
        ascii second ++ ascii ",r=x"),
      pgMessage 'p' (ascii "p=x")]
    nonempty := by simp [pgMessage, putBigEndian, putLittleEndian] }
  backend := .ok {
    peer := { reply := fun _ => [] }
    inp := [createAuthenticationOk, createReadyForQuery 'I']
    nonempty := by simp [createAuthenticationOk, authMessage, createReadyForQuery, pgMessage] }

/-- A MySQL handshake response with a user name and a proof of 20 bytes. -/
def handshakeResponse (name : String) : Bytes :=
  let payload := replicate 32 0 ++ ascii name ++ 0 :: 20 :: replicate 20 0
  putLittleEndian 3 payload.length ++ 1 :: payload

/-- A client that sends two handshake responses. -/
def twoHandshakes (first second : String) : Arrival where
  id := 0
  client := {
    peer := { reply := fun _ => [] }
    inp := [handshakeResponse first, handshakeResponse second]
    nonempty := by simp [handshakeResponse, putLittleEndian] }
  backend := .ok { peer := { reply := fun _ => [] } }

/-- A client that gives one name. -/
theorem oneUser_iff_namesAgree_same : ∃ w', eval (handleStartup .plain (intercepting .postgreSQL))
        ⟨{ users := [permitted "a"] }, newSession (twoNames "a" "a")⟩ = (some (.ok ()), w') ∧
      (w'.sess.oneUser ↔ namesAgree w'.sess.heard = true) ∧ w'.sess.oneUser := by
  have hrun := eval_eq_of_fst (p := handleStartup .plain (intercepting .postgreSQL))
    (w := ⟨{ users := [permitted "a"] }, newSession (twoNames "a" "a")⟩) (a := ())
    (by decide +kernel)
  exact ⟨_, hrun, oneUser_iff_namesAgree (by decide) rfl _ _ _ hrun, by decide +kernel⟩

/-- A client that starts up as one user may authenticate as another, in both
protocols. -/
theorem authenticates_as_another : (∃ w', eval (handleStartup .plain (intercepting .postgreSQL))
        ⟨{ users := [permitted "a", permitted "b"] }, newSession (twoNames "a" "b")⟩ =
          (some (.ok ()), w') ∧ ¬w'.sess.oneUser) ∧
    ∃ w', eval (handleStartup .plain (intercepting .mySQL))
        ⟨{ users := [permitted "a", permitted "b"] }, newSession (twoHandshakes "a" "b")⟩ =
          (some (.ok ()), w') ∧ ¬w'.sess.oneUser :=
  ⟨⟨_, eval_eq_of_fst (by decide +kernel), by decide +kernel⟩,
    ⟨_, eval_eq_of_fst (by decide +kernel), by decide +kernel⟩⟩

end Geryon.Startup
