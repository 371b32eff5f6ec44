import Geryon.Startup.Login

/-!
# The NTLM verification of MSSQL clients

For a user with a stored NT hash, `handleMSSQLInterception` keeps the user and
the challenge of the server, so that the client's answer could be verified
against them.  The functions that pass the answer on do not verify it: whether
the login goes through depends on the kinds of the packets only.
-/

namespace Geryon.Startup

open Conc Conc.Fallible Outcome

variable {lib : Lib} {cfg : Config}

/-- `completeMSSQLLogin` returns if and only if no write fails and the packets
bring the login to its end. -/
theorem completeMSSQLLogin_iff {w w' : World} {out : Option (Except Exc Unit)} (hw : Talking w)
    (h : eval (completeMSSQLLogin cfg) w = (out, w'))
    (hrounds : (packets (w.ahead [] w').1).length < cfg.rounds) :
    out = some (.ok ()) ↔ w'.refused = false ∧
      concludes false (packets (w.ahead [] w').1) (packets (w.ahead [] w').2) = true := by
  rcases eval_bind_cases h with ⟨_, w1, hlogin, hrest⟩ | ⟨⟨o, hlogin, ho⟩, hfailed⟩
  · rcases eval_wrap_cases hlogin with ⟨_, -, hloop⟩ | ⟨-, hbad⟩
    swap
    · exact absurd rfl (hbad _)
    rw [eval_bind, eval_op_of_some rfl] at hrest
    dsimp only [andThen_ok] at hrest
    rw [eval_op_of_some rfl] at hrest
    cases hrest
    have hiff := forwardLogin7Loop_iff hw hloop hrounds hrounds.le
    exact ⟨fun _ => hiff.mp rfl, fun _ => rfl⟩
  · rcases eval_wrap_cases hlogin with ⟨_, rfl, -⟩ | ⟨⟨o', hloop, ho'⟩, -⟩
    · exact absurd rfl (ho _)
    have hiff := forwardLogin7Loop_iff hw hloop hrounds hrounds.le
    exact ⟨fun hout => absurd hout (hfailed _), fun hends => absurd (hiff.mpr hends) (ho' _)⟩

/-! ## The messages in the packets -/

/-- The challenge of the Type 2 message in a packet of the server. -/
def Packet.challenge (p : Packet) : Option Bytes :=
  let message := if p.payload.headD 0 = 0xED then unwrapNTLM p.payload else p.payload
  if isSSPI p.header p.payload then (parseNTLMChallenge message).toOption else none

/-- The Type 3 message in a packet of the client. -/
def Packet.authenticate (lib : Lib) (p : Packet) : Option NTLMAuthenticate :=
  let message := if p.header.headD 0 = 0x11 then p.payload else unwrapNTLM p.payload
  (parseNTLMAuthenticate lib message).toOption

/-- `VerifyNTLMResponse` accepts the last Type 3 message of the client for the
hash of the user and the challenge of the server's last Type 2 message. -/
def ntlmAccepted (lib : Lib) (user : User) (server client : List Packet) : Bool :=
  match (server.filterMap Packet.challenge).getLast?,
    (client.filterMap (Packet.authenticate lib)).getLast?, ntHash lib user.ntlmPasswordHash with
  | some challenge, some auth, .ok hash => verifyNTLMResponse lib auth challenge hash
  | _, _, _ => false

/-! ## The verification -/

theorem server_of_takeServerConn {mode : Pool.PoolMode} {w w1 : World}
    (h : eval (takeServerConn mode) w = (some (.ok ()), w1)) : ∃ c, w1.sess.server = some c := by
  obtain ⟨r, w2, -, hrest⟩ := eval_bind_ok h
  cases r with
  | error e => cases hrest
  | ok _ =>
    rw [eval_bind, eval_op_of_some rfl] at hrest
    dsimp only [andThen_ok] at hrest
    split at hrest
    · cases hrest
      exact Option.isSome_iff_exists.mp ‹_›
    · cases hrest

theorem server_of_interceptMSSQLLogin {user : User} {preLoginData login7Data : Bytes}
    {w w1 : World} (h : eval (interceptMSSQLLogin cfg (some user) preLoginData login7Data) w =
      (some (.ok ()), w1)) : ∃ c, w1.sess.server = some c := by
  obtain ⟨_, w2, -, h2⟩ := eval_bind_ok h
  obtain ⟨_, w3, -, h3⟩ := eval_bind_ok h2
  obtain ⟨_, w4, htake, h4⟩ := eval_bind_ok h3
  obtain ⟨c, hc⟩ := server_of_takeServerConn (eval_onError htake)
  have hreach : Reaches w4 w1 := reaches_of_uses (uses_bind keeps_write fun _ =>
    uses_bind (uses_mapError (keeps_of_relays relays_forwardMSSQLPreLoginResponse)) fun _ =>
      keeps_write) h4
  obtain ⟨c', hc', -⟩ := hreach.server c hc
  exact ⟨c', hc'⟩

/-- `handleMSSQLInterception` lets only verified clients in if and only if all clients
with whom the packets come to their end have a right proof: it does not tell the others
from them. -/
theorem returns_verified_iff {lib : Lib} {cfg : Config} {user : User}
    {preLoginData login7Data : Bytes} {w₀ w w' : World} {out : Option (Except Exc Unit)}
    (hlogin : eval (interceptMSSQLLogin cfg (some user) preLoginData login7Data) w₀ =
      (some (.ok ()), w)) (hfresh : w.refused = false)
    (hrun : eval (handleMSSQLInterception cfg (some user) preLoginData login7Data) w₀ = (out, w'))
    (hrounds : (packets (w.ahead [] w').1).length < cfg.rounds) : (out = some (.ok ()) →
        ntlmAccepted lib user (packets (w.ahead [] w').1) (packets (w.ahead [] w').2) = true) ↔
      (w'.refused = false ∧
          concludes false (packets (w.ahead [] w').1) (packets (w.ahead [] w').2) = true →
        ntlmAccepted lib user (packets (w.ahead [] w').1) (packets (w.ahead [] w').2) = true) := by
  have hcomplete :=
    eval_handler (l := .interception (some user) preLoginData login7Data) hlogin hrun
  rw [completeMSSQLLogin_iff ⟨server_of_interceptMSSQLLogin hlogin, hfresh⟩ hcomplete hrounds]

/-- An NTLM Type 2 message in an SSPI token. -/
def sspiChallenge : Bytes :=
  0xED :: putLittleEndian 2 32 ++ ascii "NTLMSSP" ++ 0 :: putLittleEndian 4 2 ++
    List.replicate 12 0 ++ ascii "8 bytes!"

/-- A user with a stored NT hash. -/
def ntlmUser : User where
  username := ascii "u"
  ntlmPasswordHash := ascii "00"
  allowedPools := [ascii "p"]

/-- A client that answers a challenge with three bytes, and a server that lets
everyone in. -/
def ntlmWorld : World where
  shared := { users := [ntlmUser] }
  sess := newSession {
    id := 0
    client := {
      peer := { reply := fun _ => [] }
      inp := [tdsPacket 0x11 1 [1, 2, 3]]
      nonempty := by simp [tdsPacket] }
    backend := .ok (tdsServer [1] [2] [tdsPacket 4 1 sspiChallenge]
      [tdsPacket 4 1 [0xAD, 0, 0], tdsPacket 4 1 [0xFD, 0, 0, 0, 0, 0, 0, 0, 0]]) }

/-- With this client the packets come to their end, and its answer is wrong. -/
theorem returns_verified_iff_anything :
    ∃ w w', eval (interceptMSSQLLogin (tdsPool .interception) (some ntlmUser) [1] [2]) ntlmWorld =
        (some (.ok ()), w) ∧
      eval (handleMSSQLInterception (tdsPool .interception) (some ntlmUser) [1] [2]) ntlmWorld =
        (some (.ok ()), w') ∧ ¬(w'.refused = false ∧
          concludes false (packets (w.ahead [] w').1) (packets (w.ahead [] w').2) = true →
        ntlmAccepted .plain ntlmUser (packets (w.ahead [] w').1) (packets (w.ahead [] w').2) =
          true) := by
  have hlogin := eval_eq_of_fst
    (p := interceptMSSQLLogin (tdsPool .interception) (some ntlmUser) [1] [2])
    (w := ntlmWorld) (a := ()) (by decide +kernel)
  have hrun := eval_eq_of_fst
    (p := handleMSSQLInterception (tdsPool .interception) (some ntlmUser) [1] [2])
    (w := ntlmWorld) (a := ()) (by decide +kernel)
  refine ⟨_, _, hlogin, hrun, fun h => ?_⟩
  exact absurd ((returns_verified_iff hlogin (by decide +kernel) hrun (by decide +kernel)).mpr h rfl)
    (by decide +kernel)

/-- A server challenges a client whose user has a stored hash; the client
answers with three bytes and is let in. -/
theorem unverified_client_returns :
    ∃ w w', eval (interceptMSSQLLogin (tdsPool .interception) (some ntlmUser) [1] [2]) ntlmWorld =
        (some (.ok ()), w) ∧
      eval (handleMSSQLInterception (tdsPool .interception) (some ntlmUser) [1] [2]) ntlmWorld =
        (some (.ok ()), w') ∧ ntlmUser.ntlmPasswordHash ≠ [] ∧
      (packets (w.ahead [] w').1).filterMap Packet.challenge = [ascii "8 bytes!"] ∧
      ntlmAccepted .plain ntlmUser (packets (w.ahead [] w').1) (packets (w.ahead [] w').2) =
        false :=
  ⟨_, _, eval_eq_of_fst (by decide +kernel), eval_eq_of_fst (by decide +kernel),
    by decide +kernel, by decide +kernel, by decide +kernel⟩

end Geryon.Startup
