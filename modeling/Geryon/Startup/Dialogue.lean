import Geryon.Startup.Identity
import Geryon.Startup.Relay

/-!
# The two dialogues of a PostgreSQL start-up

In interception mode the proxy first authenticates the client and tells it that
the start-up is over, and then connects to the backend.

The first part follows the handler up to the message that tells the client so, the
second one `connectToBackend`, against a `Dialogue`: the messages with which a
backend accepts the proxy.  With a password, `authenticateToBackend` returns at
the message that settles the authentication.  What comes behind it is taken from
the connection only as far as the reader has it in its buffer.
-/

namespace Geryon.Startup

open Conc Conc.Fallible List Go.Conn Option Outcome PGMessage
open Wire (bigEndian)
open Go.BufReader (fetch fetchThen)

variable {α β : Type} {lib : Lib} {cfg : Config}

/-! ## What a handler yields -/

/-- If the part returns, `Q` holds of its result and of the state after it. -/
def Yields (p : Handler α) (w : World) (Q : α → World → Prop) : Prop :=
  p.Ensures (M := sessions) step id w Q

variable {p : Handler α} {w w' : World} {a : Arrival} {s : String} {ws : List Bytes} {c : Go.Conn}

variable {Q : α → World → Prop} {o : Op} {code message : String} {e e' : Err} {f : α → Handler β}
  {b reader username : Bytes} {state : SCRAMState} {rounds : Nat} {m : PGMessage}

theorem Yields.of_eval {a : α} (hp : Yields p w Q) (h : eval p w = (some (.ok a), w')) : Q a w' :=
  hp w a w' rfl h

theorem yields_of_eval (h : ∀ a w', eval p w = (some (.ok a), w') → Q a w') : Yields p w Q := by
  intro w1 a w' hw1 ha
  cases hw1
  exact h a w' ha

theorem yields_op {Q : o.Ret → World → Prop} (h : ∀ r w', step w o = some (r, w') → Q r w') :
    Yields (op o) w Q := by
  refine ensures_op fun w1 r w' hw1 hstep => ?_
  cases hw1
  exact h r w' hstep

theorem yields_refuse : Yields (refuse code message e e') w Q :=
  ensures_bind (Q := fun _ _ => True) (fun _ _ _ _ _ => trivial) fun _ _ _ =>
    ensures_ite (fun _ => ensures_throw) fun _ => ensures_throw

variable {Q : β → World → Prop}

theorem yields_bind_of_uses {A : Op → Prop} {J : World → Prop} {p : Handler α}
    {f : α → Handler β} {w : World} (hp : p.Uses A)
    (hstep : ∀ {w : World} {o : Op} {r : o.Ret} {w' : World}, A o → J w →
      step w o = some (r, w') → J w')
    (hw : J w) (hf : ∀ a w1, J w1 → Yields (f a) w1 Q) : Yields (p >>= f) w Q := by
  refine ensures_bind (yields_of_eval fun a w1 ha => ?_) hf
  exact eval_of_uses hp hstep hw ha

/-! ## Until the client is told -/

/-- The operations up to the message that tells the client: they tell it
nothing, and do not connect to the backend. -/
def Silent : Op → Prop
  | .write .client b => Untelling b
  | .onClientConnect _ => False
  | _ => True

/-- The client has not been told anything, and nothing was asked of the
backend. -/
structure Untold (a : Arrival) (w : World) : Prop where
  backend : w.sess.backend = a.backend
  password : w.sess.password = a.password
  server : w.sess.server = none
  handshakes : ∀ h ∈ w.sess.handshakes, ∀ k cert, h = some (k, cert) → k.written = []
  untelling : ∀ b ∈ w.toClient, Untelling b

theorem Untold.setClient (h : Untold a w) {k : Go.Conn} (hk : ∀ b ∈ k.written, Untelling b) :
    Untold a (w.setConn .client k) :=
  ⟨h.backend, h.password, h.server, h.handshakes, hk⟩

variable {r : o.Ret}

theorem step_untold (ho : Silent o) (hw : Untold a w) (h : step w o = some (r, w')) :
    Untold a w' := by
  have hserver {c : Go.Conn} (hc : w.conn .server = some c) : False := by
    cases hw.server.symm.trans hc
  cases effect_of_step h with
  | connect => exact ho.elim
  | @readFull side _ _ _ _ hc hsame | @readDirect side _ _ _ hc hsame =>
    cases side with
    | server => exact (hserver hc).elim
    | client =>
      cases hc
      exact hw.setClient (hsame.written ▸ hw.untelling)
  | @write side b _ hc =>
    cases side with
    | server => exact (hserver hc).elim
    | client =>
      cases hc
      refine hw.setClient fun b' hb' => ?_
      rcases mem_written_write hb' with hb' | rfl
      · exact hw.untelling b' hb'
      · exact ho
  | startTLS =>
    simp only [step] at h
    split at h <;> cases h
    · exact hw
    · rename_i rest hrest
      exact ⟨hw.backend, hw.password, hw.server,
        fun x hx => hw.handshakes x (hrest ▸ mem_cons_of_mem _ hx), hw.untelling⟩
    · rename_i k cert rest hrest
      refine ⟨hw.backend, hw.password, hw.server,
        fun x hx => hw.handshakes x (hrest ▸ mem_cons_of_mem _ hx), fun b hb => ?_⟩
      have hfresh : k.written = [] :=
        hw.handshakes (some (k, cert)) (hrest ▸ mem_cons_self) k cert rfl
      simp only [World.toClient, World.modify, hfresh, not_mem_nil] at hb
  | none hclient hserver hbackend hpassword hhandshakes =>
    refine ⟨hbackend.trans hw.backend, hpassword.trans hw.password, hserver.trans hw.server,
      hhandshakes ▸ hw.handshakes, ?_⟩
    rw [World.toClient, hclient]
    exact hw.untelling

theorem untold_bind (hw : Untold a w) (hp : p.Uses Silent)
    (hf : ∀ x w1, Untold a w1 → Yields (f x) w1 Q) : Yields (p >>= f) w Q :=
  yields_bind_of_uses hp step_untold hw hf

/-! ## The parts that are silent -/

theorem Checks.silent : ∀ o : Op, Checks Untelling o → Silent o := by
  intro o h
  cases o
  case write side b =>
    cases side with
    | client => exact h
    | server => trivial
  all_goals trivial

theorem silent_checkPostgreSQLUser {user : User} :
    (checkPostgreSQLUser cfg username user).Uses Silent := by
  have hrefuse : ∀ code message e e', (refuse code message e e' : Handler Unit).Uses Silent :=
    fun _ _ _ _ => Prog.uses_mono checks_refuse Checks.silent
  exact uses_bind (uses_checkConnectionLimit (by intro o h; cases o <;> trivial) (hrefuse ..))
    fun _ => uses_ite (uses_op trivial) (hrefuse ..)

/-! ## Telling the client -/

/-- The client has been told exactly `ws`, and nothing was asked of the
backend. -/
structure Said (a : Arrival) (ws : List Bytes) (w : World) : Prop where
  backend : w.sess.backend = a.backend
  password : w.sess.password = a.password
  server : w.sess.server = none
  toClient : w.toClient = ws

theorem yields_say (hw : Said a ws w) :
    Yields (wrap s (write .client b)) w fun _ w1 => Said a (ws ++ [b]) w1 := by
  refine yields_of_eval fun r w1 hr => ?_
  have hclient : w.conn .client = some w.sess.client := rfl
  rcases meets_wrap (meets_write hclient) _ _ hr with ⟨_, -, rfl, hok⟩ | ⟨hbad, -⟩
  · refine ⟨hw.backend, hw.password, hw.server, ?_⟩
    refine (written_write_of_ok hok).trans ?_
    exact congrArg (· ++ [b]) hw.toClient
  · exact absurd rfl (hbad _)

theorem yields_say_params (params : List (String × String)) (hw : Said a ws w) :
    Yields (params.forM fun p => wrap s (write .client (createParameterStatus p.1 p.2))) w
      fun _ w1 => Said a (ws ++ params.map fun p => createParameterStatus p.1 p.2) w1 := by
  induction params generalizing ws w with
  | nil =>
    refine ensures_pure ?_
    rw [map_nil, append_nil]
    exact hw
  | cons p params ih =>
    refine ensures_bind (yields_say hw) fun _ w1 hw1 => ensures_mono (ih hw1) fun _ w2 hw2 => ?_
    rw [append_assoc] at hw2
    exact hw2

/-- The messages of a whole start-up: `AuthenticationOk` once, and
`ReadyForQuery` once, at the end. -/
structure StartupTold (ws : List Bytes) : Prop where
  authOk : ws.countP isAuthOk = 1
  ready : ws.countP isReady = 1
  last : ∃ b, ws.getLast? = some b ∧ isReady b = true

theorem startupTold_of_untelling {final : Bytes} (hws : ∀ b ∈ ws, Untelling b) :
    StartupTold (ws ++ [createAuthenticationSASLFinal final] ++ [createAuthenticationOk] ++
      (reportedParams.map fun p => createParameterStatus p.1 p.2) ++ [createReadyForQuery 'I']) := by
  have hok : ws.countP isAuthOk = 0 := countP_eq_zero.mpr fun b hb => by simp [(hws b hb).1]
  have hready : ws.countP isReady = 0 := countP_eq_zero.mpr fun b hb => by simp [(hws b hb).2]
  obtain ⟨hfinal, hfinal'⟩ : Untelling (createAuthenticationSASLFinal final) :=
    untelling_authMessage (by decide) (by decide)
  have hparams : (reportedParams.map fun p => createParameterStatus p.1 p.2).countP isAuthOk = 0 ∧
      (reportedParams.map fun p => createParameterStatus p.1 p.2).countP isReady = 0 := by
    constructor <;> decide
  constructor
  · simp only [countP_append, hok, hparams.1, countP_singleton, hfinal]
    decide
  · simp only [countP_append, hready, hparams.2, countP_singleton, hfinal']
    decide
  · exact ⟨_, getLast?_concat, rfl⟩

/-- After a successful authentication the client has been told all there is to
tell. -/
theorem yields_sendAuthenticated (hw : Untold a w) :
    Yields (sendAuthenticated lib state) w fun _ w1 => ∃ ws, StartupTold ws ∧ Said a ws w1 := by
  have hsaid : Said a w.toClient w := ⟨hw.backend, hw.password, hw.server, rfl⟩
  refine ensures_bind (yields_say hsaid) fun _ w1 hw1 => ?_
  refine ensures_bind (yields_say hw1) fun _ w2 hw2 => ?_
  refine ensures_bind (yields_say_params _ hw2) fun _ w3 hw3 => ?_
  exact ensures_mono (yields_say hw3) fun _ w4 hw4 =>
    ⟨_, startupTold_of_untelling hw.untelling, hw4⟩

/-- In interception mode the client is told everything, and then the backend is
turned to. -/
theorem yields_handlePostgreSQLAuth {Q : Unit → World → Prop} (hw : Untold a w)
    (hQ : ∀ ws w1, StartupTold ws → Said a ws w1 → Yields (connectToBackend lib cfg) w1 Q) :
    Yields (handlePostgreSQLAuth lib cfg) w Q := by
  refine untold_bind hw (uses_op trivial) fun limited w1 hw1 =>
    ensures_ite (fun _ => yields_refuse) fun _ => ?_
  refine untold_bind hw1 (Prog.uses_mono checks_scramExchange Checks.silent) fun state w2 hw2 => ?_
  refine ensures_bind (yields_sendAuthenticated hw2) fun _ w3 hw3 => ?_
  obtain ⟨ws, htold, hsaid⟩ := hw3
  refine ensures_bind (Q := fun _ w4 => Said a ws w4) (yields_op fun r w4 hstep => ?_)
    fun _ w4 hw4 => ensures_bind
      (yields_op fun r w5 hstep => ?_) fun _ w5 hw5 => hQ ws w5 htold hw5
  · cases hstep
    exact ⟨hsaid.backend, hsaid.password, hsaid.server, hsaid.toClient⟩
  · cases hstep
    exact ⟨hw4.backend, hw4.password, hw4.server, hw4.toClient⟩

theorem yields_handlePostgreSQLStartup {Q : Unit → World → Prop}
    (hmode : cfg.authMode = .interception) (hw : Untold a w)
    (hQ : ∀ ws w1, StartupTold ws → Said a ws w1 → Yields (connectToBackend lib cfg) w1 Q) :
    Yields (handlePostgreSQLStartup lib cfg rounds) w Q := by
  induction rounds generalizing w with
  | zero =>
    refine yields_op fun r w1 hstep => ?_
    cases hstep
  | succ rounds ih =>
    refine untold_bind hw (uses_mapError (uses_readFull trivial)) fun lenBuf w1 hw1 =>
      ensures_ite (fun _ => ensures_throw) fun _ => ?_
    refine untold_bind hw1 (uses_mapError (uses_readFull trivial)) fun data w2 hw2 =>
      ensures_ite (fun _ => untold_bind hw2 (Prog.uses_mono checks_handleSSLRequest Checks.silent)
        fun _ w3 hw3 => ih hw3) fun _ => ?_
    refine ensures_ite (fun _ => ensures_throw) fun _ =>
      untold_bind hw2 (uses_op trivial) fun _ w3 hw3 => ?_
    cases startupParams data.1 with
    | error err => exact ensures_throw
    | ok params =>
      refine untold_bind hw3 (uses_op trivial) fun _ w4 hw4 =>
        untold_bind hw4 (uses_op trivial) fun _ w5 hw5 =>
          ensures_ite (fun _ => ensures_throw) fun _ => ensures_ite (fun _ => ensures_throw)
            fun _ => untold_bind hw5 (uses_op trivial) fun user w6 hw6 => ?_
      cases user with
      | none => exact yields_refuse
      | some user =>
        refine untold_bind hw6 silent_checkPostgreSQLUser fun _ w7 hw7 =>
          ensures_ite (fun hpass => ?_) fun _ => yields_handlePostgreSQLAuth hw7 hQ
        rw [hmode] at hpass
        cases hpass

/-! ## Reading from the backend -/

/-- An `Authentication` message, in the loops that take part in the
authentication. -/
structure PGMessage.IsAuth (m : PGMessage) : Prop where
  msgType : m.msgType = 'R'.toUInt8
  length : 4 ≤ m.payload.length

/-- Where the first message of what has arrived is read through a new reader, the sizes
of the chunks say how the reader and the connection are left.  A loop goes on with the
payload and its first four bytes. -/
theorem eval_readAuth {rest : Bytes} {s1 s2 : String} {out : Outcome Exc Unit World}
    {f : UInt8 × Bytes → Handler Unit} {g : Bytes × Bytes × Bytes → Handler Unit}
    {k : Bytes → Bytes → Bytes → Handler Unit} (hm : m.IsAuth) (hc : w.sess.server = some c)
    (hbytes : c.bytes = m.raw ++ rest) (h : eval (wrap s (readByte .server []) >>= f) w = out)
    (hf : ∀ buf, f (m.msgType, buf) = readAuthPayload buf s1 s2 >>= g)
    (hg : ∀ lenBuf buf, g (lenBuf, m.payload, buf) = slice m.payload 0 4 >>= k lenBuf buf) :
    ∃ lenBuf buf c', eval (k lenBuf buf (m.payload.take 4)) (w.setConn .server c') = out ∧
      buf ++ c'.bytes = rest ∧ (buf, c'.inp) = fetchThen 5 m.payload.length c.inp ∧
      c.SameBut c' := by
  have hserver : w.conn .server = some c := hc
  have hbytes : [] ++ c.bytes = m.raw ++ rest := hbytes
  obtain ⟨buf1, c1, buf2, c2, buf3, c3, ⟨hbyte, hafter1⟩, ⟨hlength, hafter2, -⟩, hpayload, hafter3,
    hrest, hsame⟩ := eval_parts hserver hbytes
  refine ⟨putBigEndian 4 (4 + m.payload.length), buf3, c3, ?_, hrest, ?_, hsame⟩
  · rw [eval_bind, eval_wrap_of_ok hbyte] at h
    dsimp only [andThen_ok] at h
    rw [hf, readAuthPayload, eval_bind, eval_bind, eval_wrap_of_ok hlength] at h
    dsimp only [andThen_ok] at h
    rw [m.payloadLen, makeLen, if_neg (by omega), Int.toNat_natCast, eval_bind] at h
    dsimp only [eval_pure, andThen_ok] at h
    rw [eval_bind, eval_wrap_of_ok hpayload] at h
    dsimp only [eval_pure, andThen_ok] at h
    rw [hg, slice, if_pos ⟨Nat.zero_le 4, hm.length⟩] at h
    exact h
  · -- The three reads, chunk by chunk; the first two are small.
    have hfetch1 : (buf1, c1.inp) = fetch 1 c.inp :=
      hafter1.trans (Go.BufReader.after_of_buf_nil rfl)
    have hfetch2 : (buf2, c2.inp) = fetch 5 c.inp := by
      rw [hafter2, Go.BufReader.after_of_fetch hfetch1]
      exact Go.BufReader.fetchThen_of_small (by decide)
    rw [hafter3, Go.BufReader.after_of_fetch hfetch2]

/-- A write to the backend that goes through, where nothing was left to read:
its answer is all that there is to read then. -/
theorem server_of_write {w1 : World} (hc : w.sess.server = some c) (hinp : c.inp = [])
    (h : eval (wrap s (write .server b)) w = (some (.ok ()), w1)) :
    ∃ c1, w1.sess.server = some c1 ∧ w1.toClient = w.toClient ∧
      c1.replies = c.replies ++ [c1.inp] := by
  have hserver : w.conn .server = some c := hc
  rcases meets_wrap (meets_write hserver) _ _ h with ⟨_, -, rfl, hok⟩ | ⟨hbad, -⟩
  swap
  · exact absurd rfl (hbad _)
  obtain ⟨reply, harrived, hreplies⟩ := inp_write_of_ok hok
  refine ⟨_, rfl, rfl, ?_⟩
  rw [hreplies, harrived, hinp, nil_append]

/-- What is left of the reply in which the authentication is settled by the
message `m`. -/
def unread (m : PGMessage) (reply : List Bytes) : List Bytes :=
  (fetchThen 5 m.payload.length reply).2

/-- The replies of a backend: questions, and a last one that begins with the
message `m`. -/
def Replies (questions : List PGMessage) (m : PGMessage) (rest : Bytes)
    (replies : List (List Bytes)) : Prop :=
  replies.map flatten = questions.map raw ++ [m.raw ++ rest]

section Settled

/-- The backend of `w` has sent the first of these replies, and the others until
`w'`. -/
structure Asks (questions : List PGMessage) (m : PGMessage) (rest : Bytes) (w w' : World)
    (c c' : Go.Conn) (more : List (List Bytes)) : Prop where
  server : w.sess.server = some c
  server' : w'.sess.server = some c'
  replies : c'.replies = c.replies ++ more
  held : Replies questions m rest (c.inp :: more)

/-- The client was told nothing, and of the replies a part of the last one is left. -/
def Leaves (m : PGMessage) (w w' : World) (c' : Go.Conn) (replies : List (List Bytes)) : Prop :=
  w'.toClient = w.toClient ∧ c'.inp = unread m (replies.getLastD [])

variable {m : PGMessage} {rest : Bytes} {w w' : World} {c c' : Go.Conn}
  {more : List (List Bytes)}

theorem Asks.last (h : Asks [] m rest w w' c c' more) : c.bytes = m.raw ++ rest ∧ more = [] := by
  have hheld := h.held
  simp only [Replies, map_cons, map_nil, nil_append, cons.injEq, map_eq_nil_iff] at hheld
  exact hheld

theorem Asks.leaves (h : Asks [] m rest w w' c c' more) {buf : Bytes}
    (hfetch : (buf, c'.inp) = fetchThen 5 m.payload.length c.inp) (hw' : w'.toClient = w.toClient) :
    Leaves m w w' c' (c.inp :: more) := by
  refine ⟨hw', ?_⟩
  rw [h.last.2, unread]
  exact congrArg Prod.snd hfetch

variable {qs : List PGMessage}

variable {q : PGMessage} {rounds fuel : Nat} {client : SCRAMClient} {username password : Bytes}

/-- A question is all that the backend sends before it has an answer. -/
theorem Asks.question (h : Asks (q :: qs) m rest w w' c c' more) :
    c.bytes = q.raw ++ [] ∧ Replies qs m rest more := by
  have hheld := h.held
  simp only [Replies, map_cons, cons_append, cons.injEq] at hheld
  exact ⟨hheld.1.trans (append_nil _).symm, hheld.2⟩

/-- The question is answered: the next reply is there. -/
theorem Asks.answered {c1 : Go.Conn} {w1 w2 : World} {p : Handler Unit}
    {out : Option (Except Exc Unit)} (h : Asks (q :: qs) m rest w w' c c' more)
    (hwrite : eval (wrap s (write .server b)) w1 = (some (.ok ()), w2)) (hsame : c.SameBut c1)
    (hc1 : w1.sess.server = some c1 ∧ w1.toClient = w.toClient) (hempty : c1.bytes = [])
    (hp : p.Uses Talk) (hrun : eval p w2 = (out, w'))
    (hthen : ∀ {c2 more'}, Asks qs m rest w2 w' c2 c' more' → Leaves m w2 w' c' (c2.inp :: more')) :
    Leaves m w w' c' (c.inp :: more) := by
  obtain ⟨c2, hc2, hclient, hwrote⟩ := server_of_write hc1.1 (inp_eq_nil_of_bytes hempty) hwrite
  obtain ⟨c'', hc'', hlater⟩ := (reaches_of_uses (Prog.uses_mono hp Talk.keeps) hrun).server c2 hc2
  cases h.server'.symm.trans hc''
  obtain ⟨more', hmore⟩ := hlater.replies
  rw [hwrote, hsame.replies] at hmore
  have hcons : more = c2.inp :: more' := by
    rw [h.replies, append_assoc] at hmore
    exact (append_cancel_left hmore).symm
  have hreplies : c'.replies = c2.replies ++ more' := by
    rw [h.replies, hwrote, hsame.replies, hcons, append_assoc]
    rfl
  subst hcons
  obtain ⟨hsaid, hinp⟩ := hthen ⟨hc2, h.server', hreplies, h.question.2⟩
  exact ⟨(hsaid.trans hclient).trans hc1.2, hinp⟩

/-- With SCRAM the cycle returns at the server's final message. -/
theorem processSCRAMAuthCycle_settled (hqs : ∀ q ∈ qs, q.IsAuth ∧ q.authType = 11) (hm : m.IsAuth)
    (htype : m.authType = 12) (hasks : Asks qs m rest w w' c c' more)
    (h : eval (processSCRAMAuthCycle lib rounds [] client) w = (some (.ok ()), w')) :
    Leaves m w w' c' (c.inp :: more) := by
  induction rounds generalizing client qs w c more with
  | zero => cases h
  | succ rounds ih =>
    rw [processSCRAMAuthCycle] at h
    cases qs with
    | nil =>
      obtain ⟨lenBuf, buf2, c2, h, -, hfetch, -⟩ := eval_readAuth hm hasks.server hasks.last.1 h
        (fun _ => if_pos hm.msgType) fun _ _ => rfl
      rw [show bigEndian (m.payload.take 4) = 12 from htype, if_neg (by decide), if_pos rfl] at h
      split at h
      · cases h
        cases hasks.server'
        exact hasks.leaves hfetch rfl
      · cases h
    | cons q qs =>
      obtain ⟨hq, hq11⟩ := hqs q mem_cons_self
      obtain ⟨lenBuf, buf2, c2, h, hrest, -, hsame⟩ := eval_readAuth hq hasks.server
        hasks.question.1 h (fun _ => if_pos hq.msgType) fun _ _ => rfl
      obtain ⟨rfl, hempty⟩ := append_eq_nil_iff.mp hrest
      rw [show bigEndian (q.payload.take 4) = 11 from hq11, if_pos rfl] at h
      obtain ⟨_, w1, hwrite, hcycle⟩ := eval_bind_ok h
      exact hasks.answered hwrite hsame ⟨rfl, rfl⟩ hempty talk_processSCRAMAuthCycle hcycle
        fun hasks => ih (fun x hx => hqs x (mem_cons_of_mem q hx)) hasks hcycle

/-- Without SCRAM the loop returns at `AuthenticationOk`. -/
theorem authenticateLoop_settled (hqs : ∀ q ∈ qs, q.IsAuth ∧ q.authType ≠ 0 ∧ q.authType ≠ 10)
    (hm : m.IsAuth) (htype : m.authType = 0) (hasks : Asks qs m rest w w' c c' more)
    (h : eval (authenticateLoop lib username password rounds fuel []) w = (some (.ok ()), w')) :
    Leaves m w w' c' (c.inp :: more) := by
  induction fuel generalizing qs w c more with
  | zero => cases h
  | succ fuel ih =>
    rw [authenticateLoop] at h
    cases qs with
    | nil =>
      obtain ⟨lenBuf, buf2, c2, h, -, hfetch, -⟩ := eval_readAuth hm hasks.server hasks.last.1 h
        (fun _ => if_pos hm.msgType) fun _ _ => rfl
      rw [show bigEndian (m.payload.take 4) = 0 from htype, if_neg (by decide),
        if_neg (by decide), if_pos rfl] at h
      cases h
      cases hasks.server'
      exact hasks.leaves hfetch rfl
    | cons q qs =>
      obtain ⟨hq, hq0, hq10⟩ := hqs q mem_cons_self
      obtain ⟨lenBuf, buf2, c2, h, hrest, -, hsame⟩ := eval_readAuth hq hasks.server
        hasks.question.1 h (fun _ => if_pos hq.msgType) fun _ _ => rfl
      obtain ⟨rfl, hempty⟩ := append_eq_nil_iff.mp hrest
      dsimp only at h
      rw [show bigEndian (q.payload.take 4) = q.authType from rfl] at h
      split at h
      swap
      · -- any other question is refused
        cases h
      obtain ⟨salt, w1, hsalt, hrest1⟩ := eval_bind_ok h
      have hw1 : w1 = w.setConn .server c2 := by
        rw [slice] at hsalt
        split at hsalt <;> cases hsalt
        rfl
      subst hw1
      obtain ⟨_, w1, hwrite, hcycle⟩ := eval_bind_ok hrest1
      exact hasks.answered hwrite hsame ⟨rfl, rfl⟩ hempty talk_authenticateLoop hcycle
        fun hasks => ih (fun x hx => hqs x (mem_cons_of_mem q hx)) hasks hcycle

theorem yields_buildClientFirst : Yields (client.buildClientFirst lib username) w fun _ w1 =>
      w1.sess.server = w.sess.server ∧ w1.toClient = w.toClient := by
  refine ensures_bind (yields_op fun nonce w1 hstep => ?_) fun _ _ hw1 => ensures_pure hw1
  simp only [step] at hstep
  split at hstep <;> cases hstep <;> exact ⟨rfl, rfl⟩

theorem authenticateLoop_settled_scram (hq : q.IsAuth) (hq10 : q.authType = 10)
    (hqs : ∀ q ∈ qs, q.IsAuth ∧ q.authType = 11) (hm : m.IsAuth) (htype : m.authType = 12)
    (hasks : Asks (q :: qs) m rest w w' c c' more)
    (h : eval (authenticateLoop lib username password rounds fuel []) w = (some (.ok ()), w')) :
    Leaves m w w' c' (c.inp :: more) := by
  cases fuel with
  | zero => cases h
  | succ fuel =>
    rw [authenticateLoop] at h
    obtain ⟨lenBuf, buf2, c2, h, hrest, -, hsame⟩ := eval_readAuth hq hasks.server
      hasks.question.1 h (fun _ => if_pos hq.msgType) fun _ _ => rfl
    obtain ⟨rfl, hempty⟩ := append_eq_nil_iff.mp hrest
    rw [show bigEndian (q.payload.take 4) = 10 from hq10, if_neg (by decide), if_pos rfl] at h
    obtain ⟨client, w1, hfirst, hrest1⟩ := eval_bind_ok h
    obtain ⟨_, w2, hwrite, hcycle⟩ := eval_bind_ok hrest1
    exact hasks.answered hwrite hsame (yields_buildClientFirst.of_eval hfirst) hempty
      talk_processSCRAMAuthCycle hcycle fun hasks =>
      processSCRAMAuthCycle_settled hqs hm htype hasks hcycle

end Settled

/-! ## The relay instead -/

/-- The operations that write nothing to the client. -/
def Mute : Op → Prop
  | .write .client _ | .startTLS => False
  | _ => True

theorem step_mute (ho : Mute o) (h : step w o = some (r, w')) : w'.toClient = w.toClient := by
  cases effect_of_step h with
  | startTLS => exact ho.elim
  | @readFull side _ _ _ _ hc hsame | @readDirect side _ _ _ hc hsame =>
    cases side with
    | server => rfl
    | client =>
      cases hc
      exact hsame.written
  | @write side =>
    cases side with
    | client => exact ho.elim
    | server => rfl
  | @connect mode =>
    cases mode with
    | session =>
      simp only [step] at h
      split at h <;> cases h <;> rfl
    | transaction | statement =>
      cases h
      rfl
  | none hclient => exact congrArg Go.Conn.written hclient

theorem mute_bind (hw : w.toClient = ws) (hp : p.Uses Mute)
    (hf : ∀ a w1, w1.toClient = ws → Yields (f a) w1 Q) : Yields (p >>= f) w Q :=
  yields_bind_of_uses hp (fun ho hw hstep => (step_mute ho hstep).trans hw) hw hf

theorem yields_readRelayed {side : Side} {invalid : String} :
    Yields (readRelayed side reader invalid) w fun r w1 =>
      w1.toClient = w.toClient ∧ r.1.raw.headD 0 = r.1.msgType := by
  refine mute_bind rfl (uses_readByte trivial) fun _ w1 hw1 =>
    mute_bind hw1 (uses_readFull trivial) fun _ w2 hw2 => ensures_ite (fun _ => ensures_throw)
      fun _ => mute_bind hw2 (uses_readFull trivial) fun _ w3 hw3 => ?_
  exact ensures_pure ⟨hw3, rfl⟩

theorem mute_forwardAuthToBackend : forwardAuthToBackend.Uses Mute :=
  uses_bind (uses_bind (uses_readByte trivial) fun _ => uses_bind (uses_readFull trivial) fun _ =>
    uses_ite uses_throw (uses_bind (uses_readFull trivial) fun _ => uses_pure)) fun _ =>
      uses_write trivial

/-- Without a password the messages of the backend are passed on to the client,
up to its `ReadyForQuery`. -/
theorem yields_forwardAuthLoop : Yields (forwardAuthLoop rounds reader) w fun _ w1 =>
      ∃ ws b, w1.toClient = w.toClient ++ ws ++ [b] ∧ isReady b = true := by
  induction rounds generalizing reader w with
  | zero =>
    refine yields_op fun r w1 hstep => ?_
    cases hstep
  | succ rounds ih =>
    have hnext : ∀ {raw : Bytes} {reader : Bytes} {w2 : World},
        w2.toClient = w.toClient ++ [raw] → Yields (forwardAuthLoop rounds reader) w2 fun _ w3 =>
          ∃ ws b, w3.toClient = w.toClient ++ ws ++ [b] ∧ isReady b = true := by
      intro raw reader w2 hw2
      refine ensures_mono ih fun _ w3 hw3 => ?_
      obtain ⟨ws, b, htold, hb⟩ := hw3
      refine ⟨raw :: ws, b, ?_, hb⟩
      rw [htold, hw2]
      simp
    refine ensures_bind yields_readRelayed fun msg w1 hw1 => ?_
    obtain ⟨htold, hhead⟩ := hw1
    refine ensures_bind (Q := fun _ w2 => w2.toClient = w.toClient ++ [msg.1.raw]) ?_
      fun _ w2 hw2 => ?_
    · refine yields_of_eval fun r w2 hr => ?_
      rcases meets_write (rfl : w1.conn .client = some _) _ _ hr with ⟨_, -, rfl, hok⟩ | ⟨hbad, -⟩
      · exact (written_write_of_ok hok).trans (congrArg (· ++ [msg.1.raw]) htold)
      · exact absurd rfl (hbad _)
    · refine ensures_ite (fun _ => mute_bind hw2 (uses_ite uses_pure uses_throw)
        fun _ w3 hw3 => ensures_ite (fun _ => ?_) fun _ => ?_) fun _ =>
          ensures_ite (fun hZ => ensures_pure ?_) fun _ => hnext hw2
      · exact mute_bind hw3 (uses_op trivial) fun _ w4 hw4 =>
          mute_bind hw4 (uses_op trivial) fun _ w5 hw5 => hnext hw5
      · exact mute_bind hw3 mute_forwardAuthToBackend fun _ w4 hw4 => hnext hw4
      · refine ⟨[], msg.1.raw, ?_, ?_⟩
        · rw [hw2, append_nil]
        · rw [isReady, hhead, hZ]
          rfl

/-! ## The dialogue with the backend -/

/-- The messages with which a backend accepts the proxy's credentials: its
questions, with SCRAM the server's final message, `AuthenticationOk`, its
parameters and `ReadyForQuery`; and what it says later. -/
structure Dialogue where
  questions : List PGMessage
  final : Option PGMessage
  ok : PGMessage
  params : List PGMessage
  ready : PGMessage
  later : List PGMessage
  isQuestion : ∀ m ∈ questions, m.IsAuth
  isOk : ok.IsAuth ∧ ok.authType = 0
  isParam : ∀ m ∈ params, m.msgType ∈ ['S'.toUInt8, 'K'.toUInt8, 'N'.toUInt8]
  isReady : ready.msgType = 'Z'.toUInt8
  method : final = none ∧ (∀ m ∈ questions, m.authType ∉ [0, 10, 11, 12]) ∨
    ∃ f, final = some f ∧ f.IsAuth ∧ f.authType = 12 ∧ questions.map authType = [10, 11]

namespace Dialogue

variable (d : Dialogue)

/-- The message that settles the authentication. -/
def settling : PGMessage := d.final.getD d.ok

/-- The messages of the start-up that follow the last question. -/
def opening : List PGMessage := d.final.toList ++ d.ok :: d.params ++ [d.ready]

/-- The backend has said all this, question by question. -/
def HeldIn (replies : List (List Bytes)) : Prop :=
  replies.map flatten = d.questions.map raw ++
    [(d.opening ++ d.later).flatMap raw]

instance (replies : List (List Bytes)) : Decidable (d.HeldIn replies) :=
  inferInstanceAs (Decidable (_ = _))

/-- The reads of the settling message take all of the start-up, and nothing
else, from the connection. -/
def wholeTaken (replies : List (List Bytes)) : Bool :=
  (unread d.settling (replies.getLastD [])).flatten = d.later.flatMap raw

theorem replies_of_heldIn {replies : List (List Bytes)} (h : d.HeldIn replies) :
    ∃ rest, Replies d.questions d.settling rest replies := by
  rw [HeldIn] at h
  refine ⟨((d.opening ++ d.later).flatMap raw).drop d.settling.raw.length, ?_⟩
  rw [Replies, h]
  cases hfinal : d.final <;> simp [settling, opening, hfinal]

end Dialogue

/-- The client has been told of exactly one start-up, and the messages of the
backend's start-up are read, but none after them. -/
structure StartupSeen (d : Dialogue) (w : World) : Prop where
  told : StartupTold w.toClient
  consumed : ∃ c, w.sess.server = some c ∧ c.bytes = d.later.flatMap raw

/-- The password for the backend, if one is configured. -/
def backendPassword (lib : Lib) (cfg : Config) (a : Arrival) : Bytes :=
  if cfg.backendUser ≠ [] ∧ cfg.passwordFile = true then lib.trimSpace (a.password.getD []) else []

/-- The session is connected to the backend, over `c`. -/
structure Linked (a : Arrival) (ws : List Bytes) (c : Go.Conn) (w : World) : Prop where
  server : w.sess.server = some c
  password : w.sess.password = a.password
  toClient : w.toClient = ws

theorem yields_takeServerConn {mode : Pool.PoolMode} (hbackend : a.backend = .ok c)
    (hw : Said a ws w) : Yields (takeServerConn mode) w fun _ w1 => Linked a ws c w1 := by
  have hc : w.sess.backend = .ok c := hw.backend.trans hbackend
  refine yields_of_eval fun r w1 hr => ?_
  cases mode with
  | session =>
    have hstep : step w (.onClientConnect .session) =
        some (.ok (), w.modify fun s => { s with server := some c }) := by
      simp only [step, hc]
    rw [takeServerConn, eval_bind, eval_op_of_some hstep] at hr
    cases hr
    exact ⟨rfl, hw.password, hw.toClient⟩
  | transaction | statement =>
    rw [takeServerConn, eval_bind, eval_op_of_some rfl] at hr
    dsimp only [andThen_ok] at hr
    rw [eval_bind, eval_op_of_some rfl] at hr
    rw [hw.server] at hr
    cases hr

theorem yields_backendCredentials (hmode : cfg.authMode = .interception) (hw : Linked a ws c w) :
    Yields (backendCredentials lib cfg) w fun r w1 =>
      r.2 = backendPassword lib cfg a ∧ Linked a ws c w1 := by
  refine ensures_ite (fun huser => ?_) fun huser => ?_
  · obtain ⟨-, huser⟩ := huser
    refine ensures_ite (fun hfile => ?_) fun hfile => ensures_pure ⟨?_, hw⟩
    · refine ensures_bind (Q := fun r w1 => r = a.password ∧ Linked a ws c w1)
        (yields_op fun r w1 hstep => ?_) fun password w1 hw1 => ?_
      · cases hstep
        exact ⟨hw.password, hw⟩
      · obtain ⟨rfl, hlinked⟩ := hw1
        cases hpassword : a.password with
        | none => exact ensures_throw
        | some password =>
          refine ensures_pure ⟨?_, hlinked⟩
          rw [backendPassword, if_pos ⟨huser, hfile⟩, hpassword]
          rfl
    · rw [backendPassword, if_neg fun h => hfile h.2]
  · have hnone : cfg.backendUser = [] := by simpa [hmode] using huser
    refine ensures_bind (yields_op fun r w1 hstep => ?_)
      fun _ w1 hw1 => ensures_pure ⟨?_, hw1⟩
    · cases hstep
      exact hw
    · rw [backendPassword, if_neg fun h => h.1 hnone]

/-- What is left on the connection when the backend's authentication is
settled. -/
theorem authenticateToBackend_settled {password : Bytes} {c' : Go.Conn} {more : List (List Bytes)}
    (d : Dialogue) (hc : w.sess.server = some c) (hc' : w'.sess.server = some c')
    (hreplies : c'.replies = c.replies ++ more) (hheld : d.HeldIn (c.inp :: more))
    (h : eval (authenticateToBackend lib username password rounds) w = (some (.ok ()), w')) :
    Leaves d.settling w w' c' (c.inp :: more) := by
  obtain ⟨rest, hquestions⟩ := d.replies_of_heldIn hheld
  rcases d.method with ⟨hfinal, hquestion⟩ | ⟨f, hfinal, hauth, htype, hquestion⟩
  · have hsettling : d.settling = d.ok := by rw [Dialogue.settling, hfinal, getD_none]
    rw [hsettling] at hquestions ⊢
    refine authenticateLoop_settled (fun q hq => ?_) d.isOk.1 d.isOk.2
      ⟨hc, hc', hreplies, hquestions⟩ h
    have hnot := hquestion q hq
    simp only [mem_cons, not_mem_nil, or_false, not_or] at hnot
    exact ⟨d.isQuestion q hq, hnot.1, hnot.2.1⟩
  · have hsettling : d.settling = f := by rw [Dialogue.settling, hfinal, getD_some]
    rw [hsettling] at hquestions ⊢
    have hall := d.isQuestion
    cases hqs : d.questions with
    | nil => simp [hqs] at hquestion
    | cons q qs =>
      rw [hqs] at hquestion hquestions hall
      simp only [map_cons, cons.injEq] at hquestion
      refine authenticateLoop_settled_scram (hall q mem_cons_self) hquestion.1
        (fun x hx => ⟨hall x (mem_cons_of_mem q hx), ?_⟩) hauth htype
        ⟨hc, hc', hreplies, hquestions⟩ h
      have hmem : x.authType ∈ qs.map authType := mem_map_of_mem hx
      rw [hquestion.2] at hmem
      exact mem_singleton.mp hmem

/-- What the start-up leaves when the client has been told `ws`: with a password for
the backend nothing more was told, and without one the end of its start-up. -/
def Settled (lib : Lib) (cfg : Config) (a : Arrival) (ws : List Bytes) (w' : World) : Prop :=
  ∀ (d : Dialogue) c', w'.sess.server = some c' → d.HeldIn c'.replies →
    backendPassword lib cfg a ≠ [] ∧ w'.toClient = ws ∧
      c'.inp = unread d.settling (c'.replies.getLastD []) ∨ backendPassword lib cfg a = [] ∧
      ∃ more b, w'.toClient = ws ++ more ++ [b] ∧ isReady b = true

theorem yields_connectToBackend (hmode : cfg.authMode = .interception)
    (hbackend : a.backend = .ok c) (hinp : c.inp = []) (hnone : c.replies = []) (hw : Said a ws w) :
    Yields (connectToBackend lib cfg) w fun _ w' => Settled lib cfg a ws w' := by
  refine ensures_bind (yields_takeServerConn hbackend hw) fun _ w1 hw1 =>
    ensures_bind (yields_backendCredentials hmode hw1) fun credentials w2 hw2 => ?_
  obtain ⟨username, password⟩ := credentials
  obtain ⟨rfl, hlinked⟩ := hw2
  refine ensures_ite (fun _ => ?_) fun _ => ensures_pure fun d c' hc' hheld => ?_
  swap
  · -- nothing was sent to the backend
    cases hc'.symm.trans hlinked.server
    have hlen := congrArg length hheld
    simp [hnone] at hlen
  refine ensures_bind (Q := fun _ w3 => Linked a ws c w3) (yields_op fun r w3 hstep => ?_)
    fun order w3 hw3 => ensures_bind (Q := fun _ w4 => Linked a ws c w4)
      (yields_op fun r w4 hstep => ?_) fun database w4 hw4 => ?_
  · simp only [step] at hstep
    split at hstep <;> cases hstep <;> exact ⟨hlinked.server, hlinked.password, hlinked.toClient⟩
  · cases hstep
    exact hw3
  refine ensures_bind (yields_of_eval fun r w5 hwrite => server_of_write hw4.server hinp hwrite)
    fun _ w5 hw5 => ?_
  obtain ⟨c1, hc1, hclient, hwrote⟩ := hw5
  refine ensures_ite (fun hpassword => ensures_mapError (yields_of_eval fun r w' hrun => ?_))
    fun hpassword => ?_
  · intro d c' hc' hheld
    obtain ⟨c'', hc'', hlater⟩ := (reaches_of_uses
      (Prog.uses_mono talk_authenticateLoop Talk.keeps) hrun).server c1 hc1
    cases hc'.symm.trans hc''
    obtain ⟨more, hmore⟩ := hlater.replies
    have hreplies : c'.replies = c1.inp :: more := by
      rw [← hmore, hwrote, hnone]
      rfl
    rw [hreplies] at hheld ⊢
    obtain ⟨hsaid, hleft⟩ := authenticateToBackend_settled d hc1 hc' hmore.symm hheld hrun
    exact .inl ⟨hpassword, (hsaid.trans hclient).trans hw4.toClient, hleft⟩
  · refine mute_bind (hclient.trans hw4.toClient) (uses_op trivial) fun limited w6 hw6 =>
      ensures_ite (fun _ => ensures_throw) fun _ => ensures_mapError
        (ensures_mono yields_forwardAuthLoop fun _ w' hw' d c' hc' hheld => ?_)
    exact .inr ⟨not_not.mp hpassword, hw6 ▸ hw'⟩

/-- In interception mode, for every backend that accepts the proxy: when the
start-up returns, client and backend have seen one start-up each if and only if
a password for the backend is configured and the reads of the message that
settles its authentication take all of its start-up from the connection. -/
theorem startupSeen_iff {lib : Lib} {cfg : Config} (hmode : cfg.authMode = .interception)
    (rounds : Nat) (shared : Shared) (a : Arrival) {c : Go.Conn} (hbackend : a.backend = .ok c)
    (hfresh : c.inp = [] ∧ c.replies = []) (hclient : a.client.written = [])
    (htls : ∀ h ∈ a.handshakes, ∀ k cert, h = some (k, cert) → k.written = [])
    {w' : World} (hrun : eval (handlePostgreSQLStartup lib cfg rounds) ⟨shared, newSession a⟩ =
      (some (.ok ()), w'))
    {c' : Go.Conn} (hc' : w'.sess.server = some c') (d : Dialogue) (hheld : d.HeldIn c'.replies) :
    StartupSeen d w' ↔ backendPassword lib cfg a ≠ [] ∧ d.wholeTaken c'.replies = true := by
  have huntold : Untold a ⟨shared, newSession a⟩ := by
    refine ⟨rfl, rfl, rfl, htls, fun b hb => ?_⟩
    change b ∈ a.client.written at hb
    rw [hclient] at hb
    cases hb
  have hyields : Yields (handlePostgreSQLStartup lib cfg rounds) ⟨shared, newSession a⟩
      fun _ w' => ∃ ws, StartupTold ws ∧ Settled lib cfg a ws w' :=
    yields_handlePostgreSQLStartup hmode huntold fun ws w1 htold hsaid =>
      ensures_mono (yields_connectToBackend hmode hbackend hfresh.1 hfresh.2 hsaid)
        fun _ w2 hw2 => ⟨ws, htold, hw2⟩
  obtain ⟨ws, htold, hconnect⟩ := hyields.of_eval hrun
  rcases hconnect d c' hc' hheld with ⟨hpassword, hsaid, hinp⟩ | ⟨hpassword, more, b, hsaid, hb⟩
  · have hleft : c'.bytes = (unread d.settling (c'.replies.getLastD [])).flatten := by
      rw [Go.Conn.bytes, hinp]
    rw [Dialogue.wholeTaken, decide_eq_true_eq, ← hleft]
    constructor
    · intro hseen
      obtain ⟨c'', hc'', hbytes⟩ := hseen.consumed
      cases hc'.symm.trans hc''
      exact ⟨hpassword, hbytes⟩
    · intro h
      exact ⟨hsaid ▸ htold, c', hc', h.2⟩
  · -- the client is told again that the start-up is over
    refine iff_of_false (fun hseen => ?_) fun h => h.1 hpassword
    have hready := hseen.told.ready
    rw [hsaid, countP_append, countP_append, htold.ready, countP_singleton, if_pos hb] at hready
    omega

/-- The dialogue of a backend that asks for nothing. -/
def trustDialogue : Dialogue where
  questions := []
  final := none
  ok := ⟨'R'.toUInt8, [0, 0, 0, 0], by decide⟩
  params := []
  ready := ⟨'Z'.toUInt8, ['I'.toUInt8], by decide⟩
  later := []
  isQuestion := by
    intro m hm
    cases hm
  isOk := ⟨⟨rfl, by decide⟩, by decide⟩
  isParam := by
    intro m hm
    cases hm
  isReady := rfl
  method := by
    refine .inl ⟨rfl, ?_⟩
    intro m hm
    cases hm

/-- A backend that asks for nothing and sends its start-up in these chunks. -/
def trusting (chunks : List Bytes) : Arrival :=
  { twoNames "a" "a" with
    backend := .ok { peer := { reply := fun _ => chunks } }
    password := some (ascii "x") }

/-- A session with such a backend. -/
def trustingWorld (chunks : List Bytes) : World :=
  ⟨{ users := [permitted "a"] }, newSession (trusting chunks)⟩

/-- A pool with a password for its backend, or without one. -/
def withPassword (passwordFile : Bool) : Config :=
  { intercepting .postgreSQL with backendUser := ascii "b", passwordFile }

/-- The start-up of such a session. -/
def trustingRun (passwordFile : Bool) (chunks : List Bytes) : Outcome Exc Unit World :=
  eval (handlePostgreSQLStartup .plain (withPassword passwordFile) 5) (trustingWorld chunks)

theorem trustingRun_held (b : Bool) (chunks : List Bytes)
    (hok : (trustingRun b chunks).1 = some (.ok ()))
    (hreplies : (trustingRun b chunks).2.sess.server.map Go.Conn.replies = some [chunks])
    (hheld : trustDialogue.HeldIn [chunks]) :
    trustingRun b chunks = (some (.ok ()), (trustingRun b chunks).2) ∧
      ∃ c', (trustingRun b chunks).2.sess.server = some c' ∧ c'.replies = [chunks] ∧
        trustDialogue.HeldIn c'.replies := by
  obtain ⟨c', hc', hreplies⟩ := map_eq_some_iff.mp hreplies
  refine ⟨?_, c', hc', hreplies, ?_⟩
  · rw [← hok]
  · rw [hreplies]
    exact hheld

/-- With a password, and the backend's start-up in one chunk. -/
theorem startupSeen_iff_oneChunk : ∃ w', eval (handlePostgreSQLStartup .plain (withPassword true) 5)
        (trustingWorld [createAuthenticationOk ++ createReadyForQuery 'I']) =
          (some (.ok ()), w') ∧ StartupSeen trustDialogue w' := by
  obtain ⟨hrun, c', hc', hreplies, hheld⟩ := trustingRun_held true
    [createAuthenticationOk ++ createReadyForQuery 'I'] (by decide +kernel)
    (by decide +kernel) (by decide +kernel)
  refine ⟨_, hrun, (startupSeen_iff rfl 5 _ (trusting _) rfl ⟨rfl, rfl⟩ rfl
    (by simp [trusting, twoNames]) hrun hc' trustDialogue hheld).mpr ⟨by decide, ?_⟩⟩
  rw [hreplies]
  decide +kernel

/-- Without a password the client is told twice; with one, `ReadyForQuery`
stays on the connection if it comes in a chunk of its own. -/
theorem startup_told_twice_or_unread :
    (∃ w' c', eval (handlePostgreSQLStartup .plain (withPassword false) 5)
        (trustingWorld [createAuthenticationOk ++ createReadyForQuery 'I']) = (some (.ok ()), w') ∧
      w'.sess.server = some c' ∧ trustDialogue.HeldIn c'.replies ∧
      w'.toClient.countP isAuthOk = 2 ∧ w'.toClient.countP isReady = 2 ∧
      ¬StartupSeen trustDialogue w') ∧
    ∃ w' c', eval (handlePostgreSQLStartup .plain (withPassword true) 5)
        (trustingWorld [createAuthenticationOk, createReadyForQuery 'I']) = (some (.ok ()), w') ∧
      w'.sess.server = some c' ∧ trustDialogue.HeldIn c'.replies ∧
      c'.bytes = createReadyForQuery 'I' ∧ ¬StartupSeen trustDialogue w' := by
  constructor
  · obtain ⟨hrun, c', hc', -, hheld⟩ := trustingRun_held false
      [createAuthenticationOk ++ createReadyForQuery 'I'] (by decide +kernel)
      (by decide +kernel) (by decide +kernel)
    have htwice : (trustingRun false [createAuthenticationOk ++
        createReadyForQuery 'I']).2.toClient.countP isReady = 2 := by
      decide +kernel
    refine ⟨_, c', hrun, hc', hheld, by decide +kernel, htwice, fun hseen => ?_⟩
    rw [hseen.told.ready] at htwice
    cases htwice
  · obtain ⟨hrun, c', hc', -, hheld⟩ := trustingRun_held true
      [createAuthenticationOk, createReadyForQuery 'I'] (by decide +kernel)
      (by decide +kernel) (by decide +kernel)
    have hleft : (trustingRun true [createAuthenticationOk,
        createReadyForQuery 'I']).2.sess.server.map Go.Conn.bytes =
          some (createReadyForQuery 'I') := by
      decide +kernel
    rw [hc', map_some, some.injEq] at hleft
    refine ⟨_, c', hrun, hc', hheld, hleft, fun hseen => ?_⟩
    obtain ⟨c'', hc'', hconsumed⟩ := hseen.consumed
    cases hc'.symm.trans hc''
    rw [hleft] at hconsumed
    revert hconsumed
    decide

end Geryon.Startup
