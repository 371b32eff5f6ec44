import Geryon.Startup.Exchange

/-!
# The authentication relay

`forwardAuthFromBackend` between a backend that authenticates a client and that
client.

An `AuthExchange` is what the two have to say to each other: the messages of
the backend, each with the client's answer where it expects one.  `Playing`
says that the peers keep to it: the backend sends up to the next message that
expects an answer and then waits, and the client answers such a message when it
has received it.  Nothing is said about how the bytes are cut into chunks.
-/

namespace Geryon.Startup

open Conc Conc.Fallible List Outcome World
open Wire (bigEndian)

/-! ## Messages -/

/-- A message of the PostgreSQL protocol; its length fits into four bytes. -/
structure PGMessage where
  msgType : UInt8
  payload : Bytes
  fits : 4 + payload.length < 4294967296

namespace PGMessage

variable (m : PGMessage)

def raw : Bytes := m.msgType :: putBigEndian 4 (4 + m.payload.length) ++ m.payload

/-- The message as the relay has read it. -/
def relayed : Relayed := ⟨m.msgType, m.payload, m.raw⟩

/-- The type of an `Authentication` message. -/
def authType : Nat := bigEndian (m.payload.take 4)

/-- The relay does not refuse the message for its length. -/
def short : Bool := m.payload.length ≤ maxMySQLPayload

theorem bigEndian_length :
    bigEndian (putBigEndian 4 (4 + m.payload.length)) = 4 + m.payload.length :=
  bigEndian_put m.fits

end PGMessage

@[simp] theorem World.setConn_setConn (w : World) (side : Side) (c c' : Go.Conn) :
    (w.setConn side c).setConn side c' = w.setConn side c' := by
  cases side <;> rfl

section ReadRelayed

variable {side : Side} {buf rest : Bytes} {w : World} {c : Go.Conn} {m : PGMessage}

/-- The type, the length and the payload of a message are read one after the
other. -/
theorem eval_parts (hc : w.conn side = some c) (hbytes : buf ++ c.bytes = m.raw ++ rest) :
    ∃ buf1 c1 buf2 c2 buf3 c3,
      (eval (readByte side buf) w = (some (.ok (m.msgType, buf1)), w.setConn side c1) ∧
        (buf1, c1.inp) = (c.reader buf).after 1) ∧
      (eval (readFull side buf1 4) (w.setConn side c1) =
          (some (.ok (putBigEndian 4 (4 + m.payload.length), buf2)), w.setConn side c2) ∧
        (buf2, c2.inp) = (c1.reader buf1).after 4 ∧ c.SameBut c2) ∧
      eval (readFull side buf2 m.payload.length) (w.setConn side c2) =
          (some (.ok (m.payload, buf3)), w.setConn side c3) ∧
        (buf3, c3.inp) = (c2.reader buf2).after m.payload.length ∧
        buf3 ++ c3.bytes = rest ∧ c.SameBut c3 := by
  obtain ⟨buf1, c1, hread1, hrest1, hafter1, hsame1⟩ := eval_readFull (n := 1) hc
    (by rw [hbytes]; simp [PGMessage.raw])
  rw [hbytes] at hread1 hrest1
  obtain ⟨buf2, c2, hread2, hrest2, hafter2, hsame2⟩ := eval_readFull
    (conn_setConn w side c1)
    (show 4 ≤ (buf1 ++ c1.bytes).length by rw [hrest1]; simp [PGMessage.raw])
  rw [hrest1] at hread2 hrest2
  have hleft : buf2 ++ c2.bytes = m.payload ++ rest := by
    rw [hrest2]
    simp [PGMessage.raw]
  obtain ⟨buf3, c3, hread3, hrest3, hafter3, hsame3⟩ := eval_readFull
    (conn_setConn (w.setConn side c1) side c2)
    (show m.payload.length ≤ (buf2 ++ c2.bytes).length by rw [hleft]; simp)
  rw [hleft] at hread3 hrest3
  refine ⟨buf1, c1, buf2, c2, buf3, c3, ⟨?_, hafter1⟩, ⟨?_, hafter2, hsame1.trans hsame2⟩, ?_,
    hafter3, ?_, (hsame1.trans hsame2).trans hsame3⟩
  · rw [readByte, eval_bind, hread1]
    rfl
  · rw [hread2]
    simp [PGMessage.raw]
  · simpa using hread3
  · simpa using hrest3

theorem PGMessage.payloadLen (m : PGMessage) :
    (bigEndian (putBigEndian 4 (4 + m.payload.length)) : Int) - 4 = m.payload.length := by
  rw [m.bigEndian_length]
  omega

/-- The relay reads a message, or refuses it for its length. -/
theorem eval_readRelayed (invalid : String) (hc : w.conn side = some c)
    (hbytes : buf ++ c.bytes = m.raw ++ rest) : ∃ buf' c', c.SameBut c' ∧
      (m.short = true ∧ buf' ++ c'.bytes = rest ∧ eval (readRelayed side buf invalid) w =
          (some (.ok (m.relayed, buf')), w.setConn side c') ∨
        m.short = false ∧ ∃ e, eval (readRelayed side buf invalid) w =
          (some (.error (.err e)), w.setConn side c')) := by
  obtain ⟨buf1, c1, buf2, c2, buf3, c3, ⟨hbyte, -⟩, ⟨hlength, -, hsame2⟩, hpayload, -, hrest,
    hsame3⟩ := eval_parts hc hbytes
  rw [readRelayed, eval_bind, hbyte]
  dsimp only [andThen_ok]
  rw [eval_bind, hlength]
  dsimp only [andThen_ok]
  rw [m.payloadLen]
  by_cases hshort : m.payload.length ≤ maxMySQLPayload
  · refine ⟨buf3, c3, hsame3, .inl ⟨decide_eq_true hshort, hrest, ?_⟩⟩
    rw [if_neg (by omega), Int.toNat_natCast, eval_bind, hpayload]
    simp [PGMessage.relayed, PGMessage.raw, eval_pure]
  · refine ⟨buf2, c2, hsame2, .inr ⟨decide_eq_false hshort, ?_⟩⟩
    rw [if_pos (by omega)]
    exact ⟨_, rfl⟩

end ReadRelayed

/-! ## Exchanges -/

/-- A message of the backend, and the client's answer where it expects one. -/
structure Turn where
  message : PGMessage
  answer : Option PGMessage := none

/-- The bytes that the backend sends before it waits for an answer. -/
def segment : List Turn → Bytes
  | [] => []
  | t :: ts => t.message.raw ++ if t.answer.isNone then segment ts else []

/-- The backend does not wait for another answer. -/
def noneAsked (ts : List Turn) : Bool := ts.all fun t => t.answer.isNone

/-- The backend keeps to the exchange: each answer makes it send the next
segment.  `closes` is set if it closes the connection at the end. -/
def BackendPlays (peer : Go.Peer) (closes : Bool) : Bytes → List Turn → Prop
  | _, [] => True
  | received, t :: ts =>
    match t.answer with
    | none => BackendPlays peer closes received ts
    | some answer =>
      peer.accepts (received ++ answer.raw) = true ∧
      (peer.reply (received ++ answer.raw)).flatten = segment ts ∧
      peer.closes (received ++ answer.raw) = (closes && noneAsked ts) ∧
      BackendPlays peer closes (received ++ answer.raw) ts

/-- The client keeps to the exchange: it answers the messages that expect an
answer, and nothing else. -/
def ClientPlays (peer : Go.Peer) : Bytes → List Turn → Prop
  | _, [] => True
  | received, t :: ts =>
    peer.accepts (received ++ t.message.raw) = true ∧
    (peer.reply (received ++ t.message.raw)).flatten = (t.answer.map PGMessage.raw).getD [] ∧
    peer.closes (received ++ t.message.raw) = false ∧
    ClientPlays peer (received ++ t.message.raw) ts

/-- The backend is about to send `ts`, of which the relay has read `buf`, and
the client has nothing more to say before. -/
structure Playing (closes : Bool) (ts : List Turn) (buf : Bytes) (w : World) : Prop where
  server : ∃ c, w.sess.server = some c ∧ buf ++ c.bytes = segment ts ∧
    c.closed = (closes && noneAsked ts) ∧ BackendPlays c.peer closes c.stream ts
  unread : w.sess.client.bytes = []
  stillOpen : w.sess.client.closed = false
  client : ClientPlays w.sess.client.peer w.sess.client.stream ts

theorem Playing.congr {closes : Bool} {ts : List Turn} {buf : Bytes} {w w' : World}
    (h : Playing closes ts buf w) (hclient : w'.sess.client = w.sess.client)
    (hserver : w'.sess.server = w.sess.server) : Playing closes ts buf w' :=
  ⟨hserver ▸ h.server, hclient ▸ h.unread, hclient ▸ h.stillOpen, hclient ▸ h.client⟩

def World.toClient (w : World) : List Bytes := w.sess.client.written

def World.toServer (w : World) : List Bytes :=
  match w.sess.server with
  | some c => c.written
  | none => []

/-- The messages of the backend were passed on once and in order, exactly the answers
were read and passed on, and the relay returned `nil` if and only if the exchange ended
with `ReadyForQuery`. -/
structure RelayedExactly (ready : Bool) (ts : List Turn) (w w' : World)
    (out : Option (Except Exc Unit)) : Prop where
  ends : ∃ r, out = some r ∧ (r = .ok () ↔ ready = true)
  forwarded : w'.toClient = w.toClient ++ ts.map fun t => t.message.raw
  answered : w'.toServer = w.toServer ++ (ts.filterMap Turn.answer).map PGMessage.raw
  unread : w'.sess.client.bytes = []

/-- The relay can cope with the message: it is not `AuthenticationSASLFinal`,
and neither it nor the answer is too long. -/
def Turn.relayable (t : Turn) : Bool :=
  !(t.message.msgType = 'R'.toUInt8 && t.message.authType = 12) && t.message.short &&
    t.answer.all PGMessage.short

def Turn.IsAuth (t : Turn) : Prop :=
  t.message.msgType = 'R'.toUInt8 ∧ 4 ≤ t.message.payload.length ∧
    (t.message.authType ∈ [3, 5, 10, 11] ∧ t.answer.isSome ∨
      t.message.authType ∈ [0, 12] ∧ t.answer = none)

instance (t : Turn) : Decidable t.IsAuth := inferInstanceAs (Decidable (_ ∧ _ ∧ _))

/-- A message that follows the authentication: `ParameterStatus` or
`BackendKeyData`. -/
def Turn.IsParam (t : Turn) : Prop :=
  (t.message.msgType = 'S'.toUInt8 ∨ t.message.msgType = 'K'.toUInt8) ∧ t.answer = none

/-! ## The relay, message by message -/

variable {closes : Bool} {t : Turn} {ts : List Turn} {buf : Bytes} {w : World}

/-- A message that the relay has passed on. -/
structure PassedOn (closes : Bool) (t : Turn) (ts : List Turn) (buf' : Bytes) (w w₁ : World) :
    Prop where
  server : ∃ c, w₁.sess.server = some c ∧
    buf' ++ c.bytes = (if t.answer.isNone then segment ts else []) ∧
    c.closed = (closes && noneAsked (t :: ts)) ∧ BackendPlays c.peer closes c.stream (t :: ts)
  unread : w₁.sess.client.bytes = (t.answer.map PGMessage.raw).getD []
  stillOpen : w₁.sess.client.closed = false
  client : ClientPlays w₁.sess.client.peer w₁.sess.client.stream ts
  toClient : w₁.toClient = w.toClient ++ [t.message.raw]
  toServer : w₁.toServer = w.toServer

theorem passedOn_of_short (invalid : String) (h : Playing closes (t :: ts) buf w)
    (hshort : t.message.short = true) : ∃ buf' w1 w2, eval (readRelayed .server buf invalid) w =
        (some (.ok (t.message.relayed, buf')), w1) ∧
      eval (write .client t.message.raw) w1 = (some (.ok ()), w2) ∧
      PassedOn closes t ts buf' w w2 := by
  obtain ⟨c, hc, hbytes, hclosed, hplays⟩ := h.server
  obtain ⟨haccepts, hreply, hcloses, hclient⟩ := h.client
  have hserver : w.conn .server = some c := hc
  obtain ⟨buf', c', hsame, ⟨-, hrest, hread⟩ | ⟨hlong, -⟩⟩ :=
    eval_readRelayed invalid hserver hbytes
  swap
  · rw [hshort] at hlong
    cases hlong
  have hwrite : eval (write .client t.message.raw) (w.setConn .server c') = _ :=
    eval_write rfl haccepts
  obtain ⟨-, hwrote⟩ := Go.Conn.write_of_accepts haccepts
  refine ⟨buf', _, _, hread, hwrite, ⟨c', rfl, hrest, ?_, ?_⟩, ?_, ?_, ?_, hwrote.written, ?_⟩
  · rw [hsame.closed, hclosed]
  · rw [hsame.peer, Go.Conn.stream, hsame.written]
    exact hplays
  · refine hwrote.bytes.trans ?_
    rw [h.unread, hreply]
    rfl
  · refine hwrote.closed.trans ?_
    rw [h.stillOpen, hcloses]
    rfl
  · change ClientPlays (w.sess.client.write t.message.raw).2.peer
      (w.sess.client.write t.message.raw).2.stream ts
    rw [hwrote.peer, hwrote.stream]
    exact hclient
  · simp only [World.toServer, World.setConn, World.modify, hc, hsame.written]

variable {buf' : Bytes} {w1 : World} {n : Nat}

namespace PassedOn

variable (h : PassedOn closes t ts buf' w w1)
include h

/-- A message without an answer leaves the rest of the exchange. -/
theorem playing (hanswer : t.answer = none) : Playing closes ts buf' w1 := by
  obtain ⟨c, hc, hbytes, hclosed, hplays⟩ := h.server
  refine ⟨⟨c, hc, ?_, ?_, ?_⟩, ?_, h.stillOpen, h.client⟩
  · simpa [hanswer] using hbytes
  · simpa [noneAsked, hanswer] using hclosed
  · simpa only [BackendPlays, hanswer] using hplays
  · simpa [hanswer] using h.unread

/-- Where the client has nothing to answer, the relay waits for it in vain. -/
theorem blocks (hanswer : t.answer = none) : eval forwardAuthToBackend w1 = (none, w1) := by
  have hunread : w1.sess.client.bytes = [] := by simpa [hanswer] using h.unread
  have hblocks : eval (readFull .client [] 1) w1 = (none, w1) :=
    eval_readFull_blocks rfl (by rw [hunread]; decide) h.stillOpen
  rw [forwardAuthToBackend, eval_bind, readRelayed, eval_bind, readByte, eval_bind, hblocks]
  rfl

/-- The client's answer goes to the backend, which sends its next segment. -/
theorem answer {a : PGMessage} (hanswer : t.answer = some a) (hshort : a.short = true) :
    ∃ w2, eval forwardAuthToBackend w1 = (some (.ok ()), w2) ∧ Playing closes ts buf' w2 ∧
      w2.toClient = w1.toClient ∧ w2.toServer = w1.toServer ++ [a.raw] := by
  obtain ⟨c, hc, hbytes, hclosed, hplays⟩ := h.server
  have hunread : [] ++ w1.sess.client.bytes = a.raw ++ [] := by
    simpa [hanswer] using h.unread
  simp only [BackendPlays, hanswer] at hplays
  obtain ⟨haccepts, hreply, hcloses, hrest⟩ := hplays
  obtain ⟨bufk, k, hsame, ⟨-, hleft, hread⟩ | ⟨hlong, -⟩⟩ :=
    eval_readRelayed "invalid client message length" (show w1.conn .client = some _ from rfl)
      hunread
  swap
  · rw [hshort] at hlong
    cases hlong
  have hwrite : eval (write .server a.raw) (w1.setConn .client k) = _ := eval_write hc haccepts
  obtain ⟨-, hwrote⟩ := Go.Conn.write_of_accepts haccepts
  have hempty : buf' ++ c.bytes = [] := by simpa [hanswer] using hbytes
  refine ⟨(w1.setConn .client k).setConn .server (c.write a.raw).2, ?_,
    ⟨⟨_, rfl, ?_, ?_, ?_⟩, ?_, ?_, ?_⟩, ?_, ?_⟩
  · rw [forwardAuthToBackend, eval_bind, hread]
    exact hwrite
  · rw [hwrote.bytes, hreply, ← append_assoc, hempty, nil_append]
  · rw [hwrote.closed, hclosed, hcloses]
    simp [noneAsked, hanswer]
  · rw [hwrote.peer, hwrote.stream]
    exact hrest
  · exact (append_eq_nil_iff.mp hleft).2
  · exact hsame.closed.trans h.stillOpen
  · change ClientPlays k.peer k.stream ts
    rw [hsame.peer, Go.Conn.stream, hsame.written]
    exact h.client
  · exact hsame.written
  · simp only [World.toServer, World.setConn, World.modify, hc, hwrote.written]

theorem refuses {a : PGMessage} (hanswer : t.answer = some a) (hlong : a.short = false) :
    ∃ e w2, eval forwardAuthToBackend w1 = (some (.error e), w2) ∧ w2.toServer = w1.toServer := by
  have hunread : [] ++ w1.sess.client.bytes = a.raw ++ [] := by
    simpa [hanswer] using h.unread
  obtain ⟨bufk, k, hsame, ⟨hshort, -⟩ | ⟨-, e, hread⟩⟩ :=
    eval_readRelayed "invalid client message length" (show w1.conn .client = some _ from rfl)
      hunread
  · rw [hlong] at hshort
    cases hshort
  · refine ⟨.err e, w1.setConn .client k, ?_, rfl⟩
    rw [forwardAuthToBackend, eval_bind, hread]
    rfl

end PassedOn

/-! ## The relay, as a whole -/

section RelayedExactly

variable {ready : Bool} {w1 w' : World} {out : Option (Except Exc Unit)}

theorem relayedExactly_cons (hclient : w1.toClient = w.toClient ++ [t.message.raw])
    (hserver : w1.toServer = w.toServer ++ (t.answer.map PGMessage.raw).toList) :
    RelayedExactly ready (t :: ts) w w' out ↔ RelayedExactly ready ts w1 w' out := by
  have hforwarded : w.toClient ++ (t :: ts).map (fun t => t.message.raw) =
      w1.toClient ++ ts.map fun t => t.message.raw := by simp [hclient]
  have hanswered : w.toServer ++ ((t :: ts).filterMap Turn.answer).map PGMessage.raw =
      w1.toServer ++ (ts.filterMap Turn.answer).map PGMessage.raw := by
    rw [hserver]
    cases ha : t.answer with
    | none | some => simp [ha]
  constructor
  · rintro ⟨hends, hc, hs, hunread⟩
    exact ⟨hends, hc.trans hforwarded, hs.trans hanswered, hunread⟩
  · rintro ⟨hends, hc, hs, hunread⟩
    exact ⟨hends, hc.trans hforwarded.symm, hs.trans hanswered.symm, hunread⟩

theorem not_relayedExactly_of_toClient (h : w'.toClient = w.toClient) :
    ¬RelayedExactly ready (t :: ts) w w' out := by
  intro hexact
  have := hexact.forwarded
  rw [h] at this
  simp at this

theorem not_relayedExactly_of_toServer {a : PGMessage} (hanswer : t.answer = some a)
    (h : w'.toServer = w.toServer) : ¬RelayedExactly ready (t :: ts) w w' out := by
  intro hexact
  have := hexact.answered
  rw [h] at this
  simp [hanswer] at this

end RelayedExactly

theorem eval_forwardAuthLoop {n : Nat} {buf' : Bytes} {w1 w2 : World} {m : PGMessage}
    (hread : eval (readRelayed .server buf "invalid backend message length") w =
      (some (.ok (m.relayed, buf')), w1))
    (hwrite : eval (write .client m.raw) w1 = (some (.ok ()), w2)) :
    (m.msgType ≠ 'R'.toUInt8 → m.msgType ≠ 'Z'.toUInt8 →
      eval (forwardAuthLoop (n + 1) buf) w = eval (forwardAuthLoop n buf') w2) ∧
    (m.msgType = 'Z'.toUInt8 → eval (forwardAuthLoop (n + 1) buf) w = (some (.ok ()), w2)) ∧
    (m.msgType = 'R'.toUInt8 → 4 ≤ m.payload.length → eval (forwardAuthLoop (n + 1) buf) w =
        if m.authType = 0 then
          eval (op .setAuthenticated >>= fun _ => op .recordAuthSuccess >>= fun _ =>
            forwardAuthLoop n buf') w2
        else eval (forwardAuthToBackend >>= fun _ => forwardAuthLoop n buf') w2) := by
  have hloop : eval (forwardAuthLoop (n + 1) buf) w =
      eval (if m.msgType = 'R'.toUInt8 then
          slice m.payload 0 4 >>= fun data =>
            if bigEndian data = 0 then
              op .setAuthenticated >>= fun _ => op .recordAuthSuccess >>= fun _ =>
                forwardAuthLoop n buf'
            else forwardAuthToBackend >>= fun _ => forwardAuthLoop n buf'
        else if m.msgType = 'Z'.toUInt8 then pure () else forwardAuthLoop n buf') w2 := by
    rw [forwardAuthLoop, eval_bind, hread]
    dsimp only [andThen_ok]
    rw [show m.relayed.raw = m.raw from rfl, eval_bind, hwrite]
    rfl
  refine ⟨fun hR hZ => ?_, fun hZ => ?_, fun hR hlen => ?_⟩
  · rw [hloop, if_neg hR, if_neg hZ]
  · rw [hloop, hZ, if_neg (by decide), if_pos rfl]
    rfl
  · rw [hloop, if_pos hR, slice, if_pos ⟨Nat.zero_le 4, hlen⟩, eval_bind]
    dsimp only [eval_pure, andThen_ok]
    have hdata : bigEndian ((m.payload.drop 0).take (4 - 0)) = m.authType := rfl
    rw [hdata]
    split <;> rfl

theorem not_relayedExactly_of_long {ready : Bool} (h : Playing closes (t :: ts) buf w)
    (hlong : t.message.short = false) :
    ¬RelayedExactly ready (t :: ts) w (eval (forwardAuthLoop (n + 1) buf) w).2
      (eval (forwardAuthLoop (n + 1) buf) w).1 := by
  obtain ⟨c, hc, hbytes, -, -⟩ := h.server
  have hserver : w.conn .server = some c := hc
  obtain ⟨buf', c', -, ⟨hshort, -⟩ | ⟨-, e, hread⟩⟩ :=
    eval_readRelayed "invalid backend message length" hserver hbytes
  · rw [hlong] at hshort
    cases hshort
  · refine not_relayedExactly_of_toClient ?_
    rw [forwardAuthLoop, eval_bind, hread]
    rfl

/-- At the end of what the backend has to say, the relay reads on: it fails
when the backend closes the connection. -/
theorem eval_forwardAuthLoop_closed (h : Playing true [] buf w) :
    ∃ e c', eval (forwardAuthLoop (n + 1) buf) w = (some (.error e), w.setConn .server c') ∧
      c'.written = w.toServer := by
  obtain ⟨c, hc, hbytes, hclosed, -⟩ := h.server
  have hserver : w.conn .server = some c := hc
  obtain ⟨e, c', hread, hsame⟩ := eval_readFull_closed hserver
    (show (buf ++ c.bytes).length < 1 by rw [hbytes]; exact Nat.one_pos) hclosed
  refine ⟨.err (.io e), c', ?_, ?_⟩
  · rw [forwardAuthLoop, eval_bind, readRelayed, eval_bind, readByte, eval_bind, hread]
    rfl
  · rw [hsame.written, toServer, hc]

theorem forwardAuthLoop_last {ready : Bool} {last : PGMessage}
    (hlast : last.msgType = if ready then 'Z'.toUInt8 else 'E'.toUInt8)
    (hplay : Playing (!ready) [⟨last, none⟩] buf w) :
    RelayedExactly ready [⟨last, none⟩] w (eval (forwardAuthLoop (n + 2) buf) w).2
        (eval (forwardAuthLoop (n + 2) buf) w).1 ↔ (⟨last, none⟩ : Turn).relayable = true := by
  cases hshort : last.short with
  | false =>
    refine iff_of_false (not_relayedExactly_of_long hplay hshort) fun hrelayable => ?_
    simp [Turn.relayable, hshort] at hrelayable
  | true =>
    obtain ⟨buf', w1, w2, hread, hwrite, hpassed⟩ := passedOn_of_short
      "invalid backend message length" hplay hshort
    obtain ⟨hother, hready, -⟩ := eval_forwardAuthLoop hread hwrite
    refine iff_of_true ?_ ?_
    · cases ready with
      | true =>
        rw [hready hlast]
        refine ⟨⟨_, rfl, by simp⟩, hpassed.toClient, ?_, hpassed.unread⟩
        rw [hpassed.toServer]
        simp
      | false =>
        have hE : last.msgType = 'E'.toUInt8 := hlast
        obtain ⟨e, c', hclosed, hwritten⟩ :=
          eval_forwardAuthLoop_closed (hpassed.playing rfl)
        rw [hother (by rw [hE]; decide) (by rw [hE]; decide), hclosed]
        refine ⟨⟨_, rfl, by simp⟩, hpassed.toClient, ?_, hpassed.unread⟩
        rw [← hpassed.toServer, ← hwritten]
        simp [World.toServer, World.setConn, World.modify]
    · have hR : ¬last.msgType = 'R'.toUInt8 := by
        rw [hlast]
        cases ready <;> decide
      simp [Turn.relayable, hshort, hR]

/-- The relay does its part if and only if it can cope with every message. -/
theorem forwardAuthLoop_iff {ready : Bool} {last : PGMessage}
    (hlast : last.msgType = if ready then 'Z'.toUInt8 else 'E'.toUInt8)
    (hmid : ∀ t ∈ ts, t.IsAuth ∨ t.IsParam) (hn : ts.length + 1 < n)
    (hplay : Playing (!ready) (ts ++ [⟨last, none⟩]) buf w) :
    RelayedExactly ready (ts ++ [⟨last, none⟩]) w (eval (forwardAuthLoop n buf) w).2
        (eval (forwardAuthLoop n buf) w).1 ↔ ∀ t ∈ ts ++ [⟨last, none⟩], t.relayable = true := by
  induction ts generalizing n buf w with
  | nil =>
    obtain ⟨n, rfl⟩ : ∃ k, n = k + 2 := ⟨n - 2, by simp at hn; omega⟩
    rw [nil_append, forall_mem_singleton]
    exact forwardAuthLoop_last hlast hplay
  | cons t ts ih =>
    obtain ⟨n, rfl⟩ : ∃ k, n = k + 1 := ⟨n - 1, by omega⟩
    have hmid' : ∀ t ∈ ts, t.IsAuth ∨ t.IsParam := fun x hx => hmid x (mem_cons_of_mem t hx)
    have hn' : ts.length + 1 < n := by simpa using hn
    rw [cons_append] at hplay ⊢
    rw [forall_mem_cons]
    cases hshort : t.message.short with
    | false =>
      refine iff_of_false (not_relayedExactly_of_long hplay hshort) fun hall => ?_
      simp [Turn.relayable, hshort] at hall
    | true =>
      obtain ⟨buf', w1, w2, hread, hwrite, hpassed⟩ := passedOn_of_short
        "invalid backend message length" hplay hshort
      obtain ⟨hother, -, hauth⟩ := eval_forwardAuthLoop hread hwrite
      rcases hmid t mem_cons_self with ⟨hR, hlen, hask | htell⟩ | ⟨htype, hanswer⟩
      · -- a request: the client answers it
        obtain ⟨hask, hsome⟩ := hask
        obtain ⟨a, ha⟩ := Option.isSome_iff_exists.mp hsome
        have h0 : t.message.authType ≠ 0 := fun h => by rw [h] at hask; simp at hask
        have h12 : t.message.authType ≠ 12 := fun h => by rw [h] at hask; simp at hask
        rw [hauth hR hlen, if_neg h0, eval_bind]
        cases hashort : a.short with
        | false =>
          obtain ⟨e, w3, hrefuses, hserver⟩ := hpassed.refuses ha hashort
          rw [hrefuses]
          refine iff_of_false (not_relayedExactly_of_toServer ha
            (hserver.trans hpassed.toServer)) fun hall => ?_
          simp [Turn.relayable, ha, hashort] at hall
        | true =>
          obtain ⟨w3, hanswer, hplay3, hclient, hserver⟩ := hpassed.answer ha hashort
          rw [hanswer]
          dsimp only [andThen_ok]
          rw [relayedExactly_cons (hclient.trans hpassed.toClient)
            (by rw [hserver, hpassed.toServer, ha]; rfl), ih hmid' hn' hplay3]
          simp [Turn.relayable, hshort, h12, ha, hashort]
      · -- no answer is expected
        obtain ⟨htell, hnone⟩ := htell
        rw [hauth hR hlen]
        by_cases h0 : t.message.authType = 0
        · rw [if_pos h0, eval_bind, eval_op_of_some rfl]
          dsimp only [andThen_ok]
          rw [eval_bind, eval_op_of_some rfl]
          dsimp only [andThen_ok]
          have hplay2 := hpassed.playing hnone
          generalize hw3 : modify (w2.modify _) _ = w3
          have hclient : w3.sess.client = w2.sess.client := by rw [← hw3]; rfl
          have hserver : w3.sess.server = w2.sess.server := by rw [← hw3]; rfl
          have htoServer : w3.toServer = w2.toServer := by simp only [toServer, hserver]
          have htoClient : w3.toClient = w.toClient ++ [t.message.raw] := by
            rw [toClient, hclient]
            exact hpassed.toClient
          rw [relayedExactly_cons htoClient (by rw [htoServer, hpassed.toServer, hnone]; simp),
            ih hmid' hn' (hplay2.congr hclient hserver)]
          simp [Turn.relayable, hshort, h0, hnone]
        · have h12 : t.message.authType = 12 := by simpa [h0] using htell
          rw [if_neg h0, eval_bind, hpassed.blocks hnone]
          refine iff_of_false (fun hexact => ?_) fun hall => ?_
          · obtain ⟨r, hr, -⟩ := hexact.ends
            cases hr
          · simp [Turn.relayable, hR, h12] at hall
      · have hR : t.message.msgType ≠ 'R'.toUInt8 := by
          rcases htype with h | h <;> rw [h] <;> decide
        have hZ : t.message.msgType ≠ 'Z'.toUInt8 := by
          rcases htype with h | h <;> rw [h] <;> decide
        rw [hother hR hZ, relayedExactly_cons hpassed.toClient
          (by rw [hpassed.toServer, hanswer]; simp), ih hmid' hn' (hpassed.playing hanswer)]
        simp [Turn.relayable, hshort, hR, hanswer]

/-! ## Whole exchanges -/

/-- An exchange of the start-up protocol: `Authentication` messages, then
`ParameterStatus` and `BackendKeyData`, and at last `ReadyForQuery`, or an
`ErrorResponse` before the backend closes the connection. -/
structure AuthExchange where
  turns : List Turn
  params : List PGMessage
  last : PGMessage
  ready : Bool
  isAuth : ∀ t ∈ turns, t.IsAuth
  isParam : ∀ m ∈ params, m.msgType = 'S'.toUInt8 ∨ m.msgType = 'K'.toUInt8
  isLast : last.msgType = if ready then 'Z'.toUInt8 else 'E'.toUInt8

def AuthExchange.all (e : AuthExchange) : List Turn :=
  e.turns ++ e.params.map (fun m => ⟨m, none⟩) ++ [⟨e.last, none⟩]

/-- For every exchange, every backend and every client that keep to it,
`forwardAuthFromBackend` does its part if and only if no message is
`AuthenticationSASLFinal` or too long. -/
theorem relayedExactly_iff_relayable (e : AuthExchange) (w : World) (rounds : Nat)
    (hrounds : e.all.length < rounds) (hplay : Playing (!e.ready) e.all [] w) :
    RelayedExactly e.ready e.all w (eval (forwardAuthFromBackend rounds) w).2
        (eval (forwardAuthFromBackend rounds) w).1 ↔ ∀ t ∈ e.all, t.relayable = true := by
  refine forwardAuthLoop_iff e.isLast (fun t ht => ?_) ?_ hplay
  · rcases mem_append.mp ht with ht | ht
    · exact .inl (e.isAuth t ht)
    · obtain ⟨m, hm, rfl⟩ := mem_map.mp ht
      exact .inr ⟨e.isParam m hm, rfl⟩
  · simp only [AuthExchange.all, length_append, length_map, length_singleton] at hrounds ⊢
    omega

/-- A message of `n` bytes, for examples. -/
def exampleMessage (msgType : Char) (payload : Bytes) (h : payload.length < 100 := by decide) :
    PGMessage where
  msgType := msgType.toUInt8
  payload
  fits := by omega

/-- The backend asks for an MD5 password and accepts it. -/
def md5Exchange : AuthExchange where
  turns := [⟨exampleMessage 'R' [0, 0, 0, 5, 1, 2, 3, 4], some (exampleMessage 'p' [7, 0])⟩,
    ⟨exampleMessage 'R' [0, 0, 0, 0], none⟩]
  params := [exampleMessage 'S' [1, 0, 1, 0], exampleMessage 'K' [0, 0, 0, 1, 0, 0, 0, 2]]
  last := exampleMessage 'Z' ['I'.toUInt8]
  ready := true
  isAuth := by decide
  isParam := by decide
  isLast := rfl

/-- The backend authenticates the client with SCRAM. -/
def scramAuthExchange : AuthExchange where
  turns := [⟨exampleMessage 'R' [0, 0, 0, 10, 1, 0, 0], some (exampleMessage 'p' [1])⟩,
    ⟨exampleMessage 'R' [0, 0, 0, 11, 2], some (exampleMessage 'p' [2])⟩,
    ⟨exampleMessage 'R' [0, 0, 0, 12, 3], none⟩,
    ⟨exampleMessage 'R' [0, 0, 0, 0], none⟩]
  params := []
  last := exampleMessage 'Z' ['I'.toUInt8]
  ready := true
  isAuth := by decide
  isParam := by simp
  isLast := rfl

/-- The replies of a peer that keeps to a table of what it has received. -/
def tablePeer (table : List (Bytes × Bytes)) : Go.Peer where
  reply received := ((table.lookup received).map fun b => [b]).getD []

/-- The peers that keep to an exchange: for every answer, and for every
message, what has been received by then and what is sent. -/
def backendTable : Bytes → List Turn → List (Bytes × Bytes)
  | _, [] => []
  | received, t :: ts =>
    match t.answer with
    | none => backendTable received ts
    | some answer =>
      (received ++ answer.raw, segment ts) :: backendTable (received ++ answer.raw) ts

def clientTable : Bytes → List Turn → List (Bytes × Bytes)
  | _, [] => []
  | received, t :: ts =>
    (received ++ t.message.raw, (t.answer.map PGMessage.raw).getD []) ::
      clientTable (received ++ t.message.raw) ts

/-- A session in the middle of an exchange that ends well. -/
def playingWorld (e : AuthExchange) (h : segment e.all ≠ []) : World where
  shared := { users := [] }
  sess := {
    id := 0
    client := { peer := tablePeer (clientTable [] e.all) }
    server := some {
      peer := tablePeer (backendTable [] e.all)
      inp := [segment e.all]
      nonempty := by
        intro d hd
        rw [mem_singleton.mp hd]
        exact h }
    backend := .error .noBackends }

theorem playing_md5Exchange :
    Playing false md5Exchange.all [] (playingWorld md5Exchange (by decide)) := by
  refine ⟨⟨_, rfl, ?_⟩, rfl, rfl, ?_⟩ <;>
    repeat' first | exact trivial | decide +kernel | rfl | constructor

theorem playing_scramAuthExchange :
    Playing false scramAuthExchange.all [] (playingWorld scramAuthExchange (by decide)) := by
  refine ⟨⟨_, rfl, ?_⟩, rfl, rfl, ?_⟩ <;>
    repeat' first | exact trivial | decide +kernel | rfl | constructor

/-- An MD5 authentication goes through. -/
theorem relayedExactly_md5Exchange :
    RelayedExactly true md5Exchange.all (playingWorld md5Exchange (by decide))
      (eval (forwardAuthFromBackend 10) (playingWorld md5Exchange (by decide))).2
      (eval (forwardAuthFromBackend 10) (playingWorld md5Exchange (by decide))).1 :=
  (relayedExactly_iff_relayable md5Exchange _ 10 (by decide) playing_md5Exchange).mpr
    (by decide +kernel)

/-- A SCRAM authentication does not: the relay waits for an answer to
`AuthenticationSASLFinal`. -/
theorem scram_relay_blocks :
    Playing false scramAuthExchange.all [] (playingWorld scramAuthExchange (by decide)) ∧
      (eval (forwardAuthFromBackend 10) (playingWorld scramAuthExchange (by decide))).1 = none ∧
      ¬RelayedExactly true scramAuthExchange.all (playingWorld scramAuthExchange (by decide))
        (eval (forwardAuthFromBackend 10) (playingWorld scramAuthExchange (by decide))).2
        (eval (forwardAuthFromBackend 10) (playingWorld scramAuthExchange (by decide))).1 := by
  have hnone : (eval (forwardAuthFromBackend 10)
      (playingWorld scramAuthExchange (by decide))).1 = none := by decide +kernel
  refine ⟨playing_scramAuthExchange, hnone, fun hexact => ?_⟩
  obtain ⟨r, hr, -⟩ := hexact.ends
  rw [hnone] at hr
  cases hr

end Geryon.Startup
