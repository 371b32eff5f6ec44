import Geryon.Startup.Dialogue
import Geryon.Startup.MySQL
import Geryon.Protocol.ReadMessage

/-!
# The packets of a MySQL start-up

What the client of a MySQL pool gets to read during the start-up, as
`MySQLCodec.ReadMessage` parses it.

In passthrough mode the proxy's handshake goes out behind the header of the
backend's: the length in it is right if the backend's handshake happens to be
as long as the proxy's, which is always 81 bytes.  In interception mode the
proxy reads before it has written anything, and so does a client that keeps to
the protocol.
-/

namespace Geryon.Startup

open Conc Conc.Fallible List Go.Conn World Wire

variable {α β : Type} {lib : Lib} {cfg : Config}

/-! ## Packets -/

/-- `ReadMessage` finds exactly one packet in the bytes, with this payload. -/
def ParsedAs (b payload : Bytes) : Prop :=
  ∀ s : Go.Source, s.bytes = b → ∃ msg s', Wire.MySQLCodec.readMessage s = (.ok msg, s') ∧
    msg.raw = b ∧ msg.payload = payload

/-- The length in the header is that of what follows it. -/
def IsPacket (b : Bytes) : Prop := 4 ≤ b.length ∧ 4 + mysqlLength (b.take 4) = b.length

instance (b : Bytes) : Decidable (IsPacket b) := inferInstanceAs (Decidable (_ ∧ _))

theorem mysqlLength_le (header : Bytes) : mysqlLength header ≤ Wire.MySQLCodec.maxPayloadLen := by
  have hlen : (header.take 3).length ≤ 3 := by
    rw [length_take]
    omega
  have hlt := lt_of_lt_of_le (littleEndian_lt _) (valuesOf_le hlen)
  exact Nat.le_of_lt_succ hlt

theorem payload_of_readMessage {s s' : Go.Source} {msg : Wire.Message}
    (h : Wire.MySQLCodec.readMessage s = (.ok msg, s')) : msg.payload = msg.raw.drop 4 := by
  obtain ⟨header, payload, hheader, rfl⟩ := readMessage_build (p := .mySQL) h
  exact (drop_left' hheader).symm

variable {b payload scramble : Bytes} {c' : Go.Conn} {w' : World}

theorem parsedAs_of_isPacket (hb : IsPacket b) : ParsedAs b (b.drop 4) := by
  intro s hs
  subst hs
  obtain ⟨hlen, hlength⟩ := hb
  have hframe : Wire.HasFrame .mySQL s.bytes (mysqlLength (s.bytes.take 4)) :=
    ⟨if_neg (not_lt.mpr (mysqlLength_le _)), hlength.le⟩
  obtain ⟨msg, s', hread, hraw, -⟩ := readMessage_ok hframe
  have hraw' : msg.raw = s.bytes := hraw.trans (take_of_length_le hlength.ge)
  refine ⟨msg, s', hread, hraw', ?_⟩
  rw [payload_of_readMessage hread, hraw']

theorem isPacket_of_parsedAs (h : ParsedAs b payload) : IsPacket b ∧ payload = b.drop 4 := by
  obtain ⟨s, hs⟩ : ∃ s : Go.Source, s.bytes = b := by
    by_cases hnil : b = []
    · exact ⟨⟨[], false, by simp⟩, hnil.symm⟩
    · exact ⟨⟨[b], false, by simpa using hnil⟩, by simp [Go.Source.bytes]⟩
  obtain ⟨msg, s', hread, hraw, hpayload⟩ := h s hs
  subst hs
  obtain ⟨n, hframe⟩ := readMessage_inv (p := .mySQL) hread
  have hlen : 4 + n ≤ s.bytes.length := hframe.length
  have hn : mysqlLength (s.bytes.take 4) = n := by
    have hpayload : Wire.MySQLCodec.payloadLen (s.bytes.take 4) = .ok n := hframe.payload
    unfold Wire.MySQLCodec.payloadLen at hpayload
    dsimp only at hpayload
    split at hpayload <;> cases hpayload
    rfl
  obtain ⟨msg', s'', hread', hraw', -⟩ := readMessage_ok hframe
  cases hread.symm.trans hread'
  have hall : (s.bytes.take (4 + n)).length = s.bytes.length :=
    congrArg length (hraw'.symm.trans hraw)
  rw [length_take] at hall
  refine ⟨⟨by omega, by omega⟩, ?_⟩
  rw [← hpayload, payload_of_readMessage hread, hraw]

/-! ## The handshake of the backend -/

/-- The payload of the first packet, if it is there. -/
def firstPayload (sent : Bytes) : Option Bytes :=
  if 4 ≤ sent.length ∧ 4 + mysqlLength (sent.take 4) ≤ sent.length then
    some (field sent 4 (mysqlLength (sent.take 4)))
  else none

theorem length_of_firstPayload {sent : Bytes} (h : firstPayload sent = some payload) :
    4 ≤ sent.length ∧ payload.length = mysqlLength (sent.take 4) := by
  rw [firstPayload] at h
  split at h
  · rename_i hlen
    cases h
    rw [field, length_take, length_drop]
    omega
  · cases h

/-- `extractMySQLScramble` finds the scramble in the payload. -/
def HasScramble (handshake scramble : Bytes) : Prop :=
  extractMySQLScramble handshake = pure scramble

theorem extractMySQLScramble_cases (handshake : Bytes) :
    (∃ scramble, HasScramble handshake scramble) ∨
      ∃ e, extractMySQLScramble handshake = throw e := by
  unfold HasScramble extractMySQLScramble
  split_ifs
  · exact .inr ⟨_, rfl⟩
  · exact .inr ⟨_, rfl⟩
  · dsimp only
    split_ifs
    · exact .inr ⟨_, rfl⟩
    · exact .inl ⟨_, rfl⟩
    · split
      · exact .inr ⟨_, rfl⟩
      · exact .inl ⟨_, rfl⟩

@[simp] theorem length_createMySQLHandshake (connID : Nat) (scramble : Bytes) :
    (createMySQLHandshake connID scramble).length = 81 := by
  have hversion : (ascii "5.7.42-geryon").length = 13 := by decide
  have hplugin : (ascii "mysql_native_password").length = 21 := by decide
  have hpart1 : (if 8 ≤ scramble.length then scramble.take 8
      else replicate 8 0).length = 8 := by
    split
    · rw [length_take]
      omega
    · exact length_replicate
  have hpart2 : (if 20 ≤ scramble.length then (scramble.drop 8).take 12
      else if 8 < scramble.length then
        scramble.drop 8 ++ replicate (20 - scramble.length) 0
      else replicate 12 0).length = 12 := by
    split
    · rw [length_take, length_drop]
      omega
    · split
      · rw [length_append, length_drop, length_replicate]
        omega
      · exact length_replicate
  simp only [createMySQLHandshake, length_append, length_cons, hversion, hplugin,
    hpart1, hpart2, length_putLittleEndian, length_replicate, length_nil]

/-- A handshake behind a header is a packet if and only if the header says 81
bytes. -/
theorem isPacket_handshake {header : Bytes} {connID : Nat} (hlen : header.length = 4) :
    IsPacket (header.take 3 ++ 0 :: createMySQLHandshake connID scramble) ↔
      mysqlLength header = 81 := by
  have htake : (header.take 3).length = 3 := by
    rw [length_take]
    omega
  have hlength : mysqlLength ((header.take 3 ++ 0 :: createMySQLHandshake connID scramble).take 4) =
      mysqlLength header := by
    rw [mysqlLength, mysqlLength, take_take, take_append_of_le_length (by omega), take_take]
    rfl
  rw [IsPacket, hlength, length_append, htake, length_cons, length_createMySQLHandshake]
  omega

/-! ## What is passed on -/

/-- What the handler has written to the client since its handshake `first`:
packets that the backend has sent since `c`. -/
structure Passed (c : Go.Conn) (first : Bytes) (w : World) : Prop where
  packets : ∃ c' rest, w.sess.server = some c' ∧ c.Later c' ∧ w.toClient = first :: rest ∧
    ∀ b ∈ rest, IsPacket b ∧ b <:+: c.sentSince c'

/-- What is left to read is the end of what the backend has sent since `c`. -/
structure Reading (c : Go.Conn) (w : World) : Prop where
  left : ∃ c', w.sess.server = some c' ∧ c.Later c' ∧ c'.bytes <:+ c.sentSince c'

variable {c : Go.Conn} {first : Bytes} {w : World} {o : Op} {a : Arrival}

theorem sentSince_of_later {c'' : Go.Conn} (hlater : c.Later c') (h : c'.Later c'') :
    ∃ more, c.sentSince c'' = c.sentSince c' ++ more := by
  obtain ⟨later, hlater⟩ := hlater.replies
  obtain ⟨more, hmore⟩ := h.replies
  refine ⟨more.flatten.flatten, ?_⟩
  simp only [Go.Conn.sentSince, ← hmore, ← hlater, append_assoc, drop_left, flatten_append]

/-- The operations that change neither connection for another and write
nothing to the client. -/
def MutelyKeeps (o : Op) : Prop := Keeps o ∧ Mute o

variable {r : o.Ret}

theorem step_passed (ho : MutelyKeeps o) (hw : Passed c first w) (h : step w o = some (r, w')) :
    Passed c first w' := by
  obtain ⟨c', rest, hc', hlater, htold, hrest⟩ := hw.packets
  obtain ⟨c'', hc'', hlater'⟩ := (step_reaches ho.1 h).server c' hc'
  obtain ⟨more, hmore⟩ := sentSince_of_later hlater hlater'
  refine ⟨c'', rest, hc'', hlater.trans hlater', (step_mute ho.2 h).trans htold, fun b hb => ?_⟩
  obtain ⟨hpacket, hwithin⟩ := hrest b hb
  refine ⟨hpacket, ?_⟩
  rw [hmore]
  exact hwithin.trans (prefix_append _ _).isInfix

/-- The operations that do not read from the backend either. -/
def Answers : Op → Prop
  | .readFull .server .. | .readDirect .server _ | .write .client _ | .startTLS
  | .onClientConnect _ => False
  | _ => True

theorem answers_of_responds {p : Handler α} (hp : p.Uses Responds) : p.Uses Answers := by
  refine Prog.uses_mono hp fun o h => ?_
  cases o
  case readFull side buf n | readDirect side n =>
    cases side <;> first | exact h.elim | trivial
  case write side b => cases side <;> first | exact h.elim | trivial
  all_goals first | exact h.elim | trivial

theorem Answers.mutelyKeeps (h : Answers o) : MutelyKeeps o := by
  cases o
  case write side b => cases side <;> first | exact h.elim | exact ⟨trivial, trivial⟩
  case startTLS | onClientConnect => exact h.elim
  all_goals exact ⟨trivial, trivial⟩

/-- Of these operations only a write to the backend touches its connection. -/
theorem step_answers (ho : Answers o) (h : step w o = some (r, w')) :
    w'.sess.server = w.sess.server ∨
      ∃ c b, w.sess.server = some c ∧ w'.sess.server = some (c.write b).2 := by
  cases effect_of_step h with
  | startTLS | connect => exact ho.elim
  | @readFull side | @readDirect side =>
    cases side with
    | server => exact ho.elim
    | client => exact .inl rfl
  | @write side b c hc =>
    cases side with
    | client => exact ho.elim
    | server => exact .inr ⟨c, b, hc, rfl⟩
  | none _ hserver => exact .inl hserver

theorem step_reading (ho : Answers o) (hw : Reading c w) (h : step w o = some (r, w')) :
    Reading c w' := by
  obtain ⟨c', hc', hlater, hleft⟩ := hw.left
  rcases step_answers ho h with hsame | ⟨c'', b, hc'', hwrote⟩
  · exact ⟨c', hsame.trans hc', hlater, hleft⟩
  · cases hc'.symm.trans hc''
    refine ⟨_, hwrote, hlater.trans (later_write b), ?_⟩
    cases hok : (c'.write b).1 with
    | true =>
      obtain ⟨reply, hinp, hreplies⟩ := inp_write_of_ok hok
      obtain ⟨later, hearlier⟩ := hlater.replies
      obtain ⟨before, hbefore⟩ := hleft
      refine ⟨before, ?_⟩
      simp only [Go.Conn.sentSince, Go.Conn.bytes, hinp, hreplies, ← hearlier, append_assoc,
        drop_left, flatten_append] at hbefore ⊢
      rw [← append_assoc, hbefore]
      simp
    | false =>
      rw [write_of_refused hok]
      exact hleft

theorem meets_answers {p : Handler α} (hp : p.Uses Answers) (hpassed : Passed c first w)
    (hreading : Reading c w) :
    Meets p w (fun _ w' => Passed c first w' ∧ Reading c w') (Passed c first) := by
  refine meets_mono (meets_of_uses hp ?_
    ⟨hpassed, hreading⟩) (fun _ _ hJ => hJ) fun _ hJ => hJ.1
  intro w o r w' ho hJ hstep
  exact ⟨step_passed ho.mutelyKeeps hJ.1 hstep, step_reading ho hJ.2 hstep⟩

theorem Passed.setServer {c1 : Go.Conn} (h : Passed c first w) (hc : w.sess.server = some c')
    (hsame : c'.SameBut c1) : Passed c first (w.setConn .server c1) := by
  obtain ⟨c'', rest, hc'', hlater, htold, hrest⟩ := h.packets
  cases hc.symm.trans hc''
  refine ⟨c1, rest, rfl, hlater.trans hsame.later, htold, fun b hb => ?_⟩
  rw [Go.Conn.sentSince, hsame.replies]
  exact hrest b hb

theorem Passed.tell (h : Passed c first w) (hc : w.sess.server = some c') (hb : IsPacket b)
    (hwithin : b <:+: c.sentSince c') :
    Meets (write .client b) w (fun _ w1 => w1.sess.server = some c' ∧ Passed c first w1)
      (Passed c first) := by
  intro out w1 hrun
  obtain ⟨c'', rest, hc'', hlater, htold, hrest⟩ := h.packets
  cases hc.symm.trans hc''
  have hclient : w.conn .client = some w.sess.client := rfl
  rcases meets_write hclient _ _ hrun with ⟨_, rfl, rfl, hok⟩ | ⟨hfailed, rfl, hno⟩
  · refine .inl ⟨(), rfl, hc, c', rest ++ [b], hc, hlater, ?_, fun d hd => ?_⟩
    · refine (written_write_of_ok hok).trans ?_
      rw [show w.sess.client.written = first :: rest from htold]
      rfl
    · rcases mem_append.mp hd with hd | hd
      · exact hrest d hd
      · rw [mem_singleton.mp hd]
        exact ⟨hb, hwithin⟩
  · refine .inr ⟨hfailed, c', rest, hc, hlater, ?_, hrest⟩
    rw [World.toClient, World.setConn, World.modify, write_of_refused hno]
    exact htold

theorem meets_forwardMySQLAuth {rounds : Nat} (hpassed : Passed c first w)
    (hreading : Reading c w) :
    Meets (forwardMySQLAuth lib rounds) w (fun _ => Passed c first) (Passed c first) := by
  induction rounds generalizing w with
  | zero =>
    exact meets_mono (meets_answers (uses_op trivial) hpassed hreading) (fun _ _ hJ => hJ.1)
      fun _ hJ => hJ
  | succ rounds ih =>
    obtain ⟨c', hc', hlater, hleft⟩ := hreading.left
    refine meets_bind (meets_mono (meets_readFull hc') (fun _ _ h => h) ?_) fun header w1 hw1 => ?_
    · rintro _ ⟨-, c1, rfl, hsame⟩
      exact hpassed.setServer hc' hsame
    obtain ⟨header, buf⟩ := header
    obtain ⟨c1, rfl, hsame1, hlen1, rfl, hrest1⟩ := hw1
    have hpassed1 := hpassed.setServer hc' hsame1
    refine meets_ite (fun _ => meets_throw hpassed1) fun _ => ?_
    refine meets_bind (meets_mono (meets_readFull rfl) (fun _ _ h => h) ?_) fun payload w2 hw2 => ?_
    · rintro _ ⟨-, c2, rfl, hsame2⟩
      exact hpassed1.setServer rfl hsame2
    obtain ⟨payload, buf2⟩ := payload
    obtain ⟨c2, rfl, hsame2, hlen2, rfl, hrest2⟩ := hw2
    have hpassed2 := hpassed1.setServer rfl hsame2
    -- What was read is the front of what was left, and what is left now its end.
    simp only [nil_append] at hlen1 hrest1 hlen2 hrest2 ⊢
    rw [hrest1] at hlen2 hrest2 ⊢
    generalize hheader : c'.bytes.take 4 = header at hlen2 hrest2 ⊢
    have hpacket : header ++ (c'.bytes.drop 4).take (mysqlLength header) =
        c'.bytes.take (4 + mysqlLength header) := by
      rw [← hheader, ← take_add]
    have hsent : c.sentSince c2 = c.sentSince c' := by
      rw [Go.Conn.sentSince, Go.Conn.sentSince, hsame2.replies, hsame1.replies]
    have hleft2 : c2.bytes <:+ c.sentSince c2 := by
      have hdrop : c2.bytes <:+ (c'.bytes.drop 4).drop (mysqlLength header) :=
        hrest2 ▸ suffix_append _ _
      rw [hsent]
      exact ((hdrop.trans (drop_suffix _ _)).trans (drop_suffix _ _)).trans hleft
    have hreading2 : ∀ w3 : World, w3.sess.server = some c2 → Reading c w3 := fun _ hc2 =>
      ⟨c2, hc2, hlater.trans (hsame1.trans hsame2).later, hleft2⟩
    have hispacket : IsPacket (header ++ (c'.bytes.drop 4).take (mysqlLength header)) := by
      rw [length_drop] at hlen2
      rw [hpacket]
      refine ⟨?_, ?_⟩
      · rw [length_take]
        omega
      · rw [take_take, Nat.min_eq_left (by omega), hheader, length_take]
        omega
    have hwithin : header ++ (c'.bytes.drop 4).take (mysqlLength header) <:+: c.sentSince c2 := by
      rw [hpacket, hsent]
      refine IsInfix.trans ?_ hleft.isInfix
      exact IsPrefix.isInfix <| take_prefix _ _
    refine meets_bind (hpassed2.tell rfl hispacket hwithin) fun _ w3 hw3 => ?_
    obtain ⟨hc3, hpassed3⟩ := hw3
    have hreading3 := hreading2 w3 hc3
    split
    · exact meets_pure hpassed3
    · exact meets_bind (meets_answers (uses_op trivial) hpassed3 hreading3) fun _ _ hJ =>
        meets_throw hJ.1
    · exact meets_bind (meets_answers (answers_of_responds responds_forwardAuthSwitch) hpassed3
        hreading3) fun _ _ hJ => ih hJ.1 hJ.2
    · exact ih hpassed3 hreading3

/-! ## The start-up -/

/-- The packets that the client of a session should get: first the proxy's
handshake, and then, of a session that the proxy authenticates, its own packets
and of the others what the backend has sent. -/
def intended (mode : Pool.AuthMode) (connID : Nat) (sent : Bytes) : Nat → Bytes → Prop
  | 0, payload => ∃ scramble, payload = createMySQLHandshake connID scramble
  | _ + 1, payload =>
    match mode with
    | .interception => payload = createMySQLOKPacket ∨
        ∃ message, payload = createMySQLErrorPacket 1045 "28000" message
    | _ => ∃ header : Bytes, header.length = 4 ∧ header ++ payload <:+: sent

/-- What the backend has sent since the session has it. -/
def World.sentBy (w : World) (a : Arrival) : Bytes :=
  match a.backend, w.sess.server with
  | .ok c, some c' => c.sentSince c'
  | _, _ => []

/-- Every packet to the client is parsed as the one that was meant, and a
session that the proxy authenticates starts up. -/
structure StartupConforms (cfg : Config) (a : Arrival) (out : Option (Except Exc Unit))
    (w : World) : Prop where
  parsed : ∀ i b, w.toClient[i]? = some b →
    ∃ payload, intended cfg.authMode a.id (w.sentBy a) i payload ∧ ParsedAs b payload
  started : cfg.authMode = .interception → out = some (.ok ())

/-- The backend greets the session with the handshake `h`, and the session
answers. -/
structure Greeted (cfg : Config) (a : Arrival) (c : Go.Conn) (h scramble : Bytes) : Prop where
  free : a.limited.head? ≠ some true
  mode : cfg.mode = .session
  backend : a.backend = .ok c
  payload : firstPayload c.bytes = some h
  scramble : HasScramble h scramble

/-- The backend's handshake is as long as the proxy's. -/
def HandshakeFits (cfg : Config) (a : Arrival) : Prop :=
  ∀ c h scramble, Greeted cfg a c h scramble → h.length = 81

/-- The handshake that the client gets. -/
def handshakePacket (a : Arrival) (c : Go.Conn) (scramble : Bytes) : Bytes :=
  c.bytes.take 3 ++ 0 :: createMySQLHandshake a.id scramble

/-- Either nothing was written to the client, or the handshake and packets of
the backend. -/
def Handled (cfg : Config) (a : Arrival) (w : World) : Prop :=
  (∀ c h scramble, ¬Greeted cfg a c h scramble) ∧ w.toClient = [] ∨
    ∃ c h scramble, Greeted cfg a c h scramble ∧ Passed c (handshakePacket a c scramble) w

theorem isPacket_handshakePacket {h : Bytes} (hgreeted : Greeted cfg a c h scramble) :
    IsPacket (handshakePacket a c scramble) ↔ h.length = 81 := by
  obtain ⟨hlen, hlength⟩ := length_of_firstPayload hgreeted.payload
  have hheader : (c.bytes.take 4).length = 4 := by
    rw [length_take]
    omega
  rw [hlength, ← isPacket_handshake hheader, take_take]
  exact Iff.rfl

/-- What was written to the client is as it should be if and only if the
backend's handshake fits. -/
theorem startupConforms_of_handled {out : Option (Except Exc Unit)}
    (hmode : cfg.authMode = .passthrough) (h : Handled cfg a w) :
    StartupConforms cfg a out w ↔ HandshakeFits cfg a := by
  have hstarted : cfg.authMode = .interception → out = some (.ok ()) := fun h => by
    rw [hmode] at h
    cases h
  rcases h with ⟨hnone, htold⟩ | ⟨c, h, scramble, hgreeted, hpassed⟩
  · refine iff_of_true ⟨fun i b hb => ?_, hstarted⟩ fun c h scramble hgreeted =>
      absurd hgreeted (hnone c h scramble)
    simp [htold] at hb
  · obtain ⟨c', rest, hc', -, htold, hrest⟩ := hpassed.packets
    rw [show HandshakeFits cfg a ↔ IsPacket (handshakePacket a c scramble) from ?_]
    · constructor
      · intro hconforms
        obtain ⟨payload, -, hparsed⟩ :=
          hconforms.parsed 0 (handshakePacket a c scramble) (by rw [htold]; rfl)
        exact (isPacket_of_parsedAs hparsed).1
      · intro hpacket
        refine ⟨fun i b hb => ?_, hstarted⟩
        rw [htold] at hb
        cases i with
        | zero =>
          cases hb
          refine ⟨_, ⟨scramble, ?_⟩, parsedAs_of_isPacket hpacket⟩
          have hlen : (c.bytes.take 3).length = 3 := by
            have := length_of_firstPayload hgreeted.payload
            rw [length_take]
            omega
          rw [handshakePacket, drop_append, hlen, drop_of_length_le (by omega)]
          rfl
        | succ i =>
          have hmem : b ∈ rest := mem_of_getElem? hb
          obtain ⟨hispacket, hwithin⟩ := hrest b hmem
          refine ⟨b.drop 4, ?_, parsedAs_of_isPacket hispacket⟩
          rw [hmode]
          refine ⟨b.take 4, ?_, ?_⟩
          · rw [length_take]
            have := hispacket.1
            omega
          · rw [take_append_drop, sentBy, hgreeted.backend, hc']
            exact hwithin
    · rw [isPacket_handshakePacket hgreeted]
      refine ⟨fun hfits => hfits c h scramble hgreeted, fun hlen c2 h2 s2 hgreeted2 => ?_⟩
      cases hgreeted.backend.symm.trans hgreeted2.backend
      cases hgreeted.payload.symm.trans hgreeted2.payload
      exact hlen

/-- The session as it was when its client connected, but for the limiter. -/
structure Unspoken (a : Arrival) (w : World) : Prop where
  id : w.sess.id = a.id
  client : w.sess.client = a.client
  backend : w.sess.backend = a.backend
  server : w.sess.server = none

/-- The session has the backend's connection, or there is none for it. -/
theorem meets_takeServerConn {mode : Pool.PoolMode} (hw : Unspoken a w) :
    Meets (takeServerConn mode) w
      (fun _ w1 => mode = .session ∧ ∃ c, a.backend = .ok c ∧ w1.sess.server = some c ∧
        w1.sess.client = a.client ∧ w1.sess.id = a.id)
      fun w1 => w1.sess.client = a.client ∧ (mode = .session → ∀ c, a.backend ≠ .ok c) := by
  intro out w1 h
  rw [takeServerConn, eval_bind] at h
  cases mode with
  | session =>
    cases hbackend : a.backend with
    | error e =>
      have hstep : step w (.onClientConnect .session) = some (.error e, w) := by
        simp only [step, hw.backend, hbackend]
      rw [eval_op_of_some hstep] at h
      cases h
      exact .inr ⟨failed_error _, hw.client, fun _ c hc => by cases hc⟩
    | ok c =>
      have hstep : step w (.onClientConnect .session) =
          some (.ok (), w.modify fun s => { s with server := some c }) := by
        simp only [step, hw.backend, hbackend]
      rw [eval_op_of_some hstep] at h
      cases h
      exact .inl ⟨(), rfl, rfl, c, rfl, rfl, hw.client, hw.id⟩
  | transaction | statement =>
    rw [eval_op_of_some rfl] at h
    dsimp only [Outcome.andThen_ok] at h
    rw [eval_bind, eval_op_of_some rfl] at h
    rw [hw.server] at h
    cases h
    exact .inr ⟨failed_error _, hw.client, fun h => by cases h⟩

theorem meets_readBackendHandshake (hc : w.sess.server = some c) : Meets readBackendHandshake w
      (fun r w1 => ∃ c1, w1 = w.setConn .server c1 ∧ c.SameBut c1 ∧ c1.bytes <:+ c.bytes ∧
        r.1 = c.bytes.take 4 ∧ firstPayload c.bytes = some r.2)
      fun w1 => w1.sess.client = w.sess.client ∧ firstPayload c.bytes = none := by
  refine meets_bind (meets_wrap (meets_mono (meets_readFull hc) (fun _ _ h => h) ?_))
    fun header w1 hw1 => ?_
  · rintro _ ⟨hshort, c1, rfl, -⟩
    refine ⟨rfl, if_neg ?_⟩
    rw [nil_append] at hshort
    omega
  obtain ⟨header, buf⟩ := header
  obtain ⟨c1, rfl, hsame1, hlen1, rfl, hrest1⟩ := hw1
  simp only [nil_append] at hlen1 hrest1 ⊢
  have hle := mysqlLength_le (c.bytes.take 4)
  refine meets_ite (fun hbig => ?_) fun _ => ?_
  · exact absurd hbig (not_lt.mpr (Nat.le_succ_of_le hle))
  refine meets_bind (meets_wrap (meets_mono (meets_readFull rfl) (fun _ _ h => h) ?_))
    fun payload w2 hw2 => ?_
  · rintro _ ⟨hshort, c2, rfl, -⟩
    refine ⟨rfl, if_neg ?_⟩
    rw [hrest1, length_drop] at hshort
    omega
  obtain ⟨payload, buf2⟩ := payload
  obtain ⟨c2, rfl, hsame2, hlen2, rfl, hrest2⟩ := hw2
  rw [hrest1] at hlen2 hrest2 ⊢
  refine meets_pure ⟨c2, setConn_setConn .., hsame1.trans hsame2, ?_, rfl, if_pos ⟨hlen1, ?_⟩⟩
  · have hdrop : c2.bytes <:+ (c.bytes.drop 4).drop (mysqlLength (c.bytes.take 4)) :=
      hrest2 ▸ suffix_append _ _
    exact (hdrop.trans (drop_suffix _ _)).trans (drop_suffix _ _)
  · rw [length_drop] at hlen2
    omega

/-- The first packet goes to the client, and the backend's are still to be read. -/
theorem meets_writeFirst {s : String} {c1 : Go.Conn} {E : World → Prop}
    (hclient : w.sess.client = a.client) (hnew : a.client.written = [])
    (haccepts : ∀ b, a.client.peer.accepts b = true) (hsame : c.SameBut c1)
    (hsuffix : c1.bytes <:+ c.bytes) :
    Meets (wrap s (write .client first)) (w.setConn .server c1)
      (fun _ w2 => Passed c first w2 ∧ Reading c w2) E := by
  have haccept : w.sess.client.peer.accepts (w.sess.client.stream ++ first) = true := by
    rw [hclient]
    exact haccepts _
  have hwrite : eval (write .client first) (w.setConn .server c1) = _ := eval_write rfl haccept
  obtain ⟨-, hwrote⟩ := write_of_accepts haccept
  refine meets_of_eval (eval_wrap_of_ok hwrite)
    ⟨⟨c1, [], rfl, hsame.later, ?_, by simp⟩, ⟨c1, rfl, hsame.later, ?_⟩⟩
  · refine hwrote.written.trans ?_
    rw [hclient, hnew]
    rfl
  · rw [sentSince_of_sameBut hsame]
    exact hsuffix

/-- In passthrough mode the client gets the handshake and packets of the
backend, or nothing. -/
theorem meets_handleMySQLPassthrough (hw : Unspoken a w) (hfree : a.limited.head? ≠ some true)
    (hnew : a.client.written = []) (haccepts : ∀ b, a.client.peer.accepts b = true) :
    Meets (handleMySQLPassthrough lib cfg) w (fun _ => Handled cfg a) (Handled cfg a) := by
  have htold : ∀ w1 : World, w1.sess.client = a.client → w1.toClient = [] := fun w1 hclient => by
    rw [toClient, hclient, hnew]
  refine meets_bind (meets_mono (meets_takeServerConn hw) (fun _ _ h => h) ?_) fun _ w1 hw1 => ?_
  · rintro w1 ⟨hclient, hnone⟩
    exact .inl ⟨fun c h s hgreeted => hnone hgreeted.mode c hgreeted.backend, htold w1 hclient⟩
  obtain ⟨hsession, c, hbackend, hc, hclient, hid⟩ := hw1
  refine meets_bind (meets_mono (meets_readBackendHandshake hc) (fun _ _ h => h) ?_)
    fun handshake w2 hw2 => ?_
  · rintro w2 ⟨hclient2, hnone⟩
    refine .inl ⟨fun c' h s hgreeted => ?_, htold w2 (hclient2.trans hclient)⟩
    cases hbackend.symm.trans hgreeted.backend
    rw [hgreeted.payload] at hnone
    cases hnone
  obtain ⟨header, handshakeData⟩ := handshake
  obtain ⟨c1, rfl, hsame, hsuffix, rfl, hpayload⟩ := hw2
  dsimp only at hpayload ⊢
  rcases extractMySQLScramble_cases handshakeData with ⟨scramble, hscramble⟩ | ⟨e, he⟩
  swap
  · -- the backend's handshake is refused
    rw [he]
    refine meets_bind (Q := fun _ _ => False) (meets_wrap (meets_throw (.inl
      ⟨fun c' h s hgreeted => ?_, htold _ hclient⟩))) fun _ _ hfalse => hfalse.elim
    cases hbackend.symm.trans hgreeted.backend
    cases hpayload.symm.trans hgreeted.payload
    have hboth : throw e = pure s := he.symm.trans hgreeted.scramble
    cases hboth
  have hgreeted : Greeted cfg a c handshakeData scramble :=
    ⟨hfree, hsession, hbackend, hpayload, hscramble⟩
  have hdone : ∀ {w3 : World}, Passed c (handshakePacket a c scramble) w3 → Handled cfg a w3 :=
    fun hpassed => .inr ⟨c, handshakeData, scramble, hgreeted, hpassed⟩
  rw [show extractMySQLScramble handshakeData = pure scramble from hscramble]
  refine meets_bind (Q := fun s w2 => s = scramble ∧ w2 = w1.setConn .server c1)
    (meets_wrap (meets_pure ⟨rfl, rfl⟩)) fun s w2 hw2 => ?_
  obtain ⟨rfl, rfl⟩ := hw2
  refine meets_bind (Q := fun connID w2 => connID = a.id ∧ w2 = w1.setConn .server c1)
    (meets_of_eval (eval_op_of_some rfl) ⟨hid, rfl⟩) fun connID w2 hw2 => ?_
  obtain ⟨rfl, rfl⟩ := hw2
  have hpacket : (c.bytes.take 4).take 3 ++ 0 :: createMySQLHandshake a.id s =
      handshakePacket a c s := by
    rw [take_take]
    rfl
  rw [hpacket]
  refine meets_bind (meets_writeFirst hclient hnew haccepts hsame hsuffix) fun _ w2 hw2 => ?_
  -- from here on the client gets packets of the backend only
  refine meets_mono ?_ (fun _ _ => hdone) (fun _ => hdone)
  refine meets_bind (meets_answers (answers_of_responds responds_readHandshakeResponse) hw2.1
    hw2.2) fun resp w3 hw3 => ?_
  cases parseMySQLHandshakeResponse resp.2 with
  | error err => exact meets_throw hw3.1
  | ok names =>
    refine meets_bind (meets_answers (uses_op trivial) hw3.1 hw3.2) fun _ w4 hw4 =>
      meets_bind (meets_answers (uses_op trivial) hw4.1 hw4.2) fun _ w5 hw5 =>
      meets_bind (meets_answers (answers_of_responds responds_checkPassthroughAccess) hw5.1 hw5.2)
        fun _ w6 hw6 => meets_bind (meets_answers (uses_mapError (uses_write trivial)) hw6.1 hw6.2)
        fun _ w7 hw7 => ?_
    have hkeeps : ∀ o, o = Op.setAuthenticated ∨ o = Op.recordAuthSuccess → MutelyKeeps o := by
      rintro o (rfl | rfl) <;> exact ⟨trivial, trivial⟩
    refine meets_bind (meets_wrap (meets_forwardMySQLAuth hw7.1 hw7.2)) fun _ w8 hw8 =>
      meets_bind (meets_of_uses (uses_op (hkeeps _ (.inl rfl))) step_passed hw8)
        fun _ w9 hw9 => meets_of_uses (uses_op (hkeeps _ (.inr rfl))) step_passed hw9

theorem meets_isLimited {shared : Shared} {E : World → Prop} :
    Meets (op .isLimited) ⟨shared, newSession a⟩
      (fun limited w1 => Unspoken a w1 ∧ (limited = true ↔ a.limited.head? = some true)) E := by
  cases hlimited : a.limited with
  | nil =>
    have hstep : step ⟨shared, newSession a⟩ .isLimited =
        some (false, ⟨shared, newSession a⟩) := by
      simp only [step, newSession, hlimited]
    exact meets_of_eval (eval_op_of_some hstep) ⟨⟨rfl, rfl, rfl, rfl⟩, by simp⟩
  | cons b rest =>
    have hstep : step ⟨shared, newSession a⟩ .isLimited =
        some (b, modify ⟨shared, newSession a⟩ fun s => { s with limited := rest }) := by
      simp only [step, newSession, hlimited]
    exact meets_of_eval (eval_op_of_some hstep) ⟨⟨rfl, rfl, rfl, rfl⟩, by simp⟩

/-- In interception mode the proxy waits for a client that says nothing. -/
theorem yields_interception_false (hclient : w.sess.client = a.client)
    (hsilent : a.client.inp = []) (hmode : cfg.authMode = .interception) :
    Yields (handleMySQLStartup lib cfg) w fun _ _ => False := by
  refine ensures_bind (Q := fun _ w1 => w1.sess.client = a.client) (yields_op fun r w1 hstep => ?_)
    fun limited w1 hw1 => ?_
  · simp only [step] at hstep
    split at hstep <;> cases hstep <;> exact hclient
  refine ensures_ite (fun _ => ensures_throw) fun _ => ensures_ite (fun _ => ?_) fun hpass =>
    absurd hmode hpass
  refine ensures_bind (Q := fun _ _ => False) (ensures_mapError (ensures_bind (Q := fun _ _ => False)
    (ensures_mapError (yields_of_eval fun header w2 hread => ?_)) fun _ _ h => h.elim))
    fun _ _ h => h.elim
  have hconn : w1.conn .client = some w1.sess.client := rfl
  rcases meets_readFull hconn _ _ hread with ⟨_, -, _, -, -, hlen, -⟩ | ⟨hbad, -⟩
  · rw [hw1, Go.Conn.bytes, hsilent] at hlen
    simp at hlen
  · exact absurd rfl (hbad _)

/-- For every client that waits for the proxy's handshake: the packets that it
gets are parsed as those that are meant, and an intercepted start-up completes,
if and only if the pool is in passthrough mode and the backend's handshake has
81 bytes. -/
theorem startupConforms_iff {lib : Lib} {cfg : Config} (shared : Shared) (a : Arrival)
    (hsilent : a.client.inp = []) (hnew : a.client.written = [])
    (haccepts : ∀ b, a.client.peer.accepts b = true) {out : Option (Except Exc Unit)} {w' : World}
    (hrun : eval (handleMySQLStartup lib cfg) ⟨shared, newSession a⟩ = (out, w')) :
    StartupConforms cfg a out w' ↔ cfg.authMode = .passthrough ∧ HandshakeFits cfg a := by
  cases hmode : cfg.authMode with
  | interception =>
    refine iff_of_false (fun hconforms => ?_) fun h => by cases h.1
    have hout := hconforms.started hmode
    rw [hout] at hrun
    exact (yields_interception_false rfl hsilent hmode).of_eval hrun
  | passthrough =>
    have hmeets : Meets (handleMySQLStartup lib cfg) ⟨shared, newSession a⟩
        (fun _ => Handled cfg a) (Handled cfg a) := by
      refine meets_bind meets_isLimited fun limited w1 hw1 => ?_
      obtain ⟨hunspoken, hlimited⟩ := hw1
      refine meets_ite (fun htrue => meets_throw (.inl ⟨fun c h s hgreeted => ?_, ?_⟩)) fun hfree => ?_
      · exact hgreeted.free (hlimited.mp htrue)
      · rw [toClient, hunspoken.client, hnew]
      · refine meets_ite (fun hint => ?_) fun _ => meets_handleMySQLPassthrough hunspoken
          (fun h => hfree (hlimited.mpr h)) hnew haccepts
        rw [hmode] at hint
        cases hint
    rw [and_iff_right rfl, startupConforms_of_handled hmode]
    rcases hmeets out w' hrun with ⟨_, -, hhandled⟩ | ⟨-, hhandled⟩ <;> exact hhandled

/-- A client that answers the first handshake packet it gets with the right
credentials, and says nothing before. -/
def waitingClient (name : String) : Go.Conn where
  peer := { reply := fun received =>
    if (firstPayload received).any fun h => h.head? = some 10 then [handshakeResponse name]
    else [] }

/-- A MySQL backend with a handshake of 70 bytes and `extra` more, that accepts
everyone. -/
def mysqlBackend (extra : Nat) : Go.Conn where
  peer := { reply := fun _ => [putLittleEndian 3 11 ++ 2 :: createMySQLOKPacket] }
  inp := [putLittleEndian 3 (70 + extra) ++ 0 :: 10 :: replicate (69 + extra) 0]
  nonempty := by simp [putLittleEndian]

/-- A session of such a client with such a backend. -/
def waiting (extra : Nat) : Arrival where
  id := 0
  client := waitingClient "a"
  backend := .ok (mysqlBackend extra)

def passingThrough : Config where
  body := .mySQL
  authMode := .passthrough
  poolName := ascii "p"
  rounds := 5

/-- With a backend whose handshake has 81 bytes all goes well. -/
theorem startupConforms_iff_fits :
    ∃ w', eval (handleMySQLStartup .plain passingThrough) ⟨{ users := [] },
        newSession (waiting 11)⟩ = (some (.ok ()), w') ∧
      StartupConforms passingThrough (waiting 11) (some (.ok ())) w' ∧
      w'.toClient.length = 2 := by
  have hrun := eval_eq_of_fst (p := handleMySQLStartup .plain passingThrough)
    (w := ⟨{ users := [] }, newSession (waiting 11)⟩) (a := ()) (by decide +kernel)
  refine ⟨_, hrun, (startupConforms_iff _ (waiting 11) rfl rfl (fun _ => rfl) hrun).mpr
    ⟨rfl, fun c h s hgreeted => ?_⟩, by decide +kernel⟩
  have hpayload : firstPayload (mysqlBackend 11).bytes = some (10 :: replicate 80 0) := by
    decide +kernel
  cases hgreeted.backend
  cases hpayload.symm.trans hgreeted.payload
  rfl

/-- With a backend whose handshake has 70 bytes, the header of the proxy's says 70, too.
In interception mode the start-up waits for a client that waits for it; and a client
that would speak first gets a handshake that is shifted by one byte. -/
theorem startup_malformed : (∃ w', eval (handleMySQLStartup .plain passingThrough) ⟨{ users := [] },
        newSession (waiting 0)⟩ = (some (.ok ()), w') ∧
      ¬StartupConforms passingThrough (waiting 0) (some (.ok ())) w') ∧
    (∃ w', eval (handleMySQLStartup .plain (intercepting .mySQL)) ⟨{ users := [permitted "a"] },
        newSession (waiting 11)⟩ = (none, w') ∧
      ¬StartupConforms (intercepting .mySQL) (waiting 11) none w') ∧
    ∃ w', eval (handleMySQLStartup .plain (intercepting .mySQL)) ⟨{ users := [permitted "a"] },
        newSession (twoHandshakes "a" "a")⟩ = (some (.ok ()), w') ∧
      ¬StartupConforms (intercepting .mySQL) (twoHandshakes "a" "a") (some (.ok ())) w' := by
  refine ⟨⟨_, eval_eq_of_fst (by decide +kernel), fun hconforms => ?_⟩,
    ⟨_, Prod.ext (by decide +kernel) rfl, fun hconforms => ?_⟩,
    ⟨_, eval_eq_of_fst (by decide +kernel), fun hconforms => ?_⟩⟩
  · have hfirst : (eval (handleMySQLStartup .plain passingThrough) ⟨{ users := [] },
        newSession (waiting 0)⟩).2.toClient[0]?.any fun b => ¬IsPacket b := by decide +kernel
    obtain ⟨b, hb, hnot⟩ := (Option.any_eq_true _ _).mp hfirst
    obtain ⟨payload, -, hparsed⟩ := hconforms.parsed 0 b hb
    exact of_decide_eq_true hnot (isPacket_of_parsedAs hparsed).1
  · cases hconforms.started rfl
  · have hfirst : (eval (handleMySQLStartup .plain (intercepting .mySQL))
        ⟨{ users := [permitted "a"] }, newSession (twoHandshakes "a" "a")⟩).2.toClient[0]?.any
          fun b => (b.drop 4).head? = some 0 := by decide +kernel
    obtain ⟨b, hb, hhead⟩ := (Option.any_eq_true _ _).mp hfirst
    obtain ⟨payload, ⟨scramble, hpayload⟩, hparsed⟩ := hconforms.parsed 0 b hb
    have hten : payload.head? = some 10 := by rw [hpayload]; rfl
    rw [(isPacket_of_parsedAs hparsed).2, of_decide_eq_true hhead] at hten
    cases hten

end Geryon.Startup
