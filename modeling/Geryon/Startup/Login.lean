import Geryon.Startup.Exchange

/-!
# The outcome of an MSSQL login

What the two MSSQL handlers make of the packets that the server and the client
send after `Login7`: those of the two byte streams, as they are known when the
handler has ended, however they were cut and whenever they were sent.

`concludes` follows the loops of `forwardMSSQLLogin7Response` and
`forwardMSSQLClientSSPIResponse` on two lists of packets.  It looks only at packet
types, at the first byte of a payload and at the end-of-message bit:
`completeMSSQLLogin_iff` says that the handlers do the same.
-/

namespace Geryon.Startup

open Conc Conc.Fallible List Go.Conn Option World Outcome
open Wire (bigEndian littleEndian)

variable {α β : Type} {lib : Lib} {cfg : Config}

/-! ## Packets in a stream -/

structure Packet where
  header : Bytes
  payload : Bytes
  deriving DecidableEq

/-- The first packet of a stream, and what follows it. -/
def takePacket (s : Bytes) : Option (Packet × Bytes) :=
  let length := tdsLength (s.take 8)
  if 8 ≤ length ∧ length ≤ s.length then
    some (⟨s.take 8, field s 8 (length - 8)⟩, s.drop length)
  else none

/-- At most `n` packets from the front of a stream. -/
def packetsUpTo : Nat → Bytes → List Packet
  | 0, _ => []
  | n + 1, s =>
    match takePacket s with
    | none => []
    | some (p, rest) => p :: packetsUpTo n rest

/-- The packets of a stream, up to where it does not go on with a whole and
valid one. -/
def packets (s : Bytes) : List Packet := packetsUpTo s.length s

variable {s buf : Bytes} {p : Packet} {n : Nat} {w w' w1 : World} {out : Option (Except Exc Unit)}
  {side : Side}

variable {rest b payload : Bytes} {m rounds : Nat} {c : Go.Conn} {t t' : String}
  {invalid : Int → String} {packetType : UInt8} {f : Unit → Handler α} {e : Err}

theorem length_of_takePacket (h : takePacket s = some (p, rest)) : rest.length < s.length := by
  simp only [takePacket] at h
  split at h
  · cases h
    rw [length_drop]
    omega
  · cases h

theorem takePacket_append (t : Bytes) (h : takePacket s = some (p, rest)) :
    takePacket (s ++ t) = some (p, rest ++ t) := by
  simp only [takePacket] at h ⊢
  split at h
  · rename_i hlen
    cases h
    have htake : (s ++ t).take 8 = s.take 8 := take_append_of_le_length (by omega)
    rw [htake, if_pos ⟨hlen.1, by rw [length_append]; omega⟩,
      drop_append_of_le_length hlen.2, field, field,
      drop_append_of_le_length (by omega),
      take_append_of_le_length (by rw [length_drop]; omega)]
  · cases h

theorem packetsUpTo_eq (hn : s.length ≤ n) (hm : s.length ≤ m) :
    packetsUpTo n s = packetsUpTo m s := by
  induction n generalizing m s with
  | zero =>
    obtain rfl : s = [] := length_eq_zero_iff.mp (by omega)
    cases m <;> rfl
  | succ n ih =>
    cases m with
    | zero =>
      obtain rfl : s = [] := length_eq_zero_iff.mp (by omega)
      rfl
    | succ m =>
      rw [packetsUpTo, packetsUpTo]
      cases hs : takePacket s with
      | none => rfl
      | some res =>
        have hlt := length_of_takePacket hs
        dsimp only
        rw [ih (m := m) (by omega) (by omega)]

theorem packets_of_some (h : takePacket s = some (p, rest)) : packets s = p :: packets rest := by
  have hlt := length_of_takePacket h
  rw [packets, packetsUpTo_eq (m := s.length + 1) (by omega) (by omega), packetsUpTo, h]
  dsimp only
  rw [packets, packetsUpTo_eq (m := rest.length) (by omega) (by omega)]

theorem packets_of_none (h : takePacket s = none) : packets s = [] := by
  rw [packets, packetsUpTo_eq (m := s.length + 1) (by omega) (by omega), packetsUpTo, h]

/-- Whether the packets of the server, with those that the client answers the challenges
with, end the login.  `answering` is true between a challenge and the end of the
server's next message: that end does not end the login. -/
def concludes (answering : Bool) : List Packet → List Packet → Bool
  | [], _ => false
  | p :: ps, cs =>
    if isSSPI p.header p.payload then
      match cs with
      | [] => false
      | _ :: cs => concludes true ps cs
    else if endOfMessage p.header then !answering || concludes false ps cs
    else concludes answering ps cs

theorem concludes_message {answering : Bool} {ps cs : List Packet}
    (h : ¬isSSPI p.header p.payload = true) :
    concludes answering (p :: ps) cs = if endOfMessage p.header then
      !answering || concludes false ps cs else concludes answering ps cs := by
  rw [concludes.eq_def]
  simp only [h]
  rfl

/-! ## What is ahead in a run -/

/-- The bytes of the server and of the client that are still to be read in `w`, as they
are known in `w'`.  `buf` is the buffer of the reader on the server's connection. -/
def World.ahead (w : World) (buf : Bytes) (w' : World) : Bytes × Bytes :=
  (buf ++ match w.sess.server, w'.sess.server with
    | some c, some c' => c.sentSince c'
    | _, _ => [],
    w.sess.client.sentSince w'.sess.client)

def World.refused (w : World) : Bool := w.sess.client.refused || w.sess.server.any Go.Conn.refused

/-- There is a server, and no write has failed. -/
structure Talking (w : World) : Prop where
  server : ∃ c, w.sess.server = some c
  refused : w.refused = false

theorem ahead_of_server {c' : Go.Conn} (hc : w.sess.server = some c)
    (hc' : w'.sess.server = some c') (buf : Bytes) :
    w.ahead buf w' = (buf ++ c.sentSince c', w.sess.client.sentSince w'.sess.client) := by
  simp only [ahead, hc, hc']

theorem tdsLength_lt (header : Bytes) : tdsLength header < 65536 := by
  have hlen : (field header 2 2).length ≤ 2 := by
    rw [field, length_take]
    omega
  exact Nat.lt_of_lt_of_le (bigEndian_lt _) (valuesOf_le hlen)

theorem takePacket_eq_none_of_short (hlt : s.length < n) (hn : n = 8 ∨ n = tdsLength (s.take 8)) :
    takePacket s = none := by
  simp only [takePacket]
  rw [if_neg (by omega)]

theorem meets_readTDS (hc : w.conn .server = some c) : Meets (readTDS .server buf t t' invalid) w
      (fun a w1 => ∃ p c', a.1 = p.header ∧ a.2.1 = p.payload ∧ w1 = w.setConn .server c' ∧
        takePacket (buf ++ c.bytes) = some (p, a.2.2 ++ c'.bytes) ∧ c.SameBut c')
      fun w1 => takePacket (buf ++ c.bytes) = none ∧
        ∃ c', w1 = w.setConn .server c' ∧ c.SameBut c' := by
  have hlt := tdsLength_lt ((buf ++ c.bytes).take 8)
  refine meets_bind (meets_wrap (meets_mono (meets_readFull hc) (fun _ _ => id) ?_)) ?_
  · rintro _ ⟨hshort, hw⟩
    exact ⟨takePacket_eq_none_of_short hshort (.inl rfl), hw⟩
  rintro ⟨_, buf1⟩ _ ⟨c1, rfl, hsame, hlen, rfl, hdrop⟩
  have hleft : (buf1 ++ c1.bytes).length = (buf ++ c.bytes).length - 8 := by
    rw [hdrop, length_drop]
  refine meets_ite (fun hbound => meets_throw ⟨?_, c1, rfl, hsame⟩) fun hbound => ?_
  · simp only [takePacket]
    rw [if_neg (by simp only [maxMySQLPayload] at hbound; omega)]
  rw [show ((tdsLength ((buf ++ c.bytes).take 8) : Int) - 8).toNat =
    tdsLength ((buf ++ c.bytes).take 8) - 8 by omega]
  refine meets_bind (meets_wrap (meets_mono (meets_readFull (conn_setConn w .server c1))
    (fun _ _ => id) ?_)) ?_
  · rintro _ ⟨hshort, c2, rfl, hsame2⟩
    exact ⟨takePacket_eq_none_of_short (by omega) (.inr rfl), c2, rfl, hsame.trans hsame2⟩
  · rintro ⟨_, buf2⟩ _ ⟨c2, rfl, hsame2, hlen2, rfl, hdrop2⟩
    refine meets_pure ⟨⟨_, _⟩, c2, rfl, rfl, rfl, ?_, hsame.trans hsame2⟩
    simp only [takePacket]
    rw [if_pos ⟨by omega, by omega⟩, hdrop2, hdrop, drop_drop, field]
    congr 3
    omega

/-- The client's answer is read if there is one, and then written to the
server. -/
theorem meets_forwardClientSSPI {k : Go.Conn} (hk : w.conn .client = some k)
    (hc : w.conn .server = some c) : Meets forwardClientSSPI w
      (fun _ w1 => ∃ p k', takePacket k.bytes = some (p, k'.bytes) ∧ k.SameBut k' ∧
        w1 = (w.setConn .client k').setConn .server (c.write (p.header ++ p.payload)).2 ∧
        (c.write (p.header ++ p.payload)).1 = true)
      fun w1 => (takePacket k.bytes = none ∧ ∃ k', w1 = w.setConn .client k' ∧ k.SameBut k') ∨
        ∃ k' b, w1 = (w.setConn .client k').setConn .server (c.write b).2 ∧
          (c.write b).1 = false := by
  refine meets_bind (meets_wrap (meets_mono (meets_readDirect hk) (fun _ _ => id) ?_)) ?_
  · rintro _ ⟨hshort, hw⟩
    exact .inl ⟨takePacket_eq_none_of_short hshort (.inl rfl), hw⟩
  rintro _ _ ⟨k1, rfl, hsame, hlen, rfl, hdrop⟩
  have hleft : k1.bytes.length = k.bytes.length - 8 := by rw [hdrop, length_drop]
  refine meets_ite (fun hbound => meets_throw (.inl ⟨?_, k1, rfl, hsame⟩)) fun hbound => ?_
  · simp only [takePacket]
    rw [if_neg (by omega)]
  refine meets_bind (meets_wrap (meets_mono (meets_readDirect (conn_setConn w .client k1))
    (fun _ _ => id) ?_)) ?_
  · rintro _ ⟨hshort, k2, rfl, hsame2⟩
    exact .inl ⟨takePacket_eq_none_of_short (by omega) (.inr rfl), k2, rfl, hsame.trans hsame2⟩
  rintro _ _ ⟨k2, rfl, hsame2, hlen2, rfl, hdrop2⟩
  have hserver : ((w.setConn .client k1).setConn .client k2).conn .server = some c := hc
  refine meets_wrap (meets_mono (meets_write hserver) ?_ ?_)
  · rintro _ _ ⟨rfl, hok⟩
    refine ⟨⟨k.bytes.take 8, _⟩, k2, ?_, hsame.trans hsame2, rfl, hok⟩
    simp only [takePacket]
    rw [if_pos ⟨by omega, by omega⟩, hdrop2, hdrop, drop_drop, field]
    congr 3
    omega
  · rintro _ ⟨rfl, hno⟩
    exact .inr ⟨k2, _, rfl, hno⟩

/-! ## The parts of the loops -/

theorem keeps_write {s : String} : (wrap s (write side b)).Uses Keeps :=
  keeps_of_relays relays_write

theorem keeps_forwardClientSSPI : forwardClientSSPI.Uses Keeps :=
  keeps_of_relays relays_forwardClientSSPI

theorem keeps_forwardSSPIAnswer : (forwardSSPIAnswer n buf).Uses Keeps :=
  keeps_of_relays relays_forwardSSPIAnswer

theorem keeps_forwardLogin7Loop : (forwardLogin7Loop rounds n buf).Uses Keeps :=
  keeps_of_relays relays_forwardLogin7Loop

section

variable (hw : Talking w)
include hw

variable {out : Option (Except Exc α)}

theorem readTDS_bind {f : Bytes × Bytes × Bytes → Handler α}
    (hf : ∀ a, (f a).Uses Keeps) (hreach : Reaches w1 w')
    (h : eval (readTDS .server buf t t' invalid >>= f) w = (out, w1)) : (∃ p buf' w2, Talking w2 ∧
        packets (w.ahead buf w').1 = p :: packets (w2.ahead buf' w').1 ∧
        (w2.ahead buf' w').2 = (w.ahead buf w').2 ∧
        eval (f (p.header, p.payload, buf')) w2 = (out, w1)) ∨
      Failed out ∧ (w' = w1 → packets (w.ahead buf w').1 = []) := by
  obtain ⟨c, hc⟩ := hw.server
  rcases (meets_readTDS hc).of_bind h with
    ⟨⟨_, _, buf'⟩, _, ⟨p, c1, rfl, rfl, rfl, htake, hsame⟩, hrest⟩ |
      ⟨hfailed, htake, c1, rfl, hsame⟩
  · obtain ⟨c', hc', -⟩ := ((reaches_of_uses (hf _) hrest).trans hreach).server c1 rfl
    refine .inl ⟨p, buf', w.setConn .server c1, ⟨⟨c1, rfl⟩, ?_⟩, packets_of_some ?_, rfl, hrest⟩
    · have := hw.refused
      simp only [World.refused, hc, any_some] at this
      simpa only [World.refused, World.setConn, World.modify, any_some, hsame.refused] using this
    · rw [ahead_of_server hc hc', ahead_of_server rfl hc']
      dsimp only
      rw [Go.Conn.sentSince, Go.Conn.sentSince, hsame.replies, ← append_assoc,
        ← append_assoc]
      exact takePacket_append _ htake
  · refine .inr ⟨hfailed, fun hlast => packets_of_none ?_⟩
    subst hlast
    rw [ahead_of_server hc rfl]
    rw [sentSince_of_sameBut hsame]
    exact htake

theorem writeClient_bind {s : String} (hf : (f ()).Uses Keeps) (hreach : Reaches w1 w')
    (h : eval (wrap s (write .client b) >>= f) w = (out, w1)) :
    (∃ w2, Talking w2 ∧ (∀ buf, w2.ahead buf w' = w.ahead buf w') ∧ eval (f ()) w2 = (out, w1)) ∨
      Failed out ∧ w1.refused = true := by
  obtain ⟨c, hc⟩ := hw.server
  have hclient : w.conn .client = some w.sess.client := rfl
  rcases (meets_wrap (meets_write hclient)).of_bind h with
    ⟨_, _, ⟨rfl, hok⟩, hrest⟩ | ⟨hfailed, rfl, hno⟩
  · have hreach2 := (reaches_of_uses hf hrest).trans hreach
    refine .inl ⟨w.setConn .client (w.sess.client.write b).2, ⟨⟨c, hc⟩, ?_⟩, fun buf => ?_, hrest⟩
    · have := hw.refused
      simp only [World.refused, Bool.or_eq_false_iff] at this ⊢
      exact ⟨(refused_write_of_ok hok).trans this.1, this.2⟩
    · obtain ⟨c', hc', -⟩ := hreach2.server c hc
      have hserver : (w.setConn .client (w.sess.client.write b).2).sess.server = some c := hc
      rw [ahead_of_server hserver hc', ahead_of_server hc hc']
      exact congrArg (Prod.mk _) (sentSince_write hreach2.client)
  · refine .inr ⟨hfailed, ?_⟩
    simp only [World.refused, World.setConn, World.modify, refused_write_of_not hno, Bool.true_or]

theorem forwardClientSSPI_bind (hf : (f ()).Uses Keeps) (hreach : Reaches w1 w')
    (h : eval (forwardClientSSPI >>= f) w = (out, w1)) :
    (∃ p w2, Talking w2 ∧ (∀ buf, (w2.ahead buf w').1 = (w.ahead buf w').1 ∧
        packets (w.ahead buf w').2 = p :: packets (w2.ahead buf w').2) ∧
        eval (f ()) w2 = (out, w1)) ∨
      Failed out ∧ (w' = w1 → w'.refused = true ∨ ∀ buf, packets (w.ahead buf w').2 = []) := by
  obtain ⟨c, hc⟩ := hw.server
  rcases (meets_forwardClientSSPI rfl hc).of_bind h with
    ⟨_, _, ⟨p, k', htake, hsame, rfl, hok⟩, hrest⟩ |
      ⟨hfailed, ⟨htake, k', rfl, hsame⟩ | ⟨k', b, rfl, hno⟩⟩
  · obtain ⟨c', hc', hlater⟩ := ((reaches_of_uses hf hrest).trans hreach).server _ rfl
    refine .inl ⟨p, _, ⟨⟨_, rfl⟩, ?_⟩, fun buf => ?_, hrest⟩
    · have := hw.refused
      simp only [World.refused, hc, any_some] at this
      simpa only [World.refused, World.setConn, World.modify, any_some, hsame.refused,
        refused_write_of_ok hok] using this
    · rw [ahead_of_server hc hc', ahead_of_server rfl hc']
      dsimp only [World.setConn, World.modify]
      rw [sentSince_write hlater]
      refine ⟨rfl, packets_of_some ?_⟩
      rw [Go.Conn.sentSince, Go.Conn.sentSince, hsame.replies]
      exact takePacket_append _ htake
  · refine .inr ⟨hfailed, fun hlast => .inr fun buf => packets_of_none ?_⟩
    subst hlast
    simp only [World.ahead, World.setConn, World.modify]
    rw [sentSince_of_sameBut hsame]
    exact htake
  · refine .inr ⟨hfailed, fun hlast => .inl ?_⟩
    rw [hlast]
    simp only [World.refused, World.setConn, World.modify, any_some,
      refused_write_of_not hno, Bool.or_true]

theorem meets_captureForNTLMUser : Meets (captureForNTLMUser payload packetType) w
      (fun _ w1 => Talking w1 ∧ ∀ buf w', w1.ahead buf w' = w.ahead buf w') fun _ => False := by
  intro out w1 h
  have hkept : out = some (.ok ()) ∧ w1.sess.client = w.sess.client ∧
      w1.sess.server = w.sess.server := by
    rw [captureForNTLMUser, eval_bind, eval_op_of_some rfl] at h
    dsimp only [andThen_ok] at h
    split at h
    · simp only [captureNTLMChallenge] at h
      generalize parseNTLMChallenge _ = res at h
      cases res with
      | error e =>
        cases h
        exact ⟨rfl, rfl, rfl⟩
      | ok challenge =>
        rw [eval_op_of_some rfl] at h
        cases h
        exact ⟨rfl, rfl, rfl⟩
    · cases h
      exact ⟨rfl, rfl, rfl⟩
  obtain ⟨rfl, hclient, hserver⟩ := hkept
  refine .inl ⟨(), rfl, ⟨hserver ▸ hw.server, ?_⟩, fun _ _ => ?_⟩
  · simpa only [World.refused, hclient, hserver] using hw.refused
  · simp only [World.ahead, hclient, hserver]

end

/-! ## The loops -/

/-- How a round with the client ends, if the whole login would come to
`concluded`: the reader is handed back with the rest of the login ahead, or the
round fails, and then it is not for want of a reason. -/
def RoundEnds (out : Option (Except Exc Bytes)) (w₁ w' : World) (bound : Nat)
    (concluded : Bool) : Prop :=
  (∃ buf', out = some (.ok buf') ∧ Talking w₁ ∧
      concluded = concludes false (packets (w₁.ahead buf' w').1) (packets (w₁.ahead buf' w').2) ∧
      (packets (w₁.ahead buf' w').1).length ≤ bound) ∨
    Failed out ∧ (w' = w₁ → w'.refused = true ∨ concluded = false)

theorem RoundEnds.mono {out : Option (Except Exc Bytes)} {concluded : Bool}
    (h : RoundEnds out w1 w' m concluded) (hmn : m ≤ n) : RoundEnds out w1 w' n concluded := by
  refine h.imp (fun ⟨buf', hout, hw1, hconcluded, hle⟩ => ?_) id
  exact ⟨buf', hout, hw1, hconcluded, hle.trans hmn⟩

/-- How the server's answer to the client ends, for every run that the packets
ahead allow. -/
def AnswerEnds (n : Nat) : Prop :=
  ∀ {buf w w₁ w' out}, Talking w → eval (forwardSSPIAnswer n buf) w = (out, w₁) →
    Reaches w₁ w' → (packets (w.ahead buf w').1).length < n →
    RoundEnds out w₁ w' (packets (w.ahead buf w').1).length
      (concludes true (packets (w.ahead buf w').1) (packets (w.ahead buf w').2))

/-- A challenge `p` was passed on: the client answers it, and then the
server. -/
theorem forwardMSSQLClientSSPIResponse_ends (hn : AnswerEnds n) {out : Option (Except Exc Bytes)}
    (answering : Bool) (hsspi : isSSPI p.header p.payload = true) (hw : Talking w)
    (hreach : Reaches w1 w') (h : eval (forwardMSSQLClientSSPIResponse n buf) w = (out, w1))
    (hlen : (packets (w.ahead buf w').1).length < n) :
    RoundEnds out w1 w' (packets (w.ahead buf w').1).length
      (concludes answering (p :: packets (w.ahead buf w').1) (packets (w.ahead buf w').2)) := by
  rcases forwardClientSSPI_bind hw keeps_forwardSSPIAnswer hreach h with
    ⟨p', w2, hw2, hahead, hrest⟩ | ⟨hfailed, hnone⟩
  · obtain ⟨hserver, hclient⟩ := hahead buf
    rw [hclient, ← hserver, concludes, if_pos hsspi]
    exact hn hw2 hrest hreach (hserver ▸ hlen)
  · refine .inr ⟨hfailed, fun hlast => (hnone hlast).imp id fun hclient => ?_⟩
    rw [hclient, concludes, if_pos hsspi]

theorem answerEnds (n : Nat) : AnswerEnds n := by
  induction n with
  | zero =>
    intro _ _ _ _ _ _ _ _ hlen
    omega
  | succ n ih =>
    intro buf w w1 w' out hw h hreach hlen
    rcases readTDS_bind hw (fun _ => uses_ite
      (uses_bind keeps_write fun _ => uses_bind keeps_forwardClientSSPI fun _ =>
        keeps_forwardSSPIAnswer)
      (uses_bind keeps_write fun _ => uses_ite uses_pure keeps_forwardSSPIAnswer)) hreach h with
      ⟨p, buf2, w2, hw2, hserver, hclient, hrest⟩ | ⟨hfailed, hnone⟩
    swap
    · refine .inr ⟨hfailed, fun hlast => .inr ?_⟩
      rw [hnone hlast]
      rfl
    rw [hserver] at hlen ⊢
    rw [← hclient]
    split at hrest
    · -- another challenge
      rename_i hsspi
      rcases writeClient_bind hw2 (uses_bind keeps_forwardClientSSPI fun _ =>
        keeps_forwardSSPIAnswer) hreach hrest with ⟨w3, hw3, hahead, hrest3⟩ | ⟨hfailed, hrefused⟩
      · rw [← hahead] at hlen ⊢
        exact (forwardMSSQLClientSSPIResponse_ends ih true hsspi hw3 hreach hrest3
          (Nat.lt_of_succ_lt_succ hlen)).mono (Nat.le_succ _)
      · exact .inr ⟨hfailed, fun hlast => .inl (hlast ▸ hrefused)⟩
    · rename_i hsspi
      rcases writeClient_bind hw2 (uses_ite uses_pure keeps_forwardSSPIAnswer) hreach hrest with
        ⟨w3, hw3, hahead, hrest3⟩ | ⟨hfailed, hrefused⟩
      swap
      · exact .inr ⟨hfailed, fun hlast => .inl (hlast ▸ hrefused)⟩
      rw [← hahead] at hlen ⊢
      rw [concludes_message hsspi]
      split at hrest3
      · rename_i heom
        cases hrest3
        rw [if_pos heom]
        exact .inl ⟨buf2, rfl, hw3, rfl, Nat.le_succ _⟩
      · rename_i heom
        rw [if_neg heom]
        exact (ih hw3 hrest3 hreach (Nat.lt_of_succ_lt_succ hlen)).mono (Nat.le_succ _)

/-- The login returns if and only if no write fails and the packets bring it to
its end. -/
theorem forwardLogin7Loop_iff (hw : Talking w)
    (h : eval (forwardLogin7Loop rounds n buf) w = (out, w'))
    (hlen : (packets (w.ahead buf w').1).length < n)
    (hrounds : (packets (w.ahead buf w').1).length ≤ rounds) :
    out = some (.ok ()) ↔ w'.refused = false ∧
      concludes false (packets (w.ahead buf w').1) (packets (w.ahead buf w').2) = true := by
  have hfails : ∀ {b : Bool}, Failed out → w'.refused = true ∨ b = false →
      (out = some (.ok ()) ↔ w'.refused = false ∧ b = true) := by
    intro b hfailed hor
    refine ⟨fun hout => absurd hout (hfailed ()), fun ⟨hrefused, hb⟩ => ?_⟩
    rw [hrefused, hb] at hor
    simp at hor
  induction n generalizing buf w with
  | zero => omega
  | succ n ih =>
    have hround : ∀ {s buf}, (wrap s (forwardMSSQLClientSSPIResponse rounds buf) >>=
        forwardLogin7Loop rounds n).Uses Keeps :=
      uses_bind (uses_mapError (uses_bind keeps_forwardClientSSPI fun _ =>
        keeps_forwardSSPIAnswer)) fun _ => keeps_forwardLogin7Loop
    rcases readTDS_bind hw (fun _ => uses_ite
      (uses_bind (keeps_of_relays relays_captureForNTLMUser) fun _ =>
        uses_bind keeps_write fun _ => hround)
      (uses_bind keeps_write fun _ => uses_ite uses_pure keeps_forwardLogin7Loop)) (.refl _) h with
      ⟨p, buf2, w2, hw2, hserver, hclient, hrest⟩ | ⟨hfailed, hnone⟩
    swap
    · rw [hnone rfl]
      exact hfails hfailed (.inr rfl)
    rw [hserver] at hlen hrounds ⊢
    rw [← hclient]
    dsimp only at hrest
    split at hrest
    · rename_i hsspi
      rcases (meets_captureForNTLMUser hw2).of_bind hrest with
        ⟨_, w3, ⟨hw3, hahead3⟩, hrest3⟩ | ⟨-, hfalse⟩
      swap
      · exact hfalse.elim
      rw [← hahead3] at hlen hrounds ⊢
      rcases writeClient_bind hw3 hround (.refl _) hrest3 with
        ⟨w4, hw4, hahead4, hrest4⟩ | ⟨hfailed, hrefused⟩
      swap
      · exact hfails hfailed (.inl hrefused)
      rw [← hahead4] at hlen hrounds ⊢
      rcases eval_bind_cases hrest4 with ⟨buf5, w5, hwrap, hrest5⟩ | ⟨⟨o, hwrap, ho⟩, hfailed⟩
      · rcases eval_wrap_cases hwrap with ⟨_, hout, hresponse⟩ | ⟨-, hbad⟩
        swap
        · exact absurd rfl (hbad _)
        cases hout
        rcases forwardMSSQLClientSSPIResponse_ends (answerEnds rounds) false hsspi
          hw4 (reaches_of_uses keeps_forwardLogin7Loop hrest5) hresponse hrounds with
          ⟨_, hout, hw5, hconcludes, hle⟩ | ⟨hbad, -⟩
        swap
        · exact absurd rfl (hbad _)
        cases hout
        rw [hconcludes]
        rw [length_cons] at hlen hrounds
        exact ih hw5 hrest5 (by omega) (by omega)
      · rcases eval_wrap_cases hwrap with ⟨_, rfl, -⟩ | ⟨⟨o', hresponse, ho'⟩, -⟩
        · exact absurd rfl (ho _)
        rcases forwardMSSQLClientSSPIResponse_ends (answerEnds rounds) false hsspi hw4 (.refl _)
          hresponse hrounds with ⟨_, rfl, -⟩ | ⟨-, hor⟩
        · exact absurd rfl (ho' _)
        · exact hfails hfailed (hor rfl)
    · rename_i hsspi
      rcases writeClient_bind hw2 (uses_ite uses_pure keeps_forwardLogin7Loop) (.refl _) hrest with
        ⟨w3, hw3, hahead, hrest3⟩ | ⟨hfailed, hrefused⟩
      swap
      · exact hfails hfailed (.inl hrefused)
      rw [← hahead] at hlen hrounds ⊢
      rw [concludes_message hsspi]
      rw [length_cons] at hlen hrounds
      split at hrest3
      · rename_i heom
        cases hrest3
        rw [if_pos heom]
        exact ⟨fun _ => ⟨hw3.refused, rfl⟩, fun _ => rfl⟩
      · rename_i heom
        rw [if_neg heom]
        exact ih hw3 hrest3 (by omega) (by omega)

/-! ## The handlers -/

inductive Login where
  | passthrough
  | interception (user : Option User) (preLoginData login7Data : Bytes)

/-- A handler up to the `Login7` packet. -/
def Login.forward (cfg : Config) : Login → Handler Unit
  | .passthrough => passMSSQLLogin cfg
  | .interception user preLoginData login7Data =>
    interceptMSSQLLogin cfg user preLoginData login7Data

/-- `handleMSSQLPassthrough` or `handleMSSQLInterception`. -/
def Login.handler (cfg : Config) : Login → Handler Unit
  | .passthrough => handleMSSQLPassthrough cfg
  | .interception user preLoginData login7Data =>
    handleMSSQLInterception cfg user preLoginData login7Data

variable {l : Login}

/-- After `Login7` both handlers do the same. -/
theorem eval_handler {w₀ : World} (hlogin : eval (l.forward cfg) w₀ = (some (.ok ()), w))
    (hrun : eval (l.handler cfg) w₀ = (out, w')) : eval (completeMSSQLLogin cfg) w = (out, w') := by
  have hsplit : eval (l.handler cfg) w₀ =
      andThen (eval (l.forward cfg) w₀) fun _ w => eval (completeMSSQLLogin cfg) w := by
    cases l <;> exact eval_bind _ _ _
  rw [hsplit, hlogin] at hrun
  exact hrun

/-! ### What the tokens say -/

/-- The types of the tokens in a stream, as far as they are known.  The lengths
are those of `ParseTokenStream`. -/
def tokenTypes : Nat → Bytes → List UInt8
  | 0, _ => []
  | _, [] => []
  | n + 1, tokenType :: data =>
    tokenType ::
      if tokenType = 0xFD ∨ tokenType = 0xFF then tokenTypes n (data.drop 8)
      else if tokenType ∈ [0xAA, 0xAB, 0xAD, 0xED, 0xE3] then
        tokenTypes n (data.drop (2 + littleEndian (data.take 2)))
      else if tokenType = 0xD1 then tokenTypes n data
      else if tokenType = 0x81 then tokenTypes n (data.drop 2)
      else []

/-- The tokens that the server has sent between `w` and `w'`. -/
def serverTokens (w w' : World) : List UInt8 :=
  let stream := (packets (w.ahead [] w').1).flatMap Packet.payload
  tokenTypes stream.length stream

/-- There is a `LoginAck` token among the tokens, and no `Error` token. -/
def loginAccepted (tokens : List UInt8) : Bool := tokens.contains 0xAD && !tokens.contains 0xAA

/-- What a handler should make of a login: it counts as a success only if the
server accepted it, and otherwise the handler fails and records that. -/
structure LoginOutcome (accepted : Bool) (w₀ w' : World) (r : Except Exc Unit) : Prop where
  success : w'.sess.authenticated = true ∨ w₀.sess.successes < w'.sess.successes →
    accepted = true
  failure : accepted = false → (∃ e, r = .error (.err e)) ∧ w₀.sess.failures < w'.sess.failures

/-- The operations that record no failure. -/
def Unfailing : Op → Prop
  | .recordAuthFailure => False
  | _ => True

theorem step_unfailing {o : Op} {r : o.Ret} (ho : Unfailing o) (h : step w o = some (r, w')) :
    w'.sess.failures = w.sess.failures := by
  cases o
  case recordAuthFailure => exact ho.elim
  case stuck | reload => cases h
  case readFull | readDirect | write | startTLS | isLimited | random | mapOrder
      | onClientConnect =>
    exact congrArg Core.failures (step_outer h trivial).2
  case loadOrStore | compareAndSwap =>
    simp only [step] at h
    split at h <;> cases h <;> rfl
  case note n =>
    cases h
    cases n <;> rfl
  all_goals
    cases h
    rfl

/-- If the handler returns, `Q` holds of its result and of the number of
failures that were recorded before it. -/
abbrev Records (p : Handler α) (n : Nat) (Q : α → Nat → Prop) : Prop :=
  p.Ensures (M := sessions) step (fun w => w.sess.failures) n Q

variable {p : Handler α}

theorem records_of_unfailing (hp : p.Uses Unfailing) : Records p n fun _ m => m = n :=
  ensures_of_uses hp step_unfailing

theorem Quiet.unfailing : ∀ o : Op, Quiet o → Unfailing o := by
  intro o h
  cases o <;> trivial

theorem records_quiet (hp : p.Uses Quiet) : Records p n fun _ m => m = n :=
  records_of_unfailing (Prog.uses_mono hp Quiet.unfailing)

theorem records_bind {f : α → Handler β} {Q : β → Nat → Prop}
    (hp : Records p n fun _ m => m = n) (hf : ∀ a, Records (f a) n Q) : Records (p >>= f) n Q := by
  refine ensures_bind hp fun a m hm => ?_
  rw [hm]
  exact hf a

/-- A failure is recorded only by a part that does not return. -/
theorem records_failure {Q : α → Nat → Prop} :
    Records (op .recordAuthFailure >>= fun _ => fail e) n Q :=
  ensures_bind (Q := fun _ _ => True) (fun _ _ _ _ _ => trivial) fun _ _ _ => ensures_throw

theorem records_checkConnectionLimit {u : Bytes} {user : User} :
    Records (checkConnectionLimit rounds u user (op .recordAuthFailure >>= fun _ => fail e)) n
      fun _ m => m = n := by
  have hloop : ∀ max rounds, (tryIncrementLoop u max rounds).Uses Unfailing := by
    intro max rounds
    induction rounds with
    | zero => exact uses_step trivial fun _ => uses_pure
    | succ rounds ih =>
      exact uses_bind (uses_op trivial) fun _ => uses_ite uses_pure
        (uses_bind (uses_op trivial) fun _ => uses_ite uses_pure ih)
  refine ensures_ite (fun _ => records_bind (records_of_unfailing ?_) fun counted => ?_)
    fun _ => ensures_pure rfl
  · exact uses_ite uses_pure (uses_step trivial fun _ => hloop _ _)
  · exact ensures_ite (fun _ => ensures_pure rfl) fun _ => records_failure

theorem records_forward : Records (l.forward cfg) n fun _ m => m = n := by
  cases l with
  | passthrough => exact records_quiet quiet_passMSSQLLogin
  | interception user preLoginData login7Data =>
    cases user with
    | none =>
      exact ensures_bind (Q := fun _ _ => True) (fun _ _ _ _ _ => trivial) fun _ _ _ =>
        ensures_bind (Q := fun _ _ => True) (fun _ _ _ _ _ => trivial) fun _ _ _ =>
          ensures_throw
    | some user =>
      have hstore : (storeNTLMUser user).Uses Quiet := uses_ite (uses_op trivial) uses_pure
      have hcheck : Records (checkInterceptedUser cfg user) n fun _ m => m = n := by
        refine records_bind (records_quiet (uses_op trivial)) fun u =>
          records_bind records_checkConnectionLimit fun _ => ?_
        exact ensures_ite (fun _ => records_of_unfailing (uses_op trivial)) fun _ =>
          records_failure
      have hconn : Records (orRecordFailure (takeServerConn cfg.mode)) n fun _ m => m = n := by
        refine ensures_handle (records_quiet quiet_takeServerConn) fun e m => ?_
        cases e with
        | err e => exact records_failure
        | panic => exact ensures_throw
      refine records_bind (records_quiet hstore) fun _ => records_bind hcheck fun _ =>
        records_bind hconn fun _ => records_quiet ?_
      exact uses_bind (quiet_wrap quiet_write) fun _ =>
        uses_bind (quiet_wrap (quiet_of_relays relays_forwardMSSQLPreLoginResponse)) fun _ =>
          quiet_wrap quiet_write

/-- After `Login7`, a handler never records a failed authentication. -/
theorem failures_completeMSSQLLogin (h : eval (completeMSSQLLogin cfg) w = (out, w')) :
    w'.sess.failures = w.sess.failures :=
  eval_of_uses
    (quiet_of_relays relays_completeMSSQLLogin)
    (fun ho hw hstep => (step_unfailing (Quiet.unfailing _ ho) hstep).trans hw) rfl h

/-- When an MSSQL handler ends after it has passed on `Login7`, the outcome is
as it should be if and only if the server accepted the login. -/
theorem loginOutcome_iff_accepted {cfg : Config} (l : Login) {w₀ w w' : World}
    {r : Except Exc Unit} (hlogin : eval (l.forward cfg) w₀ = (some (.ok ()), w))
    (hrun : eval (l.handler cfg) w₀ = (some r, w')) :
    LoginOutcome (loginAccepted (serverTokens w w')) w₀ w' r ↔
      loginAccepted (serverTokens w w') = true := by
  have hsame : w'.sess.failures = w₀.sess.failures :=
    (failures_completeMSSQLLogin (eval_handler hlogin hrun)).trans
      (records_forward w₀ () w rfl hlogin)
  refine ⟨fun houtcome => ?_, fun haccepted => ⟨fun _ => haccepted, fun hnot => ?_⟩⟩
  · by_contra hnot
    have hrecorded := (houtcome.failure (Bool.eq_false_iff.mpr hnot)).2
    omega
  · rw [haccepted] at hnot
    cases hnot

def tdsPacket (packetType status : UInt8) (payload : Bytes) : Bytes :=
  packetType :: status :: putBigEndian 2 (8 + payload.length) ++ [0, 0, 1, 0] ++ payload

def tdsPool (authMode : Pool.AuthMode) : Config where
  body := .msSQL
  authMode
  poolName := ascii "p"
  rounds := 5

/-- A server that answers the Pre-Login packet, then `Login7` with `answer`,
and after that every packet with `later`. -/
def tdsServer (preLogin login7 : Bytes) (answer later : List Bytes) : Go.Conn where
  peer := { reply := fun written =>
    if written = preLogin then [tdsPacket 4 1 [255]]
    else if written = preLogin ++ login7 then answer
    else later }

/-- A client of a pool in passthrough mode, and the answer to its login. -/
def tdsClient (answer : Bytes) : Arrival where
  id := 0
  client := {
    peer := { reply := fun _ => [] }
    inp := [tdsPacket 0x12 1 [255], tdsPacket 0x10 1 [1]]
    nonempty := by simp [tdsPacket] }
  backend := .ok (tdsServer (tdsPacket 0x12 1 [255]) (tdsPacket 0x10 1 [1])
    [tdsPacket 4 1 answer] [])

/-- The world of such a client, and that world once its login is passed on. -/
def tdsWorld (answer : Bytes) : World := ⟨{ users := [] }, newSession (tdsClient answer)⟩

theorem loginOutcome_iff_accepted_ack :
    ∃ w w', eval (Login.passthrough.forward (tdsPool .passthrough)) (tdsWorld [0xAD, 0, 0]) =
        (some (.ok ()), w) ∧
      eval (Login.passthrough.handler (tdsPool .passthrough)) (tdsWorld [0xAD, 0, 0]) =
        (some (.ok ()), w') ∧
      LoginOutcome (loginAccepted (serverTokens w w')) (tdsWorld [0xAD, 0, 0]) w' (.ok ()) := by
  have hlogin := eval_eq_of_fst (p := Login.passthrough.forward (tdsPool .passthrough))
    (w := tdsWorld [0xAD, 0, 0]) (a := ()) (by decide +kernel)
  have hrun := eval_eq_of_fst (p := Login.passthrough.handler (tdsPool .passthrough))
    (w := tdsWorld [0xAD, 0, 0]) (a := ()) (by decide +kernel)
  exact ⟨_, _, hlogin, hrun,
    (loginOutcome_iff_accepted .passthrough hlogin hrun).mpr (by decide +kernel)⟩

/-- A server that answers with an `Error` token: the session is authenticated
all the same. -/
theorem error_token_authenticates :
    ∃ w w', eval (Login.passthrough.forward (tdsPool .passthrough)) (tdsWorld [0xAA, 0, 0]) =
        (some (.ok ()), w) ∧
      eval (Login.passthrough.handler (tdsPool .passthrough)) (tdsWorld [0xAA, 0, 0]) =
        (some (.ok ()), w') ∧
      ¬LoginOutcome (loginAccepted (serverTokens w w')) (tdsWorld [0xAA, 0, 0]) w' (.ok ()) := by
  have hlogin := eval_eq_of_fst (p := Login.passthrough.forward (tdsPool .passthrough))
    (w := tdsWorld [0xAA, 0, 0]) (a := ()) (by decide +kernel)
  have hrun := eval_eq_of_fst (p := Login.passthrough.handler (tdsPool .passthrough))
    (w := tdsWorld [0xAA, 0, 0]) (a := ()) (by decide +kernel)
  refine ⟨_, _, hlogin, hrun, fun houtcome => ?_⟩
  exact absurd (houtcome.success (.inl (by decide +kernel))) (by decide +kernel)

end Geryon.Startup
