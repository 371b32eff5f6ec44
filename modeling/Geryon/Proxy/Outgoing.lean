import Geryon.Go.Binary
import Geryon.Protocol.Queries
import Geryon.Protocol.ReadMessage

/-!
# Messages that the proxy makes itself

`WriteMessage` writes `Raw`, and nothing else.  Three places make a message of
their own: `sendRollbackToBackend` and `reprepareStatement` in
`internal/proxy/listener.go`, and `GenerateResetSequence` of each codec.  The
first two fill in `Type` and `Payload` only.
-/

namespace Geryon.Wire

open Go PGCodec

/-! ## The messages -/

/-- `WriteMessage`, of all codecs: the bytes that are written. -/
def writeMessage (msg : Message) : List UInt8 := msg.raw

/-- The message of `sendRollbackToBackend`, whatever the protocol is. -/
def rollbackMsg : Message where
  msgType := 0x51
  length := 0
  payload := str "ROLLBACK" ++ [0]
  raw := []

def putUint16 (n : Nat) : List UInt8 := [.ofNat (n / 0x100), .ofNat n]

namespace PGCodec

def buildParsePayload (name query : Str) (paramTypes : List Nat) : List UInt8 :=
  name ++ [0] ++ query ++ [0] ++ putUint16 paramTypes.length ++
    paramTypes.flatMap fun type => putUint32 (.ofNat type)

def createQueryMessage (query : Str) : Message where
  msgType := 0x51
  length := 4 + query.length + 1
  payload := query ++ [0]
  raw := [0x51] ++ putUint32 (.ofNat (4 + query.length + 1)) ++ query ++ [0]

def generateResetSequence : List Message := [createQueryMessage (str "DISCARD ALL")]

end PGCodec

/-- The message of `reprepareStatement`. -/
def parseMsg (boundStmtName query : Str) : Message where
  msgType := 0x50
  length := 0
  payload := buildParsePayload boundStmtName query []
  raw := []

namespace MySQLCodec

def createPacket (seqNum : UInt8) (payload : List UInt8) : Message where
  msgType := payload.headD 0
  length := payload.length
  payload := payload
  raw := [.ofNat payload.length, .ofNat (payload.length / 0x100), .ofNat (payload.length / 0x10000),
    seqNum] ++ payload

/-- `GenerateResetSequence`: `ComResetConnection`. -/
def generateResetSequence : List Message := [createPacket 0 [0x1f]]

end MySQLCodec

namespace TDSCodec

def createPacket (msgType : UInt8) (payload : List UInt8) : Message where
  msgType := msgType
  length := 8 + payload.length
  payload := payload
  raw := [msgType, 0x01] ++ putUint16 (8 + payload.length) ++ [0, 0, 0, 0] ++ payload

/-- `GenerateResetSequence`: a `PacketTypeRPC`. -/
def generateResetSequence : List Message := [createPacket 0x03 [0, 0, 0, 0]]

end TDSCodec

def generateResetSequence : Protocol → List Message
  | .postgreSQL => PGCodec.generateResetSequence
  | .mySQL => MySQLCodec.generateResetSequence
  | .msSQL => TDSCodec.generateResetSequence

/-! ## What they are for -/

/-- A place where the proxy makes messages. -/
inductive Site where
  | rollback
  | reprepare (boundStmtName query : Str)
  | reset
  deriving DecidableEq

/-- The messages made there.  `reprepareStatement` makes one for PostgreSQL
only. -/
def Site.messages (p : Protocol) : Site → List Message
  | .rollback => [rollbackMsg]
  | .reprepare name query => if p = .postgreSQL then [parseMsg name query] else []
  | .reset => generateResetSequence p

/-- The type and the payload of the query `ROLLBACK` in a protocol. -/
def rollbackQuery : Protocol → UInt8 × List UInt8
  | .postgreSQL => (0x51, str "ROLLBACK" ++ [0])
  | .mySQL => (0x03, 0x03 :: str "ROLLBACK")
  | .msSQL => (0x01, (str "ROLLBACK").flatMap fun b => [b, 0])

/-- The types and the payloads that are meant. -/
def Site.intended (p : Protocol) : Site → List (UInt8 × List UInt8)
  | .rollback => [rollbackQuery p]
  | .reprepare name query =>
    if p = .postgreSQL then [(0x50, buildParsePayload name query [])] else []
  | .reset => (generateResetSequence p).map fun msg => (msg.msgType, msg.payload)

/-- Something is written, and `ReadMessage` gets the message that is meant,
however the bytes arrive. -/
def Reaches (p : Protocol) (msg : Message) (intended : UInt8 × List UInt8) : Prop :=
  writeMessage msg ≠ [] ∧ ∀ s : Source, s.bytes = writeMessage msg →
    ∃ msg', (readMessage p s).1 = .ok msg' ∧ msg'.msgType = intended.1 ∧
      msg'.payload = intended.2

/-- All messages made at a place reach the other side. -/
def Site.Reaches (p : Protocol) (site : Site) : Prop :=
  List.Forall₂ (Wire.Reaches p) (site.messages p) (site.intended p)

/-! ## Which ones do -/

/-- A message whose bytes are one frame, with its own type and payload. -/
theorem reaches_of_hasFrame {p : Protocol} {msg : Message} {n : Nat}
    (hf : HasFrame p msg.raw n) (hlen : msg.raw.length = headerLen p + n)
    (htype : (build p (msg.raw.take (headerLen p)) (msg.raw.drop (headerLen p))).msgType =
      msg.msgType)
    (hpayload : (build p (msg.raw.take (headerLen p)) (msg.raw.drop (headerLen p))).payload =
      msg.payload) : Reaches p msg (msg.msgType, msg.payload) := by
  have hpos := headerLen_pos p
  constructor
  · intro hnil
    rw [writeMessage] at hnil
    rw [hnil, List.length_nil] at hlen
    omega
  · intro s hs
    rw [writeMessage] at hs
    have hread := readMessage_whole (by rwa [hs]) (by rwa [hs])
    rw [hs] at hread
    exact ⟨_, hread, htype, hpayload⟩

theorem reset_reaches (p : Protocol) : Site.Reaches p .reset := by
  cases p with
  | postgreSQL =>
    exact .cons (reaches_of_hasFrame ⟨rfl, by decide⟩ rfl rfl rfl) .nil
  | mySQL =>
    exact .cons (reaches_of_hasFrame ⟨rfl, by decide⟩ rfl rfl rfl) .nil
  | msSQL =>
    exact .cons (reaches_of_hasFrame ⟨rfl, by decide⟩ rfl rfl rfl) .nil

theorem not_reaches_of_raw {p : Protocol} {msg : Message} {intended : UInt8 × List UInt8}
    (h : msg.raw = []) : ¬ Reaches p msg intended :=
  fun hreaches => hreaches.1 h

/-- A message that has been read is passed on as it came, byte for byte, and the
codec at the other end gets the same message from it, however it arrives. -/
theorem passed_on_unchanged {p : Protocol} {s s' : Source} {msg : Message}
    (h : readMessage p s = (.ok msg, s')) : writeMessage msg <+: s.bytes ∧
      ∀ s₂ : Source, s₂.bytes = writeMessage msg → (readMessage p s₂).1 = .ok msg := by
  obtain ⟨n, hf⟩ := readMessage_inv h
  obtain ⟨msg', s'', hread, hraw, -⟩ := readMessage_ok hf
  cases h.symm.trans hread
  obtain ⟨header, payload, hheader, rfl⟩ := readMessage_build h
  rw [writeMessage, hraw]
  refine ⟨?_, ?_⟩
  · exact List.take_prefix _ _
  intro s₂ hs
  have hlen : s₂.bytes.length = headerLen p + n := by
    rw [hs, List.length_take, Nat.min_eq_left hf.length]
  have hframe : HasFrame p s₂.bytes n := by
    refine ⟨?_, Nat.le_of_eq hlen.symm⟩
    rw [hs, List.take_take, Nat.min_eq_left (Nat.le_add_right _ _)]
    exact hf.payload
  rw [readMessage_whole hframe hlen, hs, ← hraw, build_raw, List.take_left' hheader,
    List.drop_left' hheader]

theorem reset_passed_on_unchanged : ∃ msg,
    (readMessage .mySQL (.whole [1, 0, 0, 0, 0x1f])).1 = .ok msg ∧
      writeMessage msg <+: [1, 0, 0, 0, 0x1f] :=
  ⟨_, rfl, (passed_on_unchanged (p := .mySQL) (s := .whole [1, 0, 0, 0, 0x1f]) rfl).1⟩

end Geryon.Wire
