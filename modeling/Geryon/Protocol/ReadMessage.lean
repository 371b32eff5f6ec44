import Geryon.Protocol.Message

/-!
# `ReadMessage` of the three codecs

`PGCodec.ReadMessage`, `MySQLCodec.ReadMessage` and `TDSCodec.ReadMessage`.
Each of them wraps its reader in a fresh `bufio.Reader`, reads a header of fixed
size, computes the length of the payload from it, and reads the payload:
`readFrame`.  What the `bufio.Reader` has taken beyond the message is gone when
the call returns: the second component of a result is the reader without the
buffer.

* `HasFrame` says, of the bytes alone, that a message is at their front.
* `readMessage_ok` is the call that finds one: the message, and where the
  reader stands after it.
* `readMessage_inv` says that a call that returns a message found one.
-/

namespace Geryon.Wire

open Go List BufReader

/-- The outcome of a call: a message or an error, and the reader after it. -/
abbrev ReadResult := Except ReadError Message × Source

/-- A function that reads from a `bufio.Reader`. -/
abbrev BufRead := BufReader → Except IOErr (List UInt8) × BufReader

/-- Read a payload of `n` bytes; nothing is read when there is none. -/
def readPayload (n : Nat) : BufRead := fun reader =>
  if 0 < n then reader.readFull n else (.ok [], reader)

/-- The body the three codecs share. -/
def readFrame (readHeader : BufRead) (payloadLen : List UInt8 → Except ReadError Nat)
    (build : List UInt8 → List UInt8 → Message) (r : Source) : ReadResult :=
  match readHeader (newReader r) with
  | (.error e, reader) => (.error (.io e), reader.rd)
  | (.ok header, reader) =>
    match payloadLen header with
    | .error e => (.error e, reader.rd)
    | .ok n =>
      match readPayload n reader with
      | (.error e, reader) => (.error (.io e), reader.rd)
      | (.ok payload, reader) => (.ok (build header payload), reader.rd)

/-! ## PostgreSQL -/

namespace PGCodec

def maxPayloadLen : Nat := 1 <<< 24

/-- The type byte with `ReadByte`, then the four length bytes. -/
def readHeader : BufRead := fun reader =>
  match reader.readByte with
  | (.error e, reader) => (.error e, reader)
  | (.ok msgType, reader) =>
    match reader.readFull 4 with
    | (.error e, reader) => (.error e, reader)
    | (.ok lengthBytes, reader) => (.ok (msgType :: lengthBytes), reader)

/-- The payload length that the header stands for. -/
def payloadLen (header : List UInt8) : Except ReadError Nat :=
  let length := bigEndian header.tail
  if length < 4 then .error (.errorf s!"invalid message length: {length}")
  else
    let n : Int := length - 4
    if n < 0 then .error (.errorf s!"invalid message length: {length}")
    else if (maxPayloadLen : Int) < n then .error (.errorf s!"message too large: {n} bytes")
    else .ok n.toNat

/-- The message with the given header and payload. -/
def build (header payload : List UInt8) : Message where
  msgType := header.headD 0
  length := bigEndian header.tail
  payload := payload
  raw := header ++ payload

def readMessage : Source → ReadResult := readFrame readHeader payloadLen build

end PGCodec

/-! ## MySQL -/

namespace MySQLCodec

def maxPayloadLen : Nat := (1 <<< 24) - 1

/-- The payload length that the four header bytes stand for.  The last one is
a sequence number. -/
def payloadLen (header : List UInt8) : Except ReadError Nat :=
  let length := littleEndian (header.take 3)
  if maxPayloadLen < length then .error (.errorf s!"packet too large: {length}")
  else .ok length

/-- The message with the given header and payload.  Its type is the first
byte of the payload. -/
def build (header payload : List UInt8) : Message where
  msgType := payload.headD 0
  length := littleEndian (header.take 3)
  payload := payload
  raw := header ++ payload

def readMessage : Source → ReadResult :=
  readFrame (fun reader => reader.readFull 4) payloadLen build

end MySQLCodec

/-! ## MSSQL -/

namespace TDSCodec

def maxPayloadLen : Nat := 1 <<< 24

/-- The payload length that the eight header bytes stand for. -/
def payloadLen (header : List UInt8) : Except ReadError Nat :=
  let length := bigEndian ((header.drop 2).take 2)
  if length < 8 then .error (.errorf s!"invalid TDS packet length: {length}")
  else
    let n : Int := length - 8
    if n < 0 then .error (.errorf s!"invalid TDS packet length: {length}")
    else if (maxPayloadLen : Int) < n then .error (.errorf s!"TDS packet too large: {n} bytes")
    else .ok n.toNat

/-- The message with the given header and payload. -/
def build (header payload : List UInt8) : Message where
  msgType := header.headD 0
  length := bigEndian ((header.drop 2).take 2)
  payload := payload
  raw := header ++ payload

def readMessage : Source → ReadResult :=
  readFrame (fun reader => reader.readFull 8) payloadLen build

end TDSCodec

/-! ## The three together -/

def readMessage : Protocol → Source → ReadResult
  | .postgreSQL => PGCodec.readMessage
  | .mySQL => MySQLCodec.readMessage
  | .msSQL => TDSCodec.readMessage

def headerLen : Protocol → Nat
  | .postgreSQL => 5
  | .mySQL => 4
  | .msSQL => 8

def readHeader : Protocol → BufRead
  | .postgreSQL => PGCodec.readHeader
  | .mySQL => fun reader => reader.readFull 4
  | .msSQL => fun reader => reader.readFull 8

def payloadLen : Protocol → List UInt8 → Except ReadError Nat
  | .postgreSQL => PGCodec.payloadLen
  | .mySQL => MySQLCodec.payloadLen
  | .msSQL => TDSCodec.payloadLen

/-- The message with the given header and payload. -/
def build : Protocol → List UInt8 → List UInt8 → Message
  | .postgreSQL => PGCodec.build
  | .mySQL => MySQLCodec.build
  | .msSQL => TDSCodec.build

section

variable (p : Protocol)

theorem readMessage_eq_readFrame :
    readMessage p = readFrame (readHeader p) (payloadLen p) (build p) := by
  cases p <;> rfl

@[simp] theorem build_raw (header payload : List UInt8) :
    (build p header payload).raw = header ++ payload := by
  cases p <;> rfl

theorem headerLen_pos : 0 < headerLen p := by
  cases p <;> decide

theorem headerLen_lt_bufSize : headerLen p < bufSize := by
  cases p <;> decide

end

/-! ## Reading a header -/

/-- `f` reads `k` bytes through an empty buffer, as one read of `k` bytes
does. -/
structure ReadsHeader (k : Nat) (f : BufRead) : Prop where
  ok : ∀ b : BufReader, b.WF → b.buf = [] → k ≤ b.content.length →
    ∃ b', f b = (.ok (b.content.take k), b') ∧ b'.content = b.content.drop k ∧
      (b'.buf, b'.rd.chunks) = fetch k b.rd.chunks ∧ b'.WF
  length : ∀ (b b' : BufReader) (header : List UInt8), b.WF → b.buf = [] →
    f b = (.ok header, b') → k ≤ b.content.length
  eof : ∀ b : BufReader, b.WF → b.buf = [] → b.content = [] → (f b).1 = .error .eof

theorem readsHeader_readFull {k : Nat} (hk : 0 < k) :
    ReadsHeader k (fun reader => reader.readFull k) where
  ok b hw hb hlen := by
    obtain ⟨b', hread, hcontent, hafter, hw'⟩ := readFull_ok hw hlen
    exact ⟨b', hread, hcontent, by rw [hafter, after_of_buf_nil hb], hw'⟩
  length b b' header hw _ h := length_of_readFull_ok hw h
  eof b hw _ hnil := by
    rw [readFull_data hw, hnil]
    simp [show ¬ k ≤ 0 by omega]

/-- `ReadByte` and a read of four bytes are, as far as the bytes and the
reader underneath go, one read of five. -/
theorem readsHeader_pg : ReadsHeader 5 PGCodec.readHeader where
  ok b hw hb hlen := by
    obtain ⟨b1, hread1, hcontent1, hafter1, hw1⟩ :=
      readFull_ok (n := 1) hw (by omega)
    have hlen1 : 4 ≤ b1.content.length := by rw [hcontent1, length_drop]; omega
    obtain ⟨b2, hread2, hcontent2, hafter2, hw2⟩ := readFull_ok hw1 hlen1
    rw [after_of_buf_nil hb] at hafter1
    rw [after_of_fetch hafter1, fetchThen_of_small (by decide)] at hafter2
    obtain ⟨x, xs, hx⟩ : ∃ x xs, b.content = x :: xs :=
      exists_cons_of_length_pos (by omega)
    refine ⟨b2, ?_, ?_, hafter2, hw2⟩
    · simp only [PGCodec.readHeader, readByte_eq_readFull hw, hread1, Except.map, hread2]
      simp [hcontent1, hx]
    · rw [hcontent2, hcontent1, drop_drop]
  length b b' header hw hb h := by
    have h1 : 1 ≤ b.content.length := by
      by_contra hlen
      have hdata := readFull_data (n := 1) hw
      rw [if_neg hlen] at hdata
      simp only [PGCodec.readHeader, readByte_eq_readFull hw] at h
      split_ifs at hdata <;> simp [hdata, Except.map] at h
    obtain ⟨b1, hread1, hcontent1, -, hw1⟩ := readFull_ok hw h1
    simp only [PGCodec.readHeader, readByte_eq_readFull hw, hread1, Except.map] at h
    split at h
    · simp at h
    · rename_i lengthBytes reader hread
      have h4 := length_of_readFull_ok hw1 hread
      rw [hcontent1, length_drop] at h4
      omega
  eof b hw _ hnil := by
    have hdata := readFull_data (n := 1) hw
    simp only [hnil, length_nil, ne_eq, not_true_eq_false, if_false] at hdata
    simp [PGCodec.readHeader, readByte_eq_readFull hw, hdata, Except.map]

theorem readsHeader (p : Protocol) : ReadsHeader (headerLen p) (readHeader p) := by
  cases p with
  | postgreSQL => exact readsHeader_pg
  | mySQL | msSQL => exact readsHeader_readFull (by decide)

/-! ## Reading a message -/

/-- At the front of the bytes there is a message with a payload of `n`
bytes. -/
structure HasFrame (p : Protocol) (bytes : List UInt8) (n : Nat) : Prop where
  payload : payloadLen p (bytes.take (headerLen p)) = .ok n
  length : headerLen p + n ≤ bytes.length

variable {n : Nat} {s' : Source} {msg : Message}

theorem readPayload_ok {b : BufReader} (hw : b.WF) (hlen : n ≤ b.content.length) :
    ∃ b', readPayload n b = (.ok (b.content.take n), b') ∧ b'.content = b.content.drop n ∧
      (b'.buf, b'.rd.chunks) = b.after n := by
  unfold readPayload
  split_ifs with hn
  · obtain ⟨b', hread, hcontent, hafter, -⟩ := readFull_ok hw hlen
    exact ⟨b', hread, hcontent, hafter⟩
  · obtain rfl : n = 0 := by omega
    exact ⟨b, by simp, by simp, by simp [BufReader.after]⟩

theorem newReader_wf (s : Source) : (newReader s).WF := by
  intro h
  exact absurd rfl h

@[simp] theorem newReader_content (s : Source) : (newReader s).content = s.bytes := by
  simp [newReader, content]

variable {p : Protocol} {s : Source}

/-- A call that finds a message returns it.  The reader then stands where
header and payload leave it, and what they leave in the buffer is not in it. -/
theorem readMessage_ok (hf : HasFrame p s.bytes n) : ∃ msg s', readMessage p s = (.ok msg, s') ∧
      msg.raw = s.bytes.take (headerLen p + n) ∧
      s'.chunks = (fetchThen (headerLen p) n s.chunks).2 ∧
      (fetchThen (headerLen p) n s.chunks).1 ++ s'.bytes =
        s.bytes.drop (headerLen p + n) := by
  have hlen := hf.length
  obtain ⟨b1, hhead, hcontent1, hfetch, hw1⟩ :=
    (readsHeader p).ok (newReader s) (newReader_wf s) rfl (by rw [newReader_content]; omega)
  rw [newReader_content] at hhead hcontent1
  obtain ⟨b2, hpay, hcontent2, hafter⟩ := readPayload_ok (n := n) hw1
    (by rw [hcontent1, length_drop]; omega)
  rw [after_of_fetch hfetch] at hafter
  refine ⟨build p (s.bytes.take (headerLen p)) (b1.content.take n), b2.rd, ?_, ?_, ?_, ?_⟩
  · rw [readMessage_eq_readFrame]
    simp [readFrame, hhead, hf.payload, hpay]
  · rw [build_raw, hcontent1, take_add]
  · exact congrArg Prod.snd hafter
  · have hbuf : b2.buf = (fetchThen (headerLen p) n s.chunks).1 :=
      congrArg Prod.fst hafter
    rw [content, hcontent1, drop_drop] at hcontent2
    rw [← hcontent2, ← hbuf]

theorem readMessage_inv (h : readMessage p s = (.ok msg, s')) : ∃ n, HasFrame p s.bytes n := by
  rw [readMessage_eq_readFrame] at h
  unfold readFrame at h
  split at h
  · simp at h
  rename_i header b1 hhead
  have hlen := (readsHeader p).length _ _ _ (newReader_wf s) rfl hhead
  obtain ⟨b1', hhead', hcontent1, -, hw1⟩ := (readsHeader p).ok _ (newReader_wf s) rfl hlen
  obtain ⟨rfl, rfl⟩ : header = s.bytes.take (headerLen p) ∧ b1 = b1' := by
    rw [hhead] at hhead'
    simpa using hhead'
  split at h
  · simp at h
  rename_i n hn
  refine ⟨n, hn, ?_⟩
  rw [newReader_content] at hlen hcontent1
  split at h
  · simp at h
  rename_i payload b2 hpay
  unfold readPayload at hpay
  split_ifs at hpay with hpos
  · have hn' := length_of_readFull_ok hw1 hpay
    rw [hcontent1, length_drop] at hn'
    omega
  · omega

theorem readMessage_build (h : readMessage p s = (.ok msg, s')) :
    ∃ header payload, header.length = headerLen p ∧ msg = build p header payload := by
  rw [readMessage_eq_readFrame] at h
  unfold readFrame at h
  split at h
  · simp at h
  rename_i header b1 hhead
  have hlen := (readsHeader p).length _ _ _ (newReader_wf s) rfl hhead
  obtain ⟨b1', hhead', -⟩ := (readsHeader p).ok _ (newReader_wf s) rfl hlen
  obtain rfl : header = s.bytes.take (headerLen p) := by
    rw [hhead] at hhead'
    simpa using congrArg Prod.fst hhead'
  split at h
  · simp at h
  split at h
  · simp at h
  rename_i payload b2 hpay
  rw [newReader_content] at hlen
  refine ⟨s.bytes.take (headerLen p), payload, by rw [length_take]; omega, ?_⟩
  have hmsg := congrArg Prod.fst h
  simpa using hmsg.symm

theorem readMessage_whole (hf : HasFrame p s.bytes n) (hlen : s.bytes.length = headerLen p + n) :
    (readMessage p s).1 =
      .ok (build p (s.bytes.take (headerLen p)) (s.bytes.drop (headerLen p))) := by
  obtain ⟨msg, s', hread, hraw, -, -⟩ := readMessage_ok hf
  obtain ⟨header, payload, hheader, rfl⟩ := readMessage_build hread
  rw [build_raw, take_of_length_le (by omega)] at hraw
  rw [hread, ← hraw, take_left' hheader, drop_left' hheader]

theorem readMessage_eof (hs : s.bytes = []) : (readMessage p s).1 = .error (.io .eof) := by
  have heof := (readsHeader p).eof (newReader s) (newReader_wf s) rfl (by simp [hs])
  rw [readMessage_eq_readFrame]
  unfold readFrame
  split
  · rename_i e b hhead
    rw [hhead] at heof
    have he : e = .eof := by simpa using heof
    rw [he]
  · rename_i header b hhead
    rw [hhead] at heof
    cases heof

end Geryon.Wire
