import Geryon.Cache.Clean
import Geryon.Protocol.Framing
import Geryon.Proxy.Tracking

/-!
# The end of a response

Two loops look for the end of a response.  `forwardServerToClient` calls
`OnQueryComplete`, and `forwardAndCapture` stops.  Both go by the type of the
message.  In MySQL that is the first byte of the payload, which may be anything
in a packet with a row, and in MSSQL it is the type of the packet, which is the
same for all packets of a response.

`completion_iff` says, of the bytes of a stream and the chunks they arrive in,
when the loops find the ends.
-/

namespace Geryon.Completion

open Go Wire Tracking List Function

/-! ## The loops -/

/-- The messages that a loop gets: what `ReadMessage` returns until it
fails. -/
def received : List (Except ReadError Message) → List Message
  | .ok msg :: results => msg :: received results
  | _ => []

/-- `forwardServerToClient`: the messages it forwards, and for which of them it
calls `OnQueryComplete`. -/
def forwarded : Bool → List Message → List (List UInt8 × Bool)
  | _, [] => []
  | inTxn, msg :: msgs =>
    (msg.raw, (onReply inTxn msg).2) :: forwarded (onReply inTxn msg).1 msgs

/-- `forwardAndCapture`: the messages it has forwarded when it stops, if it
does. -/
def captured (msgs : List Message) : Option (List (List UInt8)) :=
  (Cache.response (msgs.map fun msg => ⟨msg, 0⟩)).map fun replies =>
    replies.map fun reply => reply.msg.raw

/-! ## Responses -/

/-- A response: its packets, of which there is a last one. -/
structure Response where
  init : List (List UInt8)
  last : List UInt8

namespace Response

def packets (r : Response) : List (List UInt8) := r.init ++ [r.last]

/-- What `forwardServerToClient` is to do with a response. -/
def marked (r : Response) : List (List UInt8 × Bool) := r.init.map (·, false) ++ [(r.last, true)]

end Response

/-- The packets of several responses. -/
def stream (rs : List Response) : List (List UInt8) := rs.flatMap Response.packets

/-- `OnQueryComplete` is called once for each response, on its last packet. -/
def Completes (p : Wire.Protocol) (rs : List Response) (s : Source) : Prop :=
  forwarded false (received (readMessages p ((stream rs).length + 1) s)) =
    rs.flatMap Response.marked

/-- `forwardAndCapture` stops with the last packet. -/
def Captures (p : Wire.Protocol) (r : Response) (s : Source) : Prop :=
  captured (received (readMessages p (r.packets.length + 1) s)) = some r.packets

instance (p : Wire.Protocol) (rs : List Response) (s : Source) : Decidable (Completes p rs s) :=
  inferInstanceAs (Decidable (_ = _))

instance (p : Wire.Protocol) (r : Response) (s : Source) : Decidable (Captures p r s) :=
  inferInstanceAs (Decidable (_ = _))

def kind (p : Wire.Protocol) (packet : List UInt8) : UInt8 :=
  match p with
  | .postgreSQL | .msSQL => packet.headD 0
  | .mySQL => (packet.drop 4).headD 0

/-- The packets are such as a server sends: `ReadMessage` takes each of them
for one message, and those of MSSQL have the type of a response. -/
def Response.Valid (p : Wire.Protocol) (r : Response) : Prop :=
  ∀ m ∈ r.packets, Accepts p m ∧ (p = .msSQL → kind p m = 0x04)

/-- The last packet is the only one of a type that `isEnd`. -/
def Response.EndsAt (p : Wire.Protocol) (isEnd : UInt8 → Bool) (r : Response) : Prop :=
  isEnd (kind p r.last) = true ∧ ∀ m ∈ r.init, isEnd (kind p m) = false

/-- The types that end a response for `forwardServerToClient`, PostgreSQL's
`ReadyForQuery` apart. -/
def isOKOrEOF (t : UInt8) : Bool := t = 0x00 || t = 0xfe

/-- The type that ends a response for `forwardAndCapture`. -/
def isReadyType (t : UInt8) : Bool := t = 0x5a

/-! ## Messages and packets -/

section Messages

variable {p : Wire.Protocol} {msg : Message} {msgs : List Message}

/-- A message as `ReadMessage` returns it. -/
def Built (p : Wire.Protocol) (msg : Message) : Prop :=
  ∃ header payload, header.length = headerLen p ∧ msg = build p header payload

theorem exists_received (results : List (Except ReadError Message)) :
    ∃ tail, results = (received results).map .ok ++ tail := by
  induction results with
  | nil => exact ⟨[], rfl⟩
  | cons result results ih =>
    cases result with
    | error e => exact ⟨.error e :: results, rfl⟩
    | ok msg =>
      obtain ⟨tail, htail⟩ := ih
      refine ⟨tail, ?_⟩
      rw [received, map_cons, cons_append, ← htail]

theorem received_map_ok (msgs : List Message) (e : ReadError) :
    received (msgs.map .ok ++ [.error e]) = msgs := by
  induction msgs with
  | nil => rfl
  | cons msg msgs ih => rw [map_cons, cons_append, received, ih]

theorem built_of_mem_received {k : Nat} {s : Source} (h : msg ∈ received (readMessages p k s)) :
    Built p msg := by
  induction k generalizing s with
  | zero => simp [readMessages, received] at h
  | succ k ih =>
    rw [readMessages] at h
    cases hread : (readMessage p s).1 with
    | error e => simp [hread, received] at h
    | ok msg' =>
      rw [hread, received, mem_cons] at h
      rcases h with rfl | h
      · exact readMessage_build (Prod.ext hread rfl)
      · exact ih h

theorem kind_raw (hp : p ≠ .postgreSQL) (h : Built p msg) : kind p msg.raw = msg.msgType := by
  obtain ⟨header, payload, hlen, rfl⟩ := h
  cases p with
  | postgreSQL => exact absurd rfl hp
  | mySQL =>
    have hdrop : (header ++ payload).drop 4 = payload := drop_left' hlen
    simp [kind, build, MySQLCodec.build, hdrop]
  | msSQL =>
    cases header with
    | nil => cases hlen
    | cons b header => rfl

theorem not_isOKOrEOF_of_isAside {t : UInt8} (h : Cache.isAside t = true) :
    isOKOrEOF t = false := by
  simp only [Cache.isAside, contains_eq_mem, mem_cons, not_mem_nil, or_false,
    decide_eq_true_eq] at h
  rcases h with rfl | rfl | rfl | rfl | rfl | rfl | rfl <;> rfl

variable (inTxn : Bool)

/-- The decision of `forwardServerToClient`, in MySQL: a payload that starts
with `'Z'` does not start with a status. -/
theorem onReply_mySQL (h : msg.msgType = msg.payload.headD 0) :
    (onReply inTxn msg).2 = isOKOrEOF msg.msgType := by
  rw [onReply]
  split_ifs with haside hready hidle hopen hend
  · exact (not_isOKOrEOF_of_isAside haside).symm
  · rw [hready.1, headD_eq_head?_getD, hidle] at h
    exact absurd h (by decide)
  · rw [hready.1]
    rfl
  · rw [hready.1]
    rfl
  · rcases hend with hend | hend <;> rw [hend] <;> rfl
  · rw [not_or] at hend
    simp [isOKOrEOF, hend]

theorem onReply_complete (hp : p ≠ .postgreSQL) (h : Built p msg)
    (hkind : p = .msSQL → kind p msg.raw = 0x04) :
    (onReply inTxn msg).2 = isOKOrEOF (kind p msg.raw) := by
  rw [kind_raw hp h] at hkind ⊢
  cases p with
  | postgreSQL => exact absurd rfl hp
  | mySQL =>
    obtain ⟨header, payload, -, rfl⟩ := h
    exact onReply_mySQL inTxn rfl
  | msSQL =>
    have htype := hkind rfl
    simp [onReply, htype, Cache.isAside, isOKOrEOF]

theorem forwarded_eq (hp : p ≠ .postgreSQL) (h : ∀ msg ∈ msgs, Built p msg)
    (hkind : ∀ msg ∈ msgs, p = .msSQL → kind p msg.raw = 0x04) : forwarded inTxn msgs =
      (msgs.map (·.raw)).map fun m => (m, isOKOrEOF (kind p m)) := by
  induction msgs generalizing inTxn with
  | nil => rfl
  | cons msg msgs ih =>
    have hfirst := onReply_complete inTxn hp (h msg mem_cons_self)
      (hkind msg mem_cons_self)
    rw [forwarded, hfirst, ih _ (fun m hm => h m (mem_cons_of_mem msg hm))
      fun m hm => hkind m (mem_cons_of_mem msg hm)]
    rfl

theorem map_fst_forwarded (msgs : List Message) :
    (forwarded inTxn msgs).map Prod.fst = msgs.map (·.raw) := by
  induction msgs generalizing inTxn with
  | nil => rfl
  | cons msg msgs ih => rw [forwarded, map_cons, ih, map_cons]

end Messages

/-! ## The marks of a response -/

theorem map_fst_marked (rs : List Response) :
    (rs.flatMap Response.marked).map Prod.fst = stream rs := by
  rw [map_flatMap]
  congr 1
  funext r
  simp [Response.marked, Response.packets, comp_def]

/-- The decisions on one response are right if and only if it ends at its last
packet. -/
theorem map_packets_eq_iff {p : Wire.Protocol} {isEnd : UInt8 → Bool} {r : Response} :
    r.packets.map (fun m => (m, isEnd (kind p m))) = r.marked ↔ r.EndsAt p isEnd := by
  simp [Response.packets, Response.marked, Response.EndsAt, and_comm]

/-- The decisions on a stream are right if and only if every response ends at
its last packet. -/
theorem map_stream_eq_iff {p : Wire.Protocol} {isEnd : UInt8 → Bool} {rs : List Response} :
    (stream rs).map (fun m => (m, isEnd (kind p m))) = rs.flatMap Response.marked ↔
      ∀ r ∈ rs, r.EndsAt p isEnd := by
  induction rs with
  | nil => simp [stream]
  | cons r rs ih =>
    rw [forall_mem_cons, ← ih, ← map_packets_eq_iff, stream, flatMap_cons, map_append, flatMap_cons]
    constructor
    · intro h
      exact append_inj h (by simp [Response.packets, Response.marked])
    · rintro ⟨hr, hrs⟩
      rw [hr]
      exact congrArg _ hrs

/-! ## The two loops on a stream -/

section Streams

variable {p : Wire.Protocol} {s : Source}

theorem completes_iff {rs : List Response} (hp : p ≠ .postgreSQL) (hrs : ∀ r ∈ rs, r.Valid p)
    (hs : s.bytes = (stream rs).flatten) :
    Completes p rs s ↔ NoOverread (headerLen p) ((stream rs).map length) s.chunks ∧
      ∀ r ∈ rs, r.EndsAt p isOKOrEOF := by
  have hvalid : ∀ m ∈ stream rs, Accepts p m ∧ (p = .msSQL → kind p m = 0x04) := by
    intro m hm
    obtain ⟨r, hr, hm⟩ := mem_flatMap.mp hm
    exact hrs r hr m hm
  have haccepts : ∀ m ∈ stream rs, Accepts p m := fun m hm => (hvalid m hm).1
  -- What the loop does when it gets the packets one by one.
  have hdecide : ∀ k, (received (readMessages p k s)).map (·.raw) = stream rs →
      forwarded false (received (readMessages p k s)) =
        (stream rs).map fun m => (m, isOKOrEOF (kind p m)) := by
    intro k hraws
    rw [forwarded_eq false hp (fun msg hmsg => built_of_mem_received hmsg), hraws]
    intro msg hmsg
    exact (hvalid msg.raw (hraws ▸ mem_map_of_mem hmsg)).2
  constructor
  · intro h
    have hraws : (received (readMessages p ((stream rs).length + 1) s)).map (·.raw) =
        stream rs := by
      rw [← map_fst_forwarded false, h, map_fst_marked]
    obtain ⟨tail, hcalls⟩ := exists_received (readMessages p ((stream rs).length + 1) s)
    refine ⟨noOverread_of_calls haccepts hs hcalls hraws, map_stream_eq_iff.mp ?_⟩
    rw [← hdecide _ hraws]
    exact h
  · rintro ⟨hover, hends⟩
    obtain ⟨msgs, hcalls, hraws⟩ := delivered_of_noOverread haccepts hs hover
    rw [Completes, hdecide _ (by rw [hcalls, received_map_ok, hraws])]
    exact map_stream_eq_iff.mpr hends

theorem captured_cons (msg : Message) (msgs : List Message) : captured (msg :: msgs) =
      if msg.msgType = 0x5a then some [msg.raw] else (captured msgs).map (msg.raw :: ·) := by
  by_cases h : msg.msgType = 0x5a
  · simp [captured, Cache.response, Cache.Reply.isReady, h]
  · simp [captured, Cache.response, Cache.Reply.isReady, h, comp_def]

/-- `forwardAndCapture` stops with the first message of type `'Z'`. -/
theorem captured_eq_some_iff {msgs : List Message} {raws : List (List UInt8)} :
    captured msgs = some raws ↔ ∃ init last rest, msgs = init ++ last :: rest ∧
      raws = init.map (·.raw) ++ [last.raw] ∧ last.msgType = 0x5a ∧
        ∀ msg ∈ init, msg.msgType ≠ 0x5a := by
  induction msgs generalizing raws with
  | nil => simp [captured, Cache.response]
  | cons msg msgs ih =>
    rw [captured_cons]
    split_ifs with htype
    · constructor
      · intro h
        exact ⟨[], msg, msgs, rfl, (Option.some.inj h).symm, htype, by simp⟩
      · rintro ⟨init, last, rest, heq, rfl, -, hinit⟩
        cases init with
        | nil =>
          cases heq
          rfl
        | cons msg' init =>
          cases heq
          exact absurd htype (hinit msg mem_cons_self)
    · rw [Option.map_eq_some_iff]
      constructor
      · rintro ⟨raws', hraws', rfl⟩
        obtain ⟨init, last, rest, rfl, rfl, hlast, hinit⟩ := ih.mp hraws'
        exact ⟨msg :: init, last, rest, rfl, rfl, hlast, forall_mem_cons.mpr ⟨htype, hinit⟩⟩
      · rintro ⟨init, last, rest, heq, rfl, hlast, hinit⟩
        cases init with
        | nil =>
          cases heq
          exact absurd hlast htype
        | cons msg' init =>
          cases heq
          exact ⟨_, ih.mpr ⟨init, last, rest, rfl, rfl, hlast, (forall_mem_cons.mp hinit).2⟩, rfl⟩

theorem captures_iff {r : Response} (hp : p ≠ .postgreSQL) (hr : r.Valid p)
    (hs : s.bytes = r.packets.flatten) :
    Captures p r s ↔ NoOverread (headerLen p) (r.packets.map length) s.chunks ∧
      r.EndsAt p isReadyType := by
  have haccepts : ∀ m ∈ r.packets, Accepts p m := fun m hm => (hr m hm).1
  have hbuilt : ∀ k, ∀ msg ∈ received (readMessages p k s), kind p msg.raw = msg.msgType :=
    fun k msg hmsg => kind_raw hp (built_of_mem_received hmsg)
  constructor
  · intro h
    obtain ⟨init, last, rest, hmsgs, hraws, hlast, hinit⟩ := captured_eq_some_iff.mp h
    obtain ⟨tail, hcalls⟩ := exists_received (readMessages p (r.packets.length + 1) s)
    have hkind := hbuilt (r.packets.length + 1)
    rw [hmsgs] at hcalls hkind
    constructor
    · have hfirst : readMessages p (r.packets.length + 1) s =
          (init ++ [last]).map .ok ++ (rest.map .ok ++ tail) := by
        rw [hcalls]
        simp
      exact noOverread_of_calls haccepts hs hfirst (by simp [hraws])
    · obtain ⟨hr1, hr2⟩ := append_inj' hraws rfl
      constructor
      · rw [singleton_inj.mp hr2, hkind last (by simp), hlast]
        rfl
      · intro m hm
        rw [hr1] at hm
        obtain ⟨msg, hmsg, rfl⟩ := mem_map.mp hm
        rw [hkind msg (mem_append_left _ hmsg)]
        exact decide_eq_false (hinit msg hmsg)
  · rintro ⟨hover, hends⟩
    obtain ⟨msgs, hcalls, hraws⟩ := delivered_of_noOverread haccepts hs hover
    have hkind := hbuilt (r.packets.length + 1)
    rw [hcalls, received_map_ok] at hkind
    obtain ⟨init, last, rfl, hr1, hr2⟩ := map_eq_append_iff.mp hraws
    obtain ⟨last, rfl, hlast⟩ := map_eq_singleton_iff.mp hr2
    rw [Captures, hcalls, received_map_ok]
    refine captured_eq_some_iff.mpr ⟨init, last, [], rfl, by rw [hr1, hlast]; rfl, ?_, ?_⟩
    · rw [← hkind last (by simp), hlast]
      exact of_decide_eq_true hends.1
    · intro msg hmsg
      rw [← hkind msg (mem_append_left _ hmsg)]
      exact of_decide_eq_false (hends.2 msg.raw (hr1 ▸ mem_map_of_mem hmsg))

end Streams

/-- When the ends of responses are found.  `forwardServerToClient` finds them in MySQL
only, where each response ends with the first packet that starts with `0x00` or `0xfe`,
or is empty.  `forwardAndCapture` finds that of a MySQL response whose last packet is
the first one that starts with `0x5a`, and so of none that ends with an OK, EOF or ERR
packet. -/
theorem completion_iff (p : Wire.Protocol) (hp : p ≠ .postgreSQL) :
    (∀ (rs : List Response) (s : Source), (∀ r ∈ rs, r.Valid p) → s.bytes = (stream rs).flatten →
        (Completes p rs s ↔ NoOverread (headerLen p) ((stream rs).map length) s.chunks ∧
          ∀ r ∈ rs, r.EndsAt p isOKOrEOF)) ∧
      ∀ (r : Response) (s : Source), r.Valid p → s.bytes = r.packets.flatten →
        (Captures p r s ↔ NoOverread (headerLen p) (r.packets.map length) s.chunks ∧
          r.EndsAt p isReadyType) :=
  ⟨fun _ _ => completes_iff hp, fun _ _ => captures_iff hp⟩

def packet (seq : UInt8) (payload : List UInt8) : List UInt8 :=
  [.ofNat payload.length, 0, 0, seq] ++ payload

def ok : Response := ⟨[], packet 1 [0x00, 0, 0, 2, 0, 0, 0]⟩

/-- A result with one column and one row.  The two EOF packets have the same
first byte. -/
def resultSet : Response where
  init := [packet 1 [1], packet 2 [3, 0x64, 0x65, 0x66, 0, 0, 0, 1, 0x61, 0, 0x0c, 0x3f, 0, 1, 0, 0,
    0, 8, 0x81, 0, 0, 0, 0], packet 3 [0xfe, 0, 0, 2, 0], packet 4 [1, 0x31]]
  last := packet 5 [0xfe, 0, 0, 2, 0]

/-- A response of MSSQL: one packet with a `DONE` token. -/
def done : Response := ⟨[], [4, 1, 0, 21, 0, 55, 1, 0, 0xfd, 0, 0, 0xd4, 0, 0, 0, 0, 0, 0, 0, 0, 0]⟩

/-- A stream that arrives packet by packet. -/
def packetwise (packets : List (List UInt8)) (h : ∀ c ∈ packets, c ≠ []) : Source :=
  ⟨packets, false, h⟩

theorem valid_ok : ok.Valid .mySQL := by
  simp only [Response.Valid, Response.packets, ok, nil_append, forall_mem_singleton]
  exact ⟨⟨_, by rfl, rfl⟩, nofun⟩

theorem completes_ok : (∀ r ∈ [ok, ok], r.Valid .mySQL) ∧
      Completes .mySQL [ok, ok] (packetwise (stream [ok, ok]) (by decide)) := by
  have hvalid : ∀ r ∈ [ok, ok], r.Valid .mySQL := by simp [valid_ok]
  refine ⟨hvalid, ((completion_iff .mySQL (by decide)).1 [ok, ok] _ hvalid rfl).mpr ⟨?_, ?_⟩⟩
  · simp [NoOverread, BufReader.Fits, BufReader.dropBytes, stream, Response.packets, packetwise,
      ok, packet]
  · simp [Response.EndsAt, ok, packet, kind, isOKOrEOF]

theorem valid_resultSet : resultSet.Valid .mySQL := by
  simp only [Response.Valid, Response.packets, resultSet, cons_append, nil_append, forall_mem_cons]
  exact ⟨⟨⟨_, by rfl, rfl⟩, nofun⟩, ⟨⟨_, by rfl, rfl⟩, nofun⟩, ⟨⟨_, by rfl, rfl⟩, nofun⟩,
    ⟨⟨_, by rfl, rfl⟩, nofun⟩, ⟨⟨_, by rfl, rfl⟩, nofun⟩, nofun⟩

theorem valid_done : done.Valid .msSQL := by
  simp only [Response.Valid, Response.packets, done, nil_append, forall_mem_singleton]
  exact ⟨⟨_, by rfl, rfl⟩, fun _ => rfl⟩

/-- Three ways to miss an end: there are two EOF packets in a result, no
message of MySQL is `ReadyForQuery`, and no packet of MSSQL is an end. -/
theorem ends_missed : (resultSet.Valid .mySQL ∧
        ¬ Completes .mySQL [resultSet] (packetwise (stream [resultSet]) (by decide))) ∧
      (ok.Valid .mySQL ∧ ¬ Captures .mySQL ok (packetwise ok.packets (by decide))) ∧
      done.Valid .msSQL ∧ ¬ Completes .msSQL [done] (packetwise (stream [done]) (by decide)) :=
  ⟨⟨valid_resultSet, by decide +kernel⟩, ⟨valid_ok, by decide +kernel⟩, valid_done,
    by decide +kernel⟩

end Geryon.Completion
