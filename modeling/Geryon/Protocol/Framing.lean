import Geryon.Protocol.ReadMessage

/-!
# Reading a stream of messages

The relay calls `ReadMessage` again and again on one `net.Conn`.  Each call
makes its own `bufio.Reader`, so a message is lost, in whole or in part, when
an earlier call has taken its bytes into the buffer it then dropped.

`readMessages` is the loop.  `Delivered` says that it returns the messages of
the stream one by one and then `io.EOF`, and `NoOverread` says, of the lengths
of the messages and of the chunks alone, when it does
(`delivered_iff_noOverread`).
-/

namespace Geryon.Wire

open Go List BufReader Source

/-- The results of `k` calls of `ReadMessage`, one after the other, on the
same reader. -/
def readMessages (p : Protocol) : Nat → Source → List (Except ReadError Message)
  | 0, _ => []
  | k + 1, s => (readMessage p s).1 :: readMessages p k (readMessage p s).2

/-- `ReadMessage`, given the byte string alone, returns a message that is all
of it. -/
def Accepts (p : Protocol) (m : List UInt8) : Prop :=
  ∃ msg, (readMessage p (whole m)).1 = .ok msg ∧ msg.raw = m

/-- The calls return the messages `ms`, in order, and then `io.EOF`. -/
def Delivered (p : Protocol) (ms : List (List UInt8)) (s : Source) : Prop :=
  ∃ msgs : List Message,
    readMessages p (ms.length + 1) s = msgs.map .ok ++ [.error (.io .eof)] ∧
      msgs.map (·.raw) = ms

/-- Every message ends where a chunk ends, or in a chunk that may cross its end.  The
arguments are the size of the header, the lengths of the messages, and the chunks. -/
def NoOverread (h : Nat) : List Nat → List (List UInt8) → Prop
  | [], _ => True
  | l :: ls, cs => BufReader.Fits h 0 l cs ∧ NoOverread h ls (dropBytes l cs)

/-! ## One message -/

variable {p : Protocol} {m : List UInt8} {s : Source}

theorem accepts_iff_hasFrame : Accepts p m ↔ ∃ n, HasFrame p m n ∧ m.length = headerLen p + n := by
  constructor
  · rintro ⟨msg, hmsg, hraw⟩
    obtain ⟨n, hf⟩ := readMessage_inv (Prod.ext hmsg rfl)
    obtain ⟨msg', s', hread, hraw', -, -⟩ := readMessage_ok hf
    rw [whole_bytes] at hf hraw'
    have hsame : msg = msg' := by simpa [hread] using hmsg.symm
    have hlen : m.length = (m.take (headerLen p + n)).length := by
      rw [← hraw', ← hsame, hraw]
    rw [length_take, Nat.min_eq_left hf.length] at hlen
    exact ⟨n, hf, hlen⟩
  · rintro ⟨n, hf, hlen⟩
    rw [← whole_bytes m] at hf
    obtain ⟨msg, s', hread, hraw, -, -⟩ := readMessage_ok hf
    refine ⟨msg, by rw [hread], ?_⟩
    rw [hraw, whole_bytes, take_of_length_le (by omega)]

theorem HasFrame.append {n : Nat} (hf : HasFrame p m n) (rest : List UInt8) :
    HasFrame p (m ++ rest) n := by
  have hlen := hf.length
  constructor
  · rw [take_append_of_le_length (by omega)]
    exact hf.payload
  · rw [length_append]
    omega

/-- The call that reads the first message of a stream returns it.  Nothing of
the messages after it is lost if and only if the chunks fit. -/
theorem readMessage_first {rest : List UInt8} (hm : Accepts p m) (hs : s.bytes = m ++ rest) :
    ∃ msg s', readMessage p s = (.ok msg, s') ∧ msg.raw = m ∧
      (BufReader.Fits (headerLen p) 0 m.length s.chunks →
        s'.chunks = dropBytes m.length s.chunks ∧ s'.bytes = rest) ∧
      (¬ BufReader.Fits (headerLen p) 0 m.length s.chunks → s'.bytes.length < rest.length) := by
  obtain ⟨n, hf, hlen⟩ := accepts_iff_hasFrame.mp hm
  have hf' : HasFrame p s.bytes n := hs ▸ hf.append rest
  obtain ⟨msg, s', hread, hraw, hchunks, hrest⟩ := readMessage_ok hf'
  have hfits := fetchThen_of_fits (n := n) s.nonempty (headerLen_lt_bufSize p)
    (headerLen_pos p)
  rw [Nat.sub_zero, ← hlen] at hfits
  rw [hs, ← hlen, take_left] at hraw
  rw [hs, ← hlen, drop_left] at hrest
  refine ⟨msg, s', hread, hraw, ?_, ?_⟩
  · intro hfit
    have hfetch := hfits.1 hfit
    rw [hfetch] at hchunks hrest
    exact ⟨hchunks, hrest⟩
  · intro hfit
    have hpos : 0 < (fetchThen (headerLen p) n s.chunks).1.length :=
      length_pos_iff.mpr (hfits.2 hfit)
    rw [← hrest, length_append]
    omega

/-! ## A stream of messages -/

variable {k : Nat} {msgs : List Message} {tail : List (Except ReadError Message)}
  {ms : List (List UInt8)}

theorem raw_length_le (h : readMessages p k s = msgs.map .ok ++ tail) :
    (msgs.map (·.raw)).flatten.length ≤ s.bytes.length := by
  induction msgs generalizing k s with
  | nil => simp
  | cons msg msgs ih =>
    cases k with
    | zero => simp [readMessages] at h
    | succ k =>
      simp only [readMessages, map_cons, cons_append, cons.injEq] at h
      obtain ⟨hfirst, hnext⟩ := h
      obtain ⟨n, hf⟩ := readMessage_inv (Prod.ext hfirst rfl)
      obtain ⟨msg', s', hread, hraw, -, hrest⟩ := readMessage_ok hf
      have hsame : msg = msg' := by simpa [hread] using hfirst.symm
      have hle : (msgs.map (·.raw)).flatten.length ≤ s'.bytes.length := by
        simpa only [hread] using ih hnext
      have hdrop := congrArg length hrest
      rw [length_append, length_drop] at hdrop
      have hlen := hf.length
      simp only [map_cons, flatten_cons, length_append, hsame, hraw, length_take]
      omega

theorem delivered_cons {s' : Source} {msg : Message} (hread : readMessage p s = (.ok msg, s'))
    (hraw : msg.raw = m) : Delivered p (m :: ms) s ↔ Delivered p ms s' := by
  constructor
  · rintro ⟨msgs, hcalls, hraws⟩
    cases msgs with
    | nil => simp at hraws
    | cons msg' msgs =>
      rw [length_cons, readMessages, hread] at hcalls
      simp only [map_cons, cons_append, cons.injEq] at hcalls hraws
      exact ⟨msgs, hcalls.2, hraws.2⟩
  · rintro ⟨msgs, hcalls, hraws⟩
    refine ⟨msg :: msgs, ?_, by rw [map_cons, hraw, hraws]⟩
    rw [length_cons, readMessages, hread, hcalls]
    rfl

theorem delivered_of_noOverread (hms : ∀ m ∈ ms, Accepts p m) (hs : s.bytes = ms.flatten)
    (h : NoOverread (headerLen p) (ms.map length) s.chunks) : Delivered p ms s := by
  induction ms generalizing s with
  | nil =>
    have heof := readMessage_eof (p := p) (by simpa using hs)
    exact ⟨[], by simp [readMessages, heof], rfl⟩
  | cons m ms ih =>
    obtain ⟨msg, s', hread, hraw, hfit, -⟩ :=
      readMessage_first (hms m mem_cons_self) (by simpa using hs)
    obtain ⟨hchunks, hbytes⟩ := hfit h.1
    rw [delivered_cons hread hraw]
    exact ih (fun m' hm' => hms m' (mem_cons_of_mem m hm')) hbytes (hchunks ▸ h.2)

/-- If some calls return the messages of a stream one by one, whatever they
return then, nothing has been over-read. -/
theorem noOverread_of_calls (hms : ∀ m ∈ ms, Accepts p m) (hs : s.bytes = ms.flatten)
    (hcalls : readMessages p k s = msgs.map .ok ++ tail) (hraws : msgs.map (·.raw) = ms) :
    NoOverread (headerLen p) (ms.map length) s.chunks := by
  induction ms generalizing s k msgs with
  | nil => trivial
  | cons m ms ih =>
    have hfirst : s.bytes = m ++ ms.flatten := by simpa using hs
    obtain ⟨msg, s', hread, hraw, hfit, hnofit⟩ :=
      readMessage_first (hms m mem_cons_self) hfirst
    obtain ⟨msg', msgs, rfl⟩ := exists_cons_of_ne_nil (l := msgs) (by rintro rfl; simp at hraws)
    cases k with
    | zero => simp [readMessages] at hcalls
    | succ k =>
      rw [readMessages, hread] at hcalls
      simp only [map_cons, cons_append, cons.injEq] at hcalls hraws
      by_cases hf : BufReader.Fits (headerLen p) 0 m.length s.chunks
      · obtain ⟨hchunks, hbytes⟩ := hfit hf
        have hms' : ∀ m' ∈ ms, Accepts p m' := fun m' hm' => hms m' (mem_cons_of_mem m hm')
        exact ⟨hf, hchunks ▸ ih hms' hbytes hcalls.2 hraws.2⟩
      · -- Bytes are lost with the buffer, and too few are left for the others.
        have hlost := hnofit hf
        have hle := raw_length_le hcalls.2
        rw [hraws.2] at hle
        omega

/-- The messages of a stream come out one by one, and then `io.EOF`, if and
only if no chunk goes beyond the end of the message it starts in, unless it
may. -/
theorem delivered_iff_noOverread {p : Protocol} {ms : List (List UInt8)} {s : Source}
    (hms : ∀ m ∈ ms, Accepts p m) (hs : s.bytes = ms.flatten) :
    Delivered p ms s ↔ NoOverread (headerLen p) (ms.map length) s.chunks := by
  constructor
  · rintro ⟨msgs, hcalls, hraws⟩
    exact noOverread_of_calls hms hs hcalls hraws
  · exact delivered_of_noOverread hms hs

def pgSync : List UInt8 := [0x53, 0, 0, 0, 4]

theorem accepts_pgSync : Accepts .postgreSQL pgSync :=
  ⟨⟨0x53, 4, [], pgSync, .frontend⟩, by rfl, rfl⟩

/-- Two messages, the first cut in two, with a chunk of its own for the
second. -/
def oneByOne : Source where
  chunks := [[0x53, 0], [0, 0, 4], pgSync]
  eofWithLast := false
  nonempty := by decide

theorem delivered_oneByOne : (∀ m ∈ [pgSync, pgSync], Accepts .postgreSQL m) ∧
      oneByOne.bytes = [pgSync, pgSync].flatten ∧
      Delivered .postgreSQL [pgSync, pgSync] oneByOne := by
  have hms : ∀ m ∈ [pgSync, pgSync], Accepts .postgreSQL m := by
    simp [accepts_pgSync]
  refine ⟨hms, rfl, (delivered_iff_noOverread hms rfl).mpr ?_⟩
  simp [NoOverread, BufReader.Fits, dropBytes, oneByOne, pgSync]

/-- Two messages that arrive together: the second one is lost. -/
theorem pipelined_not_delivered :
    ¬ ∀ (ms : List (List UInt8)) (s : Source), (∀ m ∈ ms, Accepts .postgreSQL m) →
      s.bytes = ms.flatten → Delivered .postgreSQL ms s := by
  intro h
  obtain ⟨msgs, hcalls, hraws⟩ := h [pgSync, pgSync] (whole (pgSync ++ pgSync))
    (by simp [accepts_pgSync]) rfl
  have hlost : readMessages .postgreSQL 3 (whole (pgSync ++ pgSync)) =
      [.ok ⟨0x53, 4, [], pgSync, .frontend⟩, .error (.io .eof), .error (.io .eof)] := by rfl
  have hlen := congrArg length hraws
  match msgs, hlen with
  | [_, _], _ => simp [hlost] at hcalls

end Geryon.Wire
