import Geryon.Go.Reader

/-!
# Network connections and their peers

A `net.Conn`, seen from one end.  The other end is a `Peer`: what it sends
depends on what has been written to it so far.  What arrives is cut into
chunks, as in a `Source`; one `Read` delivers bytes of one chunk.

A read that does not find its bytes blocks (`none`), unless the peer has closed
the connection.  `readFull` is `io.ReadFull` through a `bufio.Reader`, whose
buffer the caller keeps; `[]` is a new reader, and what an older one had in its
buffer is lost to it.  `readDirect` is `io.ReadFull` on the connection itself.
-/

namespace Go

open List BufReader

/-- The other end of a connection. -/
structure Peer where
  /-- What it sends when it has received exactly these bytes, in chunks. -/
  reply : List UInt8 → List (List UInt8)
  /-- Whether it then closes the connection. -/
  closes : List UInt8 → Bool := fun _ => false
  /-- Whether a write goes through that makes these the bytes written. -/
  accepts : List UInt8 → Bool := fun _ => true

theorem nonempty_nil : ∀ c ∈ ([] : List (List UInt8)), c ≠ [] := by
  intro c hc
  cases hc

/-- One end of a connection.  `replies` and `refused` are bookkeeping: what the
peer sent in answer to each of the writes, and whether a write failed. -/
structure Conn where
  peer : Peer
  written : List (List UInt8) := []
  /-- What has arrived and is not read yet. -/
  inp : List (List UInt8) := []
  nonempty : ∀ c ∈ inp, c ≠ [] := by exact Go.nonempty_nil
  /-- The peer has closed the connection. -/
  closed : Bool := false
  replies : List (List (List UInt8)) := []
  refused : Bool := false

namespace Conn

variable (c : Conn)

/-- The bytes that have arrived and are not read yet. -/
def bytes : List UInt8 := c.inp.flatten

def stream : List UInt8 := c.written.flatten

/-- A `bufio.Reader` on the connection that has `buf` in its buffer. -/
def reader (buf : List UInt8) : BufReader := ⟨⟨c.inp, false, c.nonempty⟩, buf, none⟩

/-- The connection when the reader underneath a `bufio.Reader` is `rd`. -/
def readTo (rd : Source) : Conn := { c with inp := rd.chunks, nonempty := rd.nonempty }

/-- `io.ReadFull(reader, p)` with `len(p) = n`: the data and the reader's
buffer after it. -/
def readFull (buf : List UInt8) (n : Nat) :
    Option ((Except IOErr (List UInt8) × List UInt8) × Conn) :=
  let r := (c.reader buf).readFull n
  match r.1 with
  | .ok data => some ((.ok data, r.2.buf), c.readTo r.2.rd)
  | .error e => if c.closed then some ((.error e, []), c.readTo r.2.rd) else none

variable {n : Nat} {c' : Conn} {buf b : List UInt8}

theorem nonempty_dropBytes {cs : List (List UInt8)} (h : ∀ d ∈ cs, d ≠ []) :
    ∀ d ∈ dropBytes n cs, d ≠ [] := by
  induction cs generalizing n with
  | nil => simp [dropBytes]
  | cons d cs ih =>
    intro e he
    rw [dropBytes] at he
    split at he
    · exact h e he
    · split at he
      · exact ih (fun x hx => h x (mem_cons_of_mem d hx)) e he
      · rename_i hlen
        rcases mem_cons.mp he with rfl | he
        · simpa using hlen
        · exact h e (mem_cons_of_mem d he)

/-- `io.ReadFull(conn, p)` with `len(p) = n`. -/
def readDirect (n : Nat) : Option (Except IOErr (List UInt8) × Conn) :=
  let rest : Conn :=
    { c with inp := dropBytes n c.inp, nonempty := nonempty_dropBytes c.nonempty }
  if n ≤ c.bytes.length then some (.ok (c.bytes.take n), rest)
  else if c.closed then
    some (.error (if c.bytes = [] then .eof else .unexpectedEOF), rest)
  else none

/-- `Write(b)`: whether it succeeds. -/
def write (b : List UInt8) : Bool × Conn :=
  let stream := c.stream ++ b
  let reply := (c.peer.reply stream).filter (· ≠ [])
  if c.peer.accepts stream then
    (true, { c with
      written := c.written ++ [b]
      inp := c.inp ++ reply
      nonempty := by
        intro d hd
        rcases mem_append.mp hd with hd | hd
        · exact c.nonempty d hd
        · simpa using (mem_filter.mp hd).2
      closed := c.closed || c.peer.closes stream
      replies := c.replies ++ [reply] })
  else (false, { c with refused := true })

/-- What the peer has sent, as far as it is known in `c'`, from the unread
bytes of `c` on. -/
def sentSince (c' : Conn) : List UInt8 :=
  c.bytes ++ (c'.replies.drop c.replies.length).flatten.flatten

/-! ## Reading -/

variable {c}

theorem reader_wf (buf : List UInt8) : (c.reader buf).WF := by
  intro h
  exact absurd rfl h

theorem reader_content (buf : List UInt8) : (c.reader buf).content = buf ++ c.bytes := rfl

/-- A connection that was only read from. -/
structure SameBut (c c' : Conn) : Prop where
  peer : c'.peer = c.peer
  written : c'.written = c.written
  closed : c'.closed = c.closed
  replies : c'.replies = c.replies
  refused : c'.refused = c.refused

theorem sameBut_readTo (rd : Source) : c.SameBut (c.readTo rd) := ⟨rfl, rfl, rfl, rfl, rfl⟩

theorem SameBut.refl (c : Conn) : c.SameBut c := ⟨rfl, rfl, rfl, rfl, rfl⟩

variable {c'' : Conn} {buf' data : List UInt8} {e : IOErr} {c : Conn}

theorem SameBut.trans (h : c.SameBut c') (h' : c'.SameBut c'') : c.SameBut c'' :=
  ⟨h'.peer.trans h.peer, h'.written.trans h.written, h'.closed.trans h.closed,
    h'.replies.trans h.replies, h'.refused.trans h.refused⟩

/-- A `readFull` that finds its bytes returns them, and the others are still
there.  Where the connection stands depends on the chunks. -/
theorem readFull_ok (h : n ≤ (buf ++ c.bytes).length) :
    ∃ buf' c', c.readFull buf n = some ((.ok ((buf ++ c.bytes).take n), buf'), c') ∧
      buf' ++ c'.bytes = (buf ++ c.bytes).drop n ∧
      (buf', c'.inp) = (c.reader buf).after n ∧ c.SameBut c' := by
  obtain ⟨b', hread, hcontent, hafter, -⟩ :=
    BufReader.readFull_ok (reader_wf (c := c) buf) (n := n) (by rw [reader_content]; exact h)
  rw [reader_content] at hread hcontent
  refine ⟨b'.buf, c.readTo b'.rd, ?_, hcontent, hafter, sameBut_readTo _⟩
  simp only [readFull, hread]

/-- A `readFull` that does not find its bytes fails if the peer has closed the
connection, and blocks otherwise. -/
theorem readFull_short (h : (buf ++ c.bytes).length < n) :
    if c.closed then ∃ e c', c.readFull buf n = some ((.error e, []), c') ∧ c.SameBut c'
    else c.readFull buf n = none := by
  have hdata := readFull_data (reader_wf (c := c) buf) (n := n)
  rw [reader_content, if_neg (by omega)] at hdata
  have herr : ∃ e, ((c.reader buf).readFull n).1 = .error e := by
    split at hdata
    · exact ⟨_, hdata⟩
    · exact ⟨_, hdata⟩
  obtain ⟨e, he⟩ := herr
  split
  · rename_i hclosed
    refine ⟨e, c.readTo ((c.reader buf).readFull n).2.rd, ?_, sameBut_readTo _⟩
    simp only [readFull, he, hclosed, if_true]
  · rename_i hclosed
    simp only [readFull, he, hclosed]
    rfl

theorem of_readFull_ok (h : c.readFull buf n = some ((.ok data, buf'), c')) :
    n ≤ (buf ++ c.bytes).length ∧ data = (buf ++ c.bytes).take n ∧
      buf' ++ c'.bytes = (buf ++ c.bytes).drop n ∧
      (buf', c'.inp) = (c.reader buf).after n ∧ c.SameBut c' := by
  by_cases hlen : n ≤ (buf ++ c.bytes).length
  · obtain ⟨buf'', c'', hread, hrest, hafter, hsame⟩ := readFull_ok hlen
    rw [hread] at h
    cases h
    exact ⟨hlen, rfl, hrest, hafter, hsame⟩
  · have hshort := readFull_short (Nat.lt_of_not_le hlen)
    split at hshort
    · obtain ⟨e, c'', hread, -⟩ := hshort
      rw [hread] at h
      cases h
    · rw [hshort] at h
      cases h

theorem of_readFull_error (h : c.readFull buf n = some ((.error e, buf'), c')) : c.SameBut c' := by
  simp only [readFull] at h
  split at h
  · cases h
  · split at h
    · cases h
      exact sameBut_readTo _
    · cases h

theorem sameBut_of_readFull {r : Except IOErr (List UInt8) × List UInt8}
    (h : c.readFull buf n = some (r, c')) : c.SameBut c' := by
  obtain ⟨r, buf'⟩ := r
  cases r with
  | ok data => exact (of_readFull_ok h).2.2.2.2
  | error e => exact of_readFull_error h

theorem of_readDirect_ok (h : c.readDirect n = some (.ok data, c')) :
    n ≤ c.bytes.length ∧ data = c.bytes.take n ∧ c'.bytes = c.bytes.drop n ∧ c.SameBut c' := by
  simp only [readDirect] at h
  split at h
  · rename_i hlen
    cases h
    exact ⟨hlen, rfl, dropBytes_flatten _ _, ⟨rfl, rfl, rfl, rfl, rfl⟩⟩
  · split at h <;> cases h

theorem of_readDirect_error (h : c.readDirect n = some (.error e, c')) :
    c.bytes.length < n ∧ c.SameBut c' := by
  simp only [readDirect] at h
  split at h
  · cases h
  · rename_i hlen
    split at h
    · cases h
      exact ⟨Nat.lt_of_not_le hlen, ⟨rfl, rfl, rfl, rfl, rfl⟩⟩
    · cases h

theorem sameBut_of_readDirect {r : Except IOErr (List UInt8)} (h : c.readDirect n = some (r, c')) :
    c.SameBut c' := by
  cases r with
  | ok data => exact (of_readDirect_ok h).2.2.2
  | error e => exact (of_readDirect_error h).2

theorem of_readDirect_none (h : c.readDirect n = none) : c.bytes.length < n := by
  simp only [readDirect] at h
  split at h
  · cases h
  · exact Nat.lt_of_not_le ‹_›

/-! ## What the peer has sent -/

/-- `c'` is `c` after more reads and writes. -/
structure Later (c c' : Conn) : Prop where
  replies : c.replies <+: c'.replies
  refused : c.refused = true → c'.refused = true

theorem Later.refl (c : Conn) : c.Later c := ⟨prefix_refl _, id⟩

theorem Later.trans (h : c.Later c') (h' : c'.Later c'') : c.Later c'' :=
  ⟨h.replies.trans h'.replies, h'.refused ∘ h.refused⟩

theorem SameBut.later (h : c.SameBut c') : c.Later c' :=
  ⟨h.replies ▸ prefix_refl _, fun hr => h.refused.trans hr⟩

theorem later_write (b : List UInt8) : c.Later (c.write b).2 := by
  simp only [write]
  split
  · exact ⟨prefix_append _ _, id⟩
  · exact ⟨prefix_refl _, fun _ => rfl⟩

theorem mem_written_write {d : List UInt8} (h : d ∈ (c.write b).2.written) :
    d ∈ c.written ∨ d = b := by
  simp only [write] at h
  split at h
  · simpa using h
  · exact .inl h

/-- What the peer sends in answer to an accepted write arrives behind what has
arrived already. -/
theorem inp_write_of_ok (h : (c.write b).1 = true) :
    ∃ reply, (c.write b).2.inp = c.inp ++ reply ∧ (c.write b).2.replies = c.replies ++ [reply] := by
  simp only [write] at h ⊢
  split at h
  · rename_i haccept
    rw [if_pos haccept]
    exact ⟨_, rfl, rfl⟩
  · cases h

theorem written_write_of_ok (h : (c.write b).1 = true) :
    (c.write b).2.written = c.written ++ [b] := by
  simp only [write] at h ⊢
  split at h
  · rename_i haccept
    rw [if_pos haccept]
  · cases h

theorem write_of_refused (h : (c.write b).1 = false) :
    (c.write b).2 = { c with refused := true } := by
  simp only [write] at h ⊢
  split at h
  · cases h
  · rename_i hrefuse
    rw [if_neg hrefuse]

theorem inp_eq_nil_of_bytes (h : c.bytes = []) : c.inp = [] := by
  cases hinp : c.inp with
  | nil => rfl
  | cons d ds =>
    have hd := c.nonempty d (hinp ▸ mem_cons_self)
    simp [bytes, hinp, hd] at h

/-- What an accepted write changes. -/
structure Wrote (c : Conn) (b : List UInt8) (c' : Conn) : Prop where
  peer : c'.peer = c.peer
  written : c'.written = c.written ++ [b]
  bytes : c'.bytes = c.bytes ++ (c.peer.reply (c.stream ++ b)).flatten
  closed : c'.closed = (c.closed || c.peer.closes (c.stream ++ b))
  replies : c'.replies = c.replies ++ [(c.peer.reply (c.stream ++ b)).filter (· ≠ [])]

theorem Wrote.stream (h : c.Wrote b c') : c'.stream = c.stream ++ b := by
  simp [Conn.stream, h.written]

theorem write_of_accepts (h : c.peer.accepts (c.stream ++ b) = true) :
    (c.write b).1 = true ∧ c.Wrote b (c.write b).2 := by
  have hflatten : ∀ l : List (List UInt8), (l.filter (· ≠ [])).flatten = l.flatten := by
    intro l
    induction l with
    | nil => rfl
    | cons d l ih =>
      cases d with
      | nil | cons => simpa using ih
  simp only [write, if_pos h]
  refine ⟨trivial, rfl, rfl, ?_, rfl, rfl⟩
  rw [bytes, bytes, flatten_append, hflatten]

theorem refused_write_of_ok (h : (c.write b).1 = true) : (c.write b).2.refused = c.refused := by
  simp only [write] at h ⊢
  split at h
  · rename_i haccept
    rw [if_pos haccept]
  · cases h

theorem refused_write_of_not (h : (c.write b).1 = false) : (c.write b).2.refused = true := by
  rw [write_of_refused h]

/-- What the peer sends in answer to a write is part of what it sends. -/
theorem sentSince_write (h : (c.write b).2.Later c') :
    (c.write b).2.sentSince c' = c.sentSince c' := by
  simp only [write] at h ⊢
  split
  · rename_i haccept
    rw [if_pos haccept] at h
    obtain ⟨later, hlater⟩ := h.replies
    simp only [sentSince, bytes, ← hlater]
    rw [drop_left, append_assoc, drop_left]
    simp
  · rfl

theorem sentSince_of_sameBut (h : c.SameBut c') : c.sentSince c' = c.bytes := by
  rw [sentSince, h.replies, drop_length]
  simp

end Conn

end Go
