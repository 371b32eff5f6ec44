import Mathlib.Data.List.Basic
import Mathlib.Tactic.SplitIfs

/-!
# Go's byte readers

The part of `io` and `bufio` that a wire-protocol reader rests on.  `Source` is an
`io.Reader` that delivers a fixed byte string cut into chunks; `BufReader` is a
`bufio.Reader` over it, with the buffer size of `bufio.NewReader`; `readFull` is
`io.ReadFull`.

* What `readFull` returns depends on the bytes only, never on how they are
  cut (`readFull_data`).
* Where the `Source` stands afterwards does depend on the cut.  `fetch` computes
  what is left in the buffer and in the source (`readFull_fetch`).  Bytes left in
  the buffer are lost to whoever goes on reading from the `Source`.

A chunk is not empty, so `Source.read` never answers `(0, nil)`, and `bufio`'s
loop on such answers is one read here.
-/

namespace Go

open List

/-- The two error values of package `io` that a reader meets. -/
inductive IOErr where
  | eof
  | unexpectedEOF
  deriving DecidableEq

/-- `defaultBufSize` of package `bufio`. -/
def bufSize : Nat := 4096

/-- An `io.Reader` over a byte string cut into chunks.  One `Read` delivers bytes of one
chunk.  `eofWithLast` says whether `io.EOF` comes with the last bytes or only with the
next call; Go allows both. -/
structure Source where
  chunks : List (List UInt8)
  eofWithLast : Bool
  nonempty : ∀ c ∈ chunks, c ≠ []

/-- What is left of the chunks `c :: cs` once up to `n` bytes of `c` are
taken. -/
def dropChunk (n : Nat) (c : List UInt8) (cs : List (List UInt8)) : List (List UInt8) :=
  if c.length ≤ n then cs else c.drop n :: cs

namespace Source

/-- The bytes that are still to be delivered. -/
def bytes (s : Source) : List UInt8 := s.chunks.flatten

/-- A reader that delivers `bytes` in one chunk. -/
def whole (bytes : List UInt8) : Source where
  chunks := if bytes = [] then [] else [bytes]
  eofWithLast := false
  nonempty := by
    intro c hc
    split at hc
    · simp at hc
    · rename_i hne
      simp only [mem_singleton] at hc
      exact hc ▸ hne

@[simp] theorem whole_bytes (bytes : List UInt8) : (whole bytes).bytes = bytes := by
  unfold whole Source.bytes
  split <;> simp_all

/-- `Read(p)` with `len(p) = n`. -/
def read (s : Source) (n : Nat) : (List UInt8 × Option IOErr) × Source :=
  match h : s.chunks with
  | [] => (([], some .eof), s)
  | c :: cs =>
    if hn : c.length ≤ n then
      ((c, if cs.isEmpty && s.eofWithLast then some .eof else none),
        ⟨cs, s.eofWithLast, fun d hd => s.nonempty d (by simp [h, hd])⟩)
    else
      ((c.take n, none),
        ⟨c.drop n :: cs, s.eofWithLast, by
          intro d hd
          rcases mem_cons.mp hd with rfl | hd
          · simpa using hn
          · exact s.nonempty d (by simp [h, hd])⟩)

theorem bytes_eq_nil_iff (s : Source) : s.bytes = [] ↔ s.chunks = [] := by
  constructor
  · intro h
    cases hc : s.chunks with
    | nil => rfl
    | cons c cs =>
      have hne := s.nonempty c (by simp [hc])
      simp [bytes, hc, hne] at h
  · intro h
    simp [bytes, h]

variable {s : Source} {n : Nat}

theorem read_of_chunks_nil (hc : s.chunks = []) : s.read n = (([], some .eof), s) := by
  unfold read
  split
  · rfl
  · rename_i h
    rw [hc] at h
    cases h

/-- A read delivers up to `n` bytes of the next chunk and reports the end, if
at all, with the last of them. -/
theorem read_of_chunks_cons {c : List UInt8} {cs : List (List UInt8)} (hc : s.chunks = c :: cs) :
    (s.read n).1.1 = c.take n ∧ (s.read n).2.chunks = dropChunk n c cs ∧
      ((s.read n).1.2 = none ∨ (s.read n).1.2 = some .eof ∧ (s.read n).2.chunks = []) := by
  unfold read dropChunk
  split
  · rename_i h
    rw [hc] at h
    cases h
  · rename_i d ds h
    obtain ⟨rfl, rfl⟩ : c = d ∧ cs = ds := by simpa [hc] using h
    split_ifs with hlen hlast
    · refine ⟨(take_of_length_le hlen).symm, rfl, Or.inr ⟨rfl, ?_⟩⟩
      simp only [Bool.and_eq_true, List.isEmpty_iff] at hlast
      exact hlast.1
    · exact ⟨(take_of_length_le hlen).symm, rfl, Or.inl rfl⟩
    · exact ⟨rfl, rfl, Or.inl rfl⟩

end Source

/-- A `bufio.Reader`: the unread part of its buffer, the error it holds back
until the buffer is empty, and the reader underneath. -/
structure BufReader where
  rd : Source
  buf : List UInt8
  err : Option IOErr

def newReader (rd : Source) : BufReader := ⟨rd, [], none⟩

namespace BufReader

/-- The bytes the reader can still deliver. -/
def content (b : BufReader) : List UInt8 := b.buf ++ b.rd.bytes

/-- An error is held back only after the reader underneath reported its end. -/
def WF (b : BufReader) : Prop := b.err ≠ none → b.err = some .eof ∧ b.rd.chunks = []

/-- `(*bufio.Reader).Read(p)` with `len(p) = n`. -/
def read (b : BufReader) (n : Nat) : (List UInt8 × Option IOErr) × BufReader :=
  if n = 0 then
    if b.buf ≠ [] then (([], none), b)
    else (([], b.err), { b with err := none })
  else if b.buf = [] then
    if b.err ≠ none then (([], b.err), { b with err := none })
    else if bufSize ≤ n then
      -- Large read, empty buffer: straight into `p`.
      let r := b.rd.read n
      (r.1, { b with rd := r.2, err := none })
    else
      let r := b.rd.read bufSize
      if r.1.1 = [] then (([], r.1.2), ⟨r.2, [], none⟩)
      else ((r.1.1.take n, none), ⟨r.2, r.1.1.drop n, r.1.2⟩)
  else ((b.buf.take n, none), { b with buf := b.buf.drop n })

def readByte (b : BufReader) : Except IOErr UInt8 × BufReader :=
  match b.buf with
  | x :: xs => (.ok x, { b with buf := xs })
  | [] =>
    match b.err with
    | some e => (.error e, { b with err := none })
    | none =>
      -- `fill`, into the empty buffer.
      let r := b.rd.read bufSize
      match r.1.1 with
      | x :: xs => (.ok x, ⟨r.2, xs, r.1.2⟩)
      | [] => (.error (r.1.2.getD .eof), ⟨r.2, [], none⟩)

/-- The loop of `io.ReadAtLeast`: read until `need` bytes are there or the
reader reports an error.  Every round delivers a byte or an error, so `need`
rounds are enough. -/
def readLoop : Nat → Nat → BufReader → (List UInt8 × Option IOErr) × BufReader
  | 0, _, b => (([], none), b)
  | fuel + 1, need, b =>
    if need = 0 then (([], none), b)
    else
      let r := b.read need
      match r.1.2 with
      | some e => ((r.1.1, some e), r.2)
      | none =>
        let rest := readLoop fuel (need - r.1.1.length) r.2
        ((r.1.1 ++ rest.1.1, rest.1.2), rest.2)

/-- `io.ReadFull(b, p)` with `len(p) = n`. -/
def readFull (b : BufReader) (n : Nat) : Except IOErr (List UInt8) × BufReader :=
  let r := readLoop n n b
  if n ≤ r.1.1.length then (.ok r.1.1, r.2)
  else if r.1.1 ≠ [] ∧ r.1.2 = some .eof then (.error .unexpectedEOF, r.2)
  else (.error (r.1.2.getD .eof), r.2)

/-! ## One read -/

variable {b : BufReader} {n : Nat} {c : List UInt8} {cs : List (List UInt8)}

theorem read_of_buf_ne_nil (hn : n ≠ 0) (hb : b.buf ≠ []) :
    b.read n = ((b.buf.take n, none), { b with buf := b.buf.drop n }) := by
  simp [read, hn, hb]

theorem read_at_end (hw : b.WF) (hn : n ≠ 0) (hb : b.buf = []) (hc : b.rd.chunks = []) :
    (b.read n).1 = ([], some .eof) ∧ (b.read n).2.content = [] := by
  have hread := fun m => Source.read_of_chunks_nil (n := m) hc
  have hbytes := (Source.bytes_eq_nil_iff b.rd).mpr hc
  by_cases he : b.err = none
  · by_cases hbig : bufSize ≤ n
    · simp [read, hn, hb, he, hread, content, hbytes]
    · simp [read, hn, hb, he, hread, hbig, content, hbytes]
  · simp [read, hn, hb, (hw he).1, content, hbytes]

/-- A read with an empty buffer takes bytes of the next chunk.  A large one takes them
straight from the source; a small one moves up to `bufSize` bytes into the buffer, and
leaves there what it does not return. -/
theorem read_of_buf_nil (hw : b.WF) (hn : n ≠ 0) (hb : b.buf = []) (hc : b.rd.chunks = c :: cs) :
    (b.read n).1.1 = c.take n ∧
      ((b.read n).1.2 = none ∨ (b.read n).1.2 = some .eof ∧ (b.read n).2.content = []) ∧
      (b.read n).2.buf = (if bufSize ≤ n then [] else (c.take bufSize).drop n) ∧
      (b.read n).2.rd.chunks = dropChunk (max bufSize n) c cs ∧ (b.read n).2.WF := by
  have hne : c ≠ [] := b.rd.nonempty c (by simp [hc])
  have he : b.err = none := by
    by_contra he
    simp [(hw he).2] at hc
  by_cases hbig : bufSize ≤ n
  · obtain ⟨hdata, hchunks, herr⟩ := Source.read_of_chunks_cons hc
    have hread : b.read n = ((b.rd.read n).1, { b with rd := (b.rd.read n).2, err := none }) := by
      simp [read, hn, hb, he, hbig]
    rw [hread]
    refine ⟨hdata, ?_, by simp [hbig, hb], by simpa [hbig] using hchunks, by simp [WF]⟩
    rcases herr with herr | ⟨herr, hnil⟩
    · exact Or.inl herr
    · exact Or.inr ⟨herr, by simp [content, hb, (Source.bytes_eq_nil_iff _).mpr hnil]⟩
  · obtain ⟨hdata, hchunks, herr⟩ := Source.read_of_chunks_cons hc
    have hfirst : (b.rd.read bufSize).1.1 ≠ [] := by
      rw [hdata]
      simpa [bufSize] using hne
    have hread : b.read n = (((b.rd.read bufSize).1.1.take n, none),
        ⟨(b.rd.read bufSize).2, (b.rd.read bufSize).1.1.drop n, (b.rd.read bufSize).1.2⟩) := by
      simp [read, hn, hb, he, hbig, hfirst]
    rw [hread]
    have hmin : min n bufSize = n := by omega
    have hmax : max bufSize n = bufSize := by omega
    refine ⟨by simp [hdata, take_take, hmin], Or.inl rfl, by simp [hbig, hdata],
      by simpa [hmax] using hchunks, ?_⟩
    intro hx
    rcases herr with herr | herr
    · exact absurd herr hx
    · exact herr

/-! ## Reading a given number of bytes -/

/-- The buffer and the chunks that are left when `need` bytes are read through an empty
buffer.  Only a small read of a chunk longer than what is wanted leaves bytes in the
buffer. -/
def fetch : Nat → List (List UInt8) → List UInt8 × List (List UInt8)
  | _, [] => ([], [])
  | need, c :: cs =>
    if need = 0 then ([], c :: cs)
    else if c.length ≤ need then fetch (need - c.length) cs
    else (if bufSize ≤ need then [] else (c.take bufSize).drop need,
      dropChunk (max bufSize need) c cs)

@[simp] theorem fetch_zero (cs : List (List UInt8)) : fetch 0 cs = ([], cs) := by
  cases cs <;> simp [fetch]

/-- The buffer and the chunks that are left when `need` bytes are read. -/
def after (b : BufReader) (need : Nat) : List UInt8 × List (List UInt8) :=
  if need ≤ b.buf.length then (b.buf.drop need, b.rd.chunks)
  else fetch (need - b.buf.length) b.rd.chunks

theorem after_of_buf_nil {need : Nat} (hb : b.buf = []) :
    b.after need = fetch need b.rd.chunks := by
  unfold after
  split_ifs with h
  · obtain rfl : need = 0 := by simpa [hb] using h
    simp [hb]
  · simp [hb]

theorem content_of_chunks_cons (hb : b.buf = []) (hc : b.rd.chunks = c :: cs) :
    b.content = c ++ cs.flatten := by
  simp [content, hb, Source.bytes, hc]

variable {fuel m h pos : Nat}

/-- The loop returns the bytes that are there.  When they are enough it stops where
`after` says; otherwise it meets the end and leaves nothing. -/
theorem readLoop_spec (hw : b.WF) (hfuel : n ≤ fuel) : (readLoop fuel n b).1.1 = b.content.take n ∧
      (n ≤ b.content.length →
        ((readLoop fuel n b).2.buf, (readLoop fuel n b).2.rd.chunks) = b.after n ∧
          (readLoop fuel n b).2.WF) ∧ (b.content.length < n →
        (readLoop fuel n b).1.2 = some .eof ∧ (readLoop fuel n b).2.content = []) := by
  induction fuel generalizing n b with
  | zero =>
    obtain rfl : n = 0 := by omega
    simp [readLoop, after, hw]
  | succ fuel ih =>
    by_cases hn : n = 0
    · subst hn
      simp [readLoop, after, hw]
    simp only [readLoop, hn, if_false]
    by_cases hb : b.buf = []
    · cases hc : b.rd.chunks with
      | nil =>
        obtain ⟨hread, hend⟩ := read_at_end hw hn hb hc
        have hcontent : b.content = [] := by
          simp [content, hb, (Source.bytes_eq_nil_iff _).mpr hc]
        simp [hread, hcontent, hend, hn]
      | cons c cs =>
        obtain ⟨hdata, herr, hbuf, hchunks, hw'⟩ := read_of_buf_nil hw hn hb hc
        have hpos : 0 < c.length := length_pos_iff.mpr (b.rd.nonempty c (by simp [hc]))
        rw [after_of_buf_nil hb, hc, fetch, if_neg hn, content_of_chunks_cons hb hc, length_append]
        by_cases hle : c.length ≤ n
        · -- The whole chunk is taken; the rest comes from the chunks after it.
          have hbuf' : (b.read n).2.buf = [] := by
            rw [hbuf]
            split_ifs
            · rfl
            · exact drop_of_length_le (by simp; omega)
          have hchunks' : (b.read n).2.rd.chunks = cs := by
            rw [hchunks, dropChunk, if_pos (by omega)]
          have hcontent' : (b.read n).2.content = cs.flatten := by
            simp [content, hbuf', Source.bytes, hchunks']
          rw [if_pos hle, take_append, take_of_length_le hle]
          rw [take_of_length_le hle] at hdata
          rcases herr with herr | ⟨herr, hend⟩
          · have hrest := ih (n := n - c.length) hw' (by omega)
            rw [after_of_buf_nil hbuf', hchunks', hcontent'] at hrest
            obtain ⟨htake, hfits, hshort⟩ := hrest
            simp only [herr, hdata, htake, true_and]
            exact ⟨fun hlen => hfits (by omega), fun hlen => hshort (by omega)⟩
          · have hflat : cs.flatten = [] := by rw [← hcontent', hend]
            simp only [herr, hdata, hflat, hbuf', hchunks', hend, length_nil, take_nil, append_nil,
              and_self, implies_true, and_true, true_and]
            intro hlen
            rw [show n - c.length = 0 by omega, fetch_zero]
            exact ⟨rfl, hw'⟩
        · have hlen' : (c.take n).length = n := by simp; omega
          rw [if_neg hle, ← hbuf, ← hchunks, take_append_of_le_length (by omega)]
          have hzero : readLoop fuel 0 (b.read n).2 = (([], none), (b.read n).2) := by
            cases fuel <;> simp [readLoop]
          refine ⟨?_, fun _ => ?_, fun hlen => by omega⟩
          all_goals
            rcases herr with herr | ⟨herr, -⟩
            · simp [herr, hdata, hlen', hzero, hw']
            · simp [herr, hdata, hw']
    · rw [read_of_buf_ne_nil hn hb]
      have hpos : 0 < b.buf.length := length_pos_iff.mpr hb
      have hcontent : ({ b with buf := b.buf.drop n } : BufReader).content =
          b.buf.drop n ++ b.rd.bytes := rfl
      obtain ⟨htake, hfits, hshort⟩ := ih (n := n - (b.buf.take n).length)
        (b := { b with buf := b.buf.drop n }) hw (by simp; omega)
      rw [hcontent] at htake hfits hshort
      simp only [content, htake]
      simp only [length_append, length_drop, length_take] at hfits hshort ⊢
      by_cases hle : n ≤ b.buf.length
      · refine ⟨by simp [hle, take_append_of_le_length hle], fun _ => ?_, fun _ => by omega⟩
        obtain ⟨hafter, hw'⟩ := hfits (by omega)
        exact ⟨by rw [hafter]; simp [after, hle], hw'⟩
      · have hdrop : b.buf.drop n = [] := drop_of_length_le (by omega)
        have hmin : min n b.buf.length = b.buf.length := Nat.min_eq_right (by omega)
        have htaken : b.buf.take n = b.buf := take_of_length_le (by omega)
        refine ⟨by simp [hmin, hdrop, htaken, take_append], fun _ => ?_, fun _ => hshort (by omega)⟩
        obtain ⟨hafter, hw'⟩ := hfits (by omega)
        refine ⟨?_, hw'⟩
        rw [hafter, after_of_buf_nil (by simpa using hdrop), after, if_neg hle, hmin]

/-! ## `io.ReadFull` and `ReadByte` -/

/-- What `readFull` returns depends on the bytes only. -/
theorem readFull_data (hw : b.WF) : (b.readFull n).1 =
      if n ≤ b.content.length then .ok (b.content.take n)
      else if b.content ≠ [] then .error .unexpectedEOF else .error .eof := by
  obtain ⟨hdata, -, hend⟩ := readLoop_spec hw (Nat.le_refl n)
  by_cases hlen : n ≤ b.content.length
  · simp [readFull, hdata, hlen]
  · obtain ⟨herr, -⟩ := hend (Nat.lt_of_not_le hlen)
    have hall : b.content.take n = b.content := take_of_length_le (by omega)
    simp only [readFull, hdata, hall, herr, if_neg hlen, and_true]
    split_ifs <;> rfl

/-- Where a successful `readFull` leaves the buffer and the source. -/
theorem readFull_fetch (hw : b.WF) (hlen : n ≤ b.content.length) :
    ((b.readFull n).2.buf, (b.readFull n).2.rd.chunks) = b.after n ∧ (b.readFull n).2.WF := by
  obtain ⟨hdata, hfits, -⟩ := readLoop_spec hw (Nat.le_refl n)
  obtain ⟨hafter, hw'⟩ := hfits hlen
  simp [readFull, hdata, hlen, hafter, hw']

/-- The bytes that `fetch` leaves in the buffer and in the source are those
after the first `n`. -/
theorem fetch_flatten (hlen : n ≤ cs.flatten.length) :
    (fetch n cs).1 ++ (fetch n cs).2.flatten = cs.flatten.drop n := by
  induction cs generalizing n with
  | nil => simp [fetch]
  | cons c cs ih =>
    rw [fetch]
    simp only [flatten_cons, length_append] at hlen ⊢
    split_ifs with hzero hle hbig
    · simp [hzero]
    · rw [ih (by omega), drop_append, drop_of_length_le hle, nil_append]
    · rw [dropChunk, if_neg (by omega), Nat.max_eq_right hbig]
      simp [drop_append_of_le_length (Nat.le_of_lt (Nat.lt_of_not_le hle))]
    · rw [Nat.max_eq_left (by omega), dropChunk]
      rw [drop_append_of_le_length (Nat.le_of_lt (Nat.lt_of_not_le hle))]
      split_ifs with hcb
      · rw [take_of_length_le hcb]
      · conv_rhs => rw [← take_append_drop bufSize c]
        rw [drop_append_of_le_length (by simp; omega)]
        simp

section

variable (hw : b.WF)
include hw

/-- A successful `readFull` delivers the first bytes and keeps the others. -/
theorem readFull_content (hlen : n ≤ b.content.length) :
    (b.readFull n).2.content = b.content.drop n := by
  obtain ⟨hafter, -⟩ := readFull_fetch hw hlen
  have hcontent : (b.readFull n).2.content = (b.after n).1 ++ (b.after n).2.flatten := by
    rw [← hafter]
    rfl
  rw [hcontent, after]
  split_ifs with hle
  · rw [content, drop_append_of_le_length hle]
    rfl
  · have hbytes : n - b.buf.length ≤ b.rd.chunks.flatten.length := by
      simp only [content, Source.bytes, length_append] at hlen
      omega
    have hdrop : b.buf.drop n = [] := drop_of_length_le (by omega)
    rw [fetch_flatten hbytes, content, drop_append, hdrop, nil_append]
    rfl

theorem readFull_short (hlen : b.content.length < n) : (b.readFull n).2.content = [] := by
  obtain ⟨-, -, hshort⟩ := readLoop_spec hw (Nat.le_refl n)
  obtain ⟨-, hend⟩ := hshort hlen
  simp only [readFull]
  split_ifs
  · exact hend
  · exact hend
  · exact hend

theorem readByte_eq_readFull :
    b.readByte = ((b.readFull 1).1.map (fun p => p.headD 0), (b.readFull 1).2) := by
  obtain ⟨rd, buf, err⟩ := b
  have hsmall : ¬ bufSize ≤ 1 := by decide
  cases buf with
  | cons x xs => simp [readByte, readFull, readLoop, read, Except.map]
  | nil =>
    cases err with
    | some e =>
      have he : e = .eof := by simpa using (hw (by simp)).1
      simp [readByte, readFull, readLoop, read, Except.map, he]
    | none =>
      simp only [readByte]
      cases hdata : (rd.read bufSize).1.1 with
      | cons x xs => simp [readFull, readLoop, read, hsmall, hdata, Except.map]
      | nil =>
        cases herr : (rd.read bufSize).1.2 with
        | none | some => simp [readFull, readLoop, read, hsmall, hdata, herr, Except.map]

theorem readFull_ok (hlen : n ≤ b.content.length) :
    ∃ b', b.readFull n = (.ok (b.content.take n), b') ∧ b'.content = b.content.drop n ∧
      (b'.buf, b'.rd.chunks) = b.after n ∧ b'.WF := by
  obtain ⟨hafter, hw'⟩ := readFull_fetch hw hlen
  refine ⟨(b.readFull n).2, ?_, readFull_content hw hlen, hafter, hw'⟩
  apply Prod.ext
  · rw [readFull_data hw, if_pos hlen]
  · rfl

theorem length_of_readFull_ok {b' : BufReader} {data : List UInt8}
    (h : b.readFull n = (.ok data, b')) : n ≤ b.content.length := by
  have hdata := readFull_data (n := n) hw
  rw [h] at hdata
  by_contra hlen
  rw [if_neg hlen] at hdata
  split_ifs at hdata

end

/-! ## A header and then a payload

A message is read in two pieces, a header of `h` bytes that is shorter than
the buffer, and a payload.  `Fits` says, of the chunks, that nothing is left
in the buffer when both are read. -/

/-- The buffer and the chunks that are left when `m` and then `n` bytes are
read through an empty buffer. -/
def fetchThen (m n : Nat) (cs : List (List UInt8)) : List UInt8 × List (List UInt8) :=
  if n ≤ (fetch m cs).1.length then ((fetch m cs).1.drop n, (fetch m cs).2)
  else fetch (n - (fetch m cs).1.length) (fetch m cs).2

theorem after_of_fetch (h : (b.buf, b.rd.chunks) = fetch m cs) : b.after n = fetchThen m n cs := by
  rw [after, fetchThen, ← h]

theorem fetchThen_zero : fetchThen 0 n cs = fetch n cs := by
  by_cases hn : n = 0
  · simp [fetchThen, hn]
  · simp [fetchThen, hn]

/-- The first read takes the whole chunk. -/
theorem fetchThen_of_le (hm : m ≠ 0) (hle : c.length ≤ m) :
    fetchThen m n (c :: cs) = fetchThen (m - c.length) n cs := by
  have hfetch : fetch m (c :: cs) = fetch (m - c.length) cs := by simp [fetch, hm, hle]
  simp only [fetchThen, hfetch]

/-- A small read sends the chunk through the buffer. -/
theorem fetch_of_lt (hm : m ≠ 0) (hlt : m < c.length) (hsmall : m < bufSize) :
    fetch m (c :: cs) = ((c.take bufSize).drop m, dropChunk bufSize c cs) := by
  rw [fetch, if_neg hm, if_neg (by omega), if_neg (by omega), Nat.max_eq_left (by omega)]

/-- The second read takes the rest of the chunk. -/
theorem fetchThen_of_lt (hm : m ≠ 0) (hsmall : m < bufSize) (hlt : m < c.length)
    (hle : c.length ≤ m + n) : fetchThen m n (c :: cs) = fetch (m + n - c.length) cs := by
  have hbuf : ((c.take bufSize).drop m).length = min bufSize c.length - m := by simp
  rw [fetchThen, fetch_of_lt hm hlt hsmall, hbuf, dropChunk]
  split_ifs with hn hshort hshort
  · have hnil : ((c.take bufSize).drop m).drop n = [] := drop_of_length_le (by simp; omega)
    rw [hnil, show m + n - c.length = 0 by omega, fetch_zero]
  · omega
  · congr 1
    omega
  · rw [fetch, if_neg (by omega), if_pos (by simp; omega)]
    congr 1
    simp
    omega

/-- Small reads in a row are one read. -/
theorem fetchThen_of_small (hsmall : m + n < bufSize) : fetchThen m n cs = fetch (m + n) cs := by
  induction cs generalizing m with
  | nil => simp [fetchThen, fetch]
  | cons c cs ih =>
    by_cases hm : m = 0
    · rw [hm, fetchThen_zero, Nat.zero_add]
    by_cases hle : c.length ≤ m
    · have hsub : m + n - c.length = m - c.length + n := by omega
      rw [fetchThen_of_le hm hle, ih (by omega), fetch, if_neg (by omega), if_pos (by omega), hsub]
    by_cases hall : c.length ≤ m + n
    · rw [fetchThen_of_lt hm (by omega) (by omega) hall, fetch, if_neg (by omega), if_pos hall]
    · rw [fetchThen, fetch_of_lt hm (by omega) (by omega), if_pos (by simp; omega), drop_drop,
        fetch_of_lt (by omega) (by omega) hsmall]

/-- The chunks without their first `n` bytes. -/
def dropBytes : Nat → List (List UInt8) → List (List UInt8)
  | _, [] => []
  | n, c :: cs =>
    if n = 0 then c :: cs
    else if c.length ≤ n then dropBytes (n - c.length) cs
    else c.drop n :: cs

@[simp] theorem dropBytes_zero (cs : List (List UInt8)) : dropBytes 0 cs = cs := by
  cases cs <;> simp [dropBytes]

theorem dropBytes_of_le (hc : c ≠ []) (hle : c.length ≤ n) :
    dropBytes n (c :: cs) = dropBytes (n - c.length) cs := by
  have hpos : 0 < c.length := length_pos_iff.mpr hc
  rw [dropBytes, if_neg (by omega), if_pos hle]

theorem dropBytes_of_lt (hlt : n < c.length) : dropBytes n (c :: cs) = c.drop n :: cs := by
  rw [dropBytes, if_neg (Nat.not_le.mpr hlt)]
  split_ifs with hn
  · simp [hn]
  · rfl

theorem dropBytes_flatten (n : Nat) (cs : List (List UInt8)) :
    (dropBytes n cs).flatten = cs.flatten.drop n := by
  induction cs generalizing n with
  | nil => simp [dropBytes]
  | cons c cs ih =>
    rw [dropBytes]
    split_ifs with hn hle
    · simp [hn]
    · rw [ih, flatten_cons, drop_append, drop_of_length_le hle, nil_append]
    · simp [drop_append_of_le_length (Nat.le_of_lt (Nat.lt_of_not_le hle))]

/-- Whether a chunk may go beyond the end of the message it starts in, `pos` bytes after
the start and `rest` bytes before the end of the message.  It may where the bytes still
wanted are read straight into the payload: `bufSize` of them or more once the header is
there, and otherwise what remains when the first `bufSize` bytes have gone through the
buffer. -/
def MayCross (h pos rest : Nat) : Prop :=
  if h ≤ pos then bufSize ≤ rest else rest = bufSize ∨ 2 * bufSize ≤ rest

/-- No chunk goes beyond the end of the message, unless it may. -/
def Fits (h : Nat) : Nat → Nat → List (List UInt8) → Prop
  | _, _, [] => True
  | pos, rest, c :: cs =>
    if rest = 0 then True
    else if c.length ≤ rest then Fits h (pos + c.length) (rest - c.length) cs
    else MayCross h pos rest

@[simp] theorem fits_zero (h pos : Nat) (cs : List (List UInt8)) : Fits h pos 0 cs := by
  cases cs <;> simp [Fits]

/-- The payload alone: the buffer is empty at its end if and only if the chunks
fit. -/
theorem fetch_of_fits (hpos : h ≤ pos) : (Fits h pos n cs → fetch n cs = ([], dropBytes n cs)) ∧
      (¬ Fits h pos n cs → (fetch n cs).1 ≠ []) := by
  induction cs generalizing pos n with
  | nil => simp [Fits, fetch, dropBytes]
  | cons c cs ih =>
    by_cases hn : n = 0
    · subst hn
      simp
    rw [Fits, fetch, dropBytes, if_neg hn, if_neg hn, if_neg hn]
    by_cases hle : c.length ≤ n
    · rw [if_pos hle, if_pos hle, if_pos hle]
      exact ih (by omega)
    · rw [if_neg hle, if_neg hle, if_neg hle, MayCross, if_pos hpos]
      by_cases hbig : bufSize ≤ n
      · simp [hbig, dropChunk, hle]
      · have hlen : 0 < ((c.take bufSize).drop n).length := by simp; omega
        simp only [hbig, if_false, false_implies, not_false_iff, true_implies, true_and]
        exact length_pos_iff.mp hlen

/-- Header and payload: the buffer is empty at the end if and only if the
chunks fit. -/
theorem fetchThen_of_fits (hne : ∀ c ∈ cs, c ≠ []) (hsmall : h < bufSize) (hpos : pos < h) :
    (Fits h pos (h - pos + n) cs → fetchThen (h - pos) n cs = ([], dropBytes (h - pos + n) cs)) ∧
      (¬ Fits h pos (h - pos + n) cs → (fetchThen (h - pos) n cs).1 ≠ []) := by
  induction cs generalizing pos with
  | nil => simp [Fits, fetchThen, fetch, dropBytes]
  | cons c cs ih =>
    have hc : c ≠ [] := hne c mem_cons_self
    have hcpos : 0 < c.length := length_pos_iff.mpr hc
    have hne' : ∀ d ∈ cs, d ≠ [] := fun d hd => hne d (mem_cons_of_mem c hd)
    rw [Fits, if_neg (by omega)]
    by_cases hhdr : c.length ≤ h - pos
    · -- The chunk ends inside the header, or with it.
      rw [if_pos (by omega), fetchThen_of_le (by omega) hhdr, dropBytes_of_le hc (by omega)]
      have hsub : h - pos + n - c.length = h - (pos + c.length) + n := by omega
      have hsub' : h - pos - c.length = h - (pos + c.length) := by omega
      rw [hsub, hsub']
      by_cases hend : pos + c.length < h
      · exact ih hne' hend
      · have hzero : h - (pos + c.length) = 0 := by omega
        rw [hzero, fetchThen_zero, Nat.zero_add]
        exact fetch_of_fits (by omega)
    · -- The chunk goes through the buffer, and the payload starts there.
      by_cases hle : c.length ≤ h - pos + n
      · rw [if_pos hle, dropBytes_of_le hc hle,
          fetchThen_of_lt (by omega) (by omega) (by omega) hle]
        exact fetch_of_fits (by omega)
      have hbuf : ((c.take bufSize).drop (h - pos)).length = min bufSize c.length - (h - pos) := by
        simp
      rw [fetchThen, fetch_of_lt (by omega) (by omega) (by omega), hbuf]
      rw [if_neg hle, MayCross, if_neg (by omega), dropBytes_of_lt (by omega)]
      by_cases hshort : h - pos + n < bufSize
      · -- The message ends in the buffer, and more bytes are there.
        have hlen : 0 < (((c.take bufSize).drop (h - pos)).drop n).length := by simp; omega
        rw [if_pos (by omega)]
        exact ⟨fun h => by omega, fun _ => length_pos_iff.mp hlen⟩
      · have hchunks : dropChunk bufSize c cs = c.drop bufSize :: cs := by
          rw [dropChunk, if_neg (by omega)]
        rw [hchunks]
        by_cases hexact : h - pos + n = bufSize
        · have hnil : ((c.take bufSize).drop (h - pos)).drop n = [] :=
            drop_of_length_le (by simp; omega)
          rw [if_pos (by omega), hnil, hexact]
          simp
        · have hdrop : (c.drop bufSize).drop (n - (bufSize - (h - pos))) =
              c.drop (h - pos + n) := by
            rw [drop_drop]
            congr 1
            omega
          rw [if_neg (by omega), Nat.min_eq_left (by omega), fetch, if_neg (by omega),
            if_neg (by simp; omega)]
          by_cases hbig : bufSize ≤ n - (bufSize - (h - pos))
          · rw [if_pos hbig, Nat.max_eq_right hbig, dropChunk, if_neg (by simp; omega), hdrop]
            exact ⟨fun _ => rfl, fun hno => absurd (Or.inr (by omega)) hno⟩
          · have hlen : 0 < (((c.drop bufSize).take bufSize).drop
                (n - (bufSize - (h - pos)))).length := by
              rw [length_drop, length_take, length_drop]
              apply Nat.sub_pos_of_lt
              exact Nat.lt_min.mpr ⟨Nat.lt_of_not_le hbig, by omega⟩
            rw [if_neg hbig]
            exact ⟨fun h => by omega, fun _ => length_pos_iff.mp hlen⟩

end BufReader

end Go
