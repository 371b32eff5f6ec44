import Geryon.Go.Binary
import Geryon.Go.Reader
import Geryon.Raft.Node

/-!
# The write-ahead log

`internal/raft/wal.go`.  The file has a header of eight bytes and then records:
a checksum, a length and the JSON of an entry.  The file is read through a
`bufio.Reader`, and written where the last read or write has left the offset of
the file.

`encoding/json` and the checksum are parameters.  Opening, seeking and writing
do not fail.
-/

namespace Geryon.Raft

open Go List BufReader

/-! ## The model -/

/-- What the WAL uses of `encoding/json`. -/
structure JSON where
  marshal : Entry → List UInt8
  unmarshal : List UInt8 → Option Entry
  unmarshal_marshal : ∀ entry, unmarshal (marshal entry) = some entry
  marshal_ne_nil : ∀ entry, marshal entry ≠ []

inductive WALError where
  /-- An error of package `io`, passed on by `readEntry`. -/
  | io (e : IOErr)
  /-- `failed to read header`. -/
  | header (e : IOErr)
  /-- `invalid WAL magic`. -/
  | invalidMagic (magic : UInt32)
  /-- `unsupported WAL version`. -/
  | unsupportedVersion (version : UInt32)
  /-- `checksum mismatch`. -/
  | checksumMismatch (checksum stored : UInt32)
  /-- `failed to unmarshal entry`. -/
  | unmarshal
  deriving DecidableEq

/-- An `os.File`: its bytes, and where the next read or write happens. -/
structure File where
  bytes : List UInt8
  offset : Nat

namespace File

def write (f : File) (data : List UInt8) : File where
  bytes := f.bytes.take f.offset ++ data ++ f.bytes.drop (f.offset + data.length)
  offset := f.offset + data.length

/-- `bufio.NewReader` of the file. -/
def reader (f : File) : BufReader := newReader (Source.whole (f.bytes.drop f.offset))

/-- The file after it has been read through `b`. -/
def after (f : File) (b : BufReader) : File :=
  { f with offset := f.bytes.length - b.rd.bytes.length }

end File

structure WAL where
  file : File
  lastIndex : Nat := 0
  lastTerm : Nat := 0

def walMagic : UInt32 := 0x57414C00

def walVersion : UInt32 := 1

/-- `WALHeader`, as it is written. -/
def walHeader : List UInt8 := putUint32 walMagic ++ putUint32 walVersion

section

variable (J : JSON) (crc : List UInt8 → UInt32)

/-- `LogRecord`, as it is written. -/
def record (entry : Entry) : List UInt8 :=
  putUint32 (crc (J.marshal entry)) ++ putUint32 (UInt32.ofNat (J.marshal entry).length) ++
    J.marshal entry

def readEntry (b : BufReader) : Except WALError Entry × BufReader :=
  match b.readFull 4 with
  | (.error e, b₁) => (.error (.io e), b₁)
  | (.ok checksum, b₁) =>
    match b₁.readFull 4 with
    | (.error e, b₂) => (.error (.io e), b₂)
    | (.ok length, b₂) =>
      match b₂.readFull (uint32 length).toNat with
      | (.error e, b₃) => (.error (.io e), b₃)
      | (.ok data, b₃) =>
        if crc data ≠ uint32 checksum then
          (.error (.checksumMismatch (crc data) (uint32 checksum)), b₃)
        else
          match J.unmarshal data with
          | none => (.error .unmarshal, b₃)
          | some entry => (.ok entry, b₃)

/-- The loop around `readEntry`: the entries up to the first error, and the
error.  An entry takes at least eight bytes, so the length of the file is
enough fuel. -/
def scan : Nat → BufReader → (List Entry × WALError) × BufReader
  | 0, b => (([], .io .eof), b)
  | fuel + 1, b =>
    match readEntry J crc b with
    | (.error e, b') => (([], e), b')
    | (.ok entry, b') =>
      let r := scan fuel b'
      ((entry :: r.1.1, r.1.2), r.2)

namespace WAL

/-- The update of `lastIndex` and `lastTerm`. -/
def note (w : WAL) (entry : Entry) : WAL :=
  if w.lastIndex < entry.index then { w with lastIndex := entry.index, lastTerm := entry.term }
  else w

/-- `recover`.  Every error ends the loop without an error. -/
def recover (w : WAL) : Except WALError WAL :=
  let bytes := w.file.bytes
  if bytes.length < 8 then .error (.header (if bytes = [] then .eof else .unexpectedEOF))
  else if uint32 (bytes.take 4) ≠ walMagic then .error (.invalidMagic (uint32 (bytes.take 4)))
  else if uint32 ((bytes.drop 4).take 4) ≠ walVersion then
    .error (.unsupportedVersion (uint32 ((bytes.drop 4).take 4)))
  else
    let file := { w.file with offset := 8 }
    let r := scan J crc (bytes.length + 1) file.reader
    .ok (r.1.1.foldl note { w with file := file.after r.2 })

def newWAL (bytes : List UInt8) : Except WALError WAL :=
  if bytes = [] then .ok { file := File.write ⟨[], 0⟩ walHeader }
  else recover J crc { file := ⟨bytes, 0⟩ }

def append (w : WAL) (entry : Entry) : WAL :=
  { w with file := w.file.write (record J crc entry) }.note entry

def appendBatch (w : WAL) (entries : List Entry) : WAL :=
  if entries = [] then w
  else entries.foldl note { w with file := w.file.write (entries.flatMap (record J crc)) }

def readEntries (w : WAL) (startIndex : Nat) : Except WALError (List Entry) × WAL :=
  let file := { w.file with offset := 8 }
  let r := scan J crc (file.bytes.length + 1) file.reader
  let w' := { w with file := file.after r.2 }
  if r.1.2 = .io .eof then
    (.ok (r.1.1.filter fun entry => decide (startIndex ≤ entry.index)), w')
  else (.error r.1.2, w')

/-- `Truncate`: the entries from `beforeIndex` on are copied to a new file, which
is opened. -/
def truncate (w : WAL) (beforeIndex : Nat) : Option WALError × WAL :=
  let file := { w.file with offset := 8 }
  let r := scan J crc (file.bytes.length + 1) file.reader
  if r.1.2 = .io .eof then
    let entries := r.1.1.filter fun entry => decide (beforeIndex ≤ entry.index)
    let new := { w with file := ⟨walHeader ++ entries.flatMap (record J crc), 0⟩ }
    match recover J crc new with
    | .ok w' => (none, w')
    | .error e => (some e, new)
  else (some r.1.2, { w with file := file.after r.2 })

end WAL

/-! ## Reading as a relation on bytes -/

/-- `readEntry` on the bytes that are left: the entry, and the bytes after it. -/
def parseEntry (c : List UInt8) : Except WALError (Entry × List UInt8) :=
  if c.length < 4 then .error (.io (if c = [] then .eof else .unexpectedEOF))
  else if (c.drop 4).length < 4 then
    .error (.io (if c.drop 4 = [] then .eof else .unexpectedEOF))
  else
    let length := (uint32 ((c.drop 4).take 4)).toNat
    let rest := (c.drop 4).drop 4
    if rest.length < length then .error (.io (if rest = [] then .eof else .unexpectedEOF))
    else if crc (rest.take length) ≠ uint32 (c.take 4) then
      .error (.checksumMismatch (crc (rest.take length)) (uint32 (c.take 4)))
    else
      match J.unmarshal (rest.take length) with
      | none => .error .unmarshal
      | some entry => .ok (entry, rest.drop length)

/-- The loop around `readEntry`, from these bytes. -/
inductive Scans : List UInt8 → List Entry → WALError → Prop
  | stop {c : List UInt8} {e : WALError} (h : parseEntry J crc c = .error e) : Scans c [] e
  | next {c rest : List UInt8} {entry : Entry} {entries : List Entry} {e : WALError}
      (h : parseEntry J crc c = .ok (entry, rest)) (hrest : Scans rest entries e) :
      Scans c (entry :: entries) e

end

variable {J : JSON} {crc : List UInt8 → UInt32} {b b' : BufReader} {c rest : List UInt8}
  {entry : Entry} {e : WALError} {entries : List Entry}

theorem readFull_error {n : Nat} (hw : b.WF) (hlen : b.content.length < n) :
    ∃ b', b.readFull n = (.error (if b.content = [] then .eof else .unexpectedEOF), b') ∧
      b'.content = [] := by
  refine ⟨(b.readFull n).2, Prod.ext ?_ rfl, readFull_short hw hlen⟩
  rw [readFull_data hw, if_neg (by omega)]
  by_cases hnil : b.content = []
  · rw [if_neg (not_not.mpr hnil), if_pos hnil]
  · rw [if_pos hnil, if_neg hnil]

/-- The bytes behind the data that `readEntry` asks for. -/
def behind (c : List UInt8) : List UInt8 :=
  ((c.drop 4).drop 4).drop (uint32 ((c.drop 4).take 4)).toNat

theorem readEntry_eq (hw : b.WF) :
    match parseEntry J crc b.content with
    | .error e => ∃ b', readEntry J crc b = (.error e, b') ∧
        (∀ e', e = .io e' → b'.content = []) ∧ b'.content.length ≤ (behind b.content).length
    | .ok (entry, rest) =>
      ∃ b', readEntry J crc b = (.ok entry, b') ∧ b'.WF ∧ b'.content = rest := by
  rw [parseEntry, readEntry, behind]
  by_cases h1 : b.content.length < 4
  · obtain ⟨b1, hread, hend⟩ := readFull_error hw h1
    rw [if_pos h1, hread]
    exact ⟨b1, rfl, fun _ _ => hend, by simp [hend]⟩
  rw [if_neg h1]
  obtain ⟨b1, hread1, hcontent1, -, hw1⟩ := readFull_ok hw (Nat.le_of_not_lt h1)
  rw [hread1, ← hcontent1]
  dsimp only
  by_cases h2 : b1.content.length < 4
  · obtain ⟨b2, hread, hend⟩ := readFull_error hw1 h2
    rw [if_pos h2, hread]
    exact ⟨b2, rfl, fun _ _ => hend, by simp [hend]⟩
  rw [if_neg h2]
  obtain ⟨b2, hread2, hcontent2, -, hw2⟩ := readFull_ok hw1 (Nat.le_of_not_lt h2)
  rw [hread2, ← hcontent2]
  dsimp only
  generalize (uint32 (b1.content.take 4)).toNat = n
  by_cases h3 : b2.content.length < n
  · obtain ⟨b3, hread, hend⟩ := readFull_error hw2 h3
    rw [if_pos h3, hread]
    exact ⟨b3, rfl, fun _ _ => hend, by simp [hend]⟩
  rw [if_neg h3]
  obtain ⟨b3, hread3, hcontent3, -, hw3⟩ := readFull_ok hw2 (Nat.le_of_not_lt h3)
  rw [hread3, ← hcontent3]
  dsimp only
  by_cases hcrc : crc (b2.content.take n) ≠ uint32 (b.content.take 4)
  · rw [if_pos hcrc, if_pos hcrc]
    exact ⟨b3, rfl, by simp, le_rfl⟩
  rw [if_neg hcrc, if_neg hcrc]
  cases J.unmarshal (b2.content.take n) with
  | none => exact ⟨b3, rfl, by simp, le_rfl⟩
  | some entry => exact ⟨b3, rfl, hw3, rfl⟩

theorem length_of_parseEntry (h : parseEntry J crc c = .ok (entry, rest)) :
    rest.length + 8 ≤ c.length := by
  simp only [parseEntry] at h
  split at h
  · cases h
  · split at h
    · cases h
    · split at h
      · cases h
      · split at h
        · cases h
        · split at h
          · cases h
          · cases h
            simp only [length_drop] at *
            omega

/-- The loop does what `Scans` says, and an error of package `io` comes at the
end of the file. -/
theorem scan_eq {fuel : Nat} (h : Scans J crc c entries e) (hw : b.WF) (hc : b.content = c)
    (hfuel : c.length < fuel) : (scan J crc fuel b).1 = (entries, e) ∧
      ∀ e', e = .io e' → (scan J crc fuel b).2.content = [] := by
  induction h generalizing fuel b with
  | stop hparse =>
    obtain ⟨fuel, rfl⟩ := Nat.exists_eq_add_one.mpr (Nat.zero_lt_of_lt hfuel)
    have hread := @readEntry_eq J crc b hw
    rw [hc, hparse] at hread
    obtain ⟨b', hb', hend, -⟩ := hread
    rw [scan, hb']
    exact ⟨rfl, hend⟩
  | @next c rest entry entries e hparse _ ih =>
    obtain ⟨fuel, rfl⟩ := Nat.exists_eq_add_one.mpr (Nat.zero_lt_of_lt hfuel)
    have hread := @readEntry_eq J crc b hw
    rw [hc, hparse] at hread
    obtain ⟨b', hb', hw', hc'⟩ := hread
    have hlen := length_of_parseEntry hparse
    have hfuel' : rest.length < fuel := by omega
    obtain ⟨hscan, hend⟩ := ih hw' hc' hfuel'
    rw [scan, hb']
    dsimp only
    rw [hscan]
    exact ⟨rfl, hend⟩

/-! ## The file -/

/-- The file is the header and then `body`, and the next write goes to its end. -/
structure WAL.Holds (w : WAL) (body : List UInt8) : Prop where
  bytes : w.file.bytes = walHeader ++ body
  offset : w.file.offset = w.file.bytes.length

theorem length_walHeader : walHeader.length = 8 := rfl

theorem reader_body {f : File} {body : List UInt8} (hbytes : f.bytes = walHeader ++ body) :
    ({ f with offset := 8 } : File).reader.WF ∧
      ({ f with offset := 8 } : File).reader.content = body ∧ body.length < f.bytes.length + 1 := by
  refine ⟨by simp [File.reader, newReader, BufReader.WF], ?_, ?_⟩
  · rw [File.reader, newReader, content, nil_append, Source.whole_bytes, hbytes]
    show (walHeader ++ body).drop walHeader.length = body
    exact drop_left
  · rw [hbytes, length_append]
    omega

/-- A scan from the header on, as far as it matters to the next write. -/
theorem scan_file {f : File} {body : List UInt8} (hbytes : f.bytes = walHeader ++ body)
    (h : Scans J crc body entries e) :
    (scan J crc (f.bytes.length + 1) ({ f with offset := 8 } : File).reader).1 = (entries, e) ∧
      ∀ e', e = .io e' →
        (({ f with offset := 8 } : File).after
          (scan J crc (f.bytes.length + 1) ({ f with offset := 8 } : File).reader).2).offset =
            f.bytes.length := by
  obtain ⟨hw, hcontent, hfuel⟩ := reader_body hbytes
  obtain ⟨hscan, hend⟩ := scan_eq h hw hcontent hfuel
  refine ⟨hscan, ?_⟩
  intro e' he'
  have hrd := hend e' he'
  rw [content, append_eq_nil_iff] at hrd
  rw [File.after, hrd.2]
  rfl

theorem WAL.file_note (w : WAL) (entry : Entry) : (w.note entry).file = w.file := by
  rw [note]
  split
  · rfl
  · rfl

theorem WAL.file_foldl_note (w : WAL) (entries : List Entry) :
    (entries.foldl note w).file = w.file := by
  induction entries generalizing w with
  | nil => rfl
  | cons entry entries ih => rw [foldl_cons, ih, file_note]

namespace WAL

variable {w : WAL} {body : List UInt8}

section

variable (hbytes : w.file.bytes = walHeader ++ body)
include hbytes

theorem recover_eq :
    ∃ w', recover J crc w = .ok w' ∧ w'.file = ({ w.file with offset := 8 } : File).after
      (scan J crc (w.file.bytes.length + 1) ({ w.file with offset := 8 } : File).reader).2 := by
  have hlen : ¬ w.file.bytes.length < 8 := by
    rw [hbytes, length_append, length_walHeader]
    omega
  have hmagic : w.file.bytes.take 4 = putUint32 walMagic := by
    rw [hbytes]
    rfl
  have hversion : (w.file.bytes.drop 4).take 4 = putUint32 walVersion := by
    rw [hbytes]
    rfl
  rw [recover]
  rw [if_neg hlen, hmagic, uint32_putUint32, if_neg (not_not.mpr rfl), hversion,
    uint32_putUint32, if_neg (not_not.mpr rfl)]
  exact ⟨_, rfl, by rw [file_foldl_note]⟩

theorem recover_header (h : Scans J crc body entries e) :
    ∃ w', recover J crc w = .ok w' ∧ w'.file.bytes = walHeader ++ body ∧
      ((∃ e', e = .io e') → w'.Holds body) := by
  obtain ⟨-, hend⟩ := scan_file hbytes h
  obtain ⟨w', hrecover, hfile⟩ := @recover_eq J crc w body hbytes
  have hbytes' : w'.file.bytes = w.file.bytes := by
    rw [hfile]
    rfl
  refine ⟨w', hrecover, hbytes'.trans hbytes, ?_⟩
  intro hio
  obtain ⟨e', he'⟩ := hio
  refine ⟨hbytes'.trans hbytes, ?_⟩
  rw [hbytes', hfile]
  exact hend e' he'

end

theorem newWAL_header (h : Scans J crc body entries e) :
    ∃ w, newWAL J crc (walHeader ++ body) = .ok w ∧ w.file.bytes = walHeader ++ body ∧
      ((∃ e', e = .io e') → w.Holds body) := by
  have hne : walHeader ++ body ≠ [] := by
    intro hnil
    have := congrArg length hnil
    rw [length_append, length_walHeader] at this
    simp at this
  rw [newWAL, if_neg hne]
  exact recover_header rfl h

/-- `ReadEntries` returns the entries that a scan finds before the end, if it
gets there. -/
theorem readEntries_eq (hbytes : w.file.bytes = walHeader ++ body)
    (h : Scans J crc body entries e) (startIndex : Nat) : (w.readEntries J crc startIndex).1 =
      (if e = .io .eof then .ok (entries.filter fun entry => decide (startIndex ≤ entry.index))
        else .error e) ∧ ((∃ e', e = .io e') → (w.readEntries J crc startIndex).2.Holds body) := by
  obtain ⟨hscan, hend⟩ := scan_file hbytes h
  rw [readEntries]
  rw [hscan]
  constructor
  · split
    · rfl
    · rfl
  · intro hio
    obtain ⟨e', he'⟩ := hio
    split
    · exact ⟨hbytes, hend e' he'⟩
    · exact ⟨hbytes, hend e' he'⟩

variable (h : w.Holds body)
include h

theorem Holds.write (data : List UInt8) :
    ({ w with file := w.file.write data } : WAL).Holds (body ++ data) := by
  have hbytes : (w.file.write data).bytes = w.file.bytes ++ data := by
    rw [File.write, h.offset, take_length, drop_of_length_le (by omega), append_nil]
  refine ⟨?_, ?_⟩
  · show (w.file.write data).bytes = _
    rw [hbytes, h.bytes, append_assoc]
  · show w.file.offset + data.length = (w.file.write data).bytes.length
    rw [hbytes, length_append, h.offset]

theorem Holds.append (entry : Entry) :
    (w.append J crc entry).Holds (body ++ record J crc entry) := by
  have hwrite := h.write (record J crc entry)
  exact ⟨by rw [WAL.append, file_note]; exact hwrite.bytes,
    by rw [WAL.append, file_note]; exact hwrite.offset⟩

variable (entries : List Entry)

theorem Holds.foldl_append :
    (entries.foldl (WAL.append J crc) w).Holds (body ++ entries.flatMap (record J crc)) := by
  induction entries generalizing w body with
  | nil =>
    rw [flatMap_nil, append_nil]
    exact h
  | cons entry entries ih =>
    rw [foldl_cons, flatMap_cons, ← append_assoc]
    exact ih (h.append entry)

theorem Holds.appendBatch :
    (w.appendBatch J crc entries).Holds (body ++ entries.flatMap (record J crc)) := by
  rw [WAL.appendBatch]
  split
  · rename_i hnil
    rw [hnil, flatMap_nil, append_nil]
    exact h
  · have hwrite := h.write (entries.flatMap (record J crc))
    exact ⟨by rw [file_foldl_note]; exact hwrite.bytes,
      by rw [file_foldl_note]; exact hwrite.offset⟩

end WAL

/-! ## Records and pieces of records -/

theorem parseEntry_put (checksum length : UInt32) (rest : List UInt8) :
    parseEntry J crc (putUint32 checksum ++ putUint32 length ++ rest) =
      if rest.length < length.toNat then .error (.io (if rest = [] then .eof else .unexpectedEOF))
      else if crc (rest.take length.toNat) ≠ checksum then
        .error (.checksumMismatch (crc (rest.take length.toNat)) checksum) else
        match J.unmarshal (rest.take length.toNat) with
        | none => .error .unmarshal
        | some entry => .ok (entry, rest.drop length.toNat) := by
  have hdrop : (putUint32 checksum ++ putUint32 length ++ rest).drop 4 =
      putUint32 length ++ rest := rfl
  have hdrop' : (putUint32 length ++ rest).drop 4 = rest := rfl
  have htake : (putUint32 checksum ++ putUint32 length ++ rest).take 4 = putUint32 checksum := rfl
  have htake' : (putUint32 length ++ rest).take 4 = putUint32 length := rfl
  rw [parseEntry, hdrop, hdrop', htake, htake', uint32_putUint32, uint32_putUint32,
    if_neg (by simp), if_neg (by simp)]

/-- The JSON of the entry has a length that a `uint32` can hold. -/
def Fits (J : JSON) (entry : Entry) : Prop := (J.marshal entry).length < 4294967296

instance (J : JSON) (entry : Entry) : Decidable (Fits J entry) :=
  inferInstanceAs (Decidable (_ < _))

theorem toNat_length (data : List UInt8) :
    (UInt32.ofNat data.length).toNat = data.length % 4294967296 := UInt32.toNat_ofNat'

theorem parseEntry_record (h : Fits J entry) (rest : List UInt8) :
    parseEntry J crc (record J crc entry ++ rest) = .ok (entry, rest) := by
  have hlen : (UInt32.ofNat (J.marshal entry).length).toNat = (J.marshal entry).length := by
    rw [toNat_length, Nat.mod_eq_of_lt h]
  rw [record, append_assoc, parseEntry_put, hlen, if_neg (by simp), take_left,
    if_neg (by simp), J.unmarshal_marshal, drop_left]

variable {entries' : List Entry}

theorem Scans.records (h : ∀ entry ∈ entries, Fits J entry) (hrest : Scans J crc rest entries' e) :
    Scans J crc (entries.flatMap (record J crc) ++ rest) (entries ++ entries') e := by
  induction entries with
  | nil => exact hrest
  | cons entry entries ih =>
    obtain ⟨hentry, hentries⟩ := forall_mem_cons.mp h
    rw [flatMap_cons, append_assoc]
    exact .next (parseEntry_record hentry _) (ih hentries)

theorem scans_nil : Scans J crc [] [] (.io .eof) := .stop rfl

theorem scans_records (h : ∀ entry ∈ entries, Fits J entry) :
    Scans J crc (entries.flatMap (record J crc)) entries (.io .eof) := by
  have hscans : Scans J crc (entries.flatMap (record J crc) ++ []) (entries ++ []) (.io .eof) :=
    Scans.records h scans_nil
  rwa [append_nil, append_nil] at hscans

theorem Scans.of_ok (hparse : parseEntry J crc c = .ok (entry, rest))
    (h : Scans J crc c entries' e) :
    ∃ entries, entries' = entry :: entries ∧ Scans J crc rest entries e := by
  cases h with
  | stop herror =>
    rw [hparse] at herror
    cases herror
  | next hok hrest =>
    rw [hparse] at hok
    cases hok
    exact ⟨_, rfl, hrest⟩

theorem Scans.of_error {e' : WALError} (hparse : parseEntry J crc c = .error e')
    (h : Scans J crc c entries e) : entries = [] ∧ e = e' := by
  cases h with
  | stop herror =>
    rw [hparse] at herror
    cases herror
    exact ⟨rfl, rfl⟩
  | next hok hrest =>
    rw [hparse] at hok
    cases hok

/-- Every file is read up to some error. -/
theorem exists_scans (c : List UInt8) : ∃ entries e, Scans J crc c entries e := by
  induction hn : c.length using Nat.strong_induction_on generalizing c with
  | _ n ih =>
    cases hparse : parseEntry J crc c with
    | error e => exact ⟨[], e, .stop hparse⟩
    | ok r =>
      have hlen : r.2.length + 8 ≤ c.length := length_of_parseEntry hparse
      obtain ⟨entries, e, hrest⟩ := ih r.2.length (by omega) r.2 rfl
      exact ⟨r.1 :: entries, e, .next hparse hrest⟩

/-! ## Sequences of calls -/

namespace WAL

variable {w : WAL} {body : List UInt8}

inductive Call where
  | append (entry : Entry)
  | appendBatch (entries : List Entry)

/-- The entries that a call writes. -/
def Call.wrote : Call → List Entry
  | .append entry => [entry]
  | .appendBatch entries => entries

def Call.run (J : JSON) (crc : List UInt8 → UInt32) (w : WAL) : Call → WAL
  | .append entry => w.append J crc entry
  | .appendBatch entries => w.appendBatch J crc entries

/-- The bytes of a new file after these calls. -/
def written (J : JSON) (crc : List UInt8 → UInt32) (calls : List Call) : List UInt8 :=
  (calls.foldl (Call.run J crc) { file := File.write ⟨[], 0⟩ walHeader }).file.bytes

theorem Holds.run (h : w.Holds body) (call : Call) :
    (call.run J crc w).Holds (body ++ call.wrote.flatMap (record J crc)) := by
  cases call with
  | append entry =>
    rw [Call.wrote, flatMap_singleton]
    exact h.append entry
  | appendBatch entries => exact h.appendBatch entries

theorem Holds.foldl_run (h : w.Holds body) (calls : List Call) :
    (calls.foldl (Call.run J crc) w).Holds
      (body ++ (calls.flatMap Call.wrote).flatMap (record J crc)) := by
  induction calls generalizing w body with
  | nil =>
    rw [flatMap_nil, flatMap_nil, append_nil]
    exact h
  | cons call calls ih =>
    rw [foldl_cons, flatMap_cons, flatMap_append, ← append_assoc]
    exact ih (h.run call)

theorem written_eq (calls : List Call) :
    written J crc calls = walHeader ++ (calls.flatMap Call.wrote).flatMap (record J crc) := by
  have hstart : ({ file := File.write ⟨[], 0⟩ walHeader } : WAL).Holds [] := ⟨rfl, rfl⟩
  exact (hstart.foldl_run calls).bytes

end WAL

/-! ## The file as a list of entries -/

/-- The file has the records of these entries, and all of them fit. -/
structure WAL.Lists (J : JSON) (crc : List UInt8 → UInt32) (w : WAL) (entries : List Entry) :
    Prop where
  holds : w.Holds (entries.flatMap (record J crc))
  fits : ∀ entry ∈ entries, Fits J entry

namespace WAL.Lists

variable {w : WAL}

variable (h : w.Lists J crc entries)
include h

theorem append (hentry : Fits J entry) :
    (w.append J crc entry).Lists J crc (entries ++ [entry]) := by
  refine ⟨?_, ?_⟩
  · rw [flatMap_append, flatMap_singleton]
    exact h.holds.append entry
  · intro e he
    obtain he | he := mem_append.mp he
    · exact h.fits e he
    · rwa [mem_singleton.mp he]

theorem readEntries (startIndex : Nat) : (w.readEntries J crc startIndex).1 =
      .ok (entries.filter fun entry => decide (startIndex ≤ entry.index)) := by
  rw [(readEntries_eq h.holds.bytes (scans_records h.fits) startIndex).1, if_pos rfl]

theorem newWAL : ∃ w', WAL.newWAL J crc w.file.bytes = .ok w' ∧ w'.Lists J crc entries := by
  obtain ⟨w', hnew, -, hholds⟩ := newWAL_header (@scans_records J crc entries h.fits)
  rw [h.holds.bytes]
  exact ⟨w', hnew, hholds ⟨_, rfl⟩, h.fits⟩

theorem truncate (beforeIndex : Nat) : ∃ w', w.truncate J crc beforeIndex = (none, w') ∧
      w'.Lists J crc (entries.filter fun entry => decide (beforeIndex ≤ entry.index)) := by
  have hfits : ∀ entry ∈ entries.filter fun entry => decide (beforeIndex ≤ entry.index),
      Fits J entry := fun entry hentry => h.fits entry (mem_filter.mp hentry).1
  obtain ⟨hscan, -⟩ := scan_file h.holds.bytes (scans_records h.fits)
  rw [WAL.truncate]
  rw [hscan]
  dsimp only
  rw [if_pos rfl]
  generalize hnew : ({ w with file := _ } : WAL) = new
  have hbytes : new.file.bytes = walHeader ++
      (entries.filter fun entry => decide (beforeIndex ≤ entry.index)).flatMap (record J crc) := by
    rw [← hnew]
  obtain ⟨w', hrecover, -, hholds⟩ := recover_header hbytes (scans_records hfits)
  rw [hrecover]
  exact ⟨w', rfl, hholds ⟨_, rfl⟩, hfits⟩

end WAL.Lists

/-- The entry in unary numbers, to look at concrete files. -/
def unary : JSON where
  marshal entry := replicate entry.term 1 ++ 0 :: (replicate entry.index 1 ++
    0 :: entry.command)
  unmarshal data :=
    match data.dropWhile (· == 1) with
    | [] => none
    | _ :: rest =>
      match rest.dropWhile (· == 1) with
      | [] => none
      | _ :: command =>
        some ⟨(data.takeWhile (· == 1)).length, (rest.takeWhile (· == 1)).length, command⟩
  unmarshal_marshal := by
    intro entry
    have hdrop : ∀ (n : Nat) (l : List UInt8),
        (replicate n 1 ++ 0 :: l).dropWhile (· == 1) = 0 :: l := by
      intro n l
      rw [dropWhile_append_of_pos (by simp)]
      rfl
    have htake : ∀ (n : Nat) (l : List UInt8),
        ((replicate n 1 ++ 0 :: l).takeWhile (· == 1)).length = n := by
      intro n l
      rw [takeWhile_append_of_pos (by simp)]
      simp
    simp only [hdrop, htake]
  marshal_ne_nil := by simp

end Geryon.Raft
