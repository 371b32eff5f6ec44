import Geryon.Conc.Object
import Geryon.Raft.Recovery

/-!
# The write-ahead log as a list

A user of the WAL sees a list of entries: `Append` and `AppendBatch` add to its
end, `Truncate` removes the entries before an index, `ReadEntries` shows the
entries from an index on, and closing and opening the file changes nothing.
`reference` is that list, `calls` is the file.

The length of a record is a `uint32`.  Entries whose JSON is shorter are all
read back, so the file and the list answer alike.  A longer one blocks the file:
every scan stops at its record, and all that is written later goes behind it.
-/

namespace Geryon.Raft

open Go Conc List

namespace WAL

/-! ## The two objects -/

/-- The calls of a WAL.  `reopen` is `Close`, and `NewWAL` on the same file. -/
inductive Op where
  | append (entry : Entry)
  | appendBatch (entries : List Entry)
  | truncate (beforeIndex : Nat)
  | readEntries (startIndex : Nat)
  | reopen

/-- What a call returns: an error or nothing, or what `ReadEntries` has read. -/
inductive Answer where
  | done (err : Option WALError)
  | read (result : Except WALError (List Entry))

/-- The result of a `ReadEntries`. -/
def Answer.result : Answer → Option (Except WALError (List Entry))
  | .done _ => none
  | .read result => some result

/-- The entries that a call writes. -/
def Op.wrote : Op → List Entry
  | .append entry => [entry]
  | .appendBatch entries => entries
  | .truncate _ => []
  | .readEntries _ => []
  | .reopen => []

/-- The WAL in its file. -/
def calls (J : JSON) (crc : List UInt8 → UInt32) : Object WAL Op Answer where
  call w
    | .append entry => (.done none, w.append J crc entry)
    | .appendBatch entries => (.done none, w.appendBatch J crc entries)
    | .truncate beforeIndex =>
      (.done (w.truncate J crc beforeIndex).1, (w.truncate J crc beforeIndex).2)
    | .readEntries startIndex =>
      (.read (w.readEntries J crc startIndex).1, (w.readEntries J crc startIndex).2)
    | .reopen =>
      match WAL.newWAL J crc w.file.bytes with
      | .ok w' => (.done none, w')
      | .error e => (.done (some e), w)

/-- The WAL as a list of entries. -/
def reference : Object (List Entry) Op Answer where
  call entries
    | .append entry => (.done none, entries ++ [entry])
    | .appendBatch entries' => (.done none, entries ++ entries')
    | .truncate beforeIndex =>
      (.done none, entries.filter fun entry => decide (beforeIndex ≤ entry.index))
    | .readEntries startIndex =>
      (.read (.ok (entries.filter fun entry => decide (startIndex ≤ entry.index))), entries)
    | .reopen => (.done none, entries)

/-- The WAL after `NewWAL` where there is no file. -/
def empty : WAL := { file := File.write ⟨[], 0⟩ walHeader }

/-- What the calls of `ReadEntries` among `ops` return. -/
def reads {σ : Type} (A : Object σ Op Answer) (s : σ) (ops : List Op) :
    List (Except WALError (List Entry)) :=
  (A.run s ops).1.filterMap Answer.result

variable {J : JSON} {crc : List UInt8 → UInt32} {w : WAL} {entries : List Entry}

/-! ## Entries that fit -/

theorem Lists.appendBatch (h : w.Lists J crc entries) {entries' : List Entry}
    (hfits : ∀ entry ∈ entries', Fits J entry) :
    (w.appendBatch J crc entries').Lists J crc (entries ++ entries') := by
  refine ⟨?_, ?_⟩
  · rw [flatMap_append]
    exact h.holds.appendBatch entries'
  · intro entry hentry
    obtain hentry | hentry := mem_append.mp hentry
    · exact h.fits entry hentry
    · exact hfits entry hentry

variable {op : Op} {entry : Entry} {body : List UInt8} {σ : Type}
  {r : Except WALError (List Entry)} {ops : List Op}

theorem Lists.call (h : w.Lists J crc entries) (hfits : ∀ entry ∈ op.wrote, Fits J entry) :
    ((calls J crc).call w op).1 = (reference.call entries op).1 ∧
      ((calls J crc).call w op).2.Lists J crc (reference.call entries op).2 := by
  cases op with
  | append entry => exact ⟨rfl, h.append (hfits entry (mem_singleton.mpr rfl))⟩
  | appendBatch entries' => exact ⟨rfl, h.appendBatch hfits⟩
  | truncate beforeIndex =>
    obtain ⟨w', htruncate, hlists⟩ := h.truncate beforeIndex
    simp only [calls, reference, htruncate]
    exact ⟨trivial, hlists⟩
  | readEntries startIndex =>
    refine ⟨congrArg Answer.read (h.readEntries startIndex), ?_, h.fits⟩
    exact (readEntries_eq h.holds.bytes (scans_records h.fits) startIndex).2 ⟨_, rfl⟩
  | reopen =>
    obtain ⟨w', hnew, hlists⟩ := h.newWAL
    simp only [calls, reference, hnew]
    exact ⟨trivial, hlists⟩

/-! ## A record that is too long -/

/-- Every scan stops in `body` with an error that is not the end of the file,
whatever comes behind. -/
def Blocks (J : JSON) (crc : List UInt8 → UInt32) (body : List UInt8) : Prop :=
  ∀ (tail : List UInt8) (fuel : Nat) (b : BufReader), b.WF → b.content = body ++ tail →
    (body ++ tail).length < fuel →
    (scan J crc fuel b).1.2 ≠ .io .eof ∧ (scan J crc fuel b).2.content.length ≤ tail.length

/-- The part of the record that `readEntry` asks for. -/
def stub (J : JSON) (crc : List UInt8 → UInt32) (entry : Entry) : List UInt8 :=
  putUint32 (crc (J.marshal entry)) ++ putUint32 (UInt32.ofNat (J.marshal entry).length) ++
    (J.marshal entry).take ((J.marshal entry).length % 4294967296)

theorem record_eq_stub (entry : Entry) : record J crc entry =
      stub J crc entry ++ (J.marshal entry).drop ((J.marshal entry).length % 4294967296) := by
  rw [stub, append_assoc, take_append_drop, record]

theorem behind_stub (entry : Entry) (tail : List UInt8) :
    behind (stub J crc entry ++ tail) = tail := by
  have hlen : ((J.marshal entry).take ((J.marshal entry).length % 4294967296)).length =
      (J.marshal entry).length % 4294967296 := by
    rw [length_take]
    exact Nat.min_eq_left (Nat.mod_le _ _)
  rw [stub, behind, append_assoc]
  show drop (uint32 (putUint32 (UInt32.ofNat (J.marshal entry).length))).toNat
    ((J.marshal entry).take ((J.marshal entry).length % 4294967296) ++ tail) = tail
  rw [uint32_putUint32, toNat_length]
  nth_rewrite 1 [← hlen]
  exact drop_left

/-- The checksum that tells the entry shows that some of it is missing. -/
theorem parseEntry_stub (h : ¬ Fits J entry) (tail : List UInt8) :
    ∃ e, parseEntry J (telling (J.marshal entry) 1 0)
      (stub J (telling (J.marshal entry) 1 0) entry ++ tail) = .error e ∧ e ≠ .io .eof := by
  have hlt : (J.marshal entry).length % 4294967296 < (J.marshal entry).length :=
    Nat.lt_of_lt_of_le (Nat.mod_lt _ (by decide)) (Nat.le_of_not_lt h)
  have hchecksum : telling (J.marshal entry) 1 0 (J.marshal entry) = 1 := if_pos rfl
  rw [stub, hchecksum, append_assoc]
  refine parseEntry_telling (by decide) ?_ ?_
  · intro hnil
    obtain htake | htake := take_eq_nil_iff.mp (append_eq_nil_iff.mp hnil).1
    · rw [toNat_length, htake]
    · exact absurd htake (J.marshal_ne_nil entry)
  · refine ne_of_length_ne ?_
    rw [toNat_length, length_take]
    omega

theorem blocks_stub (h : ¬ Fits J entry) :
    Blocks J (telling (J.marshal entry) 1 0) (stub J (telling (J.marshal entry) 1 0) entry) := by
  intro tail fuel b hw hcontent hfuel
  obtain ⟨fuel, rfl⟩ := Nat.exists_eq_add_one.mpr (Nat.zero_lt_of_lt hfuel)
  have hparse := parseEntry_stub h tail
  obtain ⟨e, herror, hne⟩ := hparse
  have hread := @readEntry_eq J (telling (J.marshal entry) 1 0) b hw
  rw [hcontent, herror] at hread
  obtain ⟨b', hb', -, hlen⟩ := hread
  rw [behind_stub] at hlen
  rw [scan, hb']
  exact ⟨hne, hlen⟩

theorem Blocks.records (h : Blocks J crc body) (hfits : ∀ entry ∈ entries, Fits J entry) :
    Blocks J crc (entries.flatMap (record J crc) ++ body) := by
  induction entries with
  | nil => exact h
  | cons entry entries ih =>
    obtain ⟨hentry, hentries⟩ := forall_mem_cons.mp hfits
    intro tail fuel b hw hcontent hfuel
    obtain ⟨fuel, rfl⟩ := Nat.exists_eq_add_one.mpr (Nat.zero_lt_of_lt hfuel)
    rw [flatMap_cons, append_assoc, append_assoc,
      ← append_assoc _ body] at hcontent hfuel
    have hparse := @parseEntry_record J crc entry hentry
      (entries.flatMap (record J crc) ++ body ++ tail)
    have hread := @readEntry_eq J crc b hw
    rw [hcontent, hparse] at hread
    obtain ⟨b', hb', hw', hcontent'⟩ := hread
    have hlen := length_of_parseEntry hparse
    rw [scan, hb']
    exact ih hentries tail fuel b' hw' hcontent' (by omega)

/-- The file has a block behind which all is written. -/
structure Stuck (J : JSON) (crc : List UInt8 → UInt32) (w : WAL) : Prop where
  exists_body : ∃ body tail, Blocks J crc body ∧ w.file.bytes = walHeader ++ (body ++ tail) ∧
    8 + body.length ≤ w.file.offset

theorem scan_blocks {f : File} {tail : List UInt8} (h : Blocks J crc body)
    (hbytes : f.bytes = walHeader ++ (body ++ tail)) :
    (scan J crc (f.bytes.length + 1) ({ f with offset := 8 } : File).reader).1.2 ≠ .io .eof ∧
      8 + body.length ≤ (({ f with offset := 8 } : File).after
        (scan J crc (f.bytes.length + 1) ({ f with offset := 8 } : File).reader).2).offset := by
  obtain ⟨hw, hcontent, hfuel⟩ := reader_body hbytes
  have hlen : f.bytes.length = 8 + (body.length + tail.length) := by
    rw [hbytes, length_append, length_append, length_walHeader]
  obtain ⟨hne, hleft⟩ := h tail _ _ hw hcontent hfuel
  refine ⟨hne, ?_⟩
  rw [BufReader.content, length_append] at hleft
  rw [File.after]
  dsimp only
  omega

namespace Stuck

theorem write (h : w.Stuck J crc) (data : List UInt8) :
    ({ w with file := w.file.write data } : WAL).Stuck J crc := by
  obtain ⟨body, tail, hblocks, hbytes, hoffset⟩ := h.exists_body
  refine ⟨body, tail.take (w.file.offset - (8 + body.length)) ++ (data ++
    w.file.bytes.drop (w.file.offset + data.length)), hblocks, ?_, ?_⟩
  · show w.file.bytes.take w.file.offset ++ data ++ _ = _
    have htake : w.file.bytes.take w.file.offset =
        walHeader ++ (body ++ tail.take (w.file.offset - (8 + body.length))) := by
      have hlen : (walHeader ++ body).length = 8 + body.length := by
        rw [length_append, length_walHeader]
      rw [hbytes, ← append_assoc, take_append, hlen, take_of_length_le (by omega), append_assoc]
    rw [htake]
    simp only [append_assoc]
  · exact Nat.le_add_right_of_le hoffset

variable {w' : WAL}

variable (h : w.Stuck J crc)
include h

theorem of_file (hfile : w'.file = w.file) : w'.Stuck J crc := by
  obtain ⟨body, tail, hblocks, hbytes, hoffset⟩ := h.exists_body
  exact ⟨body, tail, hblocks, by rw [hfile]; exact hbytes, by rw [hfile]; exact hoffset⟩

theorem append (entry : Entry) : (w.append J crc entry).Stuck J crc :=
  (h.write (record J crc entry)).of_file (file_note _ entry)

theorem appendBatch (entries : List Entry) : (w.appendBatch J crc entries).Stuck J crc := by
  rw [WAL.appendBatch]
  split
  · exact h
  · exact (h.write _).of_file (file_foldl_note _ entries)

theorem after {w' : WAL} (hfile : w'.file = ({ w.file with offset := 8 } : File).after
      (scan J crc (w.file.bytes.length + 1) ({ w.file with offset := 8 } : File).reader).2) :
    w'.Stuck J crc := by
  obtain ⟨body, tail, hblocks, hbytes, -⟩ := h.exists_body
  refine ⟨body, tail, hblocks, ?_, ?_⟩
  · rw [hfile]
    exact hbytes
  · rw [hfile]
    exact (scan_blocks hblocks hbytes).2

theorem scan_ne :
    (scan J crc (w.file.bytes.length + 1) ({ w.file with offset := 8 } : File).reader).1.2 ≠
      .io .eof := by
  obtain ⟨body, tail, hblocks, hbytes, -⟩ := h.exists_body
  exact (scan_blocks hblocks hbytes).1

theorem truncate (beforeIndex : Nat) : (w.truncate J crc beforeIndex).2.Stuck J crc := by
  rw [WAL.truncate]
  rw [if_neg h.scan_ne]
  exact h.after rfl

theorem readEntries (startIndex : Nat) : (∃ e, (w.readEntries J crc startIndex).1 = .error e) ∧
      (w.readEntries J crc startIndex).2.Stuck J crc := by
  rw [WAL.readEntries]
  rw [if_neg h.scan_ne]
  exact ⟨⟨_, rfl⟩, h.after rfl⟩

theorem newWAL : ∃ w', WAL.newWAL J crc w.file.bytes = .ok w' ∧ w'.Stuck J crc := by
  obtain ⟨body, tail, -, hbytes, -⟩ := h.exists_body
  have hne : w.file.bytes ≠ [] := by
    rw [hbytes]
    exact ne_nil_of_length_pos (by rw [length_append, length_walHeader]; omega)
  obtain ⟨w', hrecover, hfile⟩ :=
    @recover_eq J crc { file := ⟨w.file.bytes, 0⟩ } (body ++ tail) hbytes
  rw [WAL.newWAL, if_neg hne]
  exact ⟨w', hrecover, h.after hfile⟩

/-- No call gets the file unstuck. -/
theorem call (op : Op) : ((calls J crc).call w op).2.Stuck J crc := by
  cases op with
  | append entry => exact h.append entry
  | appendBatch entries => exact h.appendBatch entries
  | truncate beforeIndex => exact h.truncate beforeIndex
  | readEntries startIndex => exact (h.readEntries startIndex).2
  | reopen =>
    obtain ⟨w', hnew, hstuck⟩ := h.newWAL
    simp only [calls, hnew]
    exact hstuck

end Stuck

/-- Records of which one is too long block the file. -/
theorem Holds.stuck {written : List Entry} (h : w.Holds (written.flatMap (record J crc)))
    {before after : List Entry} (hwritten : written = before ++ entry :: after)
    (hfits : ∀ e ∈ before, Fits J e) (hblocks : Blocks J crc (stub J crc entry)) :
    w.Stuck J crc := by
  have hbytes : w.file.bytes = walHeader ++ ((before.flatMap (record J crc) ++ stub J crc entry) ++
      ((J.marshal entry).drop ((J.marshal entry).length % 4294967296) ++
        after.flatMap (record J crc))) := by
    rw [h.bytes, hwritten, flatMap_append, flatMap_cons, record_eq_stub]
    simp only [append_assoc]
  refine ⟨_, _, hblocks.records hfits, hbytes, ?_⟩
  rw [h.offset, hbytes]
  simp only [length_append, length_walHeader]
  omega

variable {ws : (List UInt8 → UInt32) → WAL}

theorem Lists.call_not_fits
    (h : ∀ crc, (ws crc).Lists J crc entries) (hnot : ¬ ∀ entry ∈ op.wrote, Fits J entry) :
    ∃ crc, ((calls J crc).call (ws crc) op).2.Stuck J crc := by
  have hsome : (op.wrote.find? fun entry => !decide (Fits J entry)).isSome = true := by
    rw [find?_isSome]
    by_contra hall
    refine hnot fun entry hentry => ?_
    by_contra hentry'
    exact hall ⟨entry, hentry, by simp [hentry']⟩
  obtain ⟨entry, hfind⟩ := Option.isSome_iff_exists.mp hsome
  obtain ⟨hentry, before, after, hwrote, hbefore⟩ := find?_eq_some_iff_append.mp hfind
  have hlong : ¬ Fits J entry := by simpa using hentry
  have hfits : ∀ e ∈ entries ++ before, Fits J e := by
    intro e he
    obtain he | he := mem_append.mp he
    · exact (h fun _ => 0).fits e he
    · simpa using hbefore e he
  refine ⟨telling (J.marshal entry) 1 0, ?_⟩
  have hholds : ((calls J (telling (J.marshal entry) 1 0)).call
      (ws (telling (J.marshal entry) 1 0)) op).2.Holds
        ((entries ++ op.wrote).flatMap (record J (telling (J.marshal entry) 1 0))) := by
    rw [flatMap_append]
    cases op with
    | append e =>
      rw [Op.wrote, flatMap_singleton]
      exact (h _).holds.append e
    | appendBatch es => exact (h _).holds.appendBatch es
    | truncate | readEntries | reopen => exact absurd (fun _ he => absurd he not_mem_nil) hnot
  have hsplit : entries ++ op.wrote = (entries ++ before) ++ entry :: after := by
    rw [hwrote, append_assoc]
  exact hholds.stuck hsplit hfits (blocks_stub hlong)

theorem Lists.run_not_fits (h : ∀ crc, (ws crc).Lists J crc entries) {ops : List Op}
    (hnot : ¬ ∀ entry ∈ ops.flatMap Op.wrote, Fits J entry) :
    ∃ crc, ((calls J crc).run (ws crc) ops).2.Stuck J crc := by
  induction ops generalizing ws entries with
  | nil => exact absurd (fun _ he => absurd he not_mem_nil) hnot
  | cons op ops ih =>
    by_cases hop : ∀ entry ∈ op.wrote, Fits J entry
    · refine ih (fun crc => ((h crc).call hop).2) ?_
      intro hops
      refine hnot fun entry hentry => ?_
      rw [flatMap_cons, mem_append] at hentry
      exact hentry.elim (hop entry) (hops entry)
    · obtain ⟨crc, hstuck⟩ := Lists.call_not_fits h hop
      exact ⟨crc, Object.run_invariant (fun _ op hw => hw.call op) hstuck ops⟩

/-! ## Whole sequences of calls -/

theorem lists_empty : empty.Lists J crc [] := ⟨⟨rfl, rfl⟩, by simp⟩

theorem reads_cons (A : Object σ Op Answer) (s : σ) (op : Op) (ops : List Op) :
    reads A s (op :: ops) = (A.call s op).1.result.toList ++ reads A (A.call s op).2 ops := by
  rw [reads, Object.run, filterMap_cons]
  cases (A.call s op).1.result with
  | none | some => rfl

variable {before after : List Op}

theorem mem_reads_append {A : Object σ Op Answer} {s : σ}
    (h : (A.call (A.run s before).2 op).1.result = some r) :
    r ∈ reads A s (before ++ op :: after) := by
  rw [reads, Object.run_append]
  refine mem_filterMap.mpr ⟨_, mem_append_right _ mem_cons_self, h⟩

theorem result_call (entries : List Entry) (op : Op) :
    ∀ r ∈ (reference.call entries op).1.result, ∃ l, r = .ok l := by
  intro r hr
  cases op with
  | readEntries startIndex =>
    cases hr
    exact ⟨_, rfl⟩
  | append | appendBatch | truncate | reopen => cases hr

theorem ok_of_mem_reads (h : r ∈ reads reference entries ops) : ∃ l, r = .ok l := by
  induction ops generalizing entries with
  | nil => cases h
  | cons op ops ih =>
    rw [reads_cons, mem_append] at h
    obtain h | h := h
    · exact result_call entries op r (Option.mem_toList.mp h)
    · exact ih h

/-- Whenever the file is read, all entries written before fit. -/
def ReadsFit (J : JSON) (ops : List Op) : Prop :=
  ∀ before startIndex after, ops = before ++ .readEntries startIndex :: after →
    ∀ entry ∈ before.flatMap Op.wrote, Fits J entry

theorem reads_of_not_fits (A : Object σ Op Answer)
    (hA : ∀ s op, (∀ startIndex, op ≠ .readEntries startIndex) → (A.call s op).1.result = none)
    (s : σ) (h : ReadsFit J (op :: ops)) (hnot : ¬ ∀ entry ∈ op.wrote, Fits J entry) :
    reads A s ops = [] := by
  have hnone : ∀ op' ∈ ops, ∀ startIndex, op' ≠ .readEntries startIndex := by
    intro op' hop' startIndex heq
    obtain ⟨before, after, hsplit⟩ := append_of_mem hop'
    refine hnot fun entry hentry => ?_
    refine h (op :: before) startIndex after (by rw [hsplit, heq]; rfl) entry ?_
    rw [flatMap_cons]
    exact mem_append_left _ hentry
  clear h
  induction ops generalizing s with
  | nil => rfl
  | cons op' ops ih =>
    obtain ⟨hop', hops⟩ := forall_mem_cons.mp hnone
    rw [reads_cons, hA s op' hop', ih _ hops]
    rfl

theorem calls_result_none (w : WAL) (op : Op) (h : ∀ startIndex, op ≠ .readEntries startIndex) :
    ((calls J crc).call w op).1.result = none := by
  cases op with
  | readEntries startIndex => exact absurd rfl (h startIndex)
  | append | appendBatch | truncate => rfl
  | reopen =>
    rw [calls]
    dsimp only
    split
    · rfl
    · rfl

theorem reference_result_none (entries : List Entry) (op : Op)
    (h : ∀ startIndex, op ≠ .readEntries startIndex) :
    (reference.call entries op).1.result = none := by
  cases op with
  | readEntries startIndex => exact absurd rfl (h startIndex)
  | append | appendBatch | truncate | reopen => rfl

theorem ReadsFit.tail {op : Op} {ops : List Op} (h : ReadsFit J (op :: ops)) : ReadsFit J ops := by
  intro before startIndex after hsplit entry hentry
  refine h (op :: before) startIndex after (by rw [hsplit]; rfl) entry ?_
  rw [flatMap_cons]
  exact mem_append_right _ hentry

theorem Lists.reads_eq (h : w.Lists J crc entries) (hops : ReadsFit J ops) :
    reads (calls J crc) w ops = reads reference entries ops := by
  induction ops generalizing w entries with
  | nil => rfl
  | cons op ops ih =>
    rw [reads_cons, reads_cons]
    by_cases hop : ∀ entry ∈ op.wrote, Fits J entry
    · obtain ⟨hanswer, hlists⟩ := h.call hop
      rw [hanswer, ih hlists hops.tail]
    · -- The entry is never read, so it does not matter what the file looks like.
      have hread : ∀ startIndex, op ≠ .readEntries startIndex := by
        intro startIndex heq
        rw [heq] at hop
        exact hop fun _ he => absurd he not_mem_nil
      rw [reads_of_not_fits _ calls_result_none _ hops hop,
        reads_of_not_fits _ reference_result_none _ hops hop, calls_result_none w op hread,
        reference_result_none entries op hread]

theorem reads_ne {startIndex : Nat} (hnot : ¬ ∀ entry ∈ before.flatMap Op.wrote, Fits J entry) :
    ∃ crc, reads (calls J crc) empty (before ++ .readEntries startIndex :: after) ≠
      reads reference [] (before ++ .readEntries startIndex :: after) := by
  obtain ⟨crc, hstuck⟩ := @Lists.run_not_fits J [] (fun _ => empty) (fun _ => lists_empty) _ hnot
  refine ⟨crc, fun heq => ?_⟩
  obtain ⟨e, herror⟩ := (hstuck.readEntries startIndex).1
  have hmem : .error e ∈ reads (calls J crc) empty (before ++ .readEntries startIndex :: after) :=
    mem_reads_append (congrArg some herror)
  rw [heq] at hmem
  obtain ⟨l, hl⟩ := ok_of_mem_reads hmem
  cases hl

/-- Whatever the checksum, `ReadEntries` returns what the list has, if and only
if all entries written before have a length that a `uint32` can hold. -/
theorem reads_eq_reference_iff (J : JSON) (ops : List Op) :
    (∀ crc, reads (calls J crc) empty ops = reads reference [] ops) ↔ ReadsFit J ops := by
  constructor
  · intro h before startIndex after hsplit
    by_contra hnot
    obtain ⟨crc, hne⟩ := @reads_ne J before after startIndex hnot
    rw [← hsplit] at hne
    exact hne (h crc)
  · intro h crc
    exact lists_empty.reads_eq h

/-- An entry whose command has `n` bytes. -/
def zeros (n : Nat) : Entry := ⟨1, 1, replicate n 0⟩

theorem zeros_not_fits {n : Nat} (h : 4294967296 ≤ n) : ¬ Fits unary (zeros n) := by
  rw [Fits, zeros]
  simp only [unary, length_append, length_cons, length_replicate]
  omega

/-- A command of 4 GiB is written, and then nothing can be read. -/
theorem zeros_not_read : ∃ crc,
    reads (calls unary crc) empty [.append (zeros 4294967296), .readEntries 1] ≠
      reads reference [] [.append (zeros 4294967296), .readEntries 1] := by
  refine @reads_ne unary [.append (zeros 4294967296)] [] 1 ?_
  intro h
  exact zeros_not_fits le_rfl (h (zeros 4294967296) (by simp [Op.wrote]))

end WAL

end Geryon.Raft
