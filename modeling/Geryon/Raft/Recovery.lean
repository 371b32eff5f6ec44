import Geryon.Raft.WAL

/-!
# Recovery of the write-ahead log

A crash leaves a part of the file.  `recover` reads it up to the first error and
leaves the rest where it is; `ReadEntries` does not accept any error but
`io.EOF`, and new records are written behind what is left of the last one.

The checksum is not fixed: what is said about a cut holds for every checksum, or
fails for one that tells the data of the record from all other data.
-/

namespace Geryon.Raft

open Go List

variable {J : JSON} {crc : List UInt8 → UInt32} {c rest : List UInt8} {entry : Entry}
  {e : WALError} {entries : List Entry}

/-! ## Checksums that tell -/

/-- A checksum that has one value for `data` and another one for everything
else. -/
def telling (data : List UInt8) (checksum other : UInt32) : List UInt8 → UInt32 :=
  fun d => if d = data then checksum else other

/-- If the data that is read is not the data that was written, such a checksum
shows it. -/
theorem parseEntry_telling {data : List UInt8} {checksum other length : UInt32}
    (hne : other ≠ checksum) (hrest : rest = [] → length.toNat = 0)
    (hdata : rest.take length.toNat ≠ data) : ∃ e, parseEntry J (telling data checksum other)
      (putUint32 checksum ++ putUint32 length ++ rest) = .error e ∧ e ≠ .io .eof := by
  rw [parseEntry_put]
  by_cases hlt : rest.length < length.toNat
  · have hne' : rest ≠ [] := by
      intro hnil
      rw [hrest hnil] at hlt
      omega
    rw [if_pos hlt, if_neg hne']
    exact ⟨_, rfl, by simp⟩
  · rw [if_neg hlt, if_pos (by rw [telling, if_neg hdata]; exact hne)]
    exact ⟨_, rfl, by simp⟩

theorem ne_of_length_ne {l m : List UInt8} (h : l.length ≠ m.length) : l ≠ m := by
  intro heq
  exact h (congrArg length heq)

theorem parseEntry_not_fits (h : ¬ Fits J entry) (rest : List UInt8) :
    ∃ e, parseEntry J (telling (J.marshal entry) 1 0)
      (record J (telling (J.marshal entry) 1 0) entry ++ rest) = .error e ∧ e ≠ .io .eof := by
  have hlen : (UInt32.ofNat (J.marshal entry).length).toNat < (J.marshal entry).length := by
    rw [Fits] at h
    rw [toNat_length]
    exact Nat.lt_of_lt_of_le (Nat.mod_lt _ (by decide)) (Nat.le_of_not_lt h)
  have hchecksum : telling (J.marshal entry) 1 0 (J.marshal entry) = 1 := if_pos rfl
  rw [record, hchecksum, append_assoc]
  refine parseEntry_telling (by decide) ?_ ?_
  · intro hnil
    exact absurd (append_eq_nil_iff.mp hnil).1 (J.marshal_ne_nil entry)
  · refine ne_of_length_ne ?_
    rw [length_take, length_append]
    omega

/-- A file that is read to its end, whatever the checksum, has no records that
are too long. -/
theorem fits_of_scans (tail : (List UInt8 → UInt32) → List UInt8)
    (h : ∀ crc, ∃ entries', Scans J crc (entries.flatMap (record J crc) ++ tail crc) entries'
      (.io .eof)) : ∀ entry ∈ entries, Fits J entry := by
  induction entries with
  | nil => simp
  | cons entry entries ih =>
    have hentry : Fits J entry := by
      by_contra hnot
      obtain ⟨entries', hscans⟩ := h (telling (J.marshal entry) 1 0)
      rw [flatMap_cons, append_assoc] at hscans
      obtain ⟨e, herror, hne⟩ := parseEntry_not_fits hnot _
      exact hne (hscans.of_error herror).2.symm
    refine forall_mem_cons.mpr ⟨hentry, ih ?_⟩
    intro crc
    obtain ⟨entries', hscans⟩ := h crc
    rw [flatMap_cons, append_assoc] at hscans
    obtain ⟨entries'', -, hrest⟩ := hscans.of_ok (parseEntry_record hentry _)
    exact ⟨entries'', hrest⟩

theorem Scans.of_records {entries' : List Entry} (h : ∀ entry ∈ entries, Fits J entry)
    (hscans : Scans J crc (entries.flatMap (record J crc) ++ rest) entries' e) :
    ∃ entries'', Scans J crc rest entries'' e := by
  induction entries generalizing entries' with
  | nil => exact ⟨entries', hscans⟩
  | cons entry entries ih =>
    obtain ⟨hentry, hentries⟩ := forall_mem_cons.mp h
    rw [flatMap_cons, append_assoc] at hscans
    obtain ⟨entries'', -, hrest⟩ := hscans.of_ok (parseEntry_record hentry _)
    exact ih hentries hrest

/-! ## A file that has been cut off -/

/-- What is left of the records when only `n` bytes are there: the entries whose
records are complete, and the entry of the record that is cut off, with the
number of its bytes. -/
def cut (J : JSON) : Nat → List Entry → List Entry × Option (Entry × Nat)
  | _, [] => ([], none)
  | n, entry :: entries =>
    if 8 + (J.marshal entry).length ≤ n then
      let r := cut J (n - (8 + (J.marshal entry).length)) entries
      (entry :: r.1, r.2)
    else ([], if n = 0 then none else some (entry, n))

/-- The bytes after the last complete record. -/
def torn (J : JSON) (crc : List UInt8 → UInt32) : Option (Entry × Nat) → List UInt8
  | none => []
  | some (entry, n) => (record J crc entry).take n

theorem length_record (entry : Entry) :
    (record J crc entry).length = 8 + (J.marshal entry).length := by
  rw [record, length_append]
  rfl

theorem take_records (n : Nat) (entries : List Entry) : (entries.flatMap (record J crc)).take n =
      (cut J n entries).1.flatMap (record J crc) ++ torn J crc (cut J n entries).2 := by
  induction entries generalizing n with
  | nil =>
    rw [flatMap_nil, take_nil]
    rfl
  | cons entry entries ih =>
    have hlen := @length_record J crc entry
    rw [flatMap_cons, cut]
    split
    · rename_i hle
      rw [take_append, take_of_length_le (by omega), hlen, ih, flatMap_cons, append_assoc]
    · rename_i hlt
      rw [take_append_of_le_length (by omega)]
      by_cases hn : n = 0
      · rw [if_pos hn, hn]
        rfl
      · rw [if_neg hn]
        rfl

variable {m : Nat}

theorem cut_snd {n : Nat} (h : (cut J n entries).2 = some (entry, m)) :
    0 < m ∧ m < 8 + (J.marshal entry).length := by
  induction entries generalizing n with
  | nil => cases h
  | cons a entries ih =>
    rw [cut] at h
    split at h
    · exact ih h
    · by_cases hn : n = 0
      · rw [if_pos hn] at h
        cases h
      · rw [if_neg hn] at h
        cases h
        omega

/-- The cut is behind the checksum, or behind a length that is not 0: `readEntry`
takes this for the end of the file. -/
def AtField (J : JSON) (entry : Entry) (m : Nat) : Prop :=
  m = 4 ∨ m = 8 ∧ (J.marshal entry).length % 4294967296 ≠ 0

instance (J : JSON) (entry : Entry) (m : Nat) : Decidable (AtField J entry m) :=
  inferInstanceAs (Decidable (_ ∨ _ ∧ _))

theorem torn_four : torn J crc (some (entry, 4)) = putUint32 (crc (J.marshal entry)) := rfl

theorem torn_of_le (h : 8 ≤ m) : torn J crc (some (entry, m)) = putUint32 (crc (J.marshal entry)) ++
      putUint32 (UInt32.ofNat (J.marshal entry).length) ++ (J.marshal entry).take (m - 8) := by
  rw [torn, record, take_append, take_of_length_le (by simp; omega)]
  rfl

theorem parseEntry_atField (h : AtField J entry m) :
    parseEntry J crc (torn J crc (some (entry, m))) = .error (.io .eof) := by
  obtain rfl | ⟨rfl, hlen⟩ := h
  · rfl
  · rw [torn_of_le le_rfl, parseEntry_put, Nat.sub_self, take_zero, toNat_length,
      length_nil, if_pos (Nat.pos_of_ne_zero hlen), if_pos rfl]

/-- Everywhere else in a record, some checksum makes `readEntry` fail. -/
theorem parseEntry_torn (hpos : 0 < m) (hlt : m < 8 + (J.marshal entry).length)
    (h : ¬ AtField J entry m) : ∃ e, parseEntry J (telling (J.marshal entry) 1 0)
      (torn J (telling (J.marshal entry) 1 0) (some (entry, m))) = .error e ∧ e ≠ .io .eof := by
  have hfour : m ≠ 4 := fun heq => h (.inl heq)
  generalize htorn : torn J (telling (J.marshal entry) 1 0) (some (entry, m)) = t
  have hlen : t.length = m := by
    rw [← htorn, torn, length_take, length_record]
    omega
  by_cases h1 : m < 4
  · refine ⟨.io .unexpectedEOF, ?_, by simp⟩
    have hne : t ≠ [] := ne_nil_of_length_pos (by omega)
    rw [parseEntry, if_pos (by omega), if_neg hne]
  by_cases h2 : m < 8
  · refine ⟨.io .unexpectedEOF, ?_, by simp⟩
    have hdrop : (t.drop 4).length = m - 4 := by rw [length_drop, hlen]
    have hne : t.drop 4 ≠ [] := ne_nil_of_length_pos (by omega)
    rw [parseEntry, if_neg (by omega), if_pos (by omega), if_neg hne]
  -- Some of the data is there, or its length is written as 0.
  have hchecksum : telling (J.marshal entry) 1 0 (J.marshal entry) = 1 := if_pos rfl
  rw [← htorn, torn_of_le (by omega), hchecksum]
  refine parseEntry_telling (by decide) ?_ ?_
  · intro hnil
    have hlen' := congrArg length hnil
    rw [length_take, length_nil] at hlen'
    have hne := length_pos_iff.mpr (J.marshal_ne_nil entry)
    rw [toNat_length]
    by_contra hzero
    exact h (.inr ⟨by omega, hzero⟩)
  · refine ne_of_length_ne ?_
    rw [length_take, length_take]
    omega

theorem telling_eq_or (data d : List UInt8) (checksum other : UInt32) :
    telling data checksum other d = checksum ∨ telling data checksum other d = other := by
  rw [telling]
  split
  · exact .inl rfl
  · exact .inr rfl

/-- A record behind a checksum: its own checksum is taken for a length. -/
theorem parseEntry_torn_four (entry first : Entry) :
    ∃ crc, ∀ t, ∃ e, parseEntry J crc (torn J crc (some (entry, 4)) ++ (record J crc first ++ t)) =
      .error e ∧ e ≠ .io .eof := by
  obtain ⟨other, hother, hne⟩ : ∃ other : UInt32, other ≠ 0 ∧ other.toNat ≤ 4 ∧
      other.toNat ≠ (J.marshal entry).length := by
    by_cases hone : (J.marshal entry).length = 1
    · exact ⟨2, by decide, by decide, by rw [hone]; decide⟩
    · exact ⟨1, by decide, by decide, Ne.symm hone⟩
  refine ⟨telling (J.marshal entry) 0 other, ?_⟩
  intro t
  have hchecksum : telling (J.marshal entry) 0 other (J.marshal entry) = 0 := if_pos rfl
  rw [torn_four, hchecksum, record, append_assoc, append_assoc, ← append_assoc]
  refine parseEntry_telling hother (by simp [putUint32]) ?_
  obtain hzero | hvalue := telling_eq_or (J.marshal entry) (J.marshal first) 0 other
  · rw [hzero]
    exact (J.marshal_ne_nil entry).symm
  · rw [hvalue]
    refine ne_of_length_ne ?_
    rw [length_take, length_append, length_putUint32]
    omega

/-- A record behind a length: it is taken for data. -/
theorem parseEntry_torn_eight (first : Entry) (h : (J.marshal entry).length % 4294967296 ≠ 0) :
    ∃ crc, ∀ t, ∃ e, parseEntry J crc (torn J crc (some (entry, 8)) ++ (record J crc first ++ t)) =
      .error e ∧ e ≠ .io .eof := by
  -- Two checksums that do not start as the data does.
  obtain ⟨checksum, other, hother, hhead⟩ : ∃ checksum other : UInt32, other ≠ checksum ∧
      ∀ v, v = checksum ∨ v = other → (putUint32 v).head? ≠ (J.marshal entry).head? := by
    by_cases hzero : (J.marshal entry).head? = some 0
    · refine ⟨0x01000000, 0x01000001, by decide, ?_⟩
      rw [hzero]
      intro v hv
      obtain rfl | rfl := hv
      · decide
      · decide
    · refine ⟨0, 1, by decide, ?_⟩
      intro v hv
      obtain rfl | rfl := hv
      · exact fun heq => hzero heq.symm
      · exact fun heq => hzero heq.symm
  refine ⟨telling (J.marshal entry) checksum other, ?_⟩
  intro t
  have hchecksum : telling (J.marshal entry) checksum other (J.marshal entry) = checksum :=
    if_pos rfl
  rw [torn_of_le le_rfl, hchecksum, Nat.sub_self, take_zero, append_nil]
  refine parseEntry_telling hother (by simp [record, putUint32]) ?_
  intro heq
  refine hhead _ (telling_eq_or (J.marshal entry) (J.marshal first) checksum other) ?_
  have htake := congrArg head? heq
  rw [head?_take, toNat_length, if_neg h] at htake
  rw [← htake]
  rfl

/-! ## Recovery -/

namespace WAL

variable {w : WAL} {body : List UInt8}

/-- The file is cut off `n` bytes after its header.  `NewWAL` opens it,
`ReadEntries` returns the entries whose records are complete, and after further
calls of `Append` these and the new ones. -/
def Recovers (J : JSON) (crc : List UInt8 → UInt32) (calls : List Call) (n : Nat)
    (new : List Entry) : Prop :=
  ∃ w, newWAL J crc ((written J crc calls).take (8 + n)) = .ok w ∧
    (w.readEntries J crc 1).1 = .ok (cut J n (calls.flatMap Call.wrote)).1 ∧
    ((new.foldl (append J crc) (w.readEntries J crc 1).2).readEntries J crc 1).1 =
      .ok ((cut J n (calls.flatMap Call.wrote)).1 ++ new)

/-- The entries can be read back, and the cut is at the end of a record, or no
entries follow and the cut is where `readEntry` takes it for the end. -/
structure CleanCut (J : JSON) (n : Nat) (entries new : List Entry) : Prop where
  fits : ∀ entry ∈ (cut J n entries).1 ++ new, Fits J entry ∧ 1 ≤ entry.index
  torn : ∀ entry m, (cut J n entries).2 = some (entry, m) → new = [] ∧ AtField J entry m

variable {kept new : List Entry} {n : Nat}

/-- A file with these bytes after the header is opened and read, and read again
after further calls of `Append`. -/
def Reopens (J : JSON) (crc : List UInt8 → UInt32) (body : List UInt8) (kept new : List Entry) :
    Prop :=
  ∃ w, newWAL J crc (walHeader ++ body) = .ok w ∧ (w.readEntries J crc 1).1 = .ok kept ∧
    ((new.foldl (append J crc) (w.readEntries J crc 1).2).readEntries J crc 1).1 =
      .ok (kept ++ new)

theorem recovers_iff_reopens (calls : List Call) : Recovers J crc calls n new ↔
      Reopens J crc ((cut J n (calls.flatMap Call.wrote)).1.flatMap (record J crc) ++
        torn J crc (cut J n (calls.flatMap Call.wrote)).2)
        (cut J n (calls.flatMap Call.wrote)).1 new := by
  rw [Recovers, Reopens, written_eq, ← length_walHeader, take_length_add_append, take_records]

theorem ok_of_readEntries (hbytes : w.file.bytes = walHeader ++ body)
    (h : (w.readEntries J crc 1).1 = .ok kept) :
    (∃ entries, Scans J crc body entries (.io .eof)) ∧ ∀ entry ∈ kept, 1 ≤ entry.index := by
  obtain ⟨entries, e, hscans⟩ := @exists_scans J crc body
  rw [(readEntries_eq hbytes hscans 1).1] at h
  split at h
  · rename_i heof
    cases h
    refine ⟨⟨entries, heof ▸ hscans⟩, ?_⟩
    intro entry hentry
    exact of_decide_eq_true (mem_filter.mp hentry).2
  · cases h

theorem scans_of_reopens (h : Reopens J crc body kept new) :
    (∃ entries, Scans J crc body entries (.io .eof)) ∧
      (∃ entries, Scans J crc (body ++ new.flatMap (record J crc)) entries (.io .eof)) ∧
      ∀ entry ∈ kept ++ new, 1 ≤ entry.index := by
  obtain ⟨w, hnew, hread, hread'⟩ := h
  obtain ⟨entries, e, hscans⟩ := @exists_scans J crc body
  obtain ⟨w', hnew', hbytes, -⟩ := newWAL_header hscans
  rw [hnew] at hnew'
  cases hnew'
  obtain ⟨⟨entries, hscans⟩, -⟩ := ok_of_readEntries hbytes hread
  have hholds := (readEntries_eq hbytes hscans 1).2 ⟨_, rfl⟩
  obtain ⟨hscans', hindex⟩ := ok_of_readEntries (hholds.foldl_append new).bytes hread'
  exact ⟨⟨entries, hscans⟩, hscans', hindex⟩

theorem filter_index_eq (h : ∀ entry ∈ entries, 1 ≤ entry.index) :
    (entries.filter fun entry => decide (1 ≤ entry.index)) = entries :=
  filter_eq_self.mpr fun entry hentry => decide_eq_true (h entry hentry)

theorem reopens_of_scans (hscans : Scans J crc body kept (.io .eof))
    (hscans' : Scans J crc (body ++ new.flatMap (record J crc)) (kept ++ new) (.io .eof))
    (hindex : ∀ entry ∈ kept ++ new, 1 ≤ entry.index) : Reopens J crc body kept new := by
  obtain ⟨w, hnew, hbytes, -⟩ := newWAL_header hscans
  obtain ⟨hread, hholds⟩ := readEntries_eq hbytes hscans 1
  obtain ⟨hread', -⟩ := readEntries_eq ((hholds ⟨_, rfl⟩).foldl_append new).bytes hscans' 1
  refine ⟨w, hnew, ?_, ?_⟩
  · rw [hread, if_pos rfl, filter_index_eq fun entry hentry =>
      hindex entry (mem_append_left _ hentry)]
  · rw [hread', if_pos rfl, filter_index_eq hindex]

theorem reopens_records_iff : (∀ crc, Reopens J crc (kept.flatMap (record J crc)) kept new) ↔
      ∀ entry ∈ kept ++ new, Fits J entry ∧ 1 ≤ entry.index := by
  constructor
  · intro h entry hentry
    have hfits : ∀ entry ∈ kept ++ new, Fits J entry := by
      refine fits_of_scans (fun _ => []) ?_
      intro crc
      rw [append_nil, flatMap_append]
      exact (scans_of_reopens (h crc)).2.1
    exact ⟨hfits entry hentry, (scans_of_reopens (h fun _ => 0)).2.2 entry hentry⟩
  · intro h crc
    refine reopens_of_scans (scans_records ?_) ?_ fun entry hentry => (h entry hentry).2
    · intro entry hentry
      exact (h entry (mem_append_left _ hentry)).1
    · rw [← flatMap_append]
      exact scans_records fun entry hentry => (h entry hentry).1

theorem reopens_torn_iff {m : Nat} (hpos : 0 < m) (hlt : m < 8 + (J.marshal entry).length) :
    (∀ crc, Reopens J crc (kept.flatMap (record J crc) ++ torn J crc (some (entry, m))) kept new) ↔
      (∀ entry ∈ kept, Fits J entry ∧ 1 ≤ entry.index) ∧ new = [] ∧ AtField J entry m := by
  constructor
  · intro h
    have hfits := fits_of_scans _ fun crc => (scans_of_reopens (h crc)).1
    have hfield : AtField J entry m := by
      by_contra hnot
      obtain ⟨⟨entries, hscans⟩, -⟩ := scans_of_reopens (h (telling (J.marshal entry) 1 0))
      obtain ⟨entries', hrest⟩ := hscans.of_records hfits
      obtain ⟨e, herror, hne⟩ := parseEntry_torn hpos hlt hnot
      exact hne (hrest.of_error herror).2.symm
    refine ⟨?_, ?_, hfield⟩
    · intro entry hentry
      exact ⟨hfits entry hentry,
        (scans_of_reopens (h fun _ => 0)).2.2 entry (mem_append_left _ hentry)⟩
    · cases new with
      | nil => rfl
      | cons first new =>
        -- The first new record is taken for the rest of the one that is cut off.
        obtain ⟨crc, hcrc⟩ : ∃ crc, ∀ t, ∃ e, parseEntry J crc
            (torn J crc (some (entry, m)) ++ (record J crc first ++ t)) = .error e ∧
              e ≠ .io .eof := by
          obtain rfl | ⟨rfl, hlen⟩ := hfield
          · exact parseEntry_torn_four entry first
          · exact parseEntry_torn_eight first hlen
        obtain ⟨-, ⟨entries, hscans⟩, -⟩ := scans_of_reopens (h crc)
        rw [append_assoc, flatMap_cons] at hscans
        obtain ⟨entries', hrest⟩ := hscans.of_records hfits
        obtain ⟨e, herror, hne⟩ := hcrc (new.flatMap (record J crc))
        exact absurd (hrest.of_error herror).2.symm hne
  · intro h crc
    obtain ⟨hkept, rfl, hfield⟩ := h
    have hscans : Scans J crc (kept.flatMap (record J crc) ++ torn J crc (some (entry, m))) kept
        (.io .eof) := by
      simpa using Scans.records (fun entry hentry => (hkept entry hentry).1)
        (.stop (parseEntry_atField hfield))
    refine reopens_of_scans hscans ?_ ?_
    · rw [flatMap_nil, append_nil, append_nil]
      exact hscans
    · intro entry hentry
      rw [append_nil] at hentry
      exact (hkept entry hentry).2

/-- Crash recovery: it works for every checksum exactly if the cut is clean. -/
theorem recovers_iff_cleanCut (J : JSON) (calls : List Call) (n : Nat) (new : List Entry) :
    (∀ crc, Recovers J crc calls n new) ↔ CleanCut J n (calls.flatMap Call.wrote) new := by
  simp only [recovers_iff_reopens]
  cases htorn : (cut J n (calls.flatMap Call.wrote)).2 with
  | none =>
    simp only [torn, append_nil]
    rw [reopens_records_iff]
    constructor
    · intro h
      exact ⟨h, by simp [htorn]⟩
    · exact CleanCut.fits
  | some t =>
    obtain ⟨entry, m⟩ := t
    obtain ⟨hpos, hlt⟩ := cut_snd htorn
    rw [reopens_torn_iff hpos hlt]
    constructor
    · intro h
      obtain ⟨hfits, rfl, hfield⟩ := h
      refine ⟨by rwa [append_nil], ?_⟩
      intro entry' m' heq
      rw [htorn] at heq
      cases heq
      exact ⟨rfl, hfield⟩
    · intro h
      obtain ⟨rfl, hfield⟩ := h.torn entry m htorn
      have hfits := h.fits
      rw [append_nil] at hfits
      exact ⟨hfits, rfl, hfield⟩

/-- Two entries are written and the file loses its last byte.  `NewWAL` succeeds,
but `ReadEntries` returns an error instead of the first entry. -/
theorem crash_in_last_record : (newWAL unary (fun _ => 0) ((written unary (fun _ => 0)
      [.append ⟨1, 1, [7]⟩, .append ⟨1, 2, [8]⟩]).take (8 + 26))).toOption.map
        (fun w => (w.readEntries unary (fun _ => 0) 1).1) = some (.error (.io .unexpectedEOF)) ∧
    ¬ Recovers unary (fun _ => 0) [.append ⟨1, 1, [7]⟩, .append ⟨1, 2, [8]⟩] 26 [] := by
  have hread : (newWAL unary (fun _ => 0) ((written unary (fun _ => 0)
      [.append ⟨1, 1, [7]⟩, .append ⟨1, 2, [8]⟩]).take (8 + 26))).toOption.map
        (fun w => (w.readEntries unary (fun _ => 0) 1).1) = some (.error (.io .unexpectedEOF)) := by
    decide +kernel
  refine ⟨hread, ?_⟩
  intro h
  obtain ⟨w, hnew, hok, -⟩ := h
  rw [hnew] at hread
  have herror : (w.readEntries unary (fun _ => 0) 1).1 = .error (.io .unexpectedEOF) :=
    Option.some.inj hread
  rw [hok] at herror
  cases herror

end WAL

end Geryon.Raft
