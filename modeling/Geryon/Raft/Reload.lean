import Geryon.Raft.Votes
import Geryon.Raft.WAL

/-!
# Loading the log again

A node writes its new entries to the WAL, and `NewNode` reads them back.
`handleAppendEntries` cuts the log off when an entry has another term than the
one that is there; the WAL only grows.

A run is clean if this does not happen, and if no entry with index 0 comes,
which `ReadEntries(1)` leaves out; indices have 64 bits, and behind the largest
`Propose` goes on with 0.  The new node has the old log after clean runs and
after no others.
-/

namespace Geryon.Raft

open Go List Node Effect

/-! ## The model -/

structure Stored where
  node : Node
  wal : WAL

/-- What an effect writes to the WAL.  `Propose` calls `Append`, which is
`AppendBatch` of one entry. -/
def Effect.persisted : Effect → List Entry
  | .persist entries => entries
  | _ => []

/-- The entry of `Propose`, with an index of 64 bits. -/
def Node.newEntry64 (n : Node) (command : List UInt8) : Entry :=
  { n.newEntry command with index := (n.lastLogIndex + 1) % 18446744073709551616 }

/-- `Propose` with an index of 64 bits. -/
def Node.propose64 (n : Node) (command : List UInt8) (walOk : Bool) : Node × List Effect :=
  if n.state ≠ .leader then (n, [])
  else
    let n' := n.appended (n.newEntry64 command)
    if walOk then (n', .persist [n.newEntry64 command] :: n'.sendAppendEntriesToAll) else (n', [])

/-- A step with a term and an index of 64 bits.  What a leader sends depends on
`nextIndex` too, which has nothing to do with its own log. -/
def Node.perform64 (n : Node) : Input → Node × List Effect
  | .timeout => n.onElectionTimeout64
  | .propose command walOk => n.propose64 command walOk
  | .heartbeat => n.perform .heartbeat
  | .message msg installed => n.perform (.message msg installed)

/-- One step of the node, with what it writes. -/
def Stored.step (J : JSON) (crc : List UInt8 → UInt32) (s : Stored) (input : Input) : Stored where
  node := (s.node.perform64 input).1
  wal := (s.node.perform64 input).2.foldl (fun w e => w.appendBatch J crc e.persisted) s.wal

/-- `NewNode` on an empty directory. -/
def Stored.new (id : Str) (peers : List Str) : Stored where
  node := newNode id peers [] none
  wal := { file := File.write ⟨[], 0⟩ walHeader }

/-- `NewNode` on a directory where the WAL has these bytes, and without a
snapshot. -/
def loadNode (J : JSON) (crc : List UInt8 → UInt32) (id : Str) (peers : List Str)
    (bytes : List UInt8) : Except WALError Node :=
  match WAL.newWAL J crc bytes with
  | .error e => .error e
  | .ok w =>
    match (w.readEntries J crc 1).1 with
    | .error e => .error e
    | .ok entries => .ok (newNode id peers entries none)

/-- No error of the WAL, and no snapshot. -/
def Input.plain : Input → Bool
  | .propose _ walOk => walOk
  | .message msg _ =>
    match msg.data with
    | .installSnapshot _ => false
    | _ => true
  | _ => true

/-! ## The condition -/

/-- The entry is there with the same term, or its index is new and not 0. -/
def keeps (log : List Entry) (entry : Entry) : Bool :=
  match log.find? (fun e => e.index == entry.index) with
  | some e => e.term == entry.term
  | none => decide (1 ≤ entry.index)

/-- This holds for one entry after the other. -/
def keepsAll : List Entry → List Entry → Bool
  | _, [] => true
  | log, entry :: entries => keeps log entry && keepsAll (appendEntry log entry).1 entries

/-- A step that does not replace entries and makes none with index 0. -/
def Node.keepsLog (n : Node) : Input → Bool
  | .propose command _ =>
    decide (n.state ≠ .leader) || decide (1 ≤ (n.newEntry64 command).index)
  | .message msg _ =>
    match msg.data with
    | .appendEntries req =>
      !(n.checkTerm msg.term).1.accepts req || keepsAll n.logEntries req.entries
    | _ => true
  | _ => true

def keepsRun : Node → List Input → Bool
  | _, [] => true
  | n, input :: inputs => n.keepsLog input && keepsRun (n.perform64 input).1 inputs

/-! ## The log and the WAL side by side -/

/-- The three cases of `appendEntry`. -/
inductive Appended (log : List Entry) (entry : Entry) : List Entry × Bool → Prop
  | present {e : Entry} (hfind : log.find? (fun e => e.index == entry.index) = some e)
      (hterm : e.term = entry.term) : Appended log entry (log, false)
  | replaced {e : Entry} {l m : List Entry}
      (hfind : log.find? (fun e => e.index == entry.index) = some e)
      (hterm : e.term ≠ entry.term) (hlog : log = l ++ e :: m) :
      Appended log entry (l ++ [entry], true)
  | new (hfind : log.find? (fun e => e.index == entry.index) = none) :
      Appended log entry (log ++ [entry], true)

theorem appended_appendEntry (log : List Entry) (entry : Entry) :
    Appended log entry (appendEntry log entry) := by
  induction log with
  | nil => exact .new rfl
  | cons e log ih =>
    rw [appendEntry]
    by_cases hindex : e.index = entry.index
    · have hfind : (e :: log).find? (fun e => e.index == entry.index) = some e :=
        find?_cons_of_pos (by simpa using hindex)
      rw [if_pos hindex]
      by_cases hterm : e.term = entry.term
      · rw [if_neg (not_not.mpr hterm)]
        exact .present hfind hterm
      · rw [if_pos hterm]
        exact .replaced (l := []) hfind hterm rfl
    · have hfind : (e :: log).find? (fun e => e.index == entry.index) =
          log.find? (fun e => e.index == entry.index) :=
        find?_cons_of_neg (by simpa using hindex)
      rw [if_neg hindex]
      generalize appendEntry log entry = r at ih ⊢
      cases ih with
      | present hfind' hterm => exact .present (hfind.trans hfind') hterm
      | @replaced e' l m hfind' hterm hlog =>
        exact .replaced (l := e :: l) (hfind.trans hfind') hterm (by rw [hlog]; rfl)
      | new hfind' => exact .new (hfind.trans hfind')

/-- The entries that `ReadEntries(1)` returns. -/
def readable (entries : List Entry) : List Entry :=
  entries.filter fun entry => decide (1 ≤ entry.index)

theorem readable_append (l m : List Entry) : readable (l ++ m) = readable l ++ readable m :=
  filter_append _ _

/-- The log has lost an entry that the WAL will return, or has one that the WAL
will not. -/
def Parted (written log : List Entry) : Prop :=
  (readable log).length < (readable written).length ∨ ∃ e ∈ log, e.index = 0

/-- All that has been written, and the log, after a run that was clean or not. -/
structure Tracks (clean : Bool) (written log : List Entry) : Prop where
  le : (readable log).length ≤ (readable written).length
  same : clean = true → written = log ∧ ∀ e ∈ log, 1 ≤ e.index
  parted : clean = false → Parted written log

variable {written log : List Entry} {clean : Bool} {entry : Entry}

theorem tracks_same (hindex : ∀ e ∈ log, 1 ≤ e.index) : Tracks true log log :=
  ⟨le_rfl, fun _ => ⟨rfl, hindex⟩, by simp⟩

theorem tracks_parted (hle : (readable log).length ≤ (readable written).length)
    (h : Parted written log) : Tracks false written log := ⟨hle, by simp, fun _ => h⟩

/-- The log comes back exactly after clean runs. -/
theorem Tracks.readable_eq_iff (h : Tracks clean written log) :
    readable written = log ↔ clean = true := by
  constructor
  · intro heq
    by_contra hnot
    have hindex : ∀ e ∈ log, 1 ≤ e.index := by
      intro e he
      rw [← heq] at he
      exact of_decide_eq_true (mem_filter.mp he).2
    have hlog : readable log = log :=
      filter_eq_self.mpr fun e he => decide_eq_true (hindex e he)
    obtain hlt | ⟨e, he, hzero⟩ := h.parted (Bool.eq_false_iff.mpr hnot)
    · rw [hlog, heq] at hlt
      omega
    · have := hindex e he
      omega
  · intro hclean
    obtain ⟨rfl, hindex⟩ := h.same hclean
    exact filter_eq_self.mpr fun e he => decide_eq_true (hindex e he)

theorem Tracks.concat (h : Tracks clean written log) (entry : Entry) :
    Tracks (clean && decide (1 ≤ entry.index)) (written ++ [entry]) (log ++ [entry]) := by
  have hle : (readable (log ++ [entry])).length ≤ (readable (written ++ [entry])).length := by
    have := h.le
    rw [readable_append, readable_append, length_append, length_append]
    omega
  by_cases hindex : 1 ≤ entry.index
  · rw [decide_eq_true hindex, Bool.and_true]
    refine ⟨hle, ?_, ?_⟩
    · intro hclean
      obtain ⟨rfl, hall⟩ := h.same hclean
      refine ⟨rfl, ?_⟩
      intro e he
      obtain he | he := mem_append.mp he
      · exact hall e he
      · rwa [mem_singleton.mp he]
    · intro hclean
      obtain hlt | ⟨e, he, hzero⟩ := h.parted hclean
      · left
        rw [readable_append, readable_append, length_append, length_append]
        omega
      · exact .inr ⟨e, mem_append_left _ he, hzero⟩
  · rw [decide_eq_false hindex, Bool.and_false]
    exact tracks_parted hle (.inr ⟨entry, mem_append_right _ (mem_singleton_self _),
      by omega⟩)

/-- An entry that replaces others: the WAL keeps them. -/
theorem Tracks.replace {e : Entry} {l m : List Entry} (h : Tracks clean written (l ++ e :: m))
    (hindex : e.index = entry.index) : Tracks false (written ++ [entry]) (l ++ [entry]) := by
  have hle := h.le
  rw [readable_append, length_append] at hle
  by_cases hzero : entry.index = 0
  · refine tracks_parted ?_ (.inr ⟨entry, by simp, hzero⟩)
    rw [readable_append, readable_append, length_append, length_append]
    omega
  · have hentry : readable [entry] = [entry] :=
      filter_eq_self.mpr (by simp; omega)
    have he : (readable (e :: m)).length = (readable m).length + 1 := by
      rw [readable, filter_cons_of_pos (by simp; omega), length_cons]
      rfl
    have hlt : (readable (l ++ [entry])).length < (readable (written ++ [entry])).length := by
      rw [readable_append, readable_append, length_append, length_append, hentry, length_singleton]
      omega
    exact tracks_parted hlt.le (.inl hlt)

theorem Tracks.appendEntry (h : Tracks clean written log) (entry : Entry) :
    Tracks (clean && keeps log entry)
      (if (appendEntry log entry).2 then written ++ [entry] else written)
      (appendEntry log entry).1 := by
  have happended := appended_appendEntry log entry
  revert happended
  generalize Raft.appendEntry log entry = r
  intro happended
  cases happended with
  | present hfind hterm =>
    rw [keeps, hfind]
    simpa [hterm] using h
  | replaced hfind hterm hlog =>
    have hindex := find?_some hfind
    rw [beq_iff_eq] at hindex
    subst hlog
    rw [keeps, hfind]
    dsimp only
    rw [beq_false_of_ne hterm, Bool.and_false, if_pos rfl]
    exact h.replace hindex
  | new hfind =>
    rw [keeps, hfind]
    exact h.concat entry

theorem Tracks.appendAll (h : Tracks clean written log) (entries : List Entry) :
    Tracks (clean && keepsAll log entries) (written ++ (appendAll log entries).2)
      (appendAll log entries).1 := by
  induction entries generalizing clean written log with
  | nil => simpa [keepsAll, Raft.appendAll] using h
  | cons entry entries ih =>
    have hrest := ih (h.appendEntry entry)
    rw [keepsAll, Raft.appendAll, ← Bool.and_assoc]
    dsimp only
    cases hnew : (Raft.appendEntry log entry).2 with
    | true | false =>
      rw [hnew] at hrest
      simpa using hrest

/-! ## Steps and runs -/

/-- What a step does to the log, and what it writes. -/
inductive Logged (n : Node) (input : Input) (r : Node × List Effect) : Prop
  | still (hlog : r.1.logEntries = n.logEntries) (hnone : r.2.flatMap persisted = [])
      (hkeeps : n.keepsLog input = true)
  | propose {entry : Entry} (hlog : r.1.logEntries = n.logEntries ++ [entry])
      (hwritten : r.2.flatMap persisted = [entry])
      (hkeeps : n.keepsLog input = decide (1 ≤ entry.index))
  | append {entries : List Entry} (hlog : r.1.logEntries = (appendAll n.logEntries entries).1)
      (hwritten : r.2.flatMap persisted = (appendAll n.logEntries entries).2)
      (hkeeps : n.keepsLog input = keepsAll n.logEntries entries)

theorem persisted_eq_nil {effects : List Effect} (h : ∀ e ∈ effects, e.persisted = []) :
    effects.flatMap persisted = [] :=
  flatMap_eq_nil_iff.mpr h

section

variable (n : Node)

theorem persisted_map_send (data : Str → Data) (peers : List Str) :
    (peers.map fun peer => n.sendMessage peer (data peer)).flatMap persisted = [] := by
  refine persisted_eq_nil ?_
  intro e he
  obtain ⟨peer, -, rfl⟩ := mem_map.mp he
  rfl

theorem persisted_accept (req : AppendEntries) :
    (n.accept req).2.flatMap persisted = (appendAll n.logEntries req.entries).2 := by
  have hpersist : (if (appendAll n.logEntries req.entries).2 = [] then []
      else [persist (appendAll n.logEntries req.entries).2]).flatMap persisted =
        (appendAll n.logEntries req.entries).2 := by
    split
    · rename_i hnil
      rw [hnil]
      rfl
    · exact flatMap_singleton _ _
  simp only [accept]
  split
  · rw [flatMap_append, hpersist]
    exact append_nil _
  · exact hpersist

theorem persisted_checkTerm (term : Nat) : (n.checkTerm term).2.flatMap persisted = [] := by
  rw [checkTerm]
  split
  · rfl
  · rfl

theorem logEntries_checkTerm (term : Nat) : (n.checkTerm term).1.logEntries = n.logEntries := by
  rw [checkTerm]
  split
  · rfl
  · rfl

end

/-- The handlers that have nothing to do with the log. -/
structure LogStill (n : Node) (r : Node × List Effect) : Prop where
  log : r.1.logEntries = n.logEntries
  none : r.2.flatMap persisted = []

variable {n : Node} {sender : Str}

theorem logStill_handleVoteRequest (req : VoteRequest) :
    LogStill n (n.handleVoteRequest sender req) := by
  rw [handleVoteRequest]
  split
  · exact ⟨rfl, rfl⟩
  · exact ⟨rfl, rfl⟩

theorem logStill_handleVoteResponse (resp : VoteResponse) :
    LogStill n (n.handleVoteResponse sender resp) := by
  rw [handleVoteResponse]
  split
  · exact ⟨rfl, rfl⟩
  · split
    · exact ⟨rfl, rfl⟩
    · split
      · dsimp only
        split
        · exact ⟨rfl, rfl⟩
        · exact ⟨rfl, rfl⟩
      · exact ⟨rfl, rfl⟩

theorem logStill_handleAppendEntriesResponse (resp : AppendEntriesResponse) :
    LogStill n (n.handleAppendEntriesResponse sender resp) := by
  rw [handleAppendEntriesResponse]
  split
  · exact ⟨rfl, rfl⟩
  · split
    · exact ⟨rfl, rfl⟩
    · split
      · exact ⟨by rw [advanceCommitIndex_fst], persisted_eq_nil fun e he =>
          mem_advanceCommitIndex_snd _ he ▸ rfl⟩
      · split
        · exact ⟨rfl, rfl⟩
        · exact ⟨rfl, rfl⟩

theorem handleAppendEntries_log (req : AppendEntries) : (n.accepts req = true ∧
      (n.handleAppendEntries sender req).1.logEntries = (appendAll n.logEntries req.entries).1 ∧
      (n.handleAppendEntries sender req).2.flatMap persisted =
        (appendAll n.logEntries req.entries).2) ∨
    n.accepts req = false ∧ LogStill n (n.handleAppendEntries sender req) := by
  rw [handleAppendEntries, accepts]
  split
  · rename_i hterm
    split
    · rename_i hprev
      left
      refine ⟨by simpa [hterm] using hprev, ?_, ?_⟩
      · rw [accept_fst]
        rfl
      · rw [flatMap_append, persisted_accept]
        exact append_nil _
    · rename_i hprev
      right
      refine ⟨?_, rfl, rfl⟩
      simpa using fun _ => hprev
  · rename_i hterm
    right
    refine ⟨?_, rfl, rfl⟩
    simp [hterm]

variable {input : Input} {s : Stored} {w : WAL} {body : List UInt8}

theorem logStill_onElectionTimeout64 : LogStill n n.onElectionTimeout64 := by
  rw [onElectionTimeout64]
  split
  · rw [onElectionTimeout]
    split
    · exact ⟨rfl, rfl⟩
    · exact ⟨rfl, persisted_map_send _ _ _⟩
  · exact ⟨rfl, persisted_map_send _ _ _⟩

theorem logged_perform64 (hplain : input.plain = true) : Logged n input (n.perform64 input) := by
  cases input with
  | timeout => exact .still logStill_onElectionTimeout64.log logStill_onElectionTimeout64.none rfl
  | heartbeat =>
    refine .still ?_ ?_ rfl
    · rw [perform64, perform, sendHeartbeats]
      split
      · rfl
      · rfl
    · rw [perform64, perform, sendHeartbeats]
      split
      · rfl
      · exact persisted_map_send _ _ _
  | propose command walOk =>
    obtain rfl : walOk = true := hplain
    by_cases hstate : n.state = .leader
    · rw [perform64, propose64, if_neg (not_not.mpr hstate), if_pos rfl]
      refine .propose rfl ?_ (by simp [keepsLog, hstate])
      rw [flatMap_cons, sendAppendEntriesToAll, persisted_map_send]
      rfl
    · rw [perform64, propose64, if_pos hstate]
      exact .still rfl rfl (by simp [keepsLog, hstate])
  | message msg installed =>
    have hcheck := persisted_checkTerm n msg.term
    have hlog := logEntries_checkTerm n msg.term
    rw [perform64, perform, handleMessage]
    generalize hn : n.checkTerm msg.term = r at hcheck hlog ⊢
    have hstill : ∀ r', LogStill r.1 r' → n.keepsLog (.message msg installed) = true →
        Logged n (.message msg installed) (r'.1, r.2 ++ r'.2) := by
      intro r' hr' hkeeps
      refine .still (hr'.log.trans hlog) ?_ hkeeps
      rw [flatMap_append, hcheck, hr'.none]
      rfl
    show Logged n (.message msg installed)
      ((r.1.dispatch msg installed).1, r.2 ++ (r.1.dispatch msg installed).2)
    rw [dispatch]
    cases hdata : msg.data with
    | voteRequest req =>
      exact hstill _ (logStill_handleVoteRequest req) (by simp [keepsLog, hdata])
    | voteResponse resp =>
      exact hstill _ (logStill_handleVoteResponse resp) (by simp [keepsLog, hdata])
    | appendEntriesResponse resp =>
      exact hstill _ (logStill_handleAppendEntriesResponse resp) (by simp [keepsLog, hdata])
    | installSnapshot req => simp [Input.plain, hdata] at hplain
    | installSnapshotResponse | garbled =>
      exact hstill (r.1, []) ⟨rfl, rfl⟩ (by simp [keepsLog, hdata])
    | appendEntries req =>
      obtain ⟨haccepts, hlog', hwritten⟩ | ⟨hnot, hr⟩ :=
        @handleAppendEntries_log r.1 msg.sender req
      · rw [hlog] at hlog' hwritten
        refine .append hlog' ?_ ?_
        · rw [flatMap_append, hcheck, hwritten]
          rfl
        · simp [keepsLog, hdata, hn, haccepts]
      · exact hstill _ hr (by simp [keepsLog, hdata, hn, hnot])

theorem Tracks.perform64 (h : Tracks clean written n.logEntries) (hplain : input.plain = true) :
    Tracks (clean && n.keepsLog input) (written ++ (n.perform64 input).2.flatMap persisted)
      (n.perform64 input).1.logEntries := by
  cases logged_perform64 hplain with
  | still hlog hnone hkeeps =>
    rw [hlog, hnone, hkeeps, Bool.and_true, append_nil]
    exact h
  | @propose entry hlog hwritten hkeeps =>
    rw [hlog, hwritten, hkeeps]
    exact h.concat entry
  | @append entries hlog hwritten hkeeps =>
    rw [hlog, hwritten, hkeeps]
    exact h.appendAll entries

/-- All that a run writes. -/
def persistedBy : Node → List Input → List Entry
  | _, [] => []
  | n, input :: inputs =>
    (n.perform64 input).2.flatMap persisted ++ persistedBy (n.perform64 input).1 inputs

variable {J : JSON} {crc : List UInt8 → UInt32}

theorem Tracks.run {inputs : List Input} (h : Tracks clean written s.node.logEntries)
    (hplain : ∀ input ∈ inputs, input.plain = true) :
    Tracks (clean && keepsRun s.node inputs) (written ++ persistedBy s.node inputs)
      (inputs.foldl (Stored.step J crc) s).node.logEntries := by
  induction inputs generalizing clean written s with
  | nil => simpa [keepsRun, persistedBy] using h
  | cons input inputs ih =>
    obtain ⟨hinput, hinputs⟩ := forall_mem_cons.mp hplain
    rw [foldl_cons, keepsRun, persistedBy, ← Bool.and_assoc, ← append_assoc]
    exact ih (s := s.step J crc input) (h.perform64 hinput) hinputs

theorem WAL.Holds.foldl_persisted (h : w.Holds body) (effects : List Effect) :
    (effects.foldl (fun w e => w.appendBatch J crc e.persisted) w).Holds
      (body ++ (effects.flatMap persisted).flatMap (record J crc)) := by
  induction effects generalizing w body with
  | nil =>
    rw [flatMap_nil, flatMap_nil, append_nil]
    exact h
  | cons e effects ih =>
    rw [foldl_cons, flatMap_cons, flatMap_append, ← append_assoc]
    exact ih (h.appendBatch e.persisted)

theorem WAL.Holds.run_inputs (h : s.wal.Holds body) (inputs : List Input) :
    (inputs.foldl (Stored.step J crc) s).wal.Holds
      (body ++ (persistedBy s.node inputs).flatMap (record J crc)) := by
  induction inputs generalizing s body with
  | nil =>
    rw [persistedBy, flatMap_nil, append_nil]
    exact h
  | cons input inputs ih =>
    rw [foldl_cons, persistedBy, flatMap_append, ← append_assoc]
    exact ih (h.foldl_persisted _)

theorem loadNode_records (id : Str) (peers : List Str) {entries : List Entry}
    (h : w.Lists J crc entries) :
    loadNode J crc id peers w.file.bytes = .ok (newNode id peers (readable entries) none) := by
  obtain ⟨w', hnew, hlists⟩ := h.newWAL
  rw [loadNode, hnew]
  dsimp only
  rw [hlists.readEntries]
  rfl

/-- The log after a restart is the log before it exactly if no entry was
replaced and no entry had index 0. -/
theorem reload_iff_keepsRun (J : JSON) (crc : List UInt8 → UInt32) (id : Str) (peers : List Str)
    (inputs : List Input) (hplain : ∀ input ∈ inputs, input.plain = true)
    (hfits : ∀ entry ∈ persistedBy (newNode id peers [] none) inputs, Fits J entry) :
    (loadNode J crc id peers
        (inputs.foldl (Stored.step J crc) (.new id peers)).wal.file.bytes).map Node.logEntries =
      .ok (inputs.foldl (Stored.step J crc) (.new id peers)).node.logEntries ↔
    keepsRun (newNode id peers [] none) inputs = true := by
  have hstart : (Stored.new id peers).wal.Holds [] := ⟨rfl, rfl⟩
  have hholds : (inputs.foldl (Stored.step J crc) (.new id peers)).wal.Holds
      ([] ++ (persistedBy (Stored.new id peers).node inputs).flatMap (record J crc)) :=
    hstart.run_inputs inputs
  have hempty : Tracks true [] (Stored.new id peers).node.logEntries :=
    tracks_same (by simp)
  have htracks : Tracks (true && keepsRun (Stored.new id peers).node inputs)
      ([] ++ persistedBy (Stored.new id peers).node inputs)
      (inputs.foldl (Stored.step J crc) (.new id peers)).node.logEntries := hempty.run hplain
  rw [Bool.true_and, nil_append] at htracks
  rw [nil_append] at hholds
  rw [loadNode_records id peers ⟨hholds, hfits⟩]
  have heq : (Except.ok (newNode id peers (readable (persistedBy (Stored.new id peers).node inputs))
      none) : Except WALError Node).map logEntries =
        .ok (readable (persistedBy (Stored.new id peers).node inputs)) := rfl
  rw [heq, Except.ok.injEq]
  exact htracks.readable_eq_iff

/-- A leader of term 1 that makes two entries. -/
def proposals : List Input :=
  [.timeout, .message ⟨str "b", str "a", 1, .voteResponse ⟨1, true⟩⟩ false, .propose [7] true,
    .propose [8] true]

theorem proposals_reloaded : ((∀ input ∈ proposals, input.plain = true) ∧
      (∀ entry ∈ persistedBy (newNode (str "a") [str "b", str "c"] [] none) proposals,
        Fits unary entry) ∧ keepsRun (newNode (str "a") [str "b", str "c"] [] none) proposals) ∧
    (loadNode unary (fun _ => 0) (str "a") [str "b", str "c"]
        (proposals.foldl (Stored.step unary fun _ => 0)
          (.new (str "a") [str "b", str "c"])).wal.file.bytes).map Node.logEntries =
      .ok (proposals.foldl (Stored.step unary fun _ => 0)
        (.new (str "a") [str "b", str "c"])).node.logEntries := by
  have hplain : ∀ input ∈ proposals, input.plain = true := by decide
  have hfits : ∀ entry ∈ persistedBy (newNode (str "a") [str "b", str "c"] [] none) proposals,
      Fits unary entry := by decide +kernel
  have hkeeps : keepsRun (newNode (str "a") [str "b", str "c"] [] none) proposals = true := by
    decide +kernel
  exact ⟨⟨hplain, hfits, hkeeps⟩, (reload_iff_keepsRun unary (fun _ => 0) (str "a")
    [str "b", str "c"] proposals hplain hfits).mpr hkeeps⟩

/-- An entry of term 1, and one of term 2 in its place. -/
def replacement : List Input :=
  [.message ⟨str "b", str "a", 1, .appendEntries ⟨1, str "b", 0, 0, [⟨1, 1, [7]⟩], 0⟩⟩ false,
    .message ⟨str "c", str "a", 2, .appendEntries ⟨2, str "c", 0, 0, [⟨2, 1, [8]⟩], 0⟩⟩ false]

/-- The node has the new entry only, and after a restart both. -/
theorem replacement_reloaded : (replacement.foldl (Stored.step unary fun _ => 0)
      (.new (str "a") [str "b", str "c"])).node.logEntries = [⟨2, 1, [8]⟩] ∧
    (loadNode unary (fun _ => 0) (str "a") [str "b", str "c"]
        (replacement.foldl (Stored.step unary fun _ => 0)
          (.new (str "a") [str "b", str "c"])).wal.file.bytes).map Node.logEntries =
      .ok [⟨1, 1, [7]⟩, ⟨2, 1, [8]⟩] := by
  decide +kernel

end Geryon.Raft
