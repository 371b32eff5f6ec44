import Geryon.Go.Text
import Mathlib.Data.List.Sort

/-!
# A Raft node

`internal/raft/raft.go`: what one `Node` does when it gets a message, when its
election timer runs out, when a command is proposed to it and when its
heartbeat ticker fires.  Each of these is one function that gives the node
afterwards and the `Effect`s, in order: the messages that it sends, the entries
that it writes to its WAL, and the lines that it logs when it changes its state.

Terms and indices are natural numbers.  `From` and `To` of a message are called
`sender` and `receiver`.  The timers only decide when something happens.
-/

namespace Geryon.Raft

open Go List

/-! ## Data -/

inductive NodeState where
  | follower
  | candidate
  | leader
  deriving DecidableEq

structure Entry where
  term : Nat
  index : Nat
  command : List UInt8
  deriving DecidableEq

structure VoteRequest where
  term : Nat
  candidateID : Str
  lastLogIndex : Nat
  lastLogTerm : Nat
  deriving DecidableEq

structure VoteResponse where
  term : Nat
  voteGranted : Bool
  deriving DecidableEq

structure AppendEntries where
  term : Nat
  leaderID : Str
  prevLogIndex : Nat
  prevLogTerm : Nat
  entries : List Entry
  leaderCommit : Nat
  deriving DecidableEq

structure AppendEntriesResponse where
  term : Nat
  success : Bool
  index : Nat
  deriving DecidableEq

/-- `InstallSnapshotRequest`, without `Offset` and `Done`, which are not read,
and without the data, which only the state machine reads. -/
structure InstallSnapshotRequest where
  term : Nat
  leaderID : Str
  lastIncludedIndex : Nat
  lastIncludedTerm : Nat
  deriving DecidableEq

structure InstallSnapshotResponse where
  term : Nat
  success : Bool
  deriving DecidableEq

/-- `Type` and `Data` of a message.  `garbled` is data that does not decode, or
a type that does not exist. -/
inductive Data where
  | voteRequest (req : VoteRequest)
  | voteResponse (resp : VoteResponse)
  | appendEntries (req : AppendEntries)
  | appendEntriesResponse (resp : AppendEntriesResponse)
  | installSnapshot (req : InstallSnapshotRequest)
  | installSnapshotResponse (resp : InstallSnapshotResponse)
  | garbled
  deriving DecidableEq

structure Message where
  sender : Str
  receiver : Str
  term : Nat
  data : Data
  deriving DecidableEq

/-- What a node does to the world around it. -/
inductive Effect where
  /-- A line in the log: `Became follower`, `Became candidate` or `Became
  leader`, with the term. -/
  | became (state : NodeState) (term : Nat)
  /-- `sendMessage`. -/
  | send (msg : Message)
  /-- `wal.Append` or `wal.AppendBatch`. -/
  | persist (entries : List Entry)
  | truncate (index : Nat)
  /-- `sendCommittedToApply`. -/
  | apply
  deriving DecidableEq

/-- A `map[string]uint64`. -/
abbrev IndexMap := List (Str × Nat)

/-- `m[k]`. -/
def IndexMap.get (m : IndexMap) (k : Str) : Nat := (m.lookup k).getD 0

/-- `m[k] = v`. -/
def IndexMap.set (m : IndexMap) (k : Str) (v : Nat) : IndexMap :=
  (k, v) :: m.filter fun p => p.1 ≠ k

namespace IndexMap

theorem get_cons (p : Str × Nat) (m : IndexMap) (k : Str) :
    IndexMap.get (p :: m) k = if k = p.1 then p.2 else m.get k := by
  rw [IndexMap.get, lookup_cons]
  by_cases h : k = p.1
  · rw [if_pos h, h, beq_self_eq_true]
    rfl
  · rw [if_neg h, beq_eq_false_iff_ne.mpr h]
    rfl

variable {k : Str} {m : IndexMap}

variable {k' : Str} {v v' : Nat} {ks : List Str}

section

variable (m : IndexMap)

theorem get_filter_ne (h : k' ≠ k) : IndexMap.get (m.filter fun p => p.1 ≠ k) k' = m.get k' := by
  induction m with
  | nil => rfl
  | cons p m ih =>
    by_cases hp : p.1 = k
    · rw [filter_cons_of_neg (by simp [hp]), ih, get_cons, if_neg (hp ▸ h)]
    · rw [filter_cons_of_pos (by simp [hp]), get_cons, get_cons, ih]

theorem get_set (k k' : Str) (v : Nat) : (m.set k v).get k' = if k' = k then v else m.get k' := by
  rw [set, get_cons]
  by_cases h : k' = k
  · rw [if_pos h, if_pos h]
  · rw [if_neg h, if_neg h, get_filter_ne m h]

theorem get_foldl_set (ks : List Str) (k : Str) (v : Nat) :
    IndexMap.get (ks.foldl (fun m k => m.set k v) m) k = if k ∈ ks then v else m.get k := by
  induction ks generalizing m with
  | nil => simp
  | cons a ks ih =>
    rw [foldl_cons, ih, get_set]
    by_cases hks : k ∈ ks
    · rw [if_pos hks, if_pos (mem_cons_of_mem _ hks)]
    · rw [if_neg hks]
      by_cases hk : k = a
      · rw [if_pos hk, if_pos (hk ▸ mem_cons_self)]
      · rw [if_neg hk, if_neg (by simp [hk, hks])]

end

theorem mem_of_get (h : 0 < m.get k) : (k, m.get k) ∈ m := by
  induction m with
  | nil => cases h
  | cons p m ih =>
    rw [get_cons] at h ⊢
    by_cases hk : k = p.1
    · rw [if_pos hk, hk]
      exact mem_cons_self
    · rw [if_neg hk] at h ⊢
      exact mem_cons_of_mem _ (ih h)

theorem mem_set (h : (k', v') ∈ m.set k v) : k' = k ∧ v' = v ∨ k' ≠ k ∧ (k', v') ∈ m := by
  obtain h | h := mem_cons.mp h
  · cases h
    exact .inl ⟨rfl, rfl⟩
  · obtain ⟨hmem, hne⟩ := mem_filter.mp h
    exact .inr ⟨of_decide_eq_true hne, hmem⟩

theorem key_mem_set (v : Nat) (h : k' = k ∨ ∃ v', (k', v') ∈ m) : ∃ v', (k', v') ∈ m.set k v := by
  by_cases hk : k' = k
  · exact ⟨v, hk ▸ mem_cons_self⟩
  · obtain ⟨v', hv'⟩ := h.resolve_left hk
    exact ⟨v', mem_cons_of_mem _ (mem_filter.mpr ⟨hv', decide_eq_true hk⟩)⟩

theorem nodup_set (h : (m.map Prod.fst).Nodup) (k : Str) (v : Nat) :
    ((m.set k v).map Prod.fst).Nodup := by
  rw [set, map_cons, nodup_cons]
  constructor
  · intro hk
    obtain ⟨p, hp, rfl⟩ := mem_map.mp hk
    exact of_decide_eq_true (mem_filter.mp hp).2 rfl
  · exact h.sublist (filter_sublist.map _)

theorem mem_foldl_set (h : (k, v') ∈ ks.foldl (fun m k => m.set k v) m) :
    k ∈ ks ∧ v' = v ∨ k ∉ ks ∧ (k, v') ∈ m := by
  induction ks generalizing m with
  | nil => exact .inr ⟨not_mem_nil, h⟩
  | cons a ks ih =>
    obtain ⟨hmem, rfl⟩ | ⟨hks, hm⟩ := ih h
    · exact .inl ⟨mem_cons_of_mem _ hmem, rfl⟩
    · obtain ⟨rfl, rfl⟩ | ⟨hne, hm⟩ := mem_set hm
      · exact .inl ⟨mem_cons_self, rfl⟩
      · exact .inr ⟨by simp [hne, hks], hm⟩

theorem key_mem_foldl_set (v : Nat) (h : k ∈ ks ∨ ∃ v', (k, v') ∈ m) :
    ∃ v', (k, v') ∈ ks.foldl (fun m k => m.set k v) m := by
  induction ks generalizing m with
  | nil => exact h.resolve_left not_mem_nil
  | cons a ks ih =>
    refine ih ?_
    obtain hk | hm := h
    · obtain rfl | hk := mem_cons.mp hk
      · exact .inr (key_mem_set v (.inl rfl))
      · exact .inl hk
    · exact .inr (key_mem_set v (.inr hm))

theorem nodup_foldl_set (h : (m.map Prod.fst).Nodup) (ks : List Str) (v : Nat) :
    ((ks.foldl (fun m k => m.set k v) m).map Prod.fst).Nodup := by
  induction ks generalizing m with
  | nil => exact h
  | cons a ks ih => exact ih (nodup_set h a v)

end IndexMap

structure Node where
  id : Str
  peers : List Str
  state : NodeState := .follower
  currentTerm : Nat := 0
  votedFor : Str := []
  leaderID : Str := []
  logEntries : List Entry := []
  commitIndex : Nat := 0
  lastApplied : Nat := 0
  nextIndex : IndexMap := []
  matchIndex : IndexMap := []
  votesReceived : List Str := []
  lastSnapshotIndex : Nat := 0
  lastSnapshotTerm : Nat := 0

/-- `NewNode`, with the entries of the WAL and with the index and the term of
the latest snapshot, if there is one. -/
def newNode (id : Str) (peers : List Str) (entries : List Entry) (snapshot : Option (Nat × Nat)) :
    Node where
  id := id
  peers := peers
  logEntries := entries
  lastSnapshotIndex := (snapshot.map Prod.fst).getD 0
  lastSnapshotTerm := (snapshot.map Prod.snd).getD 0

namespace Node

/-! ## The log -/

def lastLogInfo (n : Node) : Nat × Nat :=
  match n.logEntries.getLast? with
  | none => (0, 0)
  | some last => (last.index, last.term)

def lastLogIndex (n : Node) : Nat := n.lastLogInfo.1

def hasLogEntry (n : Node) (index term : Nat) : Bool :=
  n.logEntries.any fun entry => entry.index == index && entry.term == term

/-- The first entry with an index. -/
def entryAt (n : Node) (index : Nat) : Option Entry :=
  n.logEntries.find? fun entry => entry.index == index

/-- The loop over the log that looks for the term of an entry: 0 if there is no
such entry. -/
def entryTerm (n : Node) (index : Nat) : Nat := ((n.entryAt index).map Entry.term).getD 0

end Node

/-- `appendEntry`: the log, and whether the entry is new. -/
def appendEntry : List Entry → Entry → List Entry × Bool
  | [], entry => ([entry], true)
  | e :: es, entry =>
    if e.index = entry.index then
      -- A differing term cuts the log off here.
      if e.term ≠ entry.term then ([entry], true) else (e :: es, false)
    else (e :: (appendEntry es entry).1, (appendEntry es entry).2)

/-- The loop of `handleAppendEntries` over the entries: the log, and the new
entries. -/
def appendAll : List Entry → List Entry → List Entry × List Entry
  | log, [] => (log, [])
  | log, entry :: entries =>
    let (log', new) := appendEntry log entry
    let (log'', newEntries) := appendAll log' entries
    (log'', if new then entry :: newEntries else newEntries)

namespace Node

/-! ## Messages and changes of state -/

def sendMessage (n : Node) (receiver : Str) (data : Data) : Effect :=
  .send { sender := n.id, receiver, term := n.currentTerm, data }

def becomeFollower (n : Node) (term : Nat) : Node × List Effect :=
  ({ n with
      currentTerm := term
      state := .follower
      votedFor := []
      leaderID := []
      votesReceived := [] },
    [.became .follower term])

/-- The node as a candidate of the next term. -/
def standing (n : Node) : Node :=
  { n with
    currentTerm := n.currentTerm + 1
    state := .candidate
    votedFor := n.id
    leaderID := []
    votesReceived := [] }

/-- The request of `becomeCandidate`. -/
def candidacy (n : Node) : VoteRequest where
  term := n.currentTerm
  candidateID := n.id
  lastLogIndex := n.lastLogInfo.1
  lastLogTerm := n.lastLogInfo.2

def becomeCandidate (n : Node) : Node × List Effect :=
  let n' := n.standing
  (n', .became .candidate n'.currentTerm ::
    n'.peers.map fun peer => n'.sendMessage peer (.voteRequest n'.candidacy))

def becomeLeader (n : Node) : Node × List Effect :=
  ({ n with
      state := .leader
      nextIndex := n.peers.foldl (fun m peer => m.set peer (n.lastLogIndex + 1)) n.nextIndex
      matchIndex := n.peers.foldl (fun m peer => m.set peer 0) n.matchIndex },
    [.became .leader n.currentTerm])

def onElectionTimeout (n : Node) : Node × List Effect :=
  if n.state = .leader then (n, []) else n.becomeCandidate

/-! ## Elections -/

/-- The conditions under which `handleVoteRequest` grants the vote. -/
def Grants (n : Node) (req : VoteRequest) : Prop :=
  n.currentTerm ≤ req.term ∧ (n.votedFor = [] ∨ n.votedFor = req.candidateID) ∧
    (n.lastLogInfo.2 < req.lastLogTerm ∨
      req.lastLogTerm = n.lastLogInfo.2 ∧ n.lastLogInfo.1 ≤ req.lastLogIndex)

instance (n : Node) (req : VoteRequest) : Decidable (n.Grants req) :=
  inferInstanceAs (Decidable (_ ∧ _ ∧ _))

def handleVoteRequest (n : Node) (sender : Str) (req : VoteRequest) : Node × List Effect :=
  if n.Grants req then
    let n' := { n with votedFor := req.candidateID }
    (n', [n'.sendMessage sender (.voteResponse ⟨n'.currentTerm, true⟩)])
  else (n, [n.sendMessage sender (.voteResponse ⟨n.currentTerm, false⟩)])

/-- `handleVoteResponse`.  The term of the response is compared only in one
direction. -/
def handleVoteResponse (n : Node) (sender : Str) (resp : VoteResponse) : Node × List Effect :=
  if n.state ≠ .candidate then (n, [])
  else if n.currentTerm < resp.term then n.becomeFollower resp.term
  else if resp.voteGranted then
    let n' := { n with votesReceived := n.votesReceived.insert sender }
    if (n'.peers.length + 1) / 2 < n'.votesReceived.length + 1 then n'.becomeLeader else (n', [])
  else (n, [])

/-! ## Replication -/

/-- The answer to an `AppendEntries`: its `Index` is that of the last entry of
the node's own log. -/
def answer (n : Node) (sender : Str) (success : Bool) : Effect :=
  n.sendMessage sender (.appendEntriesResponse ⟨n.currentTerm, success, n.lastLogIndex⟩)

/-- The part of `handleAppendEntries` after the previous entry has been found:
append, persist, update the commit index. -/
def accept (n : Node) (req : AppendEntries) : Node × List Effect :=
  let (log, newEntries) := appendAll n.logEntries req.entries
  let n' := { n with logEntries := log }
  let persisted := if newEntries = [] then [] else [Effect.persist newEntries]
  if n'.commitIndex < req.leaderCommit then
    let lastIndex := n'.lastLogIndex
    ({ n' with commitIndex := if lastIndex < req.leaderCommit then lastIndex else req.leaderCommit },
      persisted ++ [.apply])
  else (n', persisted)

def handleAppendEntries (n : Node) (sender : Str) (req : AppendEntries) : Node × List Effect :=
  if n.currentTerm ≤ req.term then
    let n' := { n with votedFor := req.leaderID, leaderID := req.leaderID }
    if req.prevLogIndex = 0 ∨ n.hasLogEntry req.prevLogIndex req.prevLogTerm = true then
      let r := n'.accept req
      (r.1, r.2 ++ [r.1.answer sender true])
    else (n', [n'.answer sender false])
  else (n, [n.answer sender false])

/-- The conditions under which `handleAppendEntries` takes the entries. -/
def accepts (n : Node) (req : AppendEntries) : Bool :=
  decide (n.currentTerm ≤ req.term) &&
    (decide (req.prevLogIndex = 0) || n.hasLogEntry req.prevLogIndex req.prevLogTerm)

/-- The list `matchIndices` of `advanceCommitIndex`. -/
def matchIndices (n : Node) : List Nat := n.lastLogIndex :: n.matchIndex.map Prod.snd

def advanceCommitIndex (n : Node) : Node × List Effect :=
  match (n.matchIndices.insertionSort (· ≥ ·))[n.matchIndices.length / 2]? with
  | none => (n, [])
  | some newCommitIdx =>
    if newCommitIdx ≤ n.commitIndex then (n, [])
    else if n.entryTerm newCommitIdx = n.currentTerm then
      ({ n with commitIndex := newCommitIdx }, [.apply])
    else (n, [])

/-- `handleAppendEntriesResponse`.  Here too an older term is not refused. -/
def handleAppendEntriesResponse (n : Node) (sender : Str) (resp : AppendEntriesResponse) :
    Node × List Effect :=
  if n.state ≠ .leader then (n, [])
  else if n.currentTerm < resp.term then n.becomeFollower resp.term
  else if resp.success then
    { n with
      matchIndex := n.matchIndex.set sender resp.index
      nextIndex := n.nextIndex.set sender (resp.index + 1) }.advanceCommitIndex
  else if 1 < n.nextIndex.get sender then
    ({ n with nextIndex := n.nextIndex.set sender (n.nextIndex.get sender - 1) }, [])
  else (n, [])

/-- The message of `sendHeartbeats`. -/
def heartbeat (n : Node) : AppendEntries where
  term := n.currentTerm
  leaderID := n.id
  prevLogIndex := n.lastLogInfo.1
  prevLogTerm := n.lastLogInfo.2
  entries := []
  leaderCommit := n.commitIndex

def sendHeartbeats (n : Node) : Node × List Effect :=
  if n.state ≠ .leader then (n, [])
  else (n, n.peers.map fun peer => n.sendMessage peer (.appendEntries n.heartbeat))

/-- The message of `sendAppendEntriesToAll` for one peer.  The next index of a
leader's peer is never 0. -/
def replication (n : Node) (peer : Str) : AppendEntries :=
  let nextIdx := n.nextIndex.get peer
  let prevIndex := nextIdx - 1
  { term := n.currentTerm
    leaderID := n.id
    prevLogIndex := prevIndex
    prevLogTerm := if 0 < prevIndex then n.entryTerm prevIndex else 0
    entries := n.logEntries.filter fun entry =>
      decide (nextIdx ≤ entry.index) && decide (entry.index ≤ n.lastLogIndex)
    leaderCommit := n.commitIndex }

def sendAppendEntriesToAll (n : Node) : List Effect :=
  n.peers.map fun peer => n.sendMessage peer (.appendEntries (n.replication peer))

/-- `Propose`.  If the WAL fails, the entry stays in the log. -/
def propose (n : Node) (command : List UInt8) (walOk : Bool) : Node × List Effect :=
  if n.state ≠ .leader then (n, [])
  else
    let entry : Entry := { term := n.currentTerm, index := n.lastLogIndex + 1, command }
    let n' := { n with logEntries := n.logEntries ++ [entry] }
    if walOk then (n', .persist [entry] :: n'.sendAppendEntriesToAll) else (n', [])

/-! ## Snapshots -/

/-- `InstallSnapshot`, when it succeeds. -/
def installSnapshot (n : Node) (index term : Nat) : Node × List Effect :=
  ({ n with
      lastSnapshotIndex := index
      lastSnapshotTerm := term
      lastApplied := index
      logEntries := [{ term, index, command := [] }] },
    [.truncate (index + 1)])

/-- `handleInstallSnapshot`.  `installed` tells whether `InstallSnapshot`
succeeds: it fails without a state machine, and when the snapshot cannot be
saved or restored. -/
def handleInstallSnapshot (n : Node) (sender : Str) (req : InstallSnapshotRequest)
    (installed : Bool) : Node × List Effect :=
  if req.term < n.currentTerm then
    (n, [n.sendMessage sender (.installSnapshotResponse ⟨n.currentTerm, false⟩)])
  else
    let n' := { n with votedFor := req.leaderID }
    if installed then
      let (n'', effects) := n'.installSnapshot req.lastIncludedIndex req.lastIncludedTerm
      (n'', effects ++ [n''.sendMessage sender (.installSnapshotResponse ⟨n''.currentTerm, true⟩)])
    else (n', [n'.sendMessage sender (.installSnapshotResponse ⟨n'.currentTerm, false⟩)])

/-! ## Steps -/

def checkTerm (n : Node) (term : Nat) : Node × List Effect :=
  if n.currentTerm < term then n.becomeFollower term else (n, [])

/-- The switch of `handleMessage`. -/
def dispatch (n : Node) (msg : Message) (installed : Bool) : Node × List Effect :=
  match msg.data with
  | .voteRequest req => n.handleVoteRequest msg.sender req
  | .voteResponse resp => n.handleVoteResponse msg.sender resp
  | .appendEntries req => n.handleAppendEntries msg.sender req
  | .appendEntriesResponse resp => n.handleAppendEntriesResponse msg.sender resp
  | .installSnapshot req => n.handleInstallSnapshot msg.sender req installed
  | .installSnapshotResponse _ => (n, [])
  | .garbled => (n, [])

def handleMessage (n : Node) (msg : Message) (installed : Bool) : Node × List Effect :=
  let (n', effects) := n.checkTerm msg.term
  let (n'', effects') := n'.dispatch msg installed
  (n'', effects ++ effects')

end Node

inductive Input where
  | timeout
  | message (msg : Message) (installed : Bool)
  | propose (command : List UInt8) (walOk : Bool)
  | heartbeat
  deriving DecidableEq

def Node.perform (n : Node) : Input → Node × List Effect
  | .timeout => n.onElectionTimeout
  | .message msg installed => n.handleMessage msg installed
  | .propose command walOk => n.propose command walOk
  | .heartbeat => n.sendHeartbeats

/-! ## The middle of a list -/

variable {l : List Nat} {k : Nat}

/-- In a list that goes down, more than `m` elements are not below `k` if the one
after the first `m` is not. -/
theorem lt_length_filter_iff {s : List Nat} (hs : s.Pairwise (· ≥ ·)) {m v : Nat}
    (h : s[m]? = some v) : m < (s.filter fun x => decide (k ≤ x)).length ↔ k ≤ v := by
  induction hs generalizing m with
  | nil => cases h
  | @cons x s hx hs ih =>
    by_cases hk : k ≤ x
    · rw [filter_cons_of_pos (by simpa using hk), length_cons]
      cases m with
      | zero =>
        cases h
        exact iff_of_true (Nat.succ_pos _) hk
      | succ m => exact Nat.succ_lt_succ_iff.trans (ih h)
    · have hlow : ∀ y ∈ x :: s, ¬ k ≤ y := by
        intro y hy hky
        obtain rfl | hy := mem_cons.mp hy
        · exact hk hky
        · exact hk (hky.trans (hx y hy))
      have hnil : ((x :: s).filter fun y => decide (k ≤ y)) = [] :=
        filter_eq_nil_iff.mpr fun y hy hky => hlow y hy (of_decide_eq_true hky)
      rw [hnil]
      exact iff_of_false (Nat.not_lt_zero _) (hlow v (mem_of_getElem? h))

theorem half_lt_length_filter_iff {v : Nat}
    (h : (l.insertionSort (· ≥ ·))[l.length / 2]? = some v) :
    l.length / 2 < (l.filter fun x => decide (k ≤ x)).length ↔ k ≤ v := by
  rw [← ((perm_insertionSort (· ≥ ·) l).filter _).length_eq]
  exact lt_length_filter_iff (pairwise_insertionSort (· ≥ ·) l) h

/-- At least half of a list, and the middle of it, are not below the middle. -/
theorem half_lt_length_filter (h : (l.insertionSort (· ≥ ·))[l.length / 2]? = some k) :
    l.length / 2 < (l.filter fun x => decide (k ≤ x)).length :=
  (half_lt_length_filter_iff h).mpr le_rfl

/-! ## What the parts of a step do -/

namespace Node

variable (n : Node)

/-- The commit index after an `AppendEntries`, when the last entry has the index
`lastIndex`. -/
def commitAfter (req : AppendEntries) (lastIndex : Nat) : Nat :=
  if n.commitIndex < req.leaderCommit then min lastIndex req.leaderCommit else n.commitIndex

/-- The log after an accepted `AppendEntries`. -/
def logAfter (req : AppendEntries) : List Entry := (appendAll n.logEntries req.entries).1

theorem accept_fst (req : AppendEntries) : (n.accept req).1 = { n with
      logEntries := n.logAfter req
      commitIndex := n.commitAfter req { n with logEntries := n.logAfter req }.lastLogIndex } := by
  simp only [accept, logAfter, commitAfter, min_def_lt]
  split <;> rfl

theorem accept_log (req : AppendEntries) : (n.accept req).1.logEntries = n.logAfter req := by
  rw [accept_fst]

theorem accept_term (req : AppendEntries) : (n.accept req).1.currentTerm = n.currentTerm := by
  rw [accept_fst]

variable {e : Effect}

theorem mem_accept_snd {req : AppendEntries} (h : e ∈ (n.accept req).2) :
    (∃ entries, e = .persist entries) ∨ e = .apply := by
  have hpersist : ∀ es : List Entry, e ∈ (if es = [] then [] else [Effect.persist es]) →
      ∃ entries, e = .persist entries := by
    intro es he
    split at he
    · simp at he
    · exact ⟨es, mem_singleton.mp he⟩
  simp only [accept] at h
  split at h
  · obtain h | h := mem_append.mp h
    · exact .inl (hpersist _ h)
    · exact .inr (mem_singleton.mp h)
  · exact .inl (hpersist _ h)

/-- The commit index either stays, or advances to the index in the middle, where
the leader has an entry of its own term. -/
theorem advanceCommitIndex_cases : n.advanceCommitIndex = (n, []) ∨
      ∃ k, (n.matchIndices.insertionSort (· ≥ ·))[n.matchIndices.length / 2]? = some k ∧
        n.commitIndex < k ∧ n.entryTerm k = n.currentTerm ∧
        n.advanceCommitIndex = ({ n with commitIndex := k }, [.apply]) := by
  rw [advanceCommitIndex]
  split
  · exact .inl rfl
  · rename_i k hk
    split
    · exact .inl rfl
    · rename_i hlt
      split
      · rename_i hterm
        exact .inr ⟨k, hk, by omega, hterm, rfl⟩
      · exact .inl rfl

theorem advanceCommitIndex_fst : n.advanceCommitIndex.1 =
    { n with commitIndex := n.advanceCommitIndex.1.commitIndex } := by
  obtain h | ⟨k, -, -, -, h⟩ := n.advanceCommitIndex_cases
  · rw [h]
  · rw [h]

theorem mem_advanceCommitIndex_snd (h : e ∈ n.advanceCommitIndex.2) : e = .apply := by
  obtain heq | ⟨k, -, -, -, heq⟩ := n.advanceCommitIndex_cases
  · rw [heq] at h
    cases h
  · rw [heq] at h
    exact mem_singleton.mp h

/-- The entry that a leader makes of a command. -/
def newEntry (command : List UInt8) : Entry where
  term := n.currentTerm
  index := n.lastLogIndex + 1
  command := command

/-- The node with a further entry. -/
def appended (entry : Entry) : Node := { n with logEntries := n.logEntries ++ [entry] }

theorem propose_of_leader (h : n.state = .leader) (command : List UInt8) (walOk : Bool) :
    n.propose command walOk = (n.appended (n.newEntry command),
      if walOk then .persist [n.newEntry command] ::
        (n.appended (n.newEntry command)).sendAppendEntriesToAll else []) := by
  rw [propose, if_neg (by simp [h])]
  cases walOk <;> rfl

theorem sendHeartbeats_of_leader (h : n.state = .leader) : n.sendHeartbeats =
      (n, n.peers.map fun peer => n.sendMessage peer (.appendEntries n.heartbeat)) := by
  rw [sendHeartbeats, if_neg (by simp [h])]

end Node

/-! ## Proposals that fail -/

/-- Where `Propose` fails. -/
inductive ProposeError where
  | notLeader
  | marshal
  | wal
  deriving DecidableEq

namespace Node

variable {Command : Type} (n : Node) (marshal : Command → Option (List UInt8))

/-- `Propose` with its result, and with the encoding of the command. -/
def proposeCommand (command : Command) (walOk : Bool) :
    Except ProposeError Nat × Node × List Effect :=
  if n.state ≠ .leader then (.error .notLeader, n, [])
  else
    match marshal command with
    | none => (.error .marshal, n, [])
    | some data =>
      (if walOk then .ok (n.lastLogIndex + 1) else .error .wal, n.propose data walOk)

variable {n marshal} {command : Command} {walOk : Bool}

/-- A proposal that fails leaves the log as it was, except where the command was
encoded and the WAL has failed. -/
theorem failed_proposal_traceless_iff (hleader : n.state = .leader) :
    (∀ e, (n.proposeCommand marshal command walOk).1 = .error e →
      (n.proposeCommand marshal command walOk).2.1.logEntries = n.logEntries) ↔
      marshal command = none ∨ walOk = true := by
  rw [proposeCommand, if_neg (by simp [hleader])]
  cases marshal command with
  | none => simp
  | some data => cases walOk <;> simp [propose_of_leader n hleader, appended]

theorem failed_proposal_traceless_iff_unencoded :
    let n : Node := { id := str "a", peers := [], state := .leader, logEntries := [⟨1, 1, [7]⟩] }
    (∀ e, (n.proposeCommand (fun _ : Unit => none) () false).1 = .error e →
      (n.proposeCommand (fun _ : Unit => none) () false).2.1.logEntries = [⟨1, 1, [7]⟩]) ↔
      (none : Option (List UInt8)) = none ∨ false = true :=
  failed_proposal_traceless_iff rfl

/-- The WAL fails for one command and takes the next one: both are sent to the
other node. -/
theorem failed_proposal_replicated :
    let n : Node :=
      { id := str "a", peers := [str "b"], state := .leader, nextIndex := [(str "b", 1)] }
    let failed := n.proposeCommand some [7] false
    failed.1 = .error .wal ∧ failed.2.1.logEntries ≠ n.logEntries ∧
      ((failed.2.1.proposeCommand some [8] true).2.1.replication (str "b")).entries.map
        Entry.command = [[7], [8]] := by
  decide +kernel

end Node

end Geryon.Raft
