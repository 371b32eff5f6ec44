import Geryon.Conc.Alone
import Geryon.Raft.Node

/-!
# The goroutines of a Raft node

One node, step by step: `run` with the handlers it calls, the goroutines of
`startHeartbeat`, and calls of `Propose`.  A step is one atomic load or store, or one
section that a mutex protects.  `run` is the only one that changes the term and the
state; the others load them one after the other.

Left out are the timers, which only decide when something happens, and the panic of a
heartbeat goroutine that finds its ticker gone.
-/

namespace Geryon.Raft.Goroutines

open Go Conc

/-! ## The machine -/

/-- What `run` gets from its `select`. -/
inductive Arrival where
  | message (msg : Message)
  | timeout

inductive Op where
  /-- The `select` of `run`. -/
  | receive
  | currentTerm
  | storeTerm (term : Nat)
  /-- `currentTerm.Add(1)`. -/
  | addTerm
  | state
  | storeState (state : NodeState)
  | votedFor
  | storeVotedFor (id : Str)
  | storeLeaderID (id : Str)
  /-- A new `votesReceived`. -/
  | clearVotes
  /-- Note a vote and count. -/
  | countVote (sender : Str)
  | lastLogInfo
  | hasLogEntry (index term : Nat)
  | appendEntry (entry : Entry)
  /-- `wal.Append` or `wal.AppendBatch`. -/
  | persist (entries : List Entry)
  | commitIndex
  | storeCommitIndex (index : Nat)
  | sendCommittedToApply
  /-- The section of `becomeLeader`. -/
  | initPeers
  /-- The section of `handleAppendEntriesResponse`. -/
  | note (sender : Str) (resp : AppendEntriesResponse)
  | installSnapshot (index term : Nat)
  | startHeartbeat
  | stopHeartbeat
  /-- A heartbeat goroutine gets a tick. -/
  | tick
  /-- The section of `Propose`. -/
  | newEntry (command : List UInt8)
  | nextIndex (peer : Str)
  | entryTerm (index : Nat)
  /-- The loop of `sendAppendEntriesToAll` over the log. -/
  | entriesBetween (first last : Nat)
  /-- The load of `currentTerm` for the `Term` of an `AppendEntries`. -/
  | bodyTerm
  /-- The connection of `sendMessage`. -/
  | send (msg : Message)

@[reducible] def Op.Ret : Op → Type
  | .receive => Arrival
  | .currentTerm | .countVote _ | .commitIndex | .nextIndex _ | .entryTerm _ | .bodyTerm => Nat
  | .state => NodeState
  | .votedFor => Str
  | .lastLogInfo => Nat × Nat
  | .hasLogEntry _ _ | .appendEntry _ | .persist _ | .installSnapshot _ _ => Bool
  | .newEntry _ => Entry
  | .entriesBetween _ _ => List Entry
  | _ => Unit

/-- The goroutines of a node.  There may be any number of heartbeats and calls. -/
inductive Goroutine where
  | run
  | heartbeat (k : Nat)
  | propose (k : Nat)
  deriving DecidableEq

/-- What the outside world decides. -/
inductive Choice where
  | arrival (a : Arrival)
  | ok
  | fail

/-- The fields of a node, and what it has done.  No goroutine reads `effects`,
`proposed` and `unsettled`. -/
structure Shared where
  node : Node
  /-- `heartbeatTicker` is not nil. -/
  ticker : Bool := false
  /-- The heartbeat goroutines that have been started. -/
  heartbeats : Nat := 0
  effects : List Effect := []
  /-- The entries that `Propose` has appended. -/
  proposed : List Entry := []
  /-- A new term has been stored, and the state that goes with it has not. -/
  unsettled : Bool := false

namespace Shared

def emit (s : Shared) (e : Effect) : Shared := { s with effects := s.effects ++ [e] }

/-- One step of `handleAppendEntriesResponse` under `volatileMu`. -/
def note (s : Shared) (sender : Str) (resp : AppendEntriesResponse) : Shared :=
  let n := s.node
  if resp.success then
    let r := { n with
      matchIndex := n.matchIndex.set sender resp.index
      nextIndex := n.nextIndex.set sender (resp.index + 1) }.advanceCommitIndex
    { s with node := r.1, effects := s.effects ++ r.2 }
  else if 1 < n.nextIndex.get sender then
    { s with node :=
      { n with nextIndex := n.nextIndex.set sender (n.nextIndex.get sender - 1) } }
  else s

def exec (s : Shared) (g : Goroutine) : (o : Op) → Choice → Option (o.Ret × Shared)
  | .receive, ch =>
    match ch with
    | .arrival a => some (a, s)
    | _ => none
  | .currentTerm, _ => some (s.node.currentTerm, s)
  | .storeTerm term, _ => some ((), { s with
      node := { s.node with currentTerm := term }, unsettled := true })
  | .addTerm, _ => some ((), { s with
      node := { s.node with currentTerm := s.node.currentTerm + 1 }, unsettled := true })
  | .state, _ => some (s.node.state, s)
  | .storeState state, _ => some ((), { s with
      node := { s.node with state := state }, unsettled := false
      effects := s.effects ++ [.became state s.node.currentTerm] })
  | .votedFor, _ => some (s.node.votedFor, s)
  | .storeVotedFor id, _ => some ((), { s with node := { s.node with votedFor := id } })
  | .storeLeaderID id, _ => some ((), { s with node := { s.node with leaderID := id } })
  | .clearVotes, _ => some ((), { s with node := { s.node with votesReceived := [] } })
  | .countVote sender, _ =>
    some ((s.node.votesReceived.insert sender).length + 1, { s with
      node := { s.node with votesReceived := s.node.votesReceived.insert sender } })
  | .lastLogInfo, _ => some (s.node.lastLogInfo, s)
  | .hasLogEntry index term, _ => some (s.node.hasLogEntry index term, s)
  | .appendEntry entry, _ => some ((Raft.appendEntry s.node.logEntries entry).2, { s with
      node := { s.node with logEntries := (Raft.appendEntry s.node.logEntries entry).1 } })
  | .persist entries, ch =>
    match ch with
    | .fail => some (false, s)
    | _ => some (true, s.emit (.persist entries))
  | .commitIndex, _ => some (s.node.commitIndex, s)
  | .storeCommitIndex index, _ => some ((), { s with node := { s.node with commitIndex := index } })
  | .sendCommittedToApply, _ => some ((), s.emit .apply)
  | .initPeers, _ => some ((), { s with node := { s.node with
      nextIndex := s.node.peers.foldl (fun m peer => m.set peer (s.node.lastLogIndex + 1))
        s.node.nextIndex
      matchIndex := s.node.peers.foldl (fun m peer => m.set peer 0) s.node.matchIndex } })
  | .note sender resp, _ => some ((), s.note sender resp)
  | .installSnapshot index term, ch =>
    match ch with
    | .fail => some (false, s)
    | _ => some (true, { s with
        node := (s.node.installSnapshot index term).1
        effects := s.effects ++ (s.node.installSnapshot index term).2 })
  | .startHeartbeat, _ => some ((), { s with ticker := true, heartbeats := s.heartbeats + 1 })
  | .stopHeartbeat, _ => some ((), { s with ticker := false })
  | .tick, _ =>
    match g with
    | .heartbeat k => if s.ticker && decide (k < s.heartbeats) then some ((), s) else none
    | _ => none
  | .newEntry command, _ => some (s.node.newEntry command, { s with
      node := s.node.appended (s.node.newEntry command)
      proposed := s.proposed ++ [s.node.newEntry command] })
  | .nextIndex peer, _ => some (s.node.nextIndex.get peer, s)
  | .entryTerm index, _ => some (s.node.entryTerm index, s)
  | .entriesBetween first last, _ => some (s.node.logEntries.filter fun entry =>
      decide (first ≤ entry.index) && decide (entry.index ≤ last), s)
  | .bodyTerm, _ => some (s.node.currentTerm, s)
  | .send msg, _ => some ((), s.emit (.send msg))

end Shared

@[reducible] def raftNode : Machine where
  State := Shared
  Thread := Goroutine
  decEq := inferInstance
  Op := Op
  Ret := Op.Ret
  Choice := Choice
  exec := Shared.exec

/-- A part of a goroutine. -/
abbrev Code (α : Type) := Prog raftNode α

abbrev act (o : Op) : Code o.Ret := Prog.act (M := raftNode) o

/-- `for _, x := range xs`. -/
def forEach {α : Type} (f : α → Code Unit) : List α → Code Unit
  | [] => pure ()
  | x :: xs => do
    f x
    forEach f xs

/-- So many rounds of an endless loop. -/
def rounds (body : Code Unit) : Nat → Code Unit
  | 0 => pure ()
  | n + 1 => do
    body
    rounds body n

/-! ## The code -/

section

variable (id : Str) (peers : List Str)

def sendMessage (receiver : Str) (data : Data) : Code Unit := do
  let term ← act .currentTerm
  act (.send ⟨id, receiver, term, data⟩)

def becomeFollower (term : Nat) : Code Unit := do
  act (.storeTerm term)
  act (.storeState .follower)
  act (.storeVotedFor [])
  act (.storeLeaderID [])
  act .clearVotes
  act .stopHeartbeat

def becomeCandidate : Code Unit := do
  act .addTerm
  act (.storeState .candidate)
  act (.storeVotedFor id)
  act (.storeLeaderID [])
  act .clearVotes
  let last ← act .lastLogInfo
  let term ← act .currentTerm
  forEach (fun peer => sendMessage id peer (.voteRequest ⟨term, id, last.1, last.2⟩)) peers

def becomeLeader : Code Unit := do
  act (.storeState .leader)
  act .initPeers
  act .startHeartbeat

def onElectionTimeout : Code Unit := do
  let state ← act .state
  if state = .leader then pure () else becomeCandidate id peers

/-- The checks of `handleVoteRequest`. -/
def grantVote (req : VoteRequest) : Code Bool := do
  let term ← act .currentTerm
  if term ≤ req.term then
    let votedFor ← act .votedFor
    if votedFor = [] ∨ votedFor = req.candidateID then
      let last ← act .lastLogInfo
      if last.2 < req.lastLogTerm ∨ req.lastLogTerm = last.2 ∧ last.1 ≤ req.lastLogIndex then
        act (.storeVotedFor req.candidateID)
        pure true
      else pure false
    else pure false
  else pure false

def handleVoteRequest (sender : Str) (req : VoteRequest) : Code Unit := do
  let voteGranted ← grantVote req
  let term ← act .currentTerm
  sendMessage id sender (.voteResponse ⟨term, voteGranted⟩)

def handleVoteResponse (sender : Str) (resp : VoteResponse) : Code Unit := do
  let state ← act .state
  if state ≠ .candidate then pure ()
  else
    let term ← act .currentTerm
    if term < resp.term then becomeFollower resp.term
    else if resp.voteGranted then
      let voteCount ← act (.countVote sender)
      if (peers.length + 1) / 2 < voteCount then becomeLeader else pure ()
    else pure ()

/-- The loop of `handleAppendEntries` over the entries: those that are new. -/
def appendEntries : List Entry → Code (List Entry)
  | [] => pure []
  | entry :: entries => do
    let new ← act (.appendEntry entry)
    let newEntries ← appendEntries entries
    pure (if new then entry :: newEntries else newEntries)

/-- The new entries go to the WAL.  An error is only logged. -/
def persistNew (newEntries : List Entry) : Code Unit :=
  if newEntries = [] then pure ()
  else do
    let _ ← act (.persist newEntries)
    pure ()

/-- The commit index of the leader, as far as the log goes. -/
def updateCommit (leaderCommit : Nat) : Code Unit := do
  let commitIndex ← act .commitIndex
  if commitIndex < leaderCommit then
    let last ← act .lastLogInfo
    act (.storeCommitIndex (if last.1 < leaderCommit then last.1 else leaderCommit))
    act .sendCommittedToApply
  else pure ()

/-- The part of `handleAppendEntries` after the previous entry has been found. -/
def accept (req : AppendEntries) : Code Unit := do
  let newEntries ← appendEntries req.entries
  persistNew newEntries
  updateCommit req.leaderCommit

/-- Whether there is the previous entry of a request. -/
def hasPrevious (req : AppendEntries) : Code Bool :=
  if req.prevLogIndex = 0 then pure true else act (.hasLogEntry req.prevLogIndex req.prevLogTerm)

/-- `handleAppendEntries`, without the answer. -/
def takeEntries (req : AppendEntries) : Code Bool := do
  let term ← act .currentTerm
  if term ≤ req.term then
    act (.storeVotedFor req.leaderID)
    act (.storeLeaderID req.leaderID)
    let found ← hasPrevious req
    if found then
      accept req
      pure true
    else pure false
  else pure false

def handleAppendEntries (sender : Str) (req : AppendEntries) : Code Unit := do
  let success ← takeEntries req
  let term ← act .currentTerm
  let last ← act .lastLogInfo
  sendMessage id sender (.appendEntriesResponse ⟨term, success, last.1⟩)

def handleAppendEntriesResponse (sender : Str) (resp : AppendEntriesResponse) : Code Unit := do
  let state ← act .state
  if state ≠ .leader then pure ()
  else
    let term ← act .currentTerm
    if term < resp.term then becomeFollower resp.term else act (.note sender resp)

def handleInstallSnapshot (sender : Str) (req : InstallSnapshotRequest) : Code Unit := do
  let term ← act .currentTerm
  if req.term < term then
    let term ← act .currentTerm
    sendMessage id sender (.installSnapshotResponse ⟨term, false⟩)
  else
    act (.storeVotedFor req.leaderID)
    let installed ← act (.installSnapshot req.lastIncludedIndex req.lastIncludedTerm)
    let term ← act .currentTerm
    sendMessage id sender (.installSnapshotResponse ⟨term, installed⟩)

/-- The switch of `handleMessage`. -/
def dispatch (msg : Message) : Code Unit :=
  match msg.data with
  | .voteRequest req => handleVoteRequest id msg.sender req
  | .voteResponse resp => handleVoteResponse peers msg.sender resp
  | .appendEntries req => handleAppendEntries id msg.sender req
  | .appendEntriesResponse resp => handleAppendEntriesResponse msg.sender resp
  | .installSnapshot req => handleInstallSnapshot id msg.sender req
  | .installSnapshotResponse _ => pure ()
  | .garbled => pure ()

def checkTerm (term : Nat) : Code Unit := do
  let currentTerm ← act .currentTerm
  if currentTerm < term then becomeFollower term else pure ()

def handleMessage (msg : Message) : Code Unit := do
  checkTerm msg.term
  dispatch id peers msg

def serve : Code Unit := do
  let arrival ← act .receive
  match arrival with
  | .message msg => handleMessage id peers msg
  | .timeout => onElectionTimeout id peers

def sendHeartbeats : Code Unit := do
  let state ← act .state
  if state ≠ .leader then pure ()
  else
    let last ← act .lastLogInfo
    let term ← act .bodyTerm
    let commitIndex ← act .commitIndex
    forEach (fun peer =>
      sendMessage id peer (.appendEntries ⟨term, id, last.1, last.2, [], commitIndex⟩)) peers

/-- `nextIdx - 1`, in 64 bits. -/
def before (nextIdx : Nat) : Nat := if nextIdx = 0 then 18446744073709551615 else nextIdx - 1

/-- `sendAppendEntriesToAll`, for one peer. -/
def sendAppendEntriesTo (lastIndex : Nat) (peer : Str) : Code Unit := do
  let nextIdx ← act (.nextIndex peer)
  let prevTerm ← if 0 < before nextIdx then act (.entryTerm (before nextIdx)) else pure 0
  let entries ← act (.entriesBetween nextIdx lastIndex)
  let term ← act .bodyTerm
  let commitIndex ← act .commitIndex
  sendMessage id peer
    (.appendEntries ⟨term, id, before nextIdx, prevTerm, entries, commitIndex⟩)

def sendAppendEntriesToAll : Code Unit := do
  let last ← act .lastLogInfo
  forEach (sendAppendEntriesTo id last.1) peers

def propose (command : List UInt8) : Code Unit := do
  let state ← act .state
  if state ≠ .leader then pure ()
  else
    let entry ← act (.newEntry command)
    let persisted ← act (.persist [entry])
    if persisted then sendAppendEntriesToAll id peers else pure ()

/-- One round of a goroutine of `startHeartbeat`. -/
def beat : Code Unit := do
  act .tick
  sendHeartbeats id peers

end

/-- A node that is started with any log and any snapshot, and to which the commands
are proposed.  The loops run for `n` rounds. -/
def goroutines (id : Str) (peers : List Str) (entries : List Entry)
    (snapshot : Option (Nat × Nat)) (commands : Nat → List UInt8) (n : Nat) : Config raftNode where
  state := { node := newNode id peers entries snapshot }
  prog
    | .run => rounds (serve id peers) n
    | .heartbeat _ => rounds (beat id peers) n
    | .propose k => propose id peers (commands k)

end Geryon.Raft.Goroutines
