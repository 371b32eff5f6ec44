import Geryon.Raft.Election

/-!
# The votes of one node over restarts

One node takes any messages, runs into election timeouts, and is restarted:
`NewNode` of `internal/raft/raft.go` builds a new node from the same directory.
The directory has the WAL and the snapshots, but neither `currentTerm` nor
`votedFor`.

`currentTerm` is a counter of 64 bits.  Everything that sets it copies a term
from a message, except for the election timeout, which adds 1.
-/

namespace Geryon.Raft

open Go Conc List Automaton Bool

/-! ## The model -/

structure Vote where
  term : Nat
  candidate : Str
  deriving DecidableEq

/-- The vote that an effect is: a granted request of `candidate`, or the node's
own candidacy. -/
def Effect.vote (id candidate : Str) : Effect → Option Vote
  | .became .candidate term => some ⟨term, id⟩
  | .send ⟨_, _, _, .voteResponse ⟨term, true⟩⟩ => some ⟨term, candidate⟩
  | _ => none

/-- Who asks for a vote. -/
def Message.candidate (msg : Message) : Str :=
  match msg.data with
  | .voteRequest req => req.candidateID
  | _ => []

/-- The largest value of a `uint64`. -/
def maxTerm : Nat := 18446744073709551615

/-- The node as a candidate of term 0, after the last term. -/
def Node.wrapped (n : Node) : Node := { n.standing with currentTerm := 0 }

/-- `onElectionTimeout` with a counter of 64 bits. -/
def Node.onElectionTimeout64 (n : Node) : Node × List Effect :=
  if n.currentTerm < maxTerm ∨ n.state = .leader then n.onElectionTimeout
  else (n.wrapped, .became .candidate 0 ::
    n.peers.map fun peer => n.wrapped.sendMessage peer (.voteRequest n.wrapped.candidacy))

/-- A node and the votes that it has given in its life and before. -/
structure Voter where
  node : Node
  votes : List Vote := []

inductive VoterEvent where
  | timeout
  | message (msg : Message) (installed : Bool)
  /-- `NewNode`, with any WAL and any snapshot. -/
  | restart (peers : List Str) (entries : List Entry) (snapshot : Option (Nat × Nat))

/-- The node after a step, with the votes in its effects. -/
def Voter.cast (s : Voter) (candidate : Str) (r : Node × List Effect) : Voter where
  node := r.1
  votes := s.votes ++ r.2.filterMap (Effect.vote s.node.id candidate)

/-- A node with restarts. -/
def voter (n : Node) : Automaton Voter VoterEvent where
  init := { node := n }
  next s
    | .timeout => some (s.cast [] s.node.onElectionTimeout64)
    | .message msg installed => some (s.cast msg.candidate (s.node.handleMessage msg installed))
    | .restart peers entries snapshot =>
      some { s with node := newNode s.node.id peers entries snapshot }

/-! ## The condition -/

/-- The node has no vote, or has it for `id`. -/
def Node.mayFollow (n : Node) (id : Str) : Bool :=
  decide (n.votedFor = []) || decide (n.votedFor = id)

/-- The message does not overwrite a vote, and nobody without a name gets one. -/
def Node.keepsVote (n : Node) (msg : Message) : Bool :=
  let n' := (n.checkTerm msg.term).1
  match msg.data with
  | .voteRequest req => !(decide (n'.Grants req) && decide (req.candidateID = []))
  | .appendEntries req => decide (req.term < n'.currentTerm) || n'.mayFollow req.leaderID
  | .installSnapshot req => decide (req.term < n'.currentTerm) || n'.mayFollow req.leaderID
  | _ => true

/-- The term is not yet the last one, and the node has a name, when it becomes a
candidate; messages do not overwrite the vote; a restart forgets nothing. -/
def remembers (s : Voter) : VoterEvent → Bool
  | .timeout =>
    decide (s.node.state = .leader) ||
      (decide (s.node.currentTerm < maxTerm) && decide (s.node.id ≠ []))
  | .message msg _ => s.node.keepsVote msg
  | .restart _ _ _ => decide (s.node.currentTerm = 0) && decide (s.node.votedFor = [])

/-! ## What a step does to the vote -/

/-- A step that keeps the vote of its term, and gives no other. -/
structure Node.Casts (n : Node) (candidate : Str) (r : Node × List Effect) : Prop where
  id : r.1.id = n.id
  term : n.currentTerm ≤ r.1.currentTerm
  kept : r.1.currentTerm = n.currentTerm → n.votedFor = [] ∨ r.1.votedFor = n.votedFor
  votes : ∀ e ∈ r.2, ∀ v, e.vote n.id candidate = some v →
    v = ⟨r.1.currentTerm, r.1.votedFor⟩ ∧ r.1.votedFor ≠ []

namespace Node

variable {n : Node} {candidate sender : Str} {r r' : Node × List Effect} {msg : Message}
  {installed : Bool}

theorem vote_of_noVote {e : Effect} {id : Str} (h : e.NoVote) : e.vote id candidate = none := by
  unfold Effect.vote
  split
  · exact absurd rfl h
  · exact absurd rfl (h _)
  · rfl

theorem casts_of_noVote (hid : r.1.id = n.id) (hterm : n.currentTerm ≤ r.1.currentTerm)
    (hkept : r.1.currentTerm = n.currentTerm → n.votedFor = [] ∨ r.1.votedFor = n.votedFor)
    (hno : ∀ e ∈ r.2, e.NoVote) : n.Casts candidate r := by
  refine ⟨hid, hterm, hkept, ?_⟩
  intro e he v hv
  rw [vote_of_noVote (hno e he)] at hv
  cases hv

theorem casts_of_eq (hid : r.1.id = n.id) (hterm : r.1.currentTerm = n.currentTerm)
    (hvoted : r.1.votedFor = n.votedFor) (hno : ∀ e ∈ r.2, e.NoVote) : n.Casts candidate r :=
  casts_of_noVote hid hterm.ge (fun _ => .inr hvoted) hno

theorem casts_becomeFollower {term : Nat} (h : n.currentTerm < term) :
    n.Casts candidate (n.becomeFollower term) := by
  refine casts_of_noVote rfl h.le ?_ (by simp [becomeFollower, Effect.NoVote])
  intro hterm
  exact absurd hterm h.ne'

theorem casts_onElectionTimeout64 (hok : n.state = .leader ∨ n.currentTerm < maxTerm ∧ n.id ≠ []) :
    n.Casts [] n.onElectionTimeout64 := by
  rw [onElectionTimeout64, if_pos (hok.elim .inr fun h => .inl h.1), onElectionTimeout]
  split
  · exact casts_of_eq rfl rfl rfl (by simp)
  · rename_i hstate
    refine ⟨rfl, Nat.le_succ _, fun hterm => absurd hterm (Nat.succ_ne_self _), ?_⟩
    intro e he v hv
    refine ⟨?_, (hok.resolve_left hstate).2⟩
    obtain rfl | he := mem_cons.mp he
    · cases hv
      rfl
    · obtain ⟨peer, -, rfl⟩ := mem_map.mp he
      cases hv

theorem casts_handleVoteRequest {req : VoteRequest} (hok : n.Grants req → req.candidateID ≠ []) :
    n.Casts req.candidateID (n.handleVoteRequest sender req) := by
  rw [handleVoteRequest]
  split
  · rename_i hgrants
    refine ⟨rfl, le_rfl, ?_, ?_⟩
    · intro _
      exact hgrants.2.1.imp_right Eq.symm
    · intro e he v hv
      cases mem_singleton.mp he
      cases hv
      exact ⟨rfl, hok hgrants⟩
  · exact casts_of_eq rfl rfl rfl (by simp [sendMessage, Effect.NoVote])

theorem casts_handleVoteResponse {resp : VoteResponse} :
    n.Casts candidate (n.handleVoteResponse sender resp) := by
  rw [handleVoteResponse]
  split
  · exact casts_of_eq rfl rfl rfl (by simp)
  · split
    · rename_i hlt
      exact casts_becomeFollower hlt
    · split
      · dsimp only
        split
        · exact casts_of_eq rfl rfl rfl (by simp [becomeLeader, Effect.NoVote])
        · exact casts_of_eq rfl rfl rfl (by simp)
      · exact casts_of_eq rfl rfl rfl (by simp)

theorem casts_of_mayFollow {id : Str} (hok : n.mayFollow id = true) (hid : r.1.id = n.id)
    (hterm : r.1.currentTerm = n.currentTerm) (hvoted : r.1.votedFor = id)
    (hno : ∀ e ∈ r.2, e.NoVote) : n.Casts candidate r := by
  refine casts_of_noVote hid hterm.ge ?_ hno
  intro _
  rw [mayFollow, or_eq_true, decide_eq_true_iff, decide_eq_true_iff] at hok
  rw [hvoted]
  exact hok.imp_right Eq.symm

theorem casts_handleAppendEntries {req : AppendEntries}
    (hok : req.term < n.currentTerm ∨ n.mayFollow req.leaderID = true) :
    n.Casts candidate (n.handleAppendEntries sender req) := by
  rw [handleAppendEntries]
  split
  · rename_i hle
    have hfollow := hok.resolve_left (by omega)
    split
    · refine casts_of_mayFollow hfollow ?_ ?_ ?_ fun e he => (noVote_mem_accept he).1
      all_goals rw [accept_fst]
    · exact casts_of_mayFollow hfollow rfl rfl rfl (by simp [answer, sendMessage, Effect.NoVote])
  · exact casts_of_eq rfl rfl rfl (by simp [answer, sendMessage, Effect.NoVote])

theorem casts_handleAppendEntriesResponse {resp : AppendEntriesResponse} :
    n.Casts candidate (n.handleAppendEntriesResponse sender resp) := by
  rw [handleAppendEntriesResponse]
  split
  · exact casts_of_eq rfl rfl rfl (by simp)
  · split
    · rename_i hlt
      exact casts_becomeFollower hlt
    · split
      · refine casts_of_eq ?_ ?_ ?_ fun e he => mem_advanceCommitIndex_snd _ he ▸ trivial
        all_goals rw [advanceCommitIndex_fst]
      · split
        · exact casts_of_eq rfl rfl rfl (by simp)
        · exact casts_of_eq rfl rfl rfl (by simp)

theorem casts_handleInstallSnapshot {req : InstallSnapshotRequest}
    (hok : req.term < n.currentTerm ∨ n.mayFollow req.leaderID = true) :
    n.Casts candidate (n.handleInstallSnapshot sender req installed) := by
  rw [handleInstallSnapshot]
  split
  · exact casts_of_eq rfl rfl rfl (by simp [sendMessage, Effect.NoVote])
  · rename_i hle
    have hfollow := hok.resolve_left hle
    split
    · exact casts_of_mayFollow hfollow rfl rfl rfl
        (by simp [installSnapshot, sendMessage, Effect.NoVote])
    · exact casts_of_mayFollow hfollow rfl rfl rfl (by simp [sendMessage, Effect.NoVote])

variable (hok : n.keepsVote msg = true)
include hok

theorem casts_dispatch (hterm : ¬ n.currentTerm < msg.term) :
    n.Casts msg.candidate (n.dispatch msg installed) := by
  rw [keepsVote, checkTerm, if_neg hterm] at hok
  rw [dispatch, Message.candidate]
  cases hdata : msg.data with
  | voteRequest req =>
    refine casts_handleVoteRequest ?_
    intro hgrants
    simpa [hdata, hgrants] using hok
  | voteResponse resp => exact casts_handleVoteResponse
  | appendEntries req =>
    refine casts_handleAppendEntries ?_
    simpa [hdata] using hok
  | appendEntriesResponse resp => exact casts_handleAppendEntriesResponse
  | installSnapshot req =>
    refine casts_handleInstallSnapshot ?_
    simpa [hdata] using hok
  | installSnapshotResponse | garbled => exact casts_of_eq rfl rfl rfl (by simp)

theorem casts_handleMessage : n.Casts msg.candidate (n.handleMessage msg installed) := by
  by_cases hlt : n.currentTerm < msg.term
  · -- The node enters the term of the message, where it has not voted.
    rw [handleMessage, checkTerm, if_pos hlt]
    have hterm : ¬ (n.becomeFollower msg.term).1.currentTerm < msg.term := lt_irrefl _
    have hok' : (n.becomeFollower msg.term).1.keepsVote msg = true := by
      rw [keepsVote, checkTerm, if_pos hlt] at hok
      rw [keepsVote, checkTerm, if_neg hterm]
      exact hok
    have h : (n.becomeFollower msg.term).1.Casts msg.candidate
        ((n.becomeFollower msg.term).1.dispatch msg installed) := casts_dispatch hok' hterm
    have hle : msg.term ≤ ((n.becomeFollower msg.term).1.dispatch msg installed).1.currentTerm :=
      h.term
    refine ⟨h.id, hlt.le.trans hle, ?_, ?_⟩
    · intro heq
      dsimp only at heq
      omega
    · intro e he v hv
      obtain he | he := mem_append.mp he
      · cases mem_singleton.mp he
        cases hv
      · exact h.votes e he v hv
  · rw [handleMessage, checkTerm, if_neg hlt]
    exact casts_dispatch hok hlt

end Node

/-! ## The result -/

/-- The votes that have been given. -/
structure Voter.Consistent (s : Voter) : Prop where
  named : ∀ v ∈ s.votes, v.candidate ≠ []
  le : ∀ v ∈ s.votes, v.term ≤ s.node.currentTerm
  current : ∀ v ∈ s.votes, v.term = s.node.currentTerm → v.candidate = s.node.votedFor
  unique : ∀ v ∈ s.votes, ∀ w ∈ s.votes, v.term = w.term → v.candidate = w.candidate

/-- No node votes twice in a term by such a step. -/
theorem Voter.Consistent.cast {s : Voter} (h : s.Consistent) {candidate : Str}
    {r : Node × List Effect} (hr : s.node.Casts candidate r) : (s.cast candidate r).Consistent := by
  have hnew : ∀ v ∈ (s.cast candidate r).votes, v ∈ s.votes ∨
      v = ⟨r.1.currentTerm, r.1.votedFor⟩ ∧ r.1.votedFor ≠ [] := by
    intro v hv
    obtain hv | hv := mem_append.mp hv
    · exact .inl hv
    · obtain ⟨e, he, hev⟩ := mem_filterMap.mp hv
      exact .inr (hr.votes e he v hev)
  have hcurrent : ∀ v ∈ s.votes, v.term = r.1.currentTerm → v.candidate = r.1.votedFor := by
    intro v hv hterm
    have hle := h.le v hv
    have hgrows := hr.term
    have hvoted := h.current v hv (by omega)
    obtain hnone | hkept := hr.kept (by omega)
    · exact absurd (hvoted.trans hnone) (h.named v hv)
    · rw [hvoted, hkept]
  refine ⟨?_, ?_, ?_, ?_⟩
  · intro v hv
    obtain hv | ⟨rfl, hne⟩ := hnew v hv
    · exact h.named v hv
    · exact hne
  · intro v hv
    obtain hv | ⟨rfl, -⟩ := hnew v hv
    · exact (h.le v hv).trans hr.term
    · exact le_rfl
  · intro v hv hterm
    obtain hv | ⟨rfl, -⟩ := hnew v hv
    · exact hcurrent v hv hterm
    · rfl
  · intro v hv w hw hterm
    obtain hv | ⟨rfl, -⟩ := hnew v hv
    · obtain hw | ⟨rfl, -⟩ := hnew w hw
      · exact h.unique v hv w hw hterm
      · exact hcurrent v hv hterm
    · obtain hw | ⟨rfl, -⟩ := hnew w hw
      · exact (hcurrent w hw hterm.symm).symm
      · rfl

/-- A node that is restarted before it has voted has given no votes. -/
theorem Voter.Consistent.votes_eq_nil {s : Voter} (h : s.Consistent)
    (hterm : s.node.currentTerm = 0) (hvoted : s.node.votedFor = []) : s.votes = [] := by
  refine eq_nil_iff_forall_not_mem.mpr ?_
  intro v hv
  have hle := h.le v hv
  exact h.named v hv ((h.current v hv (by omega)).trans hvoted)

theorem Voter.Consistent.next {n : Node} {s s' : Voter} {e : VoterEvent} (h : s.Consistent)
    (hok : remembers s e = true) (hnext : (voter n).next s e = some s') :
    s'.Consistent ∧ s.node.currentTerm ≤ s'.node.currentTerm := by
  cases e with
  | timeout =>
    cases hnext
    simp only [remembers, or_eq_true, and_eq_true, decide_eq_true_iff] at hok
    have hr := Node.casts_onElectionTimeout64 hok
    exact ⟨h.cast hr, hr.term⟩
  | message msg installed =>
    cases hnext
    have hr : s.node.Casts msg.candidate (s.node.handleMessage msg installed) :=
      Node.casts_handleMessage hok
    exact ⟨h.cast hr, hr.term⟩
  | restart peers entries snapshot =>
    cases hnext
    rw [remembers, and_eq_true, decide_eq_true_iff, decide_eq_true_iff] at hok
    have hnil := h.votes_eq_nil hok.1 hok.2
    refine ⟨⟨?_, ?_, ?_, ?_⟩, hok.1.le⟩ <;> simp [hnil]

/-- One vote per term over restarts, and terms that do not go back: if the node is
restarted only before it has entered a term or voted, no leader's message overwrites its
vote, neither it nor a candidate it votes for has the empty name, and it does not become
a candidate after the last term. -/
theorem one_vote_per_term (n : Node) {s s' : Voter}
    (hreach : (voter n).Reach remembers (voter n).init s)
    (hlater : (voter n).Reach remembers s s') : s.node.currentTerm ≤ s'.node.currentTerm ∧
      ∀ v ∈ s'.votes, ∀ w ∈ s'.votes, v.term = w.term → v.candidate = w.candidate := by
  have hinit : (voter n).init.Consistent := by
    refine ⟨?_, ?_, ?_, ?_⟩ <;> simp [voter]
  have hs : s.Consistent := invariant hreach hinit
    (fun h hok hnext => (h.next hok hnext).1)
  have hs' := invariant
    (P := fun s' => s'.Consistent ∧ s.node.currentTerm ≤ s'.node.currentTerm) hlater
    ⟨hs, le_rfl⟩ (by
      intro t e t' ht hok hnext
      obtain ⟨hcons, hle⟩ := ht.1.next hok hnext
      exact ⟨hcons, ht.2.trans hle⟩)
  exact ⟨hs'.2, hs'.1.unique⟩

/-- A request of `candidate` for a vote of term `term`. -/
def voteFor (candidate : Str) (term : Nat) : VoterEvent :=
  .message ⟨candidate, str "a", term, .voteRequest ⟨term, candidate, 0, 0⟩⟩ false

/-- A node without a history. -/
def fresh : Node := newNode (str "a") [str "b", str "c"] [] none

theorem fresh_votes : ∃ s s', ((voter fresh).Reach remembers (voter fresh).init s ∧
      (voter fresh).Reach remembers s s' ∧ s'.votes = [⟨1, str "b"⟩, ⟨2, str "a"⟩]) ∧
      s.node.currentTerm ≤ s'.node.currentTerm ∧
      ∀ v ∈ s'.votes, ∀ w ∈ s'.votes, v.term = w.term → v.candidate = w.candidate := by
  obtain ⟨s, s', hreach, hlater, -, hvotes⟩ := exists_reach_reach (A := voter fresh)
    remembers (voter fresh).init (fun _ => True)
    (fun s' => s'.votes = [⟨1, str "b"⟩, ⟨2, str "a"⟩])
    [.restart [] [] none, voteFor (str "b") 1, voteFor (str "c") 1] [.timeout] (by decide +kernel)
  exact ⟨s, s', ⟨hreach, hlater, hvotes⟩, one_vote_per_term fresh hreach hlater⟩

/-- `a` votes for `b`, is restarted, and votes for `c` in the same term. -/
theorem fresh_votes_twice : ∃ s s', (voter fresh).Reach anyEvent (voter fresh).init s ∧
      (voter fresh).Reach anyEvent s s' ∧ s.node.currentTerm = 1 ∧ s.votes = [⟨1, str "b"⟩] ∧
      s'.node.currentTerm = 0 ∧ ∃ s'', (voter fresh).Reach anyEvent s' s'' ∧
        s''.votes = [⟨1, str "b"⟩, ⟨1, str "c"⟩] := by
  obtain ⟨s, s', hreach, hreach', ⟨hterm₁, hvotes₁⟩, hterm, hlater⟩ :=
    exists_reach_reach (A := voter fresh) anyEvent (voter fresh).init
      (fun s => s.node.currentTerm = 1 ∧ s.votes = [⟨1, str "b"⟩])
      (fun s' => s'.node.currentTerm = 0 ∧
        ((voter fresh).follow anyEvent s' [voteFor (str "c") 1]).any (fun s'' : Voter =>
          decide (s''.votes = [⟨1, str "b"⟩, ⟨1, str "c"⟩])) = true)
      [voteFor (str "b") 1] [.restart [str "b", str "c"] [] none] (by decide +kernel)
  obtain ⟨s'', hreach'', hvotes⟩ := exists_reach_of_follow _ _ _ _ hlater
  exact ⟨s, s', hreach, hreach', hterm₁, hvotes₁, hterm, s'', hreach'', hvotes⟩

end Geryon.Raft
