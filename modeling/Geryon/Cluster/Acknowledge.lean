import Geryon.Cluster.Coordinator
import Geryon.Raft.Safety

/-!
# Acknowledged commands

`Coordinator.Propose` on top of a cluster of Raft nodes.  `run` hands a replicated
command to `Propose` of its Raft node, which appends an entry and returns its index
at once; the response is sent to the caller some time later.  Nothing waits for the
entry to be committed.

A `Service` is a cluster with the calls that have been handed to Raft and the calls
that have been answered.  A caller that gives up leaves no trace in it.
-/

namespace Geryon.Cluster

open Go Conc List Option Automaton Raft Raft.Node Effect

/-! ## The model -/

/-- A call of `Coordinator.Propose`: the entry that Raft has made of it, if any, and
the response. -/
structure Call where
  node : Str
  entry : Option Entry
  response : Response
  deriving DecidableEq

structure Service where
  cluster : Cluster
  pending : List Call := []
  answered : List Call := []

inductive ServiceEvent where
  | raft (e : Raft.Event)
  /-- `proposeToRaft`, for a command with the given encoding.  `walOk` tells whether
  the WAL takes the entry. -/
  | propose (node : Str) (type : CommandType) (data : List UInt8) (walOk : Bool)
  | reply (k : Nat)

/-- The commands that go to Raft. -/
def CommandType.replicated : CommandType → Bool
  | .reloadConfig | .other _ => false
  | _ => true

/-- What `proposeToRaft` makes of a command, when its Raft node is `n`. -/
def call (n : Node) (node : Str) (type : CommandType) (data : List UInt8) (walOk : Bool) :
    Call where
  node := node
  entry := if n.state = .leader then some (n.newEntry data) else none
  response := Coordinator.proposeToRaft ⟨type, .client⟩
    (if n.state = .leader ∧ walOk = true then some (n.newEntry data).index else none)

def service (M : Members) : Automaton Service ServiceEvent where
  init := { cluster := (cluster M).init }
  next s
    | .raft e => ((cluster M).next s.cluster e).map fun c => { s with cluster := c }
    | .propose node type data walOk =>
      if type.replicated then
        ((cluster M).next s.cluster ⟨node, .propose data walOk⟩).map fun c =>
          { s with
            cluster := c
            pending := s.pending ++ [call (s.cluster.nodes node) node type data walOk] }
      else none
    | .reply k =>
      (s.pending[k]?).map fun call =>
        { s with pending := s.pending.eraseIdx k, answered := s.answered ++ [call] }

/-! ## The condition -/

def electedBy (n : Node) (m : Message) : Bool :=
  match m.data with
  | .voteResponse resp =>
    decide (n.state = .candidate) && resp.voteGranted &&
      decide ((n.peers.length + 1) / 2 < (n.votesReceived.insert m.sender).length + 1)
  | _ => false

/-- The entry of an acknowledged call is committed, by a node that is not past the
term. -/
def Call.settled (M : Members) (c : Cluster) (term : Nat) (call : Call) : Bool :=
  match call.entry, call.response with
  | some e, .proposed i =>
    M.ids.any fun v => decide ((c.nodes v).currentTerm ≤ term ∧ i ≤ (c.nodes v).commitIndex ∧
      (c.nodes v).entryAt i = some e)
  | _, _ => true

/-- The steps of the Raft nodes are orderly, and a node is elected only when all
acknowledged entries are committed. -/
def confirmed (M : Members) (s : Service) : ServiceEvent → Bool
  | .raft e =>
    orderly.events s.cluster e &&
      match e.input with
      | .message m _ =>
        !electedBy (s.cluster.nodes e.node) m ||
          s.answered.all (·.settled M s.cluster (s.cluster.nodes e.node).currentTerm)
      | _ => true
  | _ => true

/-! ## Who becomes leader -/

variable {n : Node} {t : Nat}

variable {m : Message} {installed : Bool}

theorem electedBy_of_handleVoteResponse {resp : VoteResponse} (hdata : m.data = .voteResponse resp)
    (h : became .leader t ∈ (n.handleVoteResponse m.sender resp).2) :
    electedBy n m = true ∧ t = n.currentTerm := by
  rw [handleVoteResponse] at h
  split at h
  · cases h
  · rename_i hstate
    split at h
    · simp [becomeFollower] at h
    · split at h
      · rename_i hgranted
        dsimp only at h
        split at h
        · rename_i hmajority
          cases mem_singleton.mp h
          refine ⟨?_, rfl⟩
          rw [electedBy, hdata]
          simp only [not_not.mp hstate, hgranted, decide_true, Bool.and_self, Bool.true_and]
          exact decide_eq_true hmajority
        · cases h
      · cases h

theorem not_became_of_dispatch (hdata : ∀ resp, m.data ≠ .voteResponse resp) :
    became .leader t ∉ (n.dispatch m installed).2 := by
  intro h
  rw [dispatch] at h
  cases hm : m.data with
  | voteRequest req =>
    rw [hm] at h
    simp only [handleVoteRequest] at h
    split at h
    · simp [sendMessage] at h
    · simp [sendMessage] at h
  | voteResponse resp => exact hdata resp hm
  | appendEntries req =>
    rw [hm] at h
    simp only [handleAppendEntries] at h
    split at h
    · split at h
      · obtain h | h := mem_append.mp h
        · obtain ⟨entries, heq⟩ | heq := mem_accept_snd _ h
          · cases heq
          · cases heq
        · simp [answer, sendMessage] at h
      · simp [answer, sendMessage] at h
    · simp [answer, sendMessage] at h
  | appendEntriesResponse resp =>
    rw [hm] at h
    simp only [handleAppendEntriesResponse] at h
    split at h
    · cases h
    · split at h
      · simp [becomeFollower] at h
      · split at h
        · cases mem_advanceCommitIndex_snd _ h
        · split at h
          · cases h
          · cases h
  | installSnapshot req =>
    rw [hm] at h
    simp only [handleInstallSnapshot] at h
    split at h
    · simp [sendMessage] at h
    · split at h
      · simp [installSnapshot, sendMessage] at h
      · simp [sendMessage] at h
  | installSnapshotResponse | garbled =>
    rw [hm] at h
    cases h

theorem electedBy_of_handleMessage (h : became .leader t ∈ (n.handleMessage m installed).2) :
    electedBy n m = true ∧ t = n.currentTerm := by
  have hparts : became .leader t ∈
      (n.checkTerm m.term).2 ++ ((n.checkTerm m.term).1.dispatch m installed).2 := h
  obtain h | h := mem_append.mp hparts
  · rw [checkTerm] at h
    split at h
    · simp [becomeFollower] at h
    · cases h
  · by_cases hdata : ∃ resp, m.data = .voteResponse resp
    · obtain ⟨resp, hdata⟩ := hdata
      rw [dispatch, hdata] at h
      by_cases hterm : n.currentTerm < m.term
      · -- The term check has made the node a follower.
        rw [checkTerm, if_pos hterm] at h
        simp [handleVoteResponse, becomeFollower] at h
      · rw [checkTerm, if_neg hterm] at h
        exact electedBy_of_handleVoteResponse hdata h
    · exact absurd h (not_became_of_dispatch fun resp heq => hdata ⟨resp, heq⟩)

theorem electedBy_of_perform {input : Input} (h : became .leader t ∈ (n.perform input).2) :
    ∃ m installed, input = .message m installed ∧ electedBy n m = true ∧ t = n.currentTerm := by
  cases input with
  | timeout =>
    simp only [perform, onElectionTimeout] at h
    split at h
    · cases h
    · simp [becomeCandidate, sendMessage] at h
  | message m installed => exact ⟨m, installed, rfl, electedBy_of_handleMessage h⟩
  | propose command walOk =>
    simp only [perform, propose] at h
    split at h
    · cases h
    · split at h
      · simp [sendAppendEntriesToAll, sendMessage] at h
      · cases h
  | heartbeat =>
    simp only [perform, sendHeartbeats] at h
    split at h
    · cases h
    · simp [sendMessage] at h

/-! ## Entries that are committed for good -/

/-- The entry at index `i` was committed by a leader of a term up to `t`. -/
def Backed (M : Members) (c : Cluster) (t i : Nat) (e : Entry) : Prop :=
  ∃ u n, Committed M c u n ∧ u ≤ t ∧ 1 ≤ i ∧ i ≤ n ∧ (c.leaderLog u)[i - 1]? = some e

section

variable {M : Members} {c c' : Cluster} {t i : Nat} {e : Entry} {v : Str}

theorem backed_of_commit (h : Consensus M c) (hv : v ∈ M.ids)
    (hterm : (c.nodes v).currentTerm ≤ t) (hcommit : i ≤ (c.nodes v).commitIndex)
    (hentry : (c.nodes v).entryAt i = some e) : Backed M c t i e := by
  have hindexed := h.matching.indexed v hv
  have hpos : 1 ≤ i := by
    by_contra hzero
    obtain rfl : i = 0 := by omega
    rw [entryAt_zero hindexed] at hentry
    cases hentry
  obtain hzero | ⟨u, n, hc, hu, hn, hpre⟩ := h.safety.commits v hv
  · omega
  · refine ⟨u, n, hc, hu.trans hterm, hpos, hcommit.trans hn, ?_⟩
    have htake := take_eq_of_initial hpre hcommit (hn.trans hc.length_le)
    rw [hindexed.entryAt hpos] at hentry
    rw [← hentry, ← getElem?_take_of_lt (show i - 1 < i by omega), ← htake,
      getElem?_take_of_lt (by omega)]

theorem Backed.lasts (h : Backed M c t i e) (hlasts : Lasts M c c') : Backed M c' t i e := by
  obtain ⟨u, n, hc, hu, hpos, hn, hget⟩ := h
  obtain ⟨hc', htake⟩ := hlasts hc
  refine ⟨u, n, hc', hu, hpos, hn, ?_⟩
  rw [← hget, ← getElem?_take_of_lt (show i - 1 < n by omega), htake,
    getElem?_take_of_lt (by omega)]

/-- A leader of a later term has the entry. -/
theorem Backed.entryAt (h : Backed M c t i e) (hc : Consensus M c) (hv : v ∈ M.ids)
    (helected : c.Elected t v) (hstate : (c.nodes v).state = .leader)
    (hterm : (c.nodes v).currentTerm = t) : (c.nodes v).entryAt i = some e := by
  obtain ⟨u, n, hcommitted, hu, hpos, hn, hget⟩ := h
  have hpre := hc.safety.committed_initial hc.matching hcommitted ⟨v, helected⟩ hu
  have hlog := hc.matching.leader v hv hstate
  rw [hterm] at hlog
  rw [hlog] at hpre
  rw [(hc.matching.indexed v hv).entryAt hpos]
  refine getElem?_of_initial hpre ?_
  rw [getElem?_take_of_lt (by omega)]
  exact hget

end

/-! ## Runs -/

section

variable {M : Members} {s s' : Service}

variable {e : ServiceEvent} {call : Call}

theorem service_next (hok : confirmed M s e = true) (hnext : (service M).next s e = some s') :
    s'.cluster = s.cluster ∨
      ∃ ev : Raft.Event, orderly.events s.cluster ev = true ∧ ev.node ∈ M.ids ∧
        (cluster M).next s.cluster ev = some s'.cluster ∧
        s'.cluster = s.cluster.act ev.node ((s.cluster.nodes ev.node).perform ev.input) ∧
        ∀ m installed, ev.input = .message m installed →
          electedBy (s.cluster.nodes ev.node) m = true → ∀ call ∈ s.answered,
            call.settled M s.cluster (s.cluster.nodes ev.node).currentTerm = true := by
  have hcluster : ∀ {ev : Raft.Event} {c : Cluster},
      (cluster M).next s.cluster ev = some c →
      ev.node ∈ M.ids ∧ c = s.cluster.act ev.node ((s.cluster.nodes ev.node).perform ev.input) := by
    intro ev c h
    simp only [cluster] at h
    split at h
    · rename_i hpossible
      cases h
      exact ⟨hpossible.1, rfl⟩
    · cases h
  cases e with
  | raft ev =>
    obtain ⟨c, hc, rfl⟩ := map_eq_some_iff.mp hnext
    obtain ⟨hmem, hact⟩ := hcluster hc
    obtain ⟨horderly, hsettled⟩ := Bool.and_eq_true_iff.mp hok
    refine .inr ⟨ev, horderly, hmem, hc, hact, ?_⟩
    intro m installed hinput helected call hcall
    rw [hinput] at hsettled
    simp only [helected, Bool.not_true, Bool.false_or] at hsettled
    exact all_eq_true.mp hsettled call hcall
  | propose node type data walOk =>
    simp only [service] at hnext
    split at hnext
    · obtain ⟨c, hc, rfl⟩ := map_eq_some_iff.mp hnext
      obtain ⟨hmem, hact⟩ := hcluster hc
      refine .inr ⟨⟨node, .propose data walOk⟩, rfl, hmem, hc, hact, ?_⟩
      intro m installed hinput
      cases hinput
    · cases hnext
  | reply k =>
    obtain ⟨call, -, rfl⟩ := map_eq_some_iff.mp hnext
    exact .inl rfl

theorem answered_next (hcall : call ∈ s.answered) (hnext : (service M).next s e = some s') :
    call ∈ s'.answered := by
  cases e with
  | raft ev =>
    obtain ⟨c, -, rfl⟩ := map_eq_some_iff.mp hnext
    exact hcall
  | propose node type data walOk =>
    simp only [service] at hnext
    split at hnext
    · obtain ⟨c, -, rfl⟩ := map_eq_some_iff.mp hnext
      exact hcall
    · cases hnext
  | reply k =>
    obtain ⟨call', -, rfl⟩ := map_eq_some_iff.mp hnext
    exact mem_append_left _ hcall

theorem cluster_reach (hreach : (service M).Reach (confirmed M) s s') :
    (cluster M).Reach orderly.events s.cluster s'.cluster := by
  induction hreach with
  | refl => exact .refl
  | tail _ hstep ih =>
    obtain ⟨e, hok, hnext⟩ := hstep
    obtain hsame | ⟨ev, horderly, -, hev, -⟩ := service_next hok hnext
    · rw [hsame]
      exact ih
    · exact ih.tail ⟨ev, horderly, hev⟩

/-- Since a call was answered, only nodes have been elected in whose term its entry
is committed for good. -/
theorem elected_backed (hreach : (service M).Reach (confirmed M) (service M).init s)
    (hlater : (service M).Reach (confirmed M) s s') (hcall : call ∈ s.answered) {i : Nat}
    {e : Entry} (hresponse : call.response = .proposed i) (hentry : call.entry = some e) :
    call ∈ s'.answered ∧ (s'.cluster.OneLeader → ∀ t j, s'.cluster.Elected t j →
      s.cluster.Elected t j ∨ Backed M s'.cluster t i e) := by
  induction hlater with
  | refl => exact ⟨hcall, fun _ t j h => .inl h⟩
  | @tail d d' hd hstep ih =>
    obtain ⟨ev, hok, hnext⟩ := hstep
    refine ⟨answered_next ih.1 hnext, ?_⟩
    obtain hsame | ⟨ev, horderly, hmem, hev, hact, hsettled⟩ := service_next hok hnext
    · rw [hsame]
      exact ih.2
    · intro hone t j helected
      rw [hact] at hone helected
      have hstart := cluster_reach (hreach.trans hd)
      obtain ⟨hsound, hcons, -⟩ := consensus_of_reach sound_init consensus_init hstart hone.of_act
      have hlasts : Lasts M d.cluster d'.cluster := by
        rw [← hact] at hone
        exact (consensus_of_reach hsound hcons (.single ⟨ev, horderly, hev⟩) hone).2.2
      obtain hold | ⟨rfl, hnew⟩ := Cluster.elected_act.mp helected
      · obtain hbefore | hbacked := ih.2 hone.of_act t j hold
        · exact .inl hbefore
        · exact .inr (hbacked.lasts hlasts)
      · obtain ⟨m, installed, hinput, hby, rfl⟩ := electedBy_of_perform hnew
        have hcommitted := hsettled m installed hinput hby call ih.1
        rw [Call.settled, hentry, hresponse] at hcommitted
        obtain ⟨v, hv, hcommit⟩ := any_eq_true.mp hcommitted
        obtain ⟨hterm, hle, hat⟩ := of_decide_eq_true hcommit
        exact .inr ((backed_of_commit hcons hv hterm hle hat).lasts hlasts)

end

/-- If the steps of the Raft nodes are orderly and a node is elected only when all
acknowledged entries are committed, then an acknowledged entry is in the log of every
node that becomes leader later. -/
theorem acknowledged_durable (M : Members) {s s' : Service}
    (hreach : (service M).Reach (confirmed M) (service M).init s)
    (hlater : (service M).Reach (confirmed M) s s') (hone : s'.cluster.OneLeader) :
    ∀ call ∈ s.answered, ∀ i e, call.response = .proposed i → call.entry = some e →
      ∀ j t, s'.cluster.Elected t j → ¬ s.cluster.Elected t j →
        (s'.cluster.nodes j).state = .leader → (s'.cluster.nodes j).currentTerm = t →
        (s'.cluster.nodes j).entryAt i = some e := by
  intro call hcall i e hresponse hentry j t helected hafter hstate hterm
  obtain ⟨hsound, hcons, -⟩ := consensus_of_reach sound_init consensus_init
    (cluster_reach (hreach.trans hlater)) hone
  obtain hbefore | hbacked :=
    (elected_backed hreach hlater hcall hresponse hentry).2 hone t j helected
  · exact absurd hbefore hafter
  · exact hbacked.entryAt hcons (hsound.known helected) helected hstate hterm

/-- `a` is elected and acknowledges a command. -/
def proposes : List ServiceEvent :=
  (elect (str "a") (str "b")).map .raft ++ [.propose (str "a") .createUser [7] true, .reply 0]

/-- `a` commits the acknowledged entry before `b` is elected. -/
theorem acknowledged_kept : ∃ s s',
    ((service three).Reach (confirmed three) (service three).init s ∧
      (service three).Reach (confirmed three) s s' ∧ s'.cluster.OneLeader) ∧
      ⟨str "a", some ⟨1, 1, [7]⟩, .proposed 1⟩ ∈ s.answered ∧ s'.cluster.Elected 2 (str "b") ∧
      (s'.cluster.nodes (str "b")).entryAt 1 = some ⟨1, 1, [7]⟩ := by
  let later : List ServiceEvent :=
    [.raft (deliver (str "a") (str "b") 1 (.appendEntries ⟨1, str "a", 0, 0, [⟨1, 1, [7]⟩], 0⟩)),
      .raft hasEntry,
      .raft ⟨str "b", .timeout⟩, .raft (requestVote (str "b") (str "c") 2 1 1),
      .raft (grantVote (str "c") (str "b") 2)]
  obtain ⟨s, s', hreach, hreach', ⟨hcall, hbefore⟩, hone, helected, hstate, hterm⟩ :=
    exists_reach_reach (A := service three) (confirmed three) (service three).init
      (fun s => (⟨str "a", some ⟨1, 1, [7]⟩, .proposed 1⟩ : Call) ∈ s.answered ∧
        ¬ s.cluster.Elected 2 (str "b"))
      (fun s' => s'.cluster.OneLeader ∧ s'.cluster.Elected 2 (str "b") ∧
        (s'.cluster.nodes (str "b")).state = .leader ∧
        (s'.cluster.nodes (str "b")).currentTerm = 2)
      proposes later (by decide +kernel)
  exact ⟨s, s', ⟨hreach, hreach', hone⟩, hcall, helected,
    acknowledged_durable three hreach hreach' hone _ hcall 1 ⟨1, 1, [7]⟩ rfl rfl _ 2 helected
      hbefore hstate hterm⟩

/-- `a` acknowledges a command, and then `c` is elected by `b`.  Neither of them has
heard of the entry. -/
theorem acknowledged_lost : ∃ s s', (service three).Reach anyEvent (service three).init s ∧
      (service three).Reach anyEvent s s' ∧ s'.cluster.OneLeader ∧
      ⟨str "a", some ⟨1, 1, [7]⟩, .proposed 1⟩ ∈ s.answered ∧
      ¬ s.cluster.Elected 2 (str "c") ∧ s'.cluster.Elected 2 (str "c") ∧
      (s'.cluster.nodes (str "c")).state = .leader ∧
      (s'.cluster.nodes (str "c")).entryAt 1 = none := by
  let later : List ServiceEvent :=
    [.raft ⟨str "c", .timeout⟩, .raft ⟨str "c", .timeout⟩,
      .raft (requestVote (str "c") (str "b") 2 0 0),
      .raft (grantVote (str "b") (str "c") 2)]
  obtain ⟨s, s', hreach, hreach', ⟨hcall, hbefore⟩, hone, helected, hstate, hnone⟩ :=
    exists_reach_reach (A := service three) anyEvent (service three).init
      (fun s => (⟨str "a", some ⟨1, 1, [7]⟩, .proposed 1⟩ : Call) ∈ s.answered ∧
        ¬ s.cluster.Elected 2 (str "c"))
      (fun s' => s'.cluster.OneLeader ∧ s'.cluster.Elected 2 (str "c") ∧
        (s'.cluster.nodes (str "c")).state = .leader ∧ (s'.cluster.nodes (str "c")).entryAt 1 = none)
      proposes later (by decide +kernel)
  exact ⟨s, s', hreach, hreach', hone, hcall, hbefore, helected, hstate, hnone⟩

end Geryon.Cluster
