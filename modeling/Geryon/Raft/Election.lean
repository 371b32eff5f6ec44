import Geryon.Conc.Election
import Geryon.Raft.Cluster

/-!
# Elections in a cluster

`handleVoteResponse` counts a granted vote without comparing the term of the
response with its own: it leaves the candidacy only if the response is of a
later term.  A vote of an earlier term that arrives late counts as well, and
then a term can have two leaders.

If no vote of an earlier term is counted, no term has two leaders: the cluster
is an election by majority, `Conc.Ballot`.  A node may change its vote within a
term, since `handleAppendEntries` overwrites `votedFor`, but only in favour of
a leader of that term.
-/

namespace Geryon.Raft

open Go Conc List Raft.Cluster Node Automaton Effect

/-! ## Votes of the term -/

/-- A candidate does not get a vote of an earlier term. -/
def freshVotes : Condition where
  holds n m :=
    match m.data with
    | .voteResponse resp =>
      !(resp.voteGranted && decide (n.state = .candidate) && decide (resp.term < n.currentTerm))
    | _ => true
  checkTerm n m h := by
    by_cases hterm : n.currentTerm < m.term
    · rw [Node.checkTerm, if_pos hterm]
      cases m.data <;> simp [Node.becomeFollower]
    · rwa [Node.checkTerm, if_neg hterm]

/-- One condition implies another. -/
def Condition.Implies (C D : Condition) : Prop :=
  ∀ n m, C.holds n m = true → D.holds n m = true

theorem term_of_freshVotes {n : Node} {m : Message} {resp : VoteResponse}
    (h : freshVotes.holds n m = true) (hdata : m.data = .voteResponse resp)
    (hgranted : resp.voteGranted = true) (hstate : n.state = .candidate)
    (hle : resp.term ≤ n.currentTerm) : resp.term = n.currentTerm := by
  simp only [freshVotes, hdata, hgranted, hstate, decide_true, Bool.and_self, Bool.true_and,
    Bool.not_eq_true', decide_eq_false_iff_not, not_lt] at h
  exact le_antisymm hle h

/-! ## The cluster as an election -/

def Node.vote (n : Node) : Option Str := if n.votedFor = [] then none else some n.votedFor

/-- `v` has granted its vote to `d` in term `t`, or was a candidate itself. -/
def Cluster.Voted (c : Cluster) (v : Str) (t : Nat) (d : Str) : Prop :=
  (∃ m, (v, send m) ∈ c.history ∧ m.data = .voteResponse ⟨t, true⟩ ∧ m.receiver = d) ∨
    d = v ∧ (v, became .candidate t) ∈ c.history

def Cluster.ballot (c : Cluster) : Ballot Str where
  term v := (c.nodes v).currentTerm
  vote v := (c.nodes v).vote
  cast := c.Voted
  elected := c.Elected

def Effect.NoVote : Effect → Prop
  | .became state _ => state ≠ .candidate
  | .send m => ∀ t, m.data ≠ .voteResponse ⟨t, true⟩
  | _ => True

variable {M : Members} {C : Condition} {c : Cluster} {i v d : Str} {t : Nat}
  {r : Node × List Effect}

theorem Cluster.Voted.act (h : c.Voted v t d) : (c.act i r).Voted v t d := by
  obtain ⟨m, hm, hdata⟩ | ⟨rfl, hstood⟩ := h
  · exact .inl ⟨m, mem_act_of_mem hm, hdata⟩
  · exact .inr ⟨rfl, mem_act_of_mem hstood⟩

theorem voted_act (h : (c.act i r).Voted v t d) :
    c.Voted v t d ∨ v = i ∧ ((∃ m, send m ∈ r.2 ∧ m.data = .voteResponse ⟨t, true⟩ ∧
      m.receiver = d) ∨ d = i ∧ became .candidate t ∈ r.2) := by
  obtain ⟨m, hm, hdata⟩ | ⟨rfl, hstood⟩ := h
  · obtain hold | ⟨rfl, hnew⟩ := mem_act_history.mp hm
    · exact .inl (.inl ⟨m, hold, hdata⟩)
    · exact .inr ⟨rfl, .inl ⟨m, hnew, hdata⟩⟩
  · obtain hold | ⟨rfl, hnew⟩ := mem_act_history.mp hstood
    · exact .inl (.inr ⟨rfl, hold⟩)
    · exact .inr ⟨rfl, .inr ⟨rfl, hnew⟩⟩

theorem voted_of_noVote (hno : ∀ e ∈ r.2, e.NoVote) (h : (c.act i r).Voted v t d) :
    c.Voted v t d := by
  obtain hold | ⟨-, ⟨m, hm, hdata, -⟩ | ⟨-, hstood⟩⟩ := voted_act h
  · exact hold
  · exact absurd hdata (hno _ hm t)
  · exact absurd rfl (hno _ hstood)

structure Elections (M : Members) (c : Cluster) : Prop where
  safe : c.ballot.Safe M.ids
  nodup : ∀ i ∈ M.ids, (c.nodes i).votesReceived.Nodup
  received : ∀ i ∈ M.ids, (c.nodes i).state = .candidate → ∀ v ∈ (c.nodes i).votesReceived,
    v ≠ i ∧ v ∈ M.ids ∧ c.Voted v (c.nodes i).currentTerm i

theorem elections_init : Elections M (cluster M).init where
  safe := by
    have hcast : ∀ {v t d}, ¬ (cluster M).init.Voted v t d := by
      intro v t d h
      obtain ⟨m, hm, -⟩ | ⟨-, h⟩ := h
      · cases hm
      · cases h
    have helected : ∀ {t d}, ¬ (cluster M).init.Elected t d := by
      intro t d h
      cases h
    exact ⟨fun h => absurd h hcast, fun h => absurd h hcast, fun _ h => absurd h hcast,
      fun _ h => absurd h hcast, fun h => absurd h helected, fun h => absurd h helected⟩
  nodup _ _ := nodup_nil
  received _ _ h := by cases h

theorem Elections.act (h : Elections M c) (hsafe : (c.act i r).ballot.Safe M.ids)
    (hnodup : r.1.votesReceived.Nodup)
    (hreceived : r.1.state = .candidate → ∀ v ∈ r.1.votesReceived,
      v ≠ i ∧ v ∈ M.ids ∧ (c.act i r).Voted v r.1.currentTerm i) : Elections M (c.act i r) where
  safe := hsafe
  nodup j hj := by
    by_cases hji : j = i
    · rwa [hji, act_nodes_self]
    · rw [act_nodes_ne _ _ hji]
      exact h.nodup j hj
  received j hj := by
    by_cases hji : j = i
    · rw [hji, act_nodes_self]
      exact hreceived
    · rw [act_nodes_ne _ _ hji]
      intro hstate v hv
      obtain ⟨hne, hmem, hvoted⟩ := h.received j hj hstate v hv
      exact ⟨hne, hmem, hvoted.act⟩

/-! ## Moves of one voter -/

/-- A step in which nobody wins changes the election at most by the move of one
voter. -/
theorem ballot_moves (hwin : ∀ t, became .leader t ∉ r.2)
    (hvotes : ∀ {t d}, (c.act i r).Voted i t d → c.Voted i t d ∨
      t = r.1.currentTerm ∧ r.1.vote = some d) (hkept : (c.nodes i).currentTerm < r.1.currentTerm ∨
      r.1.currentTerm = (c.nodes i).currentTerm ∧ ((c.nodes i).vote = none ∨
        r.1.vote = (c.nodes i).vote ∨
        ∃ d, r.1.vote = some d ∧ c.Elected (c.nodes i).currentTerm d)) :
    Ballot.Moves c.ballot (c.act i r).ballot i where
  term_ne u hu := by simp only [Cluster.ballot, act_nodes_ne _ _ hu]
  vote_ne u hu := by simp only [Cluster.ballot, act_nodes_ne _ _ hu]
  elected := by
    funext t d
    refine propext ⟨?_, mem_act_of_mem⟩
    intro h
    obtain hold | ⟨-, hnew⟩ := elected_act.mp h
    · exact hold
    · exact absurd hnew (hwin t)
  cast := by
    intro u t d h
    by_cases hu : u = i
    · subst hu
      obtain hold | hnew := hvotes h
      · exact .inl hold
      · refine .inr ⟨rfl, ?_⟩
        simp only [Cluster.ballot, act_nodes_self]
        exact hnew
    · obtain hold | ⟨hui, -⟩ := voted_act h
      · exact .inl hold
      · exact absurd hui hu
  kept := by
    simp only [Cluster.ballot, act_nodes_self]
    exact hkept

theorem Elections.quiet (h : Elections M c) (hi : i ∈ M.ids)
    (hterm : r.1.currentTerm = (c.nodes i).currentTerm) (hvote : r.1.vote = (c.nodes i).vote ∨
      ∃ d, r.1.vote = some d ∧ c.Elected (c.nodes i).currentTerm d)
    (hstate : r.1.state = (c.nodes i).state)
    (hreceived : r.1.votesReceived = (c.nodes i).votesReceived)
    (hwin : ∀ t, became .leader t ∉ r.2) (hno : ∀ e ∈ r.2, e.NoVote) :
    Elections M (c.act i r) := by
  refine h.act ?_ ?_ ?_
  · exact h.safe.move (ballot_moves hwin (fun hv => .inl (voted_of_noVote hno hv))
      (.inr ⟨hterm, .inr hvote⟩))
  · rw [hreceived]
    exact h.nodup i hi
  · rw [hstate, hreceived, hterm]
    intro hs v hv
    obtain ⟨hne, hmem, hvoted⟩ := h.received i hi hs v hv
    exact ⟨hne, hmem, hvoted.act⟩

/-! ## Winning -/

/-- With the peers' votes and its own, a candidate has a majority. -/
theorem Members.lt_of_majority (M : Members) (hi : i ∈ M.ids) {k : Nat}
    (h : ((M.peers i).length + 1) / 2 < k + 1) : M.ids.length < 2 * (k + 1) := by
  have hsub : M.ids ⊆ i :: M.peers i := by
    intro j hj
    by_cases hji : j = i
    · exact hji ▸ mem_cons_self
    · exact mem_cons_of_mem _ (M.complete i hi j hj (Ne.symm hji))
  have hlen := (M.nodup.subperm hsub).length_le
  rw [length_cons] at hlen
  omega

theorem noVote_mem_accept {n : Node} {req : AppendEntries} {sender : Str} {e : Effect}
    (h : e ∈ (n.accept req).2 ++ [(n.accept req).1.answer sender true]) :
    e.NoVote ∧ ∀ t, e ≠ .became .leader t := by
  obtain h | h := mem_append.mp h
  · obtain ⟨_, rfl⟩ | rfl := mem_accept_snd _ h
    · exact ⟨trivial, by simp⟩
    · exact ⟨trivial, by simp⟩
  · cases mem_singleton.mp h
    exact ⟨by simp [answer, sendMessage, Effect.NoVote], by
      simp [answer, sendMessage]⟩

theorem Sound.vote_of_elected (h : Sound M c) {n : Node} (helected : c.Elected t n.votedFor) :
    n.vote = some n.votedFor := by
  refine if_neg ?_
  intro hnil
  exact M.named (hnil ▸ h.known helected)

section

variable (h : Elections M c) (hsound : Sound M c) (hi : i ∈ M.ids)
include h hsound hi

theorem Elections.stand : Elections M (c.act i (c.nodes i).becomeCandidate) := by
  have hid : (c.nodes i).id ≠ [] := by
    intro hnil
    rw [hsound.id i hi] at hnil
    exact M.named (hnil ▸ hi)
  refine h.act (h.safe.move (ballot_moves ?_ ?_ (.inl (Nat.lt_succ_self _)))) nodup_nil ?_
  · simp [becomeCandidate, sendMessage]
  · intro t d hv
    obtain hold | ⟨-, ⟨m, hm, hdata, -⟩ | ⟨rfl, hstood⟩⟩ := voted_act hv
    · exact .inl hold
    · obtain hm | hm := mem_cons.mp hm
      · cases hm
      · obtain ⟨peer, -, heq⟩ := mem_map.mp hm
        cases heq
        cases hdata
    · obtain heq | hmem := mem_cons.mp hstood
      · cases heq
        have hvote : (c.nodes d).standing.vote = some d :=
          (if_neg hid).trans (congrArg some (hsound.id d hi))
        exact .inr ⟨rfl, hvote⟩
      · obtain ⟨peer, -, heq⟩ := mem_map.mp hmem
        cases heq
  · intro _ v hv
    cases hv

/-- A node that grants its vote had none in its term, or has the same again. -/
theorem Elections.grant {m : Message} {req : VoteRequest} (hm : c.Delivers i m)
    (hdata : m.data = .voteRequest req) (hgrants : (c.nodes i).Grants req) :
    Elections M (c.act i ({ c.nodes i with votedFor := req.candidateID },
      [(c.nodes i).sendMessage m.sender (.voteResponse ⟨(c.nodes i).currentTerm, true⟩)])) := by
  have hsent := hsound.data hm.2
  rw [hdata] at hsent
  have hcandidate : req.candidateID = m.sender := hsent.2.1
  have hnamed : req.candidateID ≠ [] := by
    rw [hcandidate]
    intro hnil
    exact M.named (hnil ▸ hsound.known hm.2)
  have hvote : ({ c.nodes i with votedFor := req.candidateID } : Node).vote =
      some req.candidateID := if_neg hnamed
  refine h.act (h.safe.move (ballot_moves ?_ ?_ (.inr ⟨rfl, ?_⟩))) (h.nodup i hi) ?_
  · simp [sendMessage]
  · intro t d hv
    obtain hold | ⟨-, ⟨m', hm', hdata', hto⟩ | ⟨-, hstood⟩⟩ := voted_act hv
    · exact .inl hold
    · cases mem_singleton.mp hm'
      cases hdata'
      refine .inr ⟨rfl, ?_⟩
      rw [hvote, hcandidate]
      exact congrArg some hto
    · cases mem_singleton.mp hstood
  · obtain hnone | hsame := hgrants.2.1
    · exact .inl (if_pos hnone)
    · right; left
      rw [hvote, ← hsame]
      exact (if_neg (hsame ▸ hnamed)).symm
  · intro hs v hv
    obtain ⟨hne, hmem, hvoted⟩ := h.received i hi hs v hv
    exact ⟨hne, hmem, hvoted.act⟩

/-! A candidate that wins: the last vote is that of `u`. -/

variable (hstate : (c.nodes i).state = .candidate) {u : Str} (hu : u ≠ i) (humem : u ∈ M.ids)
  (hvoted : c.Voted u (c.nodes i).currentTerm i)
  (hmajority : ((c.nodes i).peers.length + 1) / 2 <
    ((c.nodes i).votesReceived.insert u).length + 1)
include hstate hu humem hvoted hmajority

theorem Elections.majority : Majority M.ids {w | c.Voted w (c.nodes i).currentTerm i} := by
  have hvoters : ∀ w ∈ (c.nodes i).votesReceived.insert u,
      w ≠ i ∧ w ∈ M.ids ∧ c.Voted w (c.nodes i).currentTerm i := by
    intro w hw
    obtain rfl | hw := mem_insert_iff.mp hw
    · exact ⟨hu, humem, hvoted⟩
    · exact h.received i hi hstate w hw
  refine ⟨i :: (c.nodes i).votesReceived.insert u, ?_, ?_, ?_, ?_⟩
  · refine nodup_cons.mpr ⟨fun hmem => (hvoters i hmem).1 rfl, ?_⟩
    exact (h.nodup i hi).insert
  · exact cons_subset.mpr ⟨hi, fun w hw => (hvoters w hw).2.1⟩
  · intro w hw
    obtain rfl | hw := mem_cons.mp hw
    · exact .inr ⟨rfl, hsound.stood w hi hstate⟩
    · exact (hvoters w hw).2.2
  · rw [hsound.peers i hi] at hmajority
    exact M.lt_of_majority hi hmajority

theorem Elections.win : Elections M (c.act i (Node.becomeLeader
    { c.nodes i with votesReceived := (c.nodes i).votesReceived.insert u })) := by
  have hvotes := h.majority hsound hi hstate hu humem hvoted hmajority
  refine h.act (h.safe.elect ⟨?_, ?_, ?_, ?_, ?_, hvotes⟩) (h.nodup i hi).insert ?_
  iterate 2
    · funext v
      by_cases hv : v = i
      · simp only [Cluster.ballot, hv, act_nodes_self]
        rfl
      · simp only [Cluster.ballot, act_nodes_ne _ _ hv]
  · funext v t d
    refine propext ⟨voted_of_noVote ?_, .act⟩
    simp [becomeLeader, Effect.NoVote]
  · intro t d
    refine elected_act.trans (or_congr_right ?_)
    simp only [becomeLeader, mem_singleton, became.injEq, true_and]
    exact and_comm
  · intro helected
    have := hsound.elected_eq helected rfl
    rw [hstate] at this
    cases this
  · intro hs
    cases hs

end

/-- A vote that is counted was given in the term of the candidate. -/
theorem voted_of_freshVotes (hC : C.Implies freshVotes) {m : Message} {resp : VoteResponse}
    (hm : c.Delivers i m) (hdata : m.data = .voteResponse resp)
    (hstate : (c.nodes i).state = .candidate) (hgranted : resp.voteGranted = true)
    (hle : resp.term ≤ (c.nodes i).currentTerm) (hfresh : C.holds (c.nodes i) m = true) :
    c.Voted m.sender (c.nodes i).currentTerm i := by
  have hterm := term_of_freshVotes (hC _ _ hfresh) hdata hgranted hstate hle
  refine .inl ⟨m, hm.2, ?_, hm.1⟩
  rw [hdata, ← hterm, ← hgranted]

theorem Move.elections (hC : C.Implies freshVotes) (hsound : Sound M c) (h : Elections M c)
    (hi : i ∈ M.ids) (hmove : Move C c i r) : Elections M (c.act i r) := by
  cases hmove with
  | idle | behind => exact h.quiet hi rfl (.inl rfl) rfl rfl (by simp) (by simp)
  | @follow t hterm =>
    refine h.act (h.safe.move (ballot_moves ?_ ?_ (.inl hterm))) nodup_nil ?_
    · simp [becomeFollower]
    · intro t d hv
      exact .inl (voted_of_noVote (by simp [becomeFollower, Effect.NoVote]) hv)
    · intro hs
      cases hs
  | stand hstate => exact h.stand hsound hi
  | grant hm hdata hterm hgrants => exact h.grant hsound hi hm hdata hgrants
  | deny hm hdata =>
    exact h.quiet hi rfl (.inl rfl) rfl rfl (by simp [sendMessage])
      (by simp [sendMessage, Effect.NoVote])
  | tally hm hdata hstate hgranted hle hfresh =>
    refine h.act (h.safe.move (ballot_moves (by simp) ?_ (.inr ⟨rfl, .inr (.inl rfl)⟩)))
      (h.nodup i hi).insert ?_
    · intro t d hv
      exact .inl (voted_of_noVote (by simp) hv)
    · intro _ v hv
      obtain rfl | hv := mem_insert_iff.mp hv
      · exact ⟨hm.sender_ne hsound, hsound.known hm.2,
          (voted_of_freshVotes hC hm hdata hstate hgranted hle hfresh).act⟩
      · obtain ⟨hne, hmem, hvoted⟩ := h.received i hi hstate v hv
        exact ⟨hne, hmem, hvoted.act⟩
  | win hm hdata hstate hgranted hle hfresh hmajority =>
    exact h.win hsound hi hstate (hm.sender_ne hsound) (hsound.known hm.2)
      (voted_of_freshVotes hC hm hdata hstate hgranted hle hfresh) hmajority
  | @accept m req hm hdata hterm hprev hfresh =>
    have helected := (hm.elected hsound hdata hterm).2
    have hvote := hsound.vote_of_elected (n := (c.nodes i).heard req.leaderID) helected
    refine h.quiet hi ?_ (.inr ⟨req.leaderID, ?_, helected⟩) ?_ ?_
      (fun t ht => (noVote_mem_accept ht).2 t rfl) fun e he => (noVote_mem_accept he).1
    all_goals rw [accept_fst]
    exacts [rfl, hvote, rfl, rfl]
  | @reject m req hm hdata hterm =>
    have helected := (hm.elected hsound hdata hterm).2
    refine h.quiet hi rfl (.inr ⟨req.leaderID, ?_, helected⟩) rfl rfl ?_ ?_
    · exact hsound.vote_of_elected helected
    · simp [answer, sendMessage]
    · simp [answer, sendMessage, Effect.NoVote]
  | refuse hm hdata =>
    exact h.quiet hi rfl (.inl rfl) rfl rfl (by simp [answer, sendMessage])
      (by simp [answer, sendMessage, Effect.NoVote])
  | acked hm hdata hstate hsuccess hle hfresh =>
    obtain heq | ⟨k, -, -, -, heq⟩ := advanceCommitIndex_cases
      { c.nodes i with
        matchIndex := (c.nodes i).matchIndex.set _ _
        nextIndex := (c.nodes i).nextIndex.set _ _ }
    all_goals
      rw [heq]
      exact h.quiet hi rfl (.inl rfl) rfl rfl (by simp) (by simp [Effect.NoVote])
  | @propose command walOk hstate =>
    rw [propose_of_leader _ hstate]
    refine h.quiet hi rfl (.inl rfl) rfl rfl ?_ ?_
    · cases walOk <;> simp [sendAppendEntriesToAll, sendMessage]
    · cases walOk <;> simp [sendAppendEntriesToAll, sendMessage, Effect.NoVote]
  | heartbeat hstate =>
    rw [sendHeartbeats_of_leader _ hstate]
    exact h.quiet hi rfl (.inl rfl) rfl rfl (by simp [sendMessage])
      (by simp [sendMessage, Effect.NoVote])

theorem elections_of_reach (hC : C.Implies freshVotes)
    (hreach : (cluster M).Reach C.events (cluster M).init c) : Sound M c ∧ Elections M c :=
  invariant_of_moves sound_init elections_init
    (fun hsound h hi hmove => hmove.elections hC hsound h hi) hreach

/-- Election safety: if no candidate counts a vote of an earlier term, no term
has two leaders. -/
theorem oneLeader_of_freshVotes (M : Members) {c : Cluster}
    (hreach : (cluster M).Reach freshVotes.events (cluster M).init c) : c.OneLeader :=
  fun _ _ _ ha hb => (elections_of_reach (fun _ _ h => h) hreach).2.safe.unique ha hb

theorem three_elects : ∃ c, ((cluster three).Reach freshVotes.events (cluster three).init c ∧
      c.Elected 1 (str "a")) ∧ c.OneLeader := by
  obtain ⟨c, hreach, helected⟩ := exists_reach_of_follow (A := cluster three)
    freshVotes.events (cluster three).init (fun c => c.Elected 1 (str "a"))
    (elect (str "a") (str "b"))
    (by decide +kernel)
  exact ⟨c, ⟨hreach, helected⟩, oneLeader_of_freshVotes three hreach⟩

/-- `b` votes for `a` in term 1 and for `c` in term 2.  The first vote arrives
when `a` is a candidate of term 2 as well. -/
theorem three_elects_two :
    ∃ c, (cluster three).Reach anyEvent (cluster three).init c ∧ ¬ c.OneLeader := by
  obtain ⟨c, hreach, helected⟩ := exists_reach_of_follow (A := cluster three)
    anyEvent (cluster three).init
    (fun c => c.Elected 2 (str "a") ∧ c.Elected 2 (str "c"))
    [⟨str "a", .timeout⟩, requestVote (str "a") (str "b") 1 0 0, ⟨str "a", .timeout⟩,
      ⟨str "c", .timeout⟩, ⟨str "c", .timeout⟩, requestVote (str "c") (str "b") 2 0 0,
      grantVote (str "b") (str "c") 2, grantVote (str "b") (str "a") 1]
    (by decide +kernel)
  refine ⟨c, hreach, ?_⟩
  intro hone
  obtain ⟨ha, hc⟩ := helected
  exact absurd (hone 2 _ _ ha hc) (by decide)

end Geryon.Raft
