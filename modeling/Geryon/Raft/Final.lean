import Geryon.Raft.Safety

/-!
# What is committed is final

Under the three conditions of `Raft.Safety`, for whole runs: a node keeps what it
has committed (`committed_final`), and every later leader has it
(`leader_complete`).  That no term has two leaders follows from the first
condition, and is not assumed.
-/

namespace Geryon.Raft

open Go Conc List Raft.Cluster Node Automaton Effect

variable {M : Members} {C : Condition} {c : Cluster} {i : Str} {r : Node × List Effect}

theorem consensus_of_orderly (hreach : (cluster M).Reach orderly.events (cluster M).init c) :
    c.OneLeader ∧ Sound M c ∧ Consensus M c := by
  have hone : c.OneLeader := fun _ _ _ ha hb =>
    (elections_of_reach orderly_freshVotes hreach).2.safe.unique ha hb
  obtain ⟨hsound, h, -⟩ := consensus_of_reach sound_init consensus_init hreach hone
  exact ⟨hone, hsound, h⟩

/-- `n'` is committed at least as far as `n`, and has what `n` has committed. -/
def Node.Retains (n n' : Node) : Prop :=
  n.commitIndex ≤ n'.commitIndex ∧ n.logEntries.take n.commitIndex <+: n'.logEntries

theorem Node.Retains.trans {n n' n'' : Node} (h : n.Retains n') (h' : n'.Retains n'') :
    n.Retains n'' := by
  refine ⟨h.1.trans h'.1, (prefix_take_iff.mpr ⟨h.2, ?_⟩).trans h'.2⟩
  exact (length_take_le _ _).trans h.1

/-- A node may cut its log off and then take the end of it for the commit index.
It never cuts off what it has committed. -/
theorem Taken.retained (h : Taken M C c i r) (hleft : C.Implies noLeftover) (hs : Safety M c) :
    (c.nodes i).Retains r.1 := by
  obtain hzero | ⟨t, n, hc, htu, hkn, hpre⟩ := hs.commits i h.mem
  · rw [Retains, hzero, take_zero]
    exact ⟨Nat.zero_le _, nil_prefix⟩
  have hlen := hkn.trans hc.length_le
  have hkeep : (c.leaderLog t).take (c.nodes i).commitIndex <+: r.1.logEntries := by
    refine h.retains hpre htu ?_ ?_
    · exact take_prefix _ _
    intro w hw htw _
    exact (take_prefix_take_left hkn).trans (hs.complete h.matching hc hw htw)
  rw [Retains, take_eq_of_initial hpre le_rfl hlen]
  refine ⟨?_, hkeep⟩
  have hle := hkeep.length_le
  rw [length_take, min_eq_left hlen] at hle
  cases h.move with
  | @accept m req hm hdata hterm hprev hC =>
    rw [accept_log] at hle
    by_cases hlt : (c.nodes i).commitIndex < req.leaderCommit
    · have hindexed := (h.matching.leaderIndexed _).of_initial
        (h.matching.prefix_of_accept h.sound h.mem hm hdata hterm hprev (hleft _ _ hC))
      rw [accept_commitIndex hindexed hlt]
      exact le_min hle hlt.le
    · rw [accept_fst]
      exact (if_neg hlt).ge
  | acked =>
    obtain heq | ⟨k, -, hlt, -, heq⟩ := advanceCommitIndex_cases _
    · rw [heq]
    · rw [heq]
      exact hlt.le
  | propose hstate =>
    rw [propose_of_leader _ hstate]
    exact le_rfl
  | heartbeat hstate => rw [sendHeartbeats_of_leader _ hstate]
  | _ => exact le_rfl

/-- `a` commits an entry in term 1, and `c` elects `b` in term 2. -/
theorem three_next_leader : ∃ c c', (cluster three).Reach orderly.events (cluster three).init c ∧
    (cluster three).Reach orderly.events c c' ∧
      ((c.nodes (str "a")).commitIndex = 1 ∧ (c.nodes (str "a")).currentTerm = 1) ∧
        (c'.nodes (str "b")).state = .leader ∧ (c'.nodes (str "b")).currentTerm = 2 :=
  exists_reach_reach orderly.events _ _ _ (sendsEntry ++ [hasEntry])
    [⟨str "b", .timeout⟩, requestVote (str "b") (str "c") 2 1 1, grantVote (str "c") (str "b") 2]
    (by decide +kernel)

/-- Under the three conditions no commit index ever goes back, and what a node
has committed stays in its log. -/
theorem committed_final (M : Members) {c c' : Cluster}
    (hreach : (cluster M).Reach orderly.events (cluster M).init c)
    (hlater : (cluster M).Reach orderly.events c c') :
    ∀ a ∈ M.ids, (c.nodes a).Retains (c'.nodes a) := by
  obtain ⟨-, hsound, h⟩ := consensus_of_orderly hreach
  refine (invariant_of_oneLeader (P := fun d => Consensus M d ∧
      ∀ a ∈ M.ids, (c.nodes a).Retains (d.nodes a))
    hsound ⟨h, fun a _ => ⟨le_rfl, take_prefix _ _⟩⟩ ?_ hlater
    (consensus_of_orderly (hreach.trans hlater)).1).2.2
  intro d i r hsound hd hi hmove hone
  have ht := hd.1.taken hsound hi hmove hone
  refine ⟨hd.1.act ht, ?_⟩
  intro a ha
  by_cases hai : a = i
  · subst hai
    rw [act_nodes_self]
    exact (hd.2 a ha).trans (ht.retained orderly_noLeftover hd.1.safety)
  · rw [act_nodes_ne _ _ hai]
    exact hd.2 a ha

theorem three_committed_final : ∃ c c', ((cluster three).Reach orderly.events (cluster three).init c ∧
      (cluster three).Reach orderly.events c c' ∧ (c.nodes (str "a")).commitIndex = 1) ∧
      (c.nodes (str "a")).Retains (c'.nodes (str "a")) := by
  obtain ⟨c, c', hreach, hlater, ⟨hcommit, -⟩, -⟩ := three_next_leader
  exact ⟨c, c', ⟨hreach, hlater, hcommit⟩, committed_final three hreach hlater _ (by decide)⟩

/-- Leader completeness: under the three conditions, whoever leads a term has in
its log everything that any node had committed before, in this term or an earlier
one. -/
theorem leader_complete (M : Members) {c c' : Cluster}
    (hreach : (cluster M).Reach orderly.events (cluster M).init c)
    (hlater : (cluster M).Reach orderly.events c c') :
    ∀ a ∈ M.ids, ∀ i ∈ M.ids, (c'.nodes i).state = .leader →
      (c.nodes a).currentTerm ≤ (c'.nodes i).currentTerm →
        (c.nodes a).logEntries.take (c.nodes a).commitIndex <+: (c'.nodes i).logEntries := by
  obtain ⟨-, hsound, h⟩ := consensus_of_orderly hreach
  obtain ⟨hsound', h', hlasts⟩ := consensus_of_reach hsound h hlater
    (consensus_of_orderly (hreach.trans hlater)).1
  intro a ha i hi hstate hterm
  obtain hzero | ⟨t, n, hc, htu, hkn, hpre⟩ := h.safety.commits a ha
  · rw [hzero, take_zero]
    exact nil_prefix
  · obtain ⟨hc', htake⟩ := hlasts hc
    have hinitial := h'.safety.committed_initial h'.matching hc' ⟨i, hsound'.led i hi hstate⟩
      (htu.trans hterm)
    rw [htake, h'.matching.leader i hi hstate] at hinitial
    rw [take_eq_of_initial hpre le_rfl (hkn.trans hc.length_le)]
    exact (take_prefix_take_left hkn).trans hinitial

theorem three_leader_complete : ∃ c c', ((cluster three).Reach orderly.events (cluster three).init c ∧
      (cluster three).Reach orderly.events c c' ∧ (c.nodes (str "a")).commitIndex = 1 ∧
      (c'.nodes (str "b")).state = .leader) ∧
      (c.nodes (str "a")).logEntries.take 1 <+: (c'.nodes (str "b")).logEntries := by
  obtain ⟨c, c', hreach, hlater, ⟨hcommit, hterm⟩, hstate, hterm'⟩ := three_next_leader
  refine ⟨c, c', ⟨hreach, hlater, hcommit, hstate⟩, ?_⟩
  rw [← hcommit]
  exact leader_complete three hreach hlater _ (by decide) _ (by decide) hstate (by omega)

end Geryon.Raft
