import Geryon.Raft.Election
import Geryon.Raft.Matching

/-!
# What the leader knows about its followers

A follower answers an `AppendEntries` with the index of the last entry of its
own log, which is more than the request has covered if an old leader's entries
are still there.  And the leader takes an answer of an earlier term like one of
its own.  In both cases `matchIndex` says more than the follower has.

If neither happens, `matchIndex` is right: as long as the follower stays in the
term, its log agrees with the leader's up to there.
-/

namespace Geryon.Raft

open Go Conc List Raft.Cluster IndexMap Node Automaton

/-! ## Two conditions -/

/-- A leader does not get a positive answer of an earlier term. -/
def freshAcks : Condition where
  holds n m :=
    match m.data with
    | .appendEntriesResponse resp =>
      !(resp.success && decide (n.state = .leader) && decide (resp.term < n.currentTerm))
    | _ => true
  checkTerm n m h := by
    by_cases hterm : n.currentTerm < m.term
    · rw [Node.checkTerm, if_pos hterm]
      cases m.data <;> simp [Node.becomeFollower]
    · rwa [Node.checkTerm, if_neg hterm]

/-- The log of the node goes on after the entries of the request, although it has
them all, and its last entry is not of the term of the request. -/
def Node.leftover (n : Node) (req : AppendEntries) : Bool :=
  decide (req.prevLogIndex + req.entries.length < n.lastLogIndex) &&
    decide (n.lastLogInfo.2 ≠ req.term) &&
    req.entries.all fun entry => n.hasLogEntry entry.index entry.term

/-- A node that accepts a request does not keep entries after it that the leader
may not have. -/
def noLeftover : Condition where
  holds n m :=
    match m.data with
    | .appendEntries req => !(n.accepts req && n.leftover req)
    | _ => true
  checkTerm n m h := by
    by_cases hterm : n.currentTerm < m.term
    · rw [Node.checkTerm, if_pos hterm]
      cases hdata : m.data with
      | appendEntries req =>
        simp only [hdata] at h
        cases hacc : (n.becomeFollower m.term).1.accepts req with
        | false => simp [hacc]
        | true =>
          have haccepts : n.accepts req = true := by
            simp only [Node.accepts, Bool.and_eq_true, decide_eq_true_iff] at hacc ⊢
            exact ⟨hterm.le.trans hacc.1, hacc.2⟩
          rw [haccepts, Bool.true_and] at h
          dsimp only
          rw [hacc, Bool.true_and]
          exact h
      | _ => rfl
    · rwa [Node.checkTerm, if_neg hterm]

variable {n : Node} {m : Message} {req : AppendEntries} {v : Str} {t k : Nat}

theorem term_of_freshAcks {resp : AppendEntriesResponse} (h : freshAcks.holds n m = true)
    (hdata : m.data = .appendEntriesResponse resp) (hsuccess : resp.success = true)
    (hstate : n.state = .leader) (hle : resp.term ≤ n.currentTerm) : resp.term = n.currentTerm := by
  simp only [freshAcks, hdata, hsuccess, hstate, decide_true, Bool.and_self, Bool.true_and,
    Bool.not_eq_true', decide_eq_false_iff_not, not_lt] at h
  exact le_antisymm hle h

variable {M : Members} {C : Condition} {c : Cluster} {i : Str} {r : Node × List Effect}

/-- Without leftovers the log of a node that has accepted a request is a part of
the leader's. -/
theorem Accepted.prefix_leader {L : Nat → List Entry} (h : Accepted n.logEntries (L req.term) req)
    (hn : Indexed n.logEntries) (hcoherent : Coherent Entry.term L n.logEntries)
    (hL : Coherent Entry.term L (L req.term)) (hno : n.leftover req = false) :
    overwrite Entry.term n.logEntries req.prevLogIndex req.entries <+: L req.term := by
  obtain ⟨heq, hall⟩ | ⟨heq, -⟩ := overwrite_cases hcoherent hL h.base h.le h.copies
  · -- All entries are there already.
    rw [heq]
    have hlen : ((L req.term).take (req.prevLogIndex + req.entries.length)).length =
        req.prevLogIndex + req.entries.length := by
      rw [h.take_eq, length_append, ← h.base, length_take, min_eq_left h.le]
    by_cases hshort : n.logEntries.length ≤ req.prevLogIndex + req.entries.length
    · rw [← hall.eq_of_length_le (by omega)]
      exact take_prefix _ _
    · have hhas : ∀ entry ∈ req.entries, n.hasLogEntry entry.index entry.term = true := by
        intro entry hentry
        refine any_eq_true.mpr ⟨entry, hall.subset ?_, by simp⟩
        rw [h.take_eq]
        exact mem_append_right _ hentry
      simp only [leftover, hn.lastLogIndex, all_eq_true.mpr hhas, Bool.and_true,
        Bool.and_eq_false_iff, decide_eq_false_iff_not, not_not, lastLogInfo_snd] at hno
      have hterm := hno.resolve_left (by omega)
      rw [← hterm]
      refine hcoherent.prefix_last ?_
      intro hnil
      rw [hnil] at hshort
      exact hshort (Nat.zero_le _)
  · rw [heq]
    exact take_prefix _ _

/-! ## The invariant -/

/-- A positive answer of `v` in term `t`, with index `k`. -/
def Cluster.Answered (c : Cluster) (v : Str) (t k : Nat) : Prop :=
  ∃ m, (v, Effect.send m) ∈ c.history ∧ m.term = t ∧
    m.data = .appendEntriesResponse ⟨t, true, k⟩

/-- The leader of `t` has entries up to `k`, and `v` has them as long as it stays
in the term. -/
structure Cluster.Holds (c : Cluster) (v : Str) (t k : Nat) : Prop where
  led : c.Led t
  le : k ≤ (c.leaderLog t).length
  shared : (c.nodes v).currentTerm = t → (c.leaderLog t).take k <+: (c.nodes v).logEntries

/-- The answers are right, and what the leaders have noted are answers. -/
structure Replication (M : Members) (c : Cluster) : Prop where
  answered : ∀ {v t k}, c.Answered v t k → c.Holds v t k
  keys : ∀ i ∈ M.ids, ((c.nodes i).matchIndex.map Prod.fst).Nodup
  peers : ∀ i ∈ M.ids, ∀ {p k}, (p, k) ∈ (c.nodes i).matchIndex → p ∈ M.peers i
  covered : ∀ i ∈ M.ids, (c.nodes i).state = .leader → ∀ p ∈ M.peers i,
    ∃ k, (p, k) ∈ (c.nodes i).matchIndex
  matched : ∀ i ∈ M.ids, (c.nodes i).state = .leader → ∀ {p k}, (p, k) ∈ (c.nodes i).matchIndex →
    k = 0 ∨ c.Answered p (c.nodes i).currentTerm k

theorem replication_init : Replication M (cluster M).init where
  answered h := by
    obtain ⟨m, hm, -⟩ := h
    cases hm
  keys _ _ := nodup_nil
  peers _ _ _ _ h := by cases h
  covered _ _ h := by cases h
  matched _ _ h := by cases h

theorem Cluster.Answered.act (h : c.Answered v t k) : (c.act i r).Answered v t k := by
  obtain ⟨m, hm, hrest⟩ := h
  exact ⟨m, mem_act_of_mem hm, hrest⟩

theorem Cluster.Holds.act (h : c.Holds v t k) (hsound : Sound M c) (hmatching : Matching M c)
    (hi : i ∈ M.ids) (hmove : Move C c i r) (hone : (c.act i r).OneLeader)
    (hle : t ≤ (c.nodes v).currentTerm) : (c.act i r).Holds v t k := by
  have hgrows := hmove.grows hsound hmatching hi hone h.led
  refine ⟨h.led.act, h.le.trans hgrows.length_le, ?_⟩
  obtain ⟨x, hx⟩ := hgrows
  rw [← hx, take_append_of_le_length h.le]
  by_cases hv : v = i
  · subst hv
    rw [act_nodes_self]
    intro hterm
    have hterm' : (c.nodes v).currentTerm = t := by
      have := (hmove.keeps hsound hi).term
      omega
    refine hmove.retains hsound hmatching hi (h.shared hterm') ?_
    intro _
    rw [hterm']
    exact take_prefix _ _
  · rw [act_nodes_ne _ _ hv]
    exact h.shared

def Effect.NoAnswer : Effect → Prop
  | .send m => ∀ t k, m.data ≠ .appendEntriesResponse ⟨t, true, k⟩
  | _ => True

section

variable (h : Replication M c) (hsound : Sound M c) (hmatching : Matching M c) (hi : i ∈ M.ids)
  (hmove : Move C c i r) (hone : (c.act i r).OneLeader)
include h hsound hmatching hi hmove hone

theorem Replication.act
    (hanswers : ∀ m t k, Effect.send m ∈ r.2 → m.data = .appendEntriesResponse ⟨t, true, k⟩ →
      (c.act i r).Holds i t k) (hkeys : (r.1.matchIndex.map Prod.fst).Nodup)
    (hpeers : ∀ {p k}, (p, k) ∈ r.1.matchIndex → p ∈ M.peers i)
    (hcovered : r.1.state = .leader → ∀ p ∈ M.peers i, ∃ k, (p, k) ∈ r.1.matchIndex)
    (hmatched : r.1.state = .leader → ∀ {p k}, (p, k) ∈ r.1.matchIndex →
      k = 0 ∨ (c.act i r).Answered p r.1.currentTerm k) : Replication M (c.act i r) where
  answered := by
    intro v t k hanswered
    obtain ⟨m, hm, rfl, hdata⟩ := hanswered
    obtain hold | ⟨rfl, hnew⟩ := mem_act_history.mp hm
    · exact (h.answered ⟨m, hold, rfl, hdata⟩).act hsound hmatching hi hmove hone (hsound.term hold)
    · exact hanswers m _ k hnew hdata
  keys j hj := by
    by_cases hji : j = i
    · rwa [hji, act_nodes_self]
    · rw [act_nodes_ne _ _ hji]
      exact h.keys j hj
  peers j hj := by
    by_cases hji : j = i
    · rw [hji, act_nodes_self]
      exact hpeers
    · rw [act_nodes_ne _ _ hji]
      exact h.peers j hj
  covered j hj := by
    by_cases hji : j = i
    · rw [hji, act_nodes_self]
      exact hcovered
    · rw [act_nodes_ne _ _ hji]
      exact h.covered j hj
  matched j hj := by
    by_cases hji : j = i
    · rw [hji, act_nodes_self]
      exact hmatched
    · rw [act_nodes_ne _ _ hji]
      intro hstate p k hp
      exact (h.matched j hj hstate hp).imp_right .act

theorem Replication.quiet
    (hno : ∀ e ∈ r.2, e.NoAnswer) (hsame : r.1.matchIndex = (c.nodes i).matchIndex)
    (hstate : r.1.state = .leader →
      (c.nodes i).state = .leader ∧ r.1.currentTerm = (c.nodes i).currentTerm) :
    Replication M (c.act i r) := by
  refine h.act hsound hmatching hi hmove hone ?_ ?_ ?_ ?_ ?_
  · intro m t k hm hdata
    exact absurd hdata (hno _ hm t k)
  · rw [hsame]
    exact h.keys i hi
  · rw [hsame]
    exact h.peers i hi
  · rw [hsame]
    intro hs
    exact h.covered i hi (hstate hs).1
  · rw [hsame]
    intro hs p k hp
    obtain ⟨hleader, hterm⟩ := hstate hs
    rw [hterm]
    exact (h.matched i hi hleader hp).imp_right .act

end

/-! ## Every move keeps the answers right -/

section

variable (h : Matching M c) (hsound : Sound M c) (hi : i ∈ M.ids) (hm : c.Delivers i m)
  (hdata : m.data = .appendEntries req) (hterm : req.term = (c.nodes i).currentTerm)
  (hprev : req.prevLogIndex = 0 ∨ (c.nodes i).hasLogEntry req.prevLogIndex req.prevLogTerm = true)
  (hno : noLeftover.holds (c.nodes i) m = true)
include h hsound hi hm hdata hterm hprev hno

/-- A node that has accepted a request shares its whole log with the leader. -/
theorem Matching.prefix_of_accept :
    ((c.nodes i).heard req.leaderID).logAfter req <+: c.leaderLog (c.nodes i).currentTerm := by
  have hacc := h.accepted hsound hi hm hdata hprev
  have haccepts : (c.nodes i).accepts req = true := by
    simp only [accepts, Bool.and_eq_true, Bool.or_eq_true, decide_eq_true_iff]
    exact ⟨hterm.ge, hprev⟩
  simp only [noLeftover, hdata, haccepts, Bool.true_and, Bool.not_eq_true'] at hno
  rw [hacc.logAfter (n := (c.nodes i).heard req.leaderID) (h.indexed i hi) (h.leaderIndexed _),
    ← hterm]
  exact hacc.prefix_leader (h.indexed i hi) (h.coherent i hi) (h.leaders.coherent _) hno

/-- A node that has taken the entries of a request has what it answers with. -/
theorem Matching.holds_of_accept
    (hstate : (((c.nodes i).heard req.leaderID).accept req).1.state ≠ .leader)
    (es : List Effect) :
    (c.act i ((((c.nodes i).heard req.leaderID).accept req).1, es)).Holds i (c.nodes i).currentTerm
      (((c.nodes i).heard req.leaderID).accept req).1.lastLogIndex := by
  have hled : c.Led (c.nodes i).currentTerm := ⟨_, (hm.elected hsound hdata hterm).2⟩
  have hpre := h.prefix_of_accept hsound hi hm hdata hterm hprev hno
  rw [← accept_log] at hpre
  have hsame : (c.act i ((((c.nodes i).heard req.leaderID).accept req).1, es)).leaderLog =
      c.leaderLog := if_neg hstate
  rw [Indexed.lastLogIndex ((h.leaderIndexed (c.nodes i).currentTerm).of_initial hpre)]
  refine ⟨hled.act, ?_, ?_⟩
  · rw [hsame]
    exact hpre.length_le
  · intro _
    rw [hsame, act_nodes_self, ← prefix_iff_eq_take.mp hpre]

end

/-- A success that is counted was answered in the term of the leader. -/
theorem answered_of_freshAcks (hacks : C.Implies freshAcks) (hsound : Sound M c) {m : Message}
    {resp : AppendEntriesResponse} (hm : c.Delivers i m)
    (hdata : m.data = .appendEntriesResponse resp) (hstate : (c.nodes i).state = .leader)
    (hsuccess : resp.success = true) (hle : resp.term ≤ (c.nodes i).currentTerm)
    (hfresh : C.holds (c.nodes i) m = true) :
    c.Answered m.sender (c.nodes i).currentTerm resp.index := by
  have hterm := term_of_freshAcks (hacks _ _ hfresh) hdata hsuccess hstate hle
  have hsent := hsound.data hm.2
  rw [hdata] at hsent
  refine ⟨m, hm.2, hsent.symm.trans hterm, ?_⟩
  rw [hdata, ← hterm, ← hsuccess]

theorem Move.replication (hacks : C.Implies freshAcks) (hleft : C.Implies noLeftover)
    (hsound : Sound M c) (hmatching : Matching M c) (h : Replication M c) (hi : i ∈ M.ids)
    (hmove : Move C c i r) (hone : (c.act i r).OneLeader) : Replication M (c.act i r) := by
  have hmove' := hmove
  cases hmove with
  | idle | tally | behind =>
    exact h.quiet hsound hmatching hi hmove' hone (by simp) rfl fun hs => ⟨hs, rfl⟩
  | follow hterm =>
    refine h.quiet hsound hmatching hi hmove' hone ?_ rfl ?_
    · simp [becomeFollower, Effect.NoAnswer]
    · intro hs
      cases hs
  | stand hstate =>
    refine h.quiet hsound hmatching hi hmove' hone ?_ rfl ?_
    · simp [becomeCandidate, sendMessage, Effect.NoAnswer]
    · intro hs
      cases hs
  | grant | deny =>
    exact h.quiet hsound hmatching hi hmove' hone (by simp [sendMessage, Effect.NoAnswer]) rfl
      fun hs => ⟨hs, rfl⟩
  | win hm hdata hstate hgranted hle hC hmajority =>
    have hpeers := hsound.peers i hi
    -- All peers are noted with 0, and there is nobody else.
    have hzero : ∀ {p k}, (p, k) ∈ (c.nodes i).peers.foldl (fun m peer => m.set peer 0)
        (c.nodes i).matchIndex → p ∈ M.peers i ∧ k = 0 := by
      intro p k hp
      obtain ⟨hmem, hk⟩ | ⟨hnot, hold⟩ := mem_foldl_set hp
      · exact ⟨hpeers ▸ hmem, hk⟩
      · exact absurd (h.peers i hi hold) (hpeers ▸ hnot)
    refine h.act hsound hmatching hi hmove' hone ?_ ?_ ?_ ?_ ?_
    · intro m' t k hm'
      simp [becomeLeader] at hm'
    · exact nodup_foldl_set (h.keys i hi) _ _
    · intro p k hp
      exact (hzero hp).1
    · intro _ p hp
      exact key_mem_foldl_set 0 (.inl (hpeers ▸ hp))
    · intro _ p k hp
      exact .inl (hzero hp).2
  | @accept m req hm hdata hterm hprev hC =>
    have hfollower := hm.not_leader hsound hi hone.of_act hdata hterm
    have hstate : (((c.nodes i).heard req.leaderID).accept req).1.state ≠ .leader := by
      rw [accept_fst]
      exact hfollower
    refine h.act hsound hmatching hi hmove' hone ?_ ?_ ?_ ?_ ?_
    · intro m' t k hm' hdata'
      obtain hm' | hm' := mem_append.mp hm'
      · obtain ⟨_, heq⟩ | heq := mem_accept_snd _ hm'
        · cases heq
        · cases heq
      · cases mem_singleton.mp hm'
        cases hdata'
        rw [accept_term]
        exact hmatching.holds_of_accept hsound hi hm hdata hterm hprev (hleft _ _ hC) hstate _
    · rw [accept_fst]
      exact h.keys i hi
    · rw [accept_fst]
      exact h.peers i hi
    · intro hs
      exact absurd hs hstate
    · intro hs
      exact absurd hs hstate
  | reject | refuse =>
    exact h.quiet hsound hmatching hi hmove' hone
      (by simp [answer, sendMessage, Effect.NoAnswer]) rfl fun hs => ⟨hs, rfl⟩
  | @acked m resp hm hdata hstate hsuccess hle hC =>
    have hanswered := answered_of_freshAcks hacks hsound hm hdata hstate hsuccess hle hC
    have hpeer : m.sender ∈ M.peers i :=
      M.complete i hi _ (hsound.known hm.2) (hm.sender_ne hsound).symm
    refine h.act hsound hmatching hi hmove' hone ?_ ?_ ?_ ?_ ?_
    · intro m' t k hm'
      cases mem_advanceCommitIndex_snd _ hm'
    · rw [advanceCommitIndex_fst]
      exact nodup_set (h.keys i hi) _ _
    · rw [advanceCommitIndex_fst]
      intro p k hp
      obtain ⟨rfl, -⟩ | ⟨-, hold⟩ := mem_set hp
      · exact hpeer
      · exact h.peers i hi hold
    · rw [advanceCommitIndex_fst]
      intro _ p hp
      exact key_mem_set _ (.inr (h.covered i hi hstate p hp))
    · rw [advanceCommitIndex_fst]
      intro _ p k hp
      obtain ⟨rfl, rfl⟩ | ⟨-, hold⟩ := mem_set hp
      · exact .inr hanswered.act
      · exact (h.matched i hi hstate hold).imp_right .act
  | @propose command walOk hstate =>
    rw [propose_of_leader _ hstate] at hmove' hone ⊢
    refine h.quiet hsound hmatching hi hmove' hone ?_ rfl fun hs => ⟨hs, rfl⟩
    cases walOk <;> simp [sendAppendEntriesToAll, sendMessage, Effect.NoAnswer]
  | heartbeat hstate =>
    rw [sendHeartbeats_of_leader _ hstate] at hmove' hone ⊢
    exact h.quiet hsound hmatching hi hmove' hone (by simp [sendMessage, Effect.NoAnswer]) rfl
      fun hs => ⟨hs, rfl⟩

theorem replication_of_reach (hacks : C.Implies freshAcks) (hleft : C.Implies noLeftover)
    (hreach : (cluster M).Reach C.events (cluster M).init c) (hone : c.OneLeader) :
    Sound M c ∧ Matching M c ∧ Replication M c :=
  invariant_of_oneLeader (P := fun c => Matching M c ∧ Replication M c) sound_init
    ⟨matching_init, replication_init⟩
    (fun hsound h hi hmove hone => ⟨hmove.matching hsound h.1 hi hone,
      hmove.replication hacks hleft hsound h.1 h.2 hi hone⟩) hreach hone

theorem Condition.and_implies_left (C D : Condition) : (C.and D).Implies C :=
  fun _ _ h => (Bool.and_eq_true_iff.mp h).1

theorem Condition.and_implies_right (C D : Condition) : (C.and D).Implies D :=
  fun _ _ h => (Bool.and_eq_true_iff.mp h).2

/-- Soundness of `matchIndex`: if no leader gets a positive answer of an earlier
term, and no node answers for entries that the leader may not have, then a node
of the leader's term agrees with the leader up to the index noted for it. -/
theorem matchIndex_sound (M : Members) {c : Cluster}
    (hreach : (cluster M).Reach (freshAcks.and noLeftover).events (cluster M).init c)
    (hone : c.OneLeader) : ∀ i ∈ M.ids, (c.nodes i).state = .leader → ∀ p ∈ M.ids,
      (c.nodes p).currentTerm = (c.nodes i).currentTerm →
        ∀ k, 1 ≤ k → k ≤ (c.nodes i).matchIndex.get p →
          (c.nodes p).entryAt k = (c.nodes i).entryAt k := by
  obtain ⟨-, hmatching, h⟩ := replication_of_reach (Condition.and_implies_left _ _)
    (Condition.and_implies_right _ _) hreach hone
  intro i hi hstate p hp hterm k hpos hk
  have hnoted := mem_of_get (m := (c.nodes i).matchIndex) (k := p) (by omega)
  obtain hzero | hanswered := h.matched i hi hstate hnoted
  · omega
  · have hholds := h.answered hanswered
    have hshared := hholds.shared hterm
    rw [hmatching.leader i hi hstate] at hshared
    refine (hmatching.indexed p hp).entryAt_eq (hmatching.indexed i hi) ?_
    obtain ⟨x, hx⟩ := hshared
    have hlen : ((c.nodes i).logEntries.take ((c.nodes i).matchIndex.get p)).length =
        (c.nodes i).matchIndex.get p := by
      have hle := hholds.le
      rw [hmatching.leader i hi hstate] at hle
      rw [length_take, min_eq_left hle]
    rw [← hx, take_append_of_le_length (by omega), take_take, min_eq_left hk]

theorem three_note :
    ∃ c, ((cluster three).Reach (freshAcks.and noLeftover).events (cluster three).init c ∧
      c.OneLeader ∧ (c.nodes (str "a")).state = .leader ∧
      (c.nodes (str "b")).currentTerm = (c.nodes (str "a")).currentTerm ∧
      1 ≤ (c.nodes (str "a")).matchIndex.get (str "b")) ∧
      (c.nodes (str "b")).entryAt 1 = (c.nodes (str "a")).entryAt 1 := by
  obtain ⟨c, hreach, hone, hstate, hterm, hnoted⟩ := exists_reach_of_follow
    (A := cluster three) (freshAcks.and noLeftover).events (cluster three).init
    (fun c => c.OneLeader ∧ (c.nodes (str "a")).state = .leader ∧
      (c.nodes (str "b")).currentTerm = (c.nodes (str "a")).currentTerm ∧
      1 ≤ (c.nodes (str "a")).matchIndex.get (str "b"))
    (sendsEntry ++ [hasEntry]) (by decide +kernel)
  exact ⟨c, ⟨hreach, hone, hstate, hterm, hnoted⟩,
    matchIndex_sound three hreach hone _ (by decide) hstate _ (by decide) hterm 1 le_rfl hnoted⟩

/-- `a` has an entry of term 1.  Then `c`, which does not have it, is elected by `b`,
which does not have it either, and sends a heartbeat to `a`. -/
def leavesEntry : List Event :=
  elect (str "a") (str "b") ++ [⟨str "a", .propose [7] true⟩,
    ⟨str "c", .timeout⟩, ⟨str "c", .timeout⟩, requestVote (str "c") (str "b") 2 0 0,
    grantVote (str "b") (str "c") 2, ⟨str "c", .heartbeat⟩,
    deliver (str "c") (str "a") 2 (.appendEntries ⟨2, str "c", 0, 0, [], 0⟩)]

/-- The answer to the heartbeat makes `c` believe that it has the entry too. -/
theorem three_note_leftover :
    ∃ c, (cluster three).Reach anyEvent (cluster three).init c ∧ c.OneLeader ∧
      (c.nodes (str "c")).state = .leader ∧
      (c.nodes (str "a")).currentTerm = (c.nodes (str "c")).currentTerm ∧
      (c.nodes (str "c")).matchIndex.get (str "a") = 1 ∧
      (c.nodes (str "a")).entryAt 1 = some ⟨1, 1, [7]⟩ ∧ (c.nodes (str "c")).entryAt 1 = none := by
  exact exists_reach_of_follow _ _ _
    (leavesEntry ++ [deliver (str "a") (str "c") 2 (.appendEntriesResponse ⟨2, true, 1⟩)])
    (by decide +kernel)

end Geryon.Raft
