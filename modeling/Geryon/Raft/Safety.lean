import Geryon.Raft.Replication

/-!
# State machine safety

A leader commits an index if it finds it in the middle of its `matchIndex` and
has an entry of its own term there.  Three things go wrong in the code: votes of
an earlier term elect a leader that misses committed entries (`freshVotes`), and
answers of an earlier term (`freshAcks`) or for entries that the leader does not
have (`noLeftover`) make it commit too early.

If none of the three happens, committed entries are final.  The argument is the
usual one.  Whoever has acknowledged a piece of a leader's log keeps it as long
as all later leaders start with it (`Safety.kept`), so it still had it when it
voted (`Endorsed`), and so the next leader starts with it (`Conc.Leaders.complete`).
-/

namespace Geryon.Raft

open Go Conc List Raft.Cluster Node Automaton Effect

variable {M : Members} {C : Condition} {c : Cluster} {i : Str} {r : Node × List Effect}

/-! ## Logs of leaders -/

/-- What a leader does to its log while it stays the leader. -/
theorem Move.leader_log (hsound : Sound M c) (hi : i ∈ M.ids) (hmove : Move C c i r)
    (hone : c.OneLeader) (hstate : (c.nodes i).state = .leader) :
    r.1.logEntries = (c.nodes i).logEntries ∨ ∃ e, e.term = (c.nodes i).currentTerm ∧
      r.1.logEntries = (c.nodes i).logEntries ++ [e] := by
  cases hmove with
  | accept hm hdata hterm hprev hC =>
    exact absurd hstate (hm.not_leader hsound hi hone hdata hterm)
  | acked hm hdata hs hsuccess hle hC =>
    rw [advanceCommitIndex_fst]
    exact .inl rfl
  | propose hs =>
    rw [propose_of_leader _ hs]
    exact .inr ⟨_, rfl, rfl⟩
  | heartbeat hs =>
    rw [sendHeartbeats_of_leader _ hs]
    exact .inl rfl
  | _ => exact .inl rfl

/-- A move in a cluster without two leaders of one term. -/
structure Taken (M : Members) (C : Condition) (c : Cluster) (i : Str) (r : Node × List Effect) :
    Prop where
  sound : Sound M c
  matching : Matching M c
  replication : Replication M c
  answers : Replication M (c.act i r)
  mem : i ∈ M.ids
  move : Move C c i r
  one : (c.act i r).OneLeader

namespace Taken

theorem keeps (h : Taken M C c i r) : Keeps c i r := h.move.keeps h.sound h.mem

variable {t : Nat}

variable (h : Taken M C c i r)
include h

variable (ht : c.Led t)
include ht

theorem grows : c.leaderLog t <+: (c.act i r).leaderLog t :=
  h.move.grows h.sound h.matching h.mem h.one ht

theorem take_eq {k : Nat} (hk : k ≤ (c.leaderLog t).length) :
    ((c.act i r).leaderLog t).take k = (c.leaderLog t).take k := by
  obtain ⟨x, hx⟩ := h.grows ht
  rw [← hx, take_append_of_le_length hk]

/-- What a leader has inherited does not change. -/
theorem inherited_eq :
    inherited Entry.term (c.act i r).leaderLog t = inherited Entry.term c.leaderLog t := by
  by_cases hs : r.1.state = .leader
  · by_cases hterm : t = r.1.currentTerm
    · obtain ⟨j, hj⟩ := ht
      have hled := h.keeps.led hs
      rw [← hterm] at hled
      obtain rfl := h.one t j i (mem_act_of_mem hj) hled
      have heq : t = (c.nodes j).currentTerm := by
        have hle := (h.sound.elected_le hj).2
        have hle' := h.keeps.term
        omega
      have hleader := h.sound.elected_eq hj heq
      have hself := leaderLog_self (c := c) (i := j) hs
      rw [inherited, inherited, hterm, hself, ← hterm, heq, h.matching.leader j h.mem hleader]
      obtain hsame | ⟨e, he, hcat⟩ := h.move.leader_log h.sound h.mem h.one.of_act hleader
      · rw [hsame]
      · rw [hcat, takeWhile_append, takeWhile_cons_of_neg (by simp [he]), append_nil]
        split
        · rename_i hall
          refine (IsPrefix.eq_of_length ?_ hall).symm
          exact takeWhile_prefix _
        · rfl
    · rw [inherited, inherited, leaderLog_ne hs hterm]
  · rw [leaderLog_of_ne hs]

end Taken

/-! ## Acknowledgements -/

/-- `v` has acknowledged the log of the leader of `t` up to `k`, or is that
leader. -/
def Cluster.Acked (c : Cluster) (v : Str) (t k : Nat) : Prop :=
  (∃ j, k ≤ j ∧ c.Answered v t j) ∨ c.Elected t v ∧ k ≤ (c.leaderLog t).length

/-- The leaders between the terms `t` and `u` start with `x`. -/
def Cluster.Chain (c : Cluster) (t : Nat) (x : List Entry) (u : Nat) : Prop :=
  ∀ w, c.Led w → t < w → w < u → x <+: inherited Entry.term c.leaderLog w

variable {t k u : Nat} {m : Message}

variable {v d : Str} {req : AppendEntries} {n : Nat}

theorem Cluster.Acked.led (h : c.Acked v t k) (hr : Replication M c) :
    c.Led t ∧ k ≤ (c.leaderLog t).length := by
  obtain ⟨j, hkj, hj⟩ | ⟨helected, hle⟩ := h
  · exact ⟨(hr.answered hj).led, hkj.trans (hr.answered hj).le⟩
  · exact ⟨⟨v, helected⟩, hle⟩

theorem Cluster.Acked.term_le (h : c.Acked v t k) (hsound : Sound M c) :
    t ≤ (c.nodes v).currentTerm := by
  obtain ⟨j, -, m, hm, rfl, -⟩ | ⟨helected, -⟩ := h
  · exact hsound.term hm
  · exact (hsound.elected_le helected).2

namespace Taken

variable {v : Str}

variable (h : Taken M C c i r)
include h

theorem acked (hacked : c.Acked v t k) : (c.act i r).Acked v t k := by
  obtain ⟨j, hkj, hj⟩ | ⟨helected, hle⟩ := hacked
  · exact .inl ⟨j, hkj, hj.act⟩
  · exact .inr ⟨mem_act_of_mem helected, hle.trans (h.grows ⟨v, helected⟩).length_le⟩

/-- An acknowledgement is an earlier one, or the node gives it now and has what
it acknowledges. -/
theorem acked_cases (hacked : (c.act i r).Acked v t k) :
    c.Acked v t k ∨ v = i ∧ t = r.1.currentTerm ∧
      ((c.act i r).leaderLog t).take k <+: r.1.logEntries := by
  obtain ⟨j, hkj, m, hm, hterm, hdata⟩ | ⟨helected, hle⟩ := hacked
  · obtain hold | ⟨rfl, hnew⟩ := mem_act_history.mp hm
    · exact .inl (.inl ⟨j, hkj, m, hold, hterm, hdata⟩)
    · have ht : t = r.1.currentTerm := hterm ▸ (h.keeps.sends m hnew).2.2.1
      have hshared := (h.answers.answered ⟨m, hm, hterm, hdata⟩).shared
      rw [act_nodes_self] at hshared
      refine .inr ⟨rfl, ht, ?_⟩
      exact (take_prefix_take_left hkj).trans (hshared ht.symm)
  · by_cases hs : r.1.state = .leader ∧ t = r.1.currentTerm
    · obtain ⟨hs, ht⟩ := hs
      have hv := h.one t v i helected (ht ▸ h.keeps.led hs)
      refine .inr ⟨hv, ht, ?_⟩
      rw [ht, leaderLog_self hs]
      exact take_prefix _ _
    · have hsame : (c.act i r).leaderLog t = c.leaderLog t := by
        by_cases hs' : r.1.state = .leader
        · exact leaderLog_ne hs' fun ht => hs ⟨hs', ht⟩
        · rw [leaderLog_of_ne hs']
      rw [hsame] at hle
      obtain hold | ⟨rfl, hnew⟩ := elected_act.mp helected
      · exact .inl (.inr ⟨hold, hle⟩)
      · obtain ⟨-, ht, hs'⟩ := h.keeps.elected t hnew
        exact absurd ⟨hs', ht⟩ hs

theorem chain {u' : Nat} {x : List Entry}
    (hchain : (c.act i r).Chain t x u') (hu : u ≤ u') : c.Chain t x u := by
  intro w hw htw hwu
  rw [← h.inherited_eq hw]
  exact hchain w hw.act htw (hwu.trans_le hu)

end Taken

/-! ## The invariant -/

/-- `v` has voted in term `u` for a log that ends like `sl`.  Its own was not more up to
date, and had all that it had acknowledged, as long as the leaders in between had it. -/
structure Endorsed (c : Cluster) (v : Str) (u : Nat) (sl : List Entry) : Prop where
  le : u ≤ (c.nodes v).currentTerm
  log : ∃ lg, Coherent Entry.term c.leaderLog lg ∧ (∀ e ∈ lg, c.Led e.term) ∧
    UpToDate Entry.term sl lg ∧ ∀ t k, c.Acked v t k → t < u →
      c.Chain t ((c.leaderLog t).take k) u → (c.leaderLog t).take k <+: lg

/-- The candidacy of `d` in term `u`, with the log `sl`.  What it says about the
votes holds as long as the term has no leader. -/
structure Stand (c : Cluster) (d : Str) (u : Nat) (sl : List Entry) : Prop where
  requests : ∀ {m req}, (d, send m) ∈ c.history → m.data = .voteRequest req →
    m.term = u → req.lastLogIndex = sl.length ∧ req.lastLogTerm = lastTerm Entry.term sl
  standing : (c.nodes d).state = .candidate → (c.nodes d).currentTerm = u → ¬ c.Led u →
    (c.nodes d).logEntries = sl
  votes : ¬ c.Led u → ∀ {v}, c.Voted v u d → Endorsed c v u sl

/-- The leader of `t` has made the entry at `k`, and a majority has it. -/
structure Committed (M : Members) (c : Cluster) (t k : Nat) : Prop where
  led : c.Led t
  own : ∃ n e, k = n + 1 ∧ (c.leaderLog t)[n]? = some e ∧ e.term = t
  majority : Majority M.ids {v | c.Acked v t k}

/-- The log `l`, of somebody in term `u`, is committed up to `k`. -/
def Certified (M : Members) (c : Cluster) (u : Nat) (l : List Entry) (k : Nat) : Prop :=
  k = 0 ∨ ∃ t n, Committed M c t n ∧ t ≤ u ∧ k ≤ n ∧ (c.leaderLog t).take k <+: l

/-- The invariant of commitment. -/
structure Safety (M : Members) (c : Cluster) : Prop where
  kept : ∀ v ∈ M.ids, ∀ {t k}, c.Acked v t k →
    c.Chain t ((c.leaderLog t).take k) ((c.nodes v).currentTerm + 1) →
    (c.leaderLog t).take k <+: (c.nodes v).logEntries
  asked : ∀ {v u d}, c.Voted v u d → (d, became .candidate u) ∈ c.history
  stands : ∀ d ∈ M.ids, ∀ u, ∃ sl, Stand c d u sl
  quorum : ∀ {u d}, c.Elected u d →
    Majority M.ids {v | Endorsed c v u (inherited Entry.term c.leaderLog u)}
  commits : ∀ v ∈ M.ids, Certified M c (c.nodes v).currentTerm (c.nodes v).logEntries
    (c.nodes v).commitIndex
  announced : ∀ {j m req}, (j, send m) ∈ c.history → m.data = .appendEntries req →
    Certified M c m.term (c.leaderLog m.term) req.leaderCommit

theorem safety_init : Safety M (cluster M).init where
  kept v _ t k h := by
    obtain ⟨j, -, m, hm, -⟩ | ⟨helected, -⟩ := h
    · cases hm
    · cases helected
  asked h := by
    obtain ⟨m, hm, -⟩ | ⟨-, h⟩ := h
    · cases hm
    · cases h
  stands d _ u := by
    refine ⟨[], ?_, ?_, ?_⟩
    · intro m req hm
      cases hm
    · intro hs
      cases hs
    · intro _ v h
      obtain ⟨m, hm, -⟩ | ⟨-, h⟩ := h
      · cases hm
      · cases h
  quorum h := by cases h
  commits _ _ := .inl rfl
  announced h := by cases h

section

variable (h : Safety M c) (hm : Matching M c) (hcommitted : Committed M c t k) (hu : c.Led u)
include h hm hcommitted hu

/-- All later leaders start with what has been committed. -/
theorem Safety.complete (htu : t < u) :
    (c.leaderLog t).take k <+: inherited Entry.term c.leaderLog u := by
  obtain ⟨n, e, rfl, he, hterm⟩ := hcommitted.own
  refine hm.leaders.complete he hterm ?_ hu htu
  intro w hw htw hchain
  obtain ⟨d, hd⟩ := hw
  obtain ⟨v, -, hend, hacked⟩ := (h.quorum hd).inter hcommitted.majority
  obtain ⟨lg, hcoherent, -, hup, hall⟩ := hend.log
  exact ⟨lg, hcoherent, hall t _ hacked htw hchain, hup⟩

theorem Safety.committed_initial (htu : t ≤ u) : (c.leaderLog t).take k <+: c.leaderLog u := by
  obtain rfl | hlt := Nat.eq_or_lt_of_le htu
  · exact take_prefix _ _
  · exact (h.complete hm hcommitted hu hlt).trans (inherited_initial u)

end

/-! ## What every move keeps -/

theorem Committed.length_le (h : Committed M c t k) : k ≤ (c.leaderLog t).length := by
  obtain ⟨n, e, rfl, he, -⟩ := h.own
  exact (List.getElem?_eq_some_iff.mp he).1

namespace Taken

section

variable (h : Taken M C c i r)
include h

theorem committed (hc : Committed M c t k) : Committed M (c.act i r) t k where
  led := hc.led.act
  own := by
    obtain ⟨n, e, hk, he, hterm⟩ := hc.own
    exact ⟨n, e, hk, getElem?_of_initial (h.grows hc.led) he, hterm⟩
  majority := hc.majority.mono fun _ _ hv => h.acked hv

theorem certified {u u' k : Nat} {l l' : List Entry} (hc : Certified M c u l k) (hu : u ≤ u')
    (hl : ∀ {t n}, Committed M c t n → t ≤ u → k ≤ n → (c.leaderLog t).take k <+: l →
      (c.leaderLog t).take k <+: l') : Certified M (c.act i r) u' l' k := by
  obtain hzero | ⟨t, n, hcommitted, htu, hkn, hpre⟩ := hc
  · exact .inl hzero
  · refine .inr ⟨t, n, h.committed hcommitted, htu.trans hu, hkn, ?_⟩
    rw [h.take_eq hcommitted.led (hkn.trans hcommitted.length_le)]
    exact hl hcommitted htu hkn hpre

/-- What is shared with all leaders up to the term of the node stays in its
log. -/
theorem retains {x : List Entry} (hx : x <+: (c.nodes i).logEntries)
    (ht : t ≤ (c.nodes i).currentTerm) (hxt : x <+: c.leaderLog t)
    (hchain : c.Chain t x ((c.nodes i).currentTerm + 1)) : x <+: r.1.logEntries := by
  refine h.move.retains h.sound h.matching h.mem hx ?_
  intro hled
  obtain rfl | hlt := Nat.eq_or_lt_of_le ht
  · exact hxt
  · exact (hchain _ hled hlt (Nat.lt_succ_self _)).trans (inherited_initial _)

end

variable {v : Str} {sl : List Entry}

variable (h : Taken M C c i r)
include h

theorem kept (hs : Safety M c) {v : Str} (hv : v ∈ M.ids) {t k : Nat}
    (hacked : (c.act i r).Acked v t k)
    (hchain : (c.act i r).Chain t (((c.act i r).leaderLog t).take k)
      (((c.act i r).nodes v).currentTerm + 1)) :
    ((c.act i r).leaderLog t).take k <+: ((c.act i r).nodes v).logEntries := by
  obtain hold | ⟨rfl, -, hnew⟩ := h.acked_cases hacked
  · obtain ⟨hled, hle⟩ := hold.led h.replication
    rw [h.take_eq hled hle] at hchain ⊢
    by_cases hvi : v = i
    · subst hvi
      rw [act_nodes_self] at hchain ⊢
      have hchain' := h.chain hchain (Nat.succ_le_succ h.keeps.term)
      refine h.retains (hs.kept v hv hold hchain') (hold.term_le h.sound) ?_ hchain'
      exact take_prefix _ _
    · rw [act_nodes_ne _ _ hvi] at hchain ⊢
      exact hs.kept v hv hold (h.chain hchain le_rfl)
  · rwa [act_nodes_self]

theorem term_le (v : Str) : (c.nodes v).currentTerm ≤ ((c.act i r).nodes v).currentTerm := by
  by_cases hv : v = i
  · rw [hv, act_nodes_self]
    exact h.keeps.term
  · rw [act_nodes_ne _ _ hv]

theorem endorsed (hend : Endorsed c v u sl) : Endorsed (c.act i r) v u sl := by
  obtain ⟨hle, lg, hcoherent, hled, hup, hall⟩ := hend
  refine ⟨hle.trans (h.term_le v), lg, ?_, fun e he => (hled e he).act, hup, ?_⟩
  · exact hcoherent.mono fun e he => h.grows (hled e he)
  · intro t k hacked htu hchain
    obtain hold | ⟨rfl, rfl, -⟩ := h.acked_cases hacked
    · obtain ⟨hledt, hlek⟩ := hold.led h.replication
      rw [h.take_eq hledt hlek] at hchain ⊢
      exact hall t k hold htu (h.chain hchain le_rfl)
    · -- A new acknowledgement is of the node's term.
      have := h.keeps.term
      omega

/-- The log of the node in the term before the one that it votes in now. -/
theorem endorse (hs : Safety M c) (hu : r.1.currentTerm = u)
    (hup : UpToDate Entry.term sl (c.nodes i).logEntries)
    (hopen : ∀ w, c.Led w → w ≤ (c.nodes i).currentTerm → w < u) : Endorsed (c.act i r) i u sl := by
  refine ⟨by rw [act_nodes_self, hu], (c.nodes i).logEntries, ?_, ?_, hup, ?_⟩
  · exact (h.matching.coherent i h.mem).mono fun e he => h.grows (h.matching.known i h.mem e he).1
  · exact fun e he => (h.matching.known i h.mem e he).1.act
  · intro t k hacked htu hchain
    obtain hold | ⟨-, ht, -⟩ := h.acked_cases hacked
    · obtain ⟨hled, hle⟩ := hold.led h.replication
      rw [h.take_eq hled hle] at hchain ⊢
      refine hs.kept i h.mem hold ?_
      intro w hw htw hwn
      rw [← h.inherited_eq hw]
      exact hchain w hw.act htw (hopen w hw (Nat.lt_succ_iff.mp hwn))
    · omega

end Taken

/-! ## Candidacies -/

/-- The effect is neither a vote nor a request for votes. -/
def Effect.NoBallot : Effect → Prop
  | .became state _ => state ≠ .candidate
  | .send m => (∀ t, m.data ≠ .voteResponse ⟨t, true⟩) ∧ ∀ req, m.data ≠ .voteRequest req
  | _ => True

theorem Effect.NoBallot.noVote {e : Effect} (h : e.NoBallot) : e.NoVote := by
  cases e with
  | send m => exact h.1
  | became state t => exact h
  | _ => trivial

theorem Stand.act {d : Str} {u : Nat} {sl : List Entry} (hst : Stand c d u sl) (h : Taken M C c i r)
    (hrequests : ∀ m req, send m ∈ r.2 → m.data = .voteRequest req → d = i → m.term ≠ u)
    (hstanding : d = i → r.1.state = .candidate → r.1.currentTerm = u →
      ¬ (c.act i r).Led u → r.1.logEntries = sl)
    (hvotes : ¬ (c.act i r).Led u → (c.act i r).Voted i u d →
      c.Voted i u d ∨ Endorsed (c.act i r) i u sl) : Stand (c.act i r) d u sl where
  requests := by
    intro m req hm hdata hterm
    obtain hold | ⟨hd, hnew⟩ := mem_act_history.mp hm
    · exact hst.requests hold hdata hterm
    · exact absurd hterm (hrequests m req hnew hdata hd)
  standing := by
    by_cases hd : d = i
    · rw [hd, act_nodes_self]
      exact hstanding hd
    · rw [act_nodes_ne _ _ hd]
      intro hstate hterm hopen
      exact hst.standing hstate hterm fun hled => hopen hled.act
  votes := by
    intro hopen v hv
    have hopen' : ¬ c.Led u := fun hled => hopen hled.act
    by_cases hvi : v = i
    · subst hvi
      obtain hold | hnew := hvotes hopen hv
      · exact h.endorsed (hst.votes hopen' hold)
      · exact hnew
    · obtain hold | ⟨hvi', -⟩ := voted_act hv
      · exact h.endorsed (hst.votes hopen' hold)
      · exact absurd hvi' hvi

section

variable (h : Taken M C c i r)
include h

variable (hs : Safety M c)
include hs

theorem Taken.stands (hno : ∀ e ∈ r.2, e.NoBallot)
    (hcandidate : r.1.state = .candidate → (c.nodes i).state = .candidate ∧
      r.1.currentTerm = (c.nodes i).currentTerm ∧
      (r.1.logEntries = (c.nodes i).logEntries ∨ c.Led (c.nodes i).currentTerm)) {d : Str}
    (hd : d ∈ M.ids) (u : Nat) : ∃ sl, Stand (c.act i r) d u sl := by
  obtain ⟨sl, hst⟩ := hs.stands d hd u
  refine ⟨sl, hst.act h ?_ ?_ ?_⟩
  · intro m req hm hdata
    exact absurd hdata ((hno _ hm).2 req)
  · rintro rfl hstate rfl hopen
    obtain ⟨hstate', hterm, hlog | hled⟩ := hcandidate hstate
    · rw [hlog]
      exact hst.standing hstate' hterm.symm fun hled => hopen hled.act
    · exact absurd (hterm ▸ hled.act) hopen
  · intro _ hv
    exact .inl (voted_of_noVote (fun e he => (hno e he).noVote) hv)

theorem Taken.quorum (hd : c.Elected u d) : Majority M.ids
      {v | Endorsed (c.act i r) v u (inherited Entry.term (c.act i r).leaderLog u)} := by
  rw [h.inherited_eq ⟨d, hd⟩]
  exact (hs.quorum hd).mono fun v _ hv => h.endorsed hv

theorem Taken.commits (hcommit : r.1.commitIndex = (c.nodes i).commitIndex) :
    Certified M (c.act i r) r.1.currentTerm r.1.logEntries r.1.commitIndex := by
  rw [hcommit]
  refine h.certified (hs.commits i h.mem) h.keeps.term ?_
  intro t n hcommitted htu hkn hpre
  have htake : (c.leaderLog t).take (c.nodes i).commitIndex <+: (c.leaderLog t).take n :=
    take_prefix_take_left hkn
  refine h.retains hpre htu ?_ ?_
  · exact take_prefix _ _
  intro w hw htw _
  exact htake.trans (hs.complete h.matching hcommitted hw htw)

end

theorem Safety.act (hs : Safety M c) (h : Taken M C c i r)
    (hasked : ∀ {u d}, (c.act i r).Voted i u d →
      (d, became .candidate u) ∈ (c.act i r).history)
    (hstands : ∀ d ∈ M.ids, ∀ u, ∃ sl, Stand (c.act i r) d u sl)
    (hquorum : ∀ u, became .leader u ∈ r.2 → Majority M.ids
      {v | Endorsed (c.act i r) v u (inherited Entry.term (c.act i r).leaderLog u)})
    (hcommits : Certified M (c.act i r) r.1.currentTerm r.1.logEntries r.1.commitIndex)
    (hannounced : ∀ m req, send m ∈ r.2 → m.data = .appendEntries req →
      Certified M (c.act i r) m.term ((c.act i r).leaderLog m.term) req.leaderCommit) :
    Safety M (c.act i r) where
  kept v hv t k hacked hchain := h.kept hs hv hacked hchain
  asked := by
    intro v u d hv
    by_cases hvi : v = i
    · exact hasked (hvi ▸ hv)
    · obtain hold | ⟨hvi', -⟩ := voted_act hv
      · exact mem_act_of_mem (hs.asked hold)
      · exact absurd hvi' hvi
  stands := hstands
  quorum := by
    intro u d hd
    obtain hold | ⟨-, hnew⟩ := elected_act.mp hd
    · exact h.quorum hs hold
    · exact hquorum u hnew
  commits v hv := by
    by_cases hvi : v = i
    · rw [hvi, act_nodes_self]
      exact hcommits
    · rw [act_nodes_ne _ _ hvi]
      exact h.certified (hs.commits v hv) le_rfl fun _ _ _ hpre => hpre
  announced := by
    intro j m req hm hdata
    obtain hold | ⟨rfl, hnew⟩ := mem_act_history.mp hm
    · have hsent := h.sound.data hold
      rw [hdata] at hsent
      refine h.certified (hs.announced hold hdata) le_rfl ?_
      intro t n _ _ _ hpre
      exact hpre.trans (h.grows ⟨j, hsent.2.2⟩)
    · exact hannounced m req hnew hdata

theorem Safety.quiet (hs : Safety M c) (h : Taken M C c i r) (hno : ∀ e ∈ r.2, e.NoBallot)
    (hcandidate : r.1.state = .candidate → (c.nodes i).state = .candidate ∧
      r.1.currentTerm = (c.nodes i).currentTerm ∧
      (r.1.logEntries = (c.nodes i).logEntries ∨ c.Led (c.nodes i).currentTerm))
    (hwin : ∀ t, became .leader t ∉ r.2)
    (hcommits : Certified M (c.act i r) r.1.currentTerm r.1.logEntries r.1.commitIndex)
    (hannounced : ∀ m req, send m ∈ r.2 → m.data = .appendEntries req →
      Certified M (c.act i r) m.term ((c.act i r).leaderLog m.term) req.leaderCommit) :
    Safety M (c.act i r) := by
  refine hs.act h ?_ (fun d hd u => h.stands hs hno hcandidate hd u) ?_ hcommits hannounced
  · intro u d hv
    exact mem_act_of_mem (hs.asked (voted_of_noVote (fun e he => (hno e he).noVote) hv))
  · intro u hu
    exact absurd hu (hwin u)

/-! ## Standing, voting and winning -/

theorem upToDate_refl (l : List Entry) : UpToDate Entry.term l l := .inr ⟨rfl, le_rfl⟩

theorem Safety.stand (hs : Safety M c) (h : Taken M C c i (c.nodes i).becomeCandidate) :
    Safety M (c.act i (c.nodes i).becomeCandidate) := by
  have hindexed := h.matching.indexed i h.mem
  have hbecame : (i, became .candidate ((c.nodes i).currentTerm + 1)) ∈
      (c.act i (c.nodes i).becomeCandidate).history :=
    mem_act_history.mpr (.inr ⟨rfl, mem_cons_self⟩)
  have hsend : ∀ m, send m ∈ (c.nodes i).becomeCandidate.2 →
      m.term = (c.nodes i).currentTerm + 1 ∧
        m.data = .voteRequest (c.nodes i).standing.candidacy := by
    intro m hm
    obtain hm | hm := mem_cons.mp hm
    · cases hm
    · obtain ⟨peer, -, heq⟩ := mem_map.mp hm
      cases heq
      exact ⟨rfl, rfl⟩
  -- The only new vote is the one for itself.
  have hvoted : ∀ {v u d}, (c.act i (c.nodes i).becomeCandidate).Voted v u d →
      c.Voted v u d ∨ v = i ∧ d = i ∧ u = (c.nodes i).currentTerm + 1 := by
    intro v u d hv
    obtain hold | ⟨rfl, ⟨m, hm, hdata, -⟩ | ⟨rfl, hstood⟩⟩ := voted_act hv
    · exact .inl hold
    · rw [(hsend m hm).2] at hdata
      cases hdata
    · obtain heq | hmem := mem_cons.mp hstood
      · cases heq
        exact .inr ⟨rfl, rfl, rfl⟩
      · obtain ⟨peer, -, heq⟩ := mem_map.mp hmem
        cases heq
  refine hs.act h ?_ ?_ ?_ (h.commits hs rfl) ?_
  · intro u d hv
    obtain hold | ⟨-, rfl, rfl⟩ := hvoted hv
    · exact mem_act_of_mem (hs.asked hold)
    · exact hbecame
  · intro d hd u
    by_cases hnew : d = i ∧ u = (c.nodes i).currentTerm + 1
    · obtain ⟨rfl, rfl⟩ := hnew
      refine ⟨(c.nodes d).logEntries, ?_, fun _ _ _ => by rw [act_nodes_self]; rfl, ?_⟩
      · intro m req hm hdata hterm
        obtain hold | ⟨-, hm⟩ := mem_act_history.mp hm
        · have := h.sound.term hold
          omega
        · rw [(hsend m hm).2] at hdata
          cases hdata
          exact ⟨hindexed.lastLogIndex, lastLogInfo_snd (c.nodes d)⟩
      · intro _ v hv
        obtain hold | ⟨rfl, -, -⟩ := hvoted hv
        · have := (h.sound.stood_le (hs.asked hold)).2
          omega
        · exact h.endorse hs rfl (upToDate_refl _) fun w _ hw => Nat.lt_succ_of_le hw
    · obtain ⟨sl, hst⟩ := hs.stands d hd u
      refine ⟨sl, hst.act h ?_ ?_ ?_⟩
      · rintro m req hm - rfl hterm
        exact hnew ⟨rfl, hterm.symm.trans (hsend m hm).1⟩
      · rintro rfl - hterm -
        exact absurd ⟨rfl, hterm.symm⟩ hnew
      · intro _ hv
        obtain hold | ⟨-, hd', hu'⟩ := hvoted hv
        · exact .inl hold
        · exact absurd ⟨hd', hu'⟩ hnew
  · intro u hu
    obtain heq | hmem := mem_cons.mp hu
    · cases heq
    · obtain ⟨peer, -, heq⟩ := mem_map.mp hmem
      cases heq
  · intro m req hm hdata
    rw [(hsend m hm).2] at hdata
    cases hdata

variable {m : Message}

theorem Safety.grant (hs : Safety M c) {req : VoteRequest} (hm : c.Delivers i m)
    (hdata : m.data = .voteRequest req) (hterm : req.term = (c.nodes i).currentTerm)
    (hgrants : (c.nodes i).Grants req) (h : Taken M C c i r)
    (hr : r = ({ c.nodes i with votedFor := req.candidateID },
      [(c.nodes i).sendMessage m.sender (.voteResponse ⟨(c.nodes i).currentTerm, true⟩)])) :
    Safety M (c.act i r) := by
  have hsent := h.sound.data hm.2
  rw [hdata] at hsent
  obtain ⟨hreq, -, hstood⟩ := hsent
  have hmterm : m.term = (c.nodes i).currentTerm := hreq.symm.trans hterm
  have hvoted : ∀ {v u d}, (c.act i r).Voted v u d →
      c.Voted v u d ∨ v = i ∧ d = m.sender ∧ u = (c.nodes i).currentTerm := by
    intro v u d hv
    subst hr
    obtain hold | ⟨rfl, ⟨m', hm', hdata', hto⟩ | ⟨-, hst⟩⟩ := voted_act hv
    · exact .inl hold
    · cases mem_singleton.mp hm'
      cases hdata'
      exact .inr ⟨rfl, hto.symm, rfl⟩
    · cases mem_singleton.mp hst
  subst hr
  refine hs.act h ?_ ?_ (by simp [sendMessage]) (h.commits hs rfl) ?_
  · intro u d hv
    obtain hold | ⟨-, rfl, rfl⟩ := hvoted hv
    · exact mem_act_of_mem (hs.asked hold)
    · rw [← hmterm]
      exact mem_act_of_mem hstood
  · intro d hd u
    obtain ⟨sl, hst⟩ := hs.stands d hd u
    refine ⟨sl, hst.act h ?_ ?_ ?_⟩
    · intro m' req' hm' hdata'
      cases mem_singleton.mp hm'
      cases hdata'
    · rintro rfl hstate hu hopen
      exact hst.standing hstate hu fun hled => hopen hled.act
    · intro hopen hv
      obtain hold | ⟨-, rfl, rfl⟩ := hvoted hv
      · exact .inl hold
      · obtain ⟨hindex, hlast⟩ := hst.requests hm.2 hdata hmterm
        refine .inr (h.endorse hs rfl ?_ ?_)
        · obtain hless | ⟨hsame, hlen⟩ := hgrants.2.2
          · rw [lastLogInfo_snd, hlast] at hless
            exact .inl hless
          · rw [lastLogInfo_snd, hlast] at hsame
            rw [hindex] at hlen
            exact .inr ⟨hsame, (h.matching.indexed i h.mem).lastLogIndex ▸ hlen⟩
        · intro w hw hle
          refine lt_of_le_of_ne hle ?_
          rintro rfl
          exact hopen hw.act
  · intro m' req' hm' hdata'
    cases mem_singleton.mp hm'
    cases hdata'

/-- The voters of a new leader have endorsed the log that it starts with. -/
theorem Safety.win (hs : Safety M c) {votes : List Str} (hstate : (c.nodes i).state = .candidate)
    (hmajority : Majority M.ids {w | c.Voted w (c.nodes i).currentTerm i})
    (h : Taken M C c i (Node.becomeLeader { c.nodes i with votesReceived := votes })) :
    Safety M (c.act i (Node.becomeLeader { c.nodes i with votesReceived := votes })) := by
  have hopen : ¬ c.Led (c.nodes i).currentTerm := by
    intro hled
    obtain ⟨j, hj⟩ := hled
    obtain rfl := h.one _ j i (mem_act_of_mem hj) (h.keeps.led rfl)
    have := h.sound.elected_eq hj rfl
    rw [hstate] at this
    cases this
  obtain ⟨sl, hst⟩ := hs.stands i h.mem (c.nodes i).currentTerm
  have hlog := hst.standing hstate rfl hopen
  refine hs.act h ?_ ?_ ?_ (h.commits hs rfl) (by simp [becomeLeader])
  · intro u d hv
    exact mem_act_of_mem (hs.asked (voted_of_noVote (by simp [becomeLeader, Effect.NoVote]) hv))
  · intro d hd u
    refine h.stands hs ?_ ?_ hd u
    · simp [becomeLeader, Effect.NoBallot]
    · intro hs'
      cases hs'
  · intro u hu
    obtain ⟨-, rfl, -⟩ := h.keeps.elected u hu
    refine hmajority.mono ?_
    intro v _ hv
    have hinherited : inherited Entry.term
        (c.act i (becomeLeader { c.nodes i with votesReceived := votes })).leaderLog
        (c.nodes i).currentTerm = sl := by
      rw [inherited, ← hlog]
      have hself : (c.act i (becomeLeader
          { c.nodes i with votesReceived := votes })).leaderLog (c.nodes i).currentTerm =
          (c.nodes i).logEntries :=
        leaderLog_self rfl
      rw [hself]
      refine takeWhile_eq_self_iff.mpr ?_
      intro e he
      obtain ⟨hled, hle⟩ := h.matching.known i h.mem e he
      refine decide_eq_true (lt_of_le_of_ne hle ?_)
      intro heq
      exact hopen (heq ▸ hled)
    have hend := h.endorsed (hst.votes hopen hv)
    rw [← hinherited] at hend
    exact hend

/-! ## Committing -/

/-- The index in the middle of `matchIndex` has been acknowledged by a majority. -/
theorem Replication.majority (h : Replication M c) (hsound : Sound M c) (hi : i ∈ M.ids)
    (hstate : (c.nodes i).state = .leader) {k : Nat} (hpos : 0 < k)
    (hle : k ≤ (c.leaderLog (c.nodes i).currentTerm).length)
    (hmiddle : ((c.nodes i).matchIndices.insertionSort (· ≥ ·))[
      (c.nodes i).matchIndices.length / 2]? = some k) :
    Majority M.ids {v | c.Acked v (c.nodes i).currentTerm k} := by
  have hfew := half_lt_length_filter hmiddle
  have hacked : ∀ {p j}, (p, j) ∈ (c.nodes i).matchIndex → k ≤ j →
      p ∈ M.ids ∧ c.Acked p (c.nodes i).currentTerm k := by
    intro p j hp hkj
    obtain hzero | hanswered := h.matched i hi hstate hp
    · omega
    · refine ⟨?_, .inl ⟨j, hkj, hanswered⟩⟩
      obtain ⟨m, hm, -⟩ := hanswered
      exact hsound.known hm
  -- All nodes are in the map, or are the leader.
  have hall : M.ids.length ≤ (c.nodes i).matchIndex.length + 1 := by
    have hsub : M.ids ⊆ i :: (c.nodes i).matchIndex.map Prod.fst := by
      intro j hj
      by_cases hji : j = i
      · exact hji ▸ mem_cons_self
      · obtain ⟨v, hv⟩ := h.covered i hi hstate j (M.complete i hi j hj (Ne.symm hji))
        exact mem_cons_of_mem _ (mem_map.mpr ⟨_, hv, rfl⟩)
    have := (M.nodup.subperm hsub).length_le
    rwa [length_cons, length_map] at this
  refine ⟨i :: ((c.nodes i).matchIndex.filter fun p => decide (k ≤ p.2)).map Prod.fst,
    ?_, ?_, ?_, ?_⟩
  · refine nodup_cons.mpr ⟨?_, (h.keys i hi).sublist (filter_sublist.map _)⟩
    intro hmem
    obtain ⟨⟨p, j⟩, hp, rfl⟩ := mem_map.mp hmem
    exact M.others p hi (h.peers p hi (mem_filter.mp hp).1)
  · refine cons_subset.mpr ⟨hi, ?_⟩
    intro v hv
    obtain ⟨⟨p, j⟩, hp, rfl⟩ := mem_map.mp hv
    obtain ⟨hmem, hkj⟩ := mem_filter.mp hp
    exact (hacked hmem (of_decide_eq_true hkj)).1
  · intro v hv
    obtain rfl | hv := mem_cons.mp hv
    · exact .inr ⟨hsound.led v hi hstate, hle⟩
    · obtain ⟨⟨p, j⟩, hp, rfl⟩ := mem_map.mp hv
      obtain ⟨hmem, hkj⟩ := mem_filter.mp hp
      exact (hacked hmem (of_decide_eq_true hkj)).2
  · have hcount : ((c.nodes i).matchIndices.filter fun x => decide (k ≤ x)).length ≤
        ((c.nodes i).matchIndex.filter fun p => decide (k ≤ p.2)).length + 1 := by
      rw [matchIndices, filter_cons, filter_map, Function.comp_def]
      split
      · rw [length_cons, length_map]
      · rw [length_map]
        omega
    have hlen : (c.nodes i).matchIndices.length = (c.nodes i).matchIndex.length + 1 := by
      rw [matchIndices, length_cons, length_map]
    rw [length_cons, length_map]
    omega

/-- A leader commits what a majority has acknowledged. -/
theorem Safety.acked (hs : Safety M c) {n : Node} (hstate : (c.nodes i).state = .leader)
    (hn : n = { c.nodes i with matchIndex := n.matchIndex, nextIndex := n.nextIndex })
    (h : Taken M C c i n.advanceCommitIndex) : Safety M (c.act i n.advanceCommitIndex) := by
  have hsound := h.move.sound h.sound h.mem
  have hpos := (h.sound.elected_le (h.sound.led i h.mem hstate)).1
  have hstate' : n.state = .leader := hn ▸ hstate
  have hterm' : n.currentTerm = (c.nodes i).currentTerm := hn ▸ rfl
  have hlog' : n.logEntries = (c.nodes i).logEntries := hn ▸ rfl
  refine hs.quiet h ?_ ?_ ?_ ?_ ?_
  · intro e he
    rw [mem_advanceCommitIndex_snd _ he]
    simp [Effect.NoBallot]
  · rw [advanceCommitIndex_fst]
    intro hcandidate
    rw [hstate'] at hcandidate
    cases hcandidate
  · intro t ht
    cases mem_advanceCommitIndex_snd _ ht
  · obtain heq | ⟨k, hmiddle, hlt, hentry, heq⟩ := n.advanceCommitIndex_cases
    · refine h.commits hs ?_
      rw [heq, hn]
    · rw [heq] at h hsound ⊢
      have hindexed : Indexed n.logEntries := by
        rw [hlog']
        exact h.matching.indexed i h.mem
      have hleader : (c.act i ({ n with commitIndex := k }, [apply])).leaderLog
          n.currentTerm = n.logEntries :=
        leaderLog_self hstate'
      rw [hindexed.entryTerm (by omega)] at hentry
      obtain ⟨e, he, hown⟩ : ∃ e, n.logEntries[k - 1]? = some e ∧ e.term = n.currentTerm := by
        cases hget : n.logEntries[k - 1]? with
        | none =>
          rw [hget] at hentry
          have : 0 = n.currentTerm := hentry
          omega
        | some e =>
          rw [hget] at hentry
          exact ⟨e, rfl, hentry⟩
      have hlek : k ≤ ((c.act i ({ n with commitIndex := k }, [apply])).leaderLog
          n.currentTerm).length := by
        have := (List.getElem?_eq_some_iff.mp he).1
        rw [hleader]
        omega
      refine .inr ⟨n.currentTerm, k, ⟨?_, ?_, ?_⟩, le_rfl, le_rfl, ?_⟩
      · rw [hterm']
        exact ⟨i, mem_act_of_mem (h.sound.led i h.mem hstate)⟩
      · refine ⟨k - 1, e, by omega, ?_, hown⟩
        rw [hleader]
        exact he
      · have hmajority := h.answers.majority hsound h.mem
        rw [act_nodes_self] at hmajority
        exact hmajority hstate' (by omega) hlek hmiddle
      · rw [hleader]
        exact take_prefix _ _
  · intro m' req hm'
    cases mem_advanceCommitIndex_snd _ hm'

/-- A follower commits what the leader has announced. -/
theorem Safety.accept (hs : Safety M c) {req : AppendEntries}
    (hm : c.Delivers i m) (hdata : m.data = .appendEntries req)
    (hterm : req.term = (c.nodes i).currentTerm)
    (hpre : ((c.nodes i).heard req.leaderID).logAfter req <+: c.leaderLog (c.nodes i).currentTerm)
    (h : Taken M C c i r) (hr : r = ((((c.nodes i).heard req.leaderID).accept req).1,
      (((c.nodes i).heard req.leaderID).accept req).2 ++
        [(((c.nodes i).heard req.leaderID).accept req).1.answer m.sender true])) :
    Safety M (c.act i r) := by
  have hled : c.Led (c.nodes i).currentTerm := ⟨_, (hm.elected h.sound hdata hterm).2⟩
  have hsent := h.sound.data hm.2
  rw [hdata] at hsent
  have hannounced := hs.announced hm.2 hdata
  rw [← hsent.1, hterm] at hannounced
  have hno : ∀ e ∈ r.2, e.NoBallot ∧ e.NoRequest ∧ ∀ t, e ≠ .became .leader t := by
    intro e he
    rw [hr] at he
    obtain he | he := mem_append.mp he
    · obtain ⟨_, rfl⟩ | rfl := mem_accept_snd _ he
      · simp [Effect.NoBallot, Effect.NoRequest]
      · simp [Effect.NoBallot, Effect.NoRequest]
    · cases mem_singleton.mp he
      simp [answer, sendMessage, Effect.NoBallot, Effect.NoRequest]
  subst hr
  refine hs.quiet h (fun e he => (hno e he).1) ?_ (fun t ht => (hno _ ht).2.2 t rfl) ?_ ?_
  · rw [accept_fst]
    exact fun hstate => ⟨hstate, rfl, .inr hled⟩
  · by_cases hlt : (c.nodes i).commitIndex < req.leaderCommit
    · have hindexed : Indexed (((c.nodes i).heard req.leaderID).logAfter req) :=
        (h.matching.leaderIndexed _).of_initial hpre
      have hcommit := accept_commitIndex hindexed hlt
      rw [hcommit, accept_log, accept_term]
      obtain hzero | ⟨t, n, hcommitted, htu, hkn, hshared⟩ := hannounced
      · omega
      · refine .inr ⟨t, n, h.committed hcommitted, htu, (min_le_right _ _).trans hkn, ?_⟩
        have hlen := hcommitted.length_le
        rw [h.take_eq hcommitted.led (by omega)]
        -- Both are pieces of the leader's log, and the first is not longer.
        refine prefix_of_prefix_length_le
          ((take_prefix_take_left (min_le_right _ _)).trans hshared) hpre ?_
        rw [length_take]
        omega
    · refine h.commits hs ?_
      rw [accept_fst]
      exact if_neg hlt
  · intro m' req' hm' hdata'
    exact absurd hdata' ((hno _ hm').2.1 req')

/-- The leader announces what it has committed. -/
theorem Taken.announces (h : Taken M C c i r) (hs : Safety M c) {n : Node}
    {req : AppendEntries} {data : Str → Data} (hstate : (c.nodes i).state = .leader)
    (hterm : n.currentTerm = (c.nodes i).currentTerm)
    (hm : send m ∈ n.peers.map fun peer => n.sendMessage peer (data peer))
    (hcommit : ∀ peer req, data peer = .appendEntries req →
      req.leaderCommit = (c.nodes i).commitIndex) (hdata : m.data = .appendEntries req) :
    Certified M (c.act i r) m.term ((c.act i r).leaderLog m.term) req.leaderCommit := by
  obtain ⟨peer, -, heq⟩ := mem_map.mp hm
  cases heq
  rw [hcommit peer req hdata]
  rw [hterm]
  refine h.certified (hs.commits i h.mem) le_rfl ?_
  intro t n' _ _ _ hpre
  refine hpre.trans ?_
  rw [← h.matching.leader i h.mem hstate]
  exact h.grows ⟨i, h.sound.led i h.mem hstate⟩

theorem Taken.safety (h : Taken M C c i r) (hvotes : C.Implies freshVotes)
    (hleft : C.Implies noLeftover) (he : Elections M c) (hs : Safety M c) : Safety M (c.act i r) := by
  have hmove := h.move
  cases hmove with
  | idle | tally | behind =>
    exact hs.quiet h (by simp) (fun hc => ⟨hc, rfl, .inl rfl⟩) (by simp) (h.commits hs rfl)
      (by simp)
  | follow hterm =>
    refine hs.quiet h ?_ ?_ ?_ (h.commits hs rfl) (by simp [becomeFollower])
    · simp [becomeFollower, Effect.NoBallot]
    · intro hc
      cases hc
    · simp [becomeFollower]
  | stand hstate => exact hs.stand h
  | grant hm hdata hterm hgrants => exact hs.grant hm hdata hterm hgrants h rfl
  | deny hm hdata =>
    refine hs.quiet h ?_ (fun hc => ⟨hc, rfl, .inl rfl⟩) ?_ (h.commits hs rfl) ?_
    · simp [sendMessage, Effect.NoBallot]
    · simp [sendMessage]
    · intro m' req' hm' hdata'
      cases mem_singleton.mp hm'
      cases hdata'
  | win hm hdata hstate hgranted hle hC hmajority =>
    exact hs.win hstate (he.majority h.sound h.mem hstate (hm.sender_ne h.sound)
      (h.sound.known hm.2) (voted_of_freshVotes hvotes hm hdata hstate hgranted hle hC)
      hmajority) h
  | accept hm hdata hterm hprev hC =>
    exact hs.accept hm hdata hterm
      (h.matching.prefix_of_accept h.sound h.mem hm hdata hterm hprev (hleft _ _ hC)) h
      rfl
  | reject | refuse =>
    refine hs.quiet h ?_ (fun hc => ⟨hc, rfl, .inl rfl⟩) ?_ (h.commits hs rfl) ?_
    · simp [answer, sendMessage, Effect.NoBallot]
    · simp [answer, sendMessage]
    · intro m' req' hm' hdata'
      cases mem_singleton.mp hm'
      cases hdata'
  | acked hm hdata hstate hsuccess hle hC => exact hs.acked hstate rfl h
  | @propose command walOk hstate =>
    rw [propose_of_leader _ hstate] at h ⊢
    refine hs.quiet h ?_ ?_ ?_ (h.commits hs rfl) ?_
    · cases walOk <;> simp [sendAppendEntriesToAll, sendMessage, Effect.NoBallot]
    · intro hc
      have hc' : (c.nodes i).state = .candidate := hc
      rw [hstate] at hc'
      cases hc'
    · cases walOk <;> simp [sendAppendEntriesToAll, sendMessage]
    · intro m req hm hdata
      cases walOk with
      | false => simp at hm
      | true =>
        obtain hm | hm := mem_cons.mp hm
        · cases hm
        · refine h.announces hs hstate
            rfl hm ?_ hdata
          intro peer req' heq
          cases heq
          rfl
  | heartbeat hstate =>
    rw [sendHeartbeats_of_leader _ hstate] at h ⊢
    refine hs.quiet h ?_ (fun hc => ⟨hc, rfl, .inl rfl⟩) ?_ (h.commits hs rfl) ?_
    · simp [sendMessage, Effect.NoBallot]
    · simp [sendMessage]
    · intro m req hm hdata
      refine h.announces hs hstate rfl hm ?_ hdata
      intro peer req' heq
      cases heq
      rfl

/-! ## The result -/

structure Consensus (M : Members) (c : Cluster) : Prop where
  matching : Matching M c
  replication : Replication M c
  elections : Elections M c
  safety : Safety M c

theorem consensus_init : Consensus M (cluster M).init :=
  ⟨matching_init, replication_init, elections_init, safety_init⟩

/-- The three conditions. -/
def orderly : Condition := freshVotes.and (freshAcks.and noLeftover)

theorem orderly_freshVotes : orderly.Implies freshVotes := Condition.and_implies_left _ _

theorem orderly_freshAcks : orderly.Implies freshAcks := fun n m h =>
  Condition.and_implies_left _ _ n m (Condition.and_implies_right _ _ n m h)

theorem orderly_noLeftover : orderly.Implies noLeftover := fun n m h =>
  Condition.and_implies_right _ _ n m (Condition.and_implies_right _ _ n m h)

theorem Consensus.taken (h : Consensus M c) (hsound : Sound M c) (hi : i ∈ M.ids)
    (hmove : Move orderly c i r) (hone : (c.act i r).OneLeader) : Taken M orderly c i r where
  sound := hsound
  matching := h.matching
  replication := h.replication
  answers := hmove.replication orderly_freshAcks orderly_noLeftover hsound h.matching
    h.replication hi hone
  mem := hi
  move := hmove
  one := hone

theorem Consensus.act (h : Consensus M c) (ht : Taken M orderly c i r) :
    Consensus M (c.act i r) where
  matching := ht.move.matching ht.sound h.matching ht.mem ht.one
  replication := ht.answers
  elections := ht.move.elections orderly_freshVotes ht.sound h.elections ht.mem
  safety := ht.safety orderly_freshVotes orderly_noLeftover h.elections h.safety

/-- What is committed stays committed, and stays what it is. -/
def Lasts (M : Members) (c c' : Cluster) : Prop :=
  ∀ {t k}, Committed M c t k → Committed M c' t k ∧
    (c'.leaderLog t).take k = (c.leaderLog t).take k

theorem consensus_of_reach {c' : Cluster} (hsound : Sound M c) (h : Consensus M c)
    (hreach : (cluster M).Reach orderly.events c c') (hone : c'.OneLeader) :
    Sound M c' ∧ Consensus M c' ∧ Lasts M c c' := by
  refine invariant_of_oneLeader (P := fun c' => Consensus M c' ∧ Lasts M c c') hsound
    ⟨h, fun hc => ⟨hc, rfl⟩⟩ ?_ hreach hone
  intro d i r hsound hd hi hmove hone
  have ht := hd.1.taken hsound hi hmove hone
  refine ⟨hd.1.act ht, ?_⟩
  intro t k hc
  obtain ⟨hc', htake⟩ := hd.2 hc
  refine ⟨ht.committed hc', ?_⟩
  rw [ht.take_eq hc'.led hc'.length_le, htake]

theorem take_eq_of_initial {l m : List Entry} (h : l.take n <+: m) (hkn : k ≤ n)
    (hn : n ≤ l.length) : m.take k = l.take k := by
  obtain ⟨x, rfl⟩ := h
  rw [take_append_of_le_length (by rw [length_take]; omega), take_take, min_eq_left hkn]

/-- The committed part of a log is a piece of a leader's log. -/
theorem Safety.take_commit (hs : Safety M c) (hv : v ∈ M.ids) (hpos : 1 ≤ k)
    (hk : k ≤ (c.nodes v).commitIndex) : ∃ t n, Committed M c t n ∧ k ≤ n ∧
      (c.nodes v).logEntries.take k = (c.leaderLog t).take k := by
  obtain hzero | ⟨t, n, hc, -, hkn, hpre⟩ := hs.commits v hv
  · omega
  · exact ⟨t, n, hc, hk.trans hkn, take_eq_of_initial hpre hk (hkn.trans hc.length_le)⟩

/-- Committed pieces of two leaders' logs agree. -/
theorem Safety.committed_agree (hs : Safety M c) (hm : Matching M c) {t' n' : Nat}
    (hc : Committed M c t n) (hc' : Committed M c t' n') (hkn : k ≤ n) (hkn' : k ≤ n') :
    (c.leaderLog t).take k = (c.leaderLog t').take k := by
  obtain hle | hle := Nat.le_total t t'
  · exact (take_eq_of_initial (hs.committed_initial hm hc hc'.led hle) hkn hc.length_le).symm
  · exact take_eq_of_initial (hs.committed_initial hm hc' hc.led hle) hkn' hc'.length_le

/-- State machine safety: if every vote and every positive answer that is counted is of
the current term, and no node answers for entries that the leader may not have, then
what one node has committed and what another has committed later is the same. -/
theorem committed_entries_agree (M : Members) {c c' : Cluster}
    (hreach : (cluster M).Reach orderly.events (cluster M).init c)
    (hlater : (cluster M).Reach orderly.events c c') (hone : c'.OneLeader) :
    ∀ a ∈ M.ids, ∀ b ∈ M.ids, ∀ k, 1 ≤ k → k ≤ (c.nodes a).commitIndex →
      k ≤ (c'.nodes b).commitIndex →
        ∃ e, (c.nodes a).entryAt k = some e ∧ (c'.nodes b).entryAt k = some e := by
  have hone' : c.OneLeader := by
    have hmono := invariant (P := fun d => d.OneLeader → c.OneLeader) hlater
      id (by
        intro s e s' hs _ hnext hone
        simp only [cluster] at hnext
        split at hnext
        · cases hnext
          exact hs hone.of_act
        · cases hnext)
    exact hmono hone
  obtain ⟨hsound, h, -⟩ := consensus_of_reach sound_init consensus_init hreach hone'
  obtain ⟨-, h', hlasts⟩ := consensus_of_reach hsound h hlater hone
  intro a ha b hb k hpos hka hkb
  obtain ⟨t, n, hc, hkn, hlog⟩ := h.safety.take_commit ha hpos hka
  obtain ⟨t', n', hc', hkn', hlog'⟩ := h'.safety.take_commit hb hpos hkb
  obtain ⟨hcl, htake⟩ := hlasts hc
  have hagree := h'.safety.committed_agree h'.matching hcl hc' hkn hkn'
  have htake' : (c'.leaderLog t).take k = (c.leaderLog t).take k := by
    rw [← min_eq_left hkn, ← take_take, htake, take_take]
  have heq : (c.nodes a).logEntries.take k = (c'.nodes b).logEntries.take k := by
    rw [hlog, hlog', ← hagree, htake']
  have hia := h.matching.indexed a ha
  have hib := h'.matching.indexed b hb
  have hlen : k - 1 < (c.nodes a).logEntries.length := by
    have hlen := congrArg List.length hlog
    have hle := hc.length_le
    rw [length_take, length_take] at hlen
    omega
  refine ⟨(c.nodes a).logEntries[k - 1], ?_, ?_⟩
  · rw [hia.entryAt hpos, getElem?_eq_getElem hlen]
  · rw [← hia.entryAt_eq hib heq, hia.entryAt hpos, getElem?_eq_getElem hlen]

/-- `a` commits an entry, and its next heartbeat lets `b` commit it. -/
theorem three_commit : ∃ c c', ((cluster three).Reach orderly.events (cluster three).init c ∧
      (cluster three).Reach orderly.events c c' ∧ c'.OneLeader ∧
      (c.nodes (str "a")).commitIndex = 1 ∧ (c'.nodes (str "b")).commitIndex = 1) ∧
      ∃ e, (c.nodes (str "a")).entryAt 1 = some e ∧ (c'.nodes (str "b")).entryAt 1 = some e := by
  obtain ⟨c, c', hreach, hreach', hca, hone, hcb⟩ := exists_reach_reach
    (A := cluster three) orderly.events (cluster three).init
    (fun c => (c.nodes (str "a")).commitIndex = 1)
    (fun c' => c'.OneLeader ∧ (c'.nodes (str "b")).commitIndex = 1)
    (sendsEntry ++ [hasEntry])
    [⟨str "a", .heartbeat⟩,
      deliver (str "a") (str "b") 1 (.appendEntries ⟨1, str "a", 1, 1, [], 1⟩)]
    (by decide +kernel)
  exact ⟨c, c', ⟨hreach, hreach', hone, hca, hcb⟩,
    committed_entries_agree three hreach hreach' hone _ (by decide) _ (by decide) 1 le_rfl
      hca.ge hcb.ge⟩

/-- `a` answers the first heartbeat of `c` with the index of an entry that `c` does not
have.  Once `c` has an entry of its own there, it takes it for committed, and `a` can
still be elected and commit the other one. -/
theorem three_commit_leftover :
    ∃ c, (cluster three).Reach anyEvent (cluster three).init c ∧ c.OneLeader ∧
      1 ≤ (c.nodes (str "a")).commitIndex ∧ 1 ≤ (c.nodes (str "c")).commitIndex ∧
      (c.nodes (str "a")).entryAt 1 = some ⟨1, 1, [7]⟩ ∧
      (c.nodes (str "c")).entryAt 1 = some ⟨2, 1, [8]⟩ := by
  exact exists_reach_of_follow _ _ _
    (leavesEntry ++ [⟨str "c", .propose [8] true⟩,
      deliver (str "a") (str "c") 2 (.appendEntriesResponse ⟨2, true, 1⟩),
      -- `b` does not have the entry of `c`, so `a` is elected
      ⟨str "a", .timeout⟩, requestVote (str "a") (str "b") 3 1 1, grantVote (str "b") (str "a") 3,
      ⟨str "a", .propose [9] true⟩,
      deliver (str "a") (str "b") 3 (.appendEntries ⟨3, str "a", 1, 1, [⟨3, 2, [9]⟩], 0⟩),
      deliver (str "b") (str "a") 3 (.appendEntriesResponse ⟨3, false, 0⟩),
      ⟨str "a", .propose [10] true⟩,
      deliver (str "a") (str "b") 3
        (.appendEntries ⟨3, str "a", 0, 0, [⟨1, 1, [7]⟩, ⟨3, 2, [9]⟩, ⟨3, 3, [10]⟩], 0⟩),
      deliver (str "b") (str "a") 3 (.appendEntriesResponse ⟨3, true, 3⟩)])
    (by decide +kernel)

end Geryon.Raft
