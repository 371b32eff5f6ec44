import Geryon.Raft.Cluster
import Geryon.Raft.Log

/-!
# Log matching

As long as no term has two leaders, all logs of a cluster follow the leaders:
they are coherent with `Cluster.leaderLog`.  An `AppendEntries` of term `t`
copies a piece of the log of the leader of `t`, whenever it was sent and
whenever it arrives.  An exception is a request whose previous index lies beyond
the log: it asks for an entry of term 0, which no log has.
-/

namespace Geryon.Raft

open Go Conc List Raft.Cluster Node Automaton IndexedFrom Effect Function

/-! ## The invariant -/

/-- Somebody has led the term. -/
def Cluster.Led (c : Cluster) (t : Nat) : Prop := ∃ i, c.Elected t i

/-- The request copies a piece of the log, or asks for a previous entry that no
log has. -/
def AppendEntries.Copies (req : AppendEntries) (l : List Entry) : Prop :=
  req.prevLogIndex ≠ 0 ∧ req.prevLogTerm = 0 ∨
    req.prevLogIndex ≤ l.length ∧ l.take req.prevLogIndex ++ req.entries <+: l ∧
      (req.prevLogIndex ≠ 0 →
        ∃ e, l[req.prevLogIndex - 1]? = some e ∧ e.term = req.prevLogTerm)

/-- All logs and all requests follow the leaders. -/
structure Matching (M : Members) (c : Cluster) : Prop where
  indexed : ∀ i ∈ M.ids, Indexed (c.nodes i).logEntries
  coherent : ∀ i ∈ M.ids, Coherent Entry.term c.leaderLog (c.nodes i).logEntries
  known : ∀ i ∈ M.ids, ∀ e ∈ (c.nodes i).logEntries,
    c.Led e.term ∧ e.term ≤ (c.nodes i).currentTerm
  leaders : Leaders Entry.term c.leaderLog c.Led
  leaderIndexed : ∀ t, Indexed (c.leaderLog t)
  leader : ∀ i ∈ M.ids, (c.nodes i).state = .leader →
    c.leaderLog (c.nodes i).currentTerm = (c.nodes i).logEntries
  next : ∀ i ∈ M.ids, (c.nodes i).state = .leader →
    ∀ p ∈ M.peers i, 0 < (c.nodes i).nextIndex.get p
  requests : ∀ {i m req}, (i, send m) ∈ c.history → m.data = .appendEntries req →
    req.Copies (c.leaderLog m.term)

variable {M : Members} {C : Condition} {c : Cluster} {i : Str} {r : Node × List Effect}

theorem matching_init : Matching M (cluster M).init where
  indexed _ _ := by
    intro k e he
    simp [cluster, newNode] at he
  coherent _ _ := coherent_nil
  known _ _ e he := by cases he
  leaders := {
    coherent := fun _ => coherent_nil
    elected := by
      intro t e he
      cases he
    own := by
      intro t e he
      cases he }
  leaderIndexed _ := by
    intro k e he
    simp [cluster] at he
  leader _ _ h := by cases h
  next _ _ h := by cases h
  requests h := by cases h

variable {req : AppendEntries}

variable {l L : List Entry} {t : Nat} {n : Node}

theorem AppendEntries.Copies.mono {m : List Entry} (h : req.Copies l) (hlm : l <+: m) :
    req.Copies m := by
  obtain hbeyond | ⟨hle, hes, hprev⟩ := h
  · exact .inl hbeyond
  · have htake : m.take req.prevLogIndex = l.take req.prevLogIndex := by
      obtain ⟨x, rfl⟩ := hlm
      exact take_append_of_le_length hle
    refine .inr ⟨hle.trans hlm.length_le, ?_, ?_⟩
    · rw [htake]
      exact hes.trans hlm
    · intro hne
      obtain ⟨e, he, hterm⟩ := hprev hne
      exact ⟨e, getElem?_of_initial hlm he, hterm⟩

theorem Cluster.Led.act (h : c.Led t) : (c.act i r).Led t := by
  obtain ⟨l, hl⟩ := h
  exact ⟨l, mem_act_of_mem hl⟩

/-! ## The log of the leader -/

theorem leaderLog_of_ne (h : r.1.state ≠ .leader) : (c.act i r).leaderLog = c.leaderLog :=
  if_neg h

theorem leaderLog_self (h : r.1.state = .leader) :
    (c.act i r).leaderLog r.1.currentTerm = r.1.logEntries := by
  simp only [Cluster.act, if_pos h, update_self]

theorem leaderLog_ne (h : r.1.state = .leader) (ht : t ≠ r.1.currentTerm) :
    (c.act i r).leaderLog t = c.leaderLog t := by
  simp only [Cluster.act, if_pos h, update_of_ne ht]

theorem leaderLog_of_same (h : Matching M c) (hi : i ∈ M.ids)
    (hlog : r.1.logEntries = (c.nodes i).logEntries) (hstate : r.1.state = .leader →
      (c.nodes i).state = .leader ∧ r.1.currentTerm = (c.nodes i).currentTerm) :
    (c.act i r).leaderLog = c.leaderLog := by
  by_cases hs : r.1.state = .leader
  · obtain ⟨hleader, hterm⟩ := hstate hs
    funext t
    by_cases ht : t = r.1.currentTerm
    · rw [ht, leaderLog_self hs, hlog, hterm, h.leader i hi hleader]
    · exact leaderLog_ne hs ht
  · exact leaderLog_of_ne hs

/-! ## Requests -/

theorem copies_heartbeat (h : Indexed n.logEntries) : n.heartbeat.Copies n.logEntries := by
  have hlast : n.lastLogInfo.1 = n.logEntries.length := h.lastLogIndex
  right
  rw [heartbeat, hlast]
  refine ⟨le_rfl, by rw [take_length, append_nil], ?_⟩
  intro hne
  have hnil : n.logEntries ≠ [] := fun hnil => hne (by rw [hnil, length_nil])
  refine ⟨n.logEntries.getLast hnil, ?_, ?_⟩
  · rw [← getLast?_eq_getElem?, getLast?_eq_some_getLast hnil]
  · rw [lastLogInfo_snd, lastTerm, getLast?_eq_some_getLast hnil]
    rfl

theorem copies_replication (h : Indexed n.logEntries) {peer : Str}
    (hnext : 0 < n.nextIndex.get peer) : (n.replication peer).Copies n.logEntries := by
  have hlast := h.lastLogIndex
  have hentries : (n.logEntries.filter fun entry =>
      decide (n.nextIndex.get peer ≤ entry.index) && decide (entry.index ≤ n.lastLogIndex)) =
        n.logEntries.drop (n.nextIndex.get peer - 1) := by
    have hbetween := filter_between h (n.nextIndex.get peer - 1) n.lastLogIndex
    rw [take_of_length_le (by omega), Nat.sub_zero] at hbetween
    rw [← hbetween]
    congr 1
    funext entry
    rw [decide_eq_decide.mpr (show n.nextIndex.get peer ≤ entry.index ↔
      n.nextIndex.get peer - 1 < entry.index by omega)]
  by_cases hbeyond : n.logEntries.length < n.nextIndex.get peer - 1
  · -- The previous index lies beyond the log.
    left
    refine ⟨?_, ?_⟩
    · simp only [replication]
      omega
    · simp only [replication]
      rw [if_pos (by omega), h.entryTerm (by omega), getElem?_eq_none (by omega)]
      rfl
  · right
    simp only [replication]
    rw [hentries]
    refine ⟨by omega, by rw [take_append_drop], ?_⟩
    intro hne
    have hlt : n.nextIndex.get peer - 1 - 1 < n.logEntries.length := by omega
    refine ⟨_, getElem?_eq_getElem hlt, ?_⟩
    rw [if_pos (by omega), h.entryTerm (by omega), getElem?_eq_getElem hlt]
    rfl

/-- What an accepted request says about the log of the node and that of the
leader. -/
structure Accepted (l L : List Entry) (req : AppendEntries) : Prop where
  base : l.take req.prevLogIndex = L.take req.prevLogIndex
  le : req.prevLogIndex ≤ l.length
  copies : L.take req.prevLogIndex ++ req.entries <+: L

theorem Matching.accepted (h : Matching M c) (hsound : Sound M c) (hi : i ∈ M.ids) {m : Message}
    (hm : c.Delivers i m) (hdata : m.data = .appendEntries req)
    (hprev : req.prevLogIndex = 0 ∨ (c.nodes i).hasLogEntry req.prevLogIndex req.prevLogTerm = true)
    : Accepted (c.nodes i).logEntries (c.leaderLog req.term) req := by
  have hsent := hsound.data hm.2
  rw [hdata] at hsent
  have hcopies := h.requests hm.2 hdata
  rw [← hsent.1] at hcopies
  by_cases hzero : req.prevLogIndex = 0
  · obtain ⟨hne, -⟩ | ⟨-, hes, -⟩ := hcopies
    · exact absurd hzero hne
    · refine ⟨?_, ?_, hes⟩
      · rw [hzero, take_zero, take_zero]
      · rw [hzero]
        exact Nat.zero_le _
  · obtain ⟨hpos, e, he, hterm⟩ := (h.indexed i hi).hasLogEntry (hprev.resolve_left hzero)
    obtain ⟨-, hterm'⟩ | ⟨-, hes, hprev'⟩ := hcopies
    · -- No entry has the term 0.
      obtain ⟨l, hl⟩ := (h.known i hi e (mem_of_getElem? he)).1
      have := (hsound.elected_le hl).1
      omega
    · obtain ⟨e', he', hterm'⟩ := hprev' hzero
      have hbase := (h.coherent i hi).take_eq (h.leaders.coherent req.term) he he'
        (hterm.trans hterm'.symm)
      rw [Nat.sub_add_cancel hpos] at hbase
      have hlt := (List.getElem?_eq_some_iff.mp he).1
      exact ⟨hbase, by omega, hes⟩

theorem Accepted.take_eq (h : Accepted l L req) :
    L.take (req.prevLogIndex + req.entries.length) = L.take req.prevLogIndex ++ req.entries := by
  rw [prefix_iff_eq_take.mp h.copies, length_append, ← h.base, length_take,
    min_eq_left h.le]

theorem Accepted.logAfter (h : Accepted n.logEntries L req) (hn : Indexed n.logEntries)
    (hL : Indexed L) :
    n.logAfter req = overwrite Entry.term n.logEntries req.prevLogIndex req.entries := by
  have hlen : (L.take req.prevLogIndex).length = req.prevLogIndex := by
    rw [← h.base, length_take, min_eq_left h.le]
  have hes := (of_initial hL h.copies).of_append
  rw [hlen, Nat.zero_add] at hes
  exact appendAll_fst hn hes h.le

def Effect.NoRequest : Effect → Prop
  | .send m => ∀ req, m.data ≠ .appendEntries req
  | _ => True

theorem copies_of_noRequest {es : List Effect} (h : ∀ e ∈ es, e.NoRequest) (m : Message)
    (req : AppendEntries) (hm : send m ∈ es) (hdata : m.data = .appendEntries req) :
    req.Copies (c.leaderLog m.term) :=
  absurd hdata (h _ hm req)

/-! ## What a step keeps -/

section

variable (hsound : Sound M c) (h : Matching M c) (hi : i ∈ M.ids) (hmove : Move C c i r)
include hsound h hi hmove

/-- What the node shares with the leader of its term stays in its log. -/
theorem Move.retains {x : List Entry} (hx : x <+: (c.nodes i).logEntries)
    (hxL : c.Led (c.nodes i).currentTerm → x <+: c.leaderLog (c.nodes i).currentTerm) :
    x <+: r.1.logEntries := by
  cases hmove with
  | @accept m req hm hdata hterm hprev hC =>
    have hacc := h.accepted hsound hi hm hdata hprev
    have hled : c.Led (c.nodes i).currentTerm := ⟨_, (hm.elected hsound hdata hterm).2⟩
    rw [accept_fst]
    rw [hacc.logAfter (n := (c.nodes i).heard req.leaderID) (h.indexed i hi) (h.leaderIndexed _)]
    exact prefix_overwrite (h.coherent i hi) (h.leaders.coherent req.term) hacc.base hacc.le
      hacc.copies hx (hterm ▸ hxL hled)
  | acked =>
    rw [advanceCommitIndex_fst]
    exact hx
  | propose hstate =>
    rw [propose_of_leader _ hstate]
    exact hx.trans (prefix_append _ _)
  | heartbeat hstate =>
    rw [sendHeartbeats_of_leader _ hstate]
    exact hx
  | _ => exact hx

theorem Move.grows
    (hone : (c.act i r).OneLeader) (ht : c.Led t) : c.leaderLog t <+: (c.act i r).leaderLog t := by
  have hk := hmove.keeps hsound hi
  by_cases hs : r.1.state = .leader
  · by_cases hterm : t = r.1.currentTerm
    · -- The node has led the term already.
      obtain ⟨j, hj⟩ := ht
      have hled := hk.led hs
      rw [← hterm] at hled
      obtain rfl := hone t j i (mem_act_of_mem hj) hled
      have hle := (hsound.elected_le hj).2
      have hle' := hk.term
      have heq : t = (c.nodes j).currentTerm := by omega
      have hleader := h.leader j hi (hsound.elected_eq hj heq)
      rw [hterm, leaderLog_self hs, ← hterm, heq, hleader]
      exact hmove.retains hsound h hi prefix_rfl fun _ => hleader ▸ prefix_rfl
    · rw [leaderLog_ne hs hterm]
  · rw [leaderLog_of_ne hs]

end

theorem mem_dropWhile_concat {α : Type} {p : α → Bool} {l : List α} {a x : α}
    (h : x ∈ (l ++ [a]).dropWhile p) : x ∈ l.dropWhile p ∨ x = a := by
  rw [dropWhile_append] at h
  split at h
  · exact .inr (mem_singleton.mp ((dropWhile_sublist p).subset h))
  · obtain h | h := mem_append.mp h
    · exact .inl h
    · exact .inr (mem_singleton.mp h)

/-! ## What a step must do -/

section

variable (h : Matching M c) (hsound : Sound M c) (hi : i ∈ M.ids) (hk : Keeps c i r)
  (hone : (c.act i r).OneLeader) (hgrow : ∀ t, c.Led t → c.leaderLog t <+: (c.act i r).leaderLog t)
include h hsound hi hk hone hgrow

/-- The invariant is kept if the leaders' logs only grow, and the log and the
requests of the node follow them. -/
theorem Matching.act (hindexed : Indexed r.1.logEntries)
    (hcoherent : Coherent Entry.term (c.act i r).leaderLog r.1.logEntries)
    (hknown : ∀ e ∈ r.1.logEntries, (c.act i r).Led e.term ∧ e.term ≤ r.1.currentTerm)
    (hown : r.1.state = .leader →
      ∀ e ∈ r.1.logEntries.dropWhile (fun e => decide (e.term < r.1.currentTerm)),
        e.term = r.1.currentTerm)
    (hnext : r.1.state = .leader → ∀ p ∈ M.peers i, 0 < r.1.nextIndex.get p)
    (hrequests : ∀ m req, send m ∈ r.2 → m.data = .appendEntries req →
      req.Copies ((c.act i r).leaderLog m.term)) : Matching M (c.act i r) := by
  -- The log of a term is that of the node, or the one from before.
  have hcases : ∀ t, (r.1.state = .leader ∧ t = r.1.currentTerm ∧
      (c.act i r).leaderLog t = r.1.logEntries) ∨ (c.act i r).leaderLog t = c.leaderLog t := by
    intro t
    by_cases hs : r.1.state = .leader
    · by_cases ht : t = r.1.currentTerm
      · exact .inl ⟨hs, ht, ht ▸ leaderLog_self hs⟩
      · exact .inr (leaderLog_ne hs ht)
    · exact .inr (congrFun (leaderLog_of_ne hs) t)
  constructor
  · intro j hj
    by_cases hji : j = i
    · rwa [hji, act_nodes_self]
    · rw [act_nodes_ne _ _ hji]
      exact h.indexed j hj
  · intro j hj
    by_cases hji : j = i
    · rwa [hji, act_nodes_self]
    · rw [act_nodes_ne _ _ hji]
      exact (h.coherent j hj).mono fun e he => hgrow _ (h.known j hj e he).1
  · intro j hj e he
    by_cases hji : j = i
    · rw [hji, act_nodes_self] at he ⊢
      exact hknown e he
    · rw [act_nodes_ne _ _ hji] at he ⊢
      exact ⟨(h.known j hj e he).1.act, (h.known j hj e he).2⟩
  · refine ⟨?_, ?_, ?_⟩
    · intro t
      obtain ⟨-, -, heq⟩ | heq := hcases t
      · rwa [heq]
      · rw [heq]
        exact (h.leaders.coherent t).mono fun e he => hgrow _ (h.leaders.elected t e he)
    · intro t e he
      obtain ⟨-, -, heq⟩ | heq := hcases t
      · rw [heq] at he
        exact (hknown e he).1
      · rw [heq] at he
        exact (h.leaders.elected t e he).act
    · intro t
      obtain ⟨hs, rfl, heq⟩ | heq := hcases t
      · rw [heq]
        exact hown hs
      · rw [heq]
        exact h.leaders.own t
  · intro t
    obtain ⟨-, -, heq⟩ | heq := hcases t
    · rwa [heq]
    · rw [heq]
      exact h.leaderIndexed t
  · intro j hj hstate
    by_cases hji : j = i
    · rw [hji, act_nodes_self] at hstate ⊢
      exact leaderLog_self hstate
    · rw [act_nodes_ne _ _ hji] at hstate ⊢
      obtain ⟨hs, hterm, -⟩ | heq := hcases (c.nodes j).currentTerm
      · -- Two leaders of one term.
        have hlead := mem_act_of_mem (i := i) (r := r) (hsound.led j hj hstate)
        rw [hterm] at hlead
        exact absurd (hone _ j i hlead (hk.led hs)) hji
      · rw [heq]
        exact h.leader j hj hstate
  · intro j hj hstate
    by_cases hji : j = i
    · rw [hji, act_nodes_self] at hstate ⊢
      exact hnext hstate
    · rw [act_nodes_ne _ _ hji] at hstate ⊢
      exact h.next j hj hstate
  · intro j m req hm hdata
    obtain hold | ⟨rfl, hnew⟩ := mem_act_history.mp hm
    · have hsent := hsound.data hold
      rw [hdata] at hsent
      exact (h.requests hold hdata).mono (hgrow _ ⟨j, hsent.2.2⟩)
    · exact hrequests m req hnew hdata

theorem Matching.sameLog
    (hlog : r.1.logEntries = (c.nodes i).logEntries) (hstate : r.1.state = .leader →
      (c.nodes i).state = .leader ∧ r.1.currentTerm = (c.nodes i).currentTerm)
    (hnext : r.1.state = .leader → ∀ p ∈ M.peers i, 0 < r.1.nextIndex.get p)
    (hrequests : ∀ m req, send m ∈ r.2 → m.data = .appendEntries req →
      req.Copies (c.leaderLog m.term)) : Matching M (c.act i r) := by
  have hsame := leaderLog_of_same h hi hlog hstate
  refine h.act hsound hi hk hone hgrow ?_ ?_ ?_ ?_ hnext ?_
  · rw [hlog]
    exact h.indexed i hi
  · rw [hsame, hlog]
    exact h.coherent i hi
  · intro e he
    rw [hlog] at he
    obtain ⟨hled, hle⟩ := h.known i hi e he
    exact ⟨hled.act, hle.trans hk.term⟩
  · intro hs
    obtain ⟨hleader, hterm⟩ := hstate hs
    rw [hterm, hlog, ← h.leader i hi hleader]
    exact h.leaders.own _
  · rw [hsame]
    exact hrequests

/-! ## Every move keeps the logs matching -/

theorem Matching.win {votes : List Str} (hstate : (c.nodes i).state = .candidate)
    (hr : r = Node.becomeLeader { c.nodes i with votesReceived := votes }) :
    Matching M (c.act i r) := by
  subst hr
  -- Nobody has led this term before.
  have hnew : ¬ c.Led (c.nodes i).currentTerm := by
    intro hled
    obtain ⟨j, hj⟩ := hled
    obtain rfl := hone _ j i (mem_act_of_mem hj) (hk.led rfl)
    have := hsound.elected_eq hj rfl
    rw [hstate] at this
    cases this
  have hlt : ∀ e ∈ (c.nodes i).logEntries, e.term < (c.nodes i).currentTerm := by
    intro e he
    obtain ⟨hled, hle⟩ := h.known i hi e he
    refine lt_of_le_of_ne hle ?_
    intro heq
    exact hnew (heq ▸ hled)
  refine h.act hsound hi hk hone hgrow (h.indexed i hi) ?_ ?_ ?_ ?_ ?_
  · exact (h.coherent i hi).mono fun e he => hgrow _ (h.known i hi e he).1
  · intro e he
    exact ⟨(h.known i hi e he).1.act, (hlt e he).le⟩
  · intro _ e he
    have hall : (c.nodes i).logEntries.dropWhile
        (fun e => decide (e.term < (c.nodes i).currentTerm)) = [] :=
      dropWhile_eq_nil_iff.mpr fun e he => decide_eq_true (hlt e he)
    have he' : e ∈ (c.nodes i).logEntries.dropWhile
        (fun e => decide (e.term < (c.nodes i).currentTerm)) := he
    rw [hall] at he'
    cases he'
  · intro _ p hp
    have hp' : p ∈ (c.nodes i).peers := by rwa [hsound.peers i hi]
    rw [becomeLeader]
    rw [IndexMap.get_foldl_set, if_pos hp']
    exact Nat.succ_pos _
  · intro m req hm
    simp [becomeLeader] at hm

theorem Matching.propose {command : List UInt8} {walOk : Bool}
    (hstate : (c.nodes i).state = .leader) (hr : r = (c.nodes i).propose command walOk) :
    Matching M (c.act i r) := by
  rw [propose_of_leader _ hstate] at hr
  subst hr
  have hindexed := h.indexed i hi
  have hleader := h.leader i hi hstate
  have hindexed' : Indexed ((c.nodes i).appended ((c.nodes i).newEntry command)).logEntries := by
    refine concat hindexed ?_
    rw [Nat.zero_add]
    exact congrArg (· + 1) hindexed.lastLogIndex
  generalize heffects : (if walOk then _ else _ : List Effect) = es at hk hone hgrow ⊢
  have hself : (c.act i ((c.nodes i).appended ((c.nodes i).newEntry command), es)).leaderLog
      (c.nodes i).currentTerm =
        ((c.nodes i).appended ((c.nodes i).newEntry command)).logEntries :=
    leaderLog_self hstate
  refine h.act hsound hi hk hone hgrow hindexed' ?_ ?_ ?_ (fun _ => h.next i hi hstate) ?_
  · refine ((h.coherent i hi).mono fun e he => hgrow _ (h.known i hi e he).1).concat ?_
    exact hself ▸ prefix_rfl
  · intro e he
    obtain he | he := mem_append.mp he
    · obtain ⟨hled, hle⟩ := h.known i hi e he
      exact ⟨hled.act, hle⟩
    · cases mem_singleton.mp he
      exact ⟨⟨i, mem_act_of_mem (hsound.led i hi hstate)⟩, le_rfl⟩
  · intro _ e he
    obtain he | rfl := mem_dropWhile_concat he
    · have hown := h.leaders.own (c.nodes i).currentTerm e
      rw [hleader] at hown
      exact hown he
    · rfl
  · intro m req hm hdata
    cases walOk with
    | false =>
      rw [if_neg (by simp)] at heffects
      rw [← heffects] at hm
      cases hm
    | true =>
      rw [if_pos rfl] at heffects
      rw [← heffects] at hm
      obtain hm | hm := mem_cons.mp hm
      · cases hm
      · obtain ⟨peer, hpeer, heq⟩ := mem_map.mp hm
        cases heq
        cases hdata
        have hnext := h.next i hi hstate peer (by rw [← hsound.peers i hi]; exact hpeer)
        exact hself ▸ copies_replication hindexed' hnext

theorem Matching.accept {req : AppendEntries} (hfollower : (c.nodes i).state ≠ .leader)
    (hacc : Accepted (c.nodes i).logEntries (c.leaderLog req.term) req)
    (hreq : req.term = (c.nodes i).currentTerm)
    (hstate : r.1.state = (c.nodes i).state) (hterm : r.1.currentTerm = (c.nodes i).currentTerm)
    (hlog : r.1.logEntries =
      overwrite Entry.term (c.nodes i).logEntries req.prevLogIndex req.entries)
    (hno : ∀ e ∈ r.2, e.NoRequest) : Matching M (c.act i r) := by
  rw [← hstate] at hfollower
  have hsame := leaderLog_of_ne (c := c) (i := i) hfollower
  have hL := h.leaders.coherent req.term
  have hcases := overwrite_cases (h.coherent i hi) hL hacc.base hacc.le hacc.copies
  refine h.act hsound hi hk hone hgrow ?_ ?_ ?_ ?_ ?_ ?_
  · rw [hlog]
    obtain ⟨heq, -⟩ | ⟨heq, -⟩ := hcases
    · rw [heq]
      exact h.indexed i hi
    · rw [heq]
      exact (h.leaderIndexed _).of_initial <| take_prefix _ _
  · rw [hsame, hlog]
    exact coherent_overwrite (h.coherent i hi) hL hacc.base hacc.le hacc.copies
  · intro e he
    rw [hlog] at he
    rw [hterm]
    obtain ⟨heq, -⟩ | ⟨heq, -⟩ := hcases
    · rw [heq] at he
      obtain ⟨hled, hle⟩ := h.known i hi e he
      exact ⟨hled.act, hle⟩
    · rw [heq] at he
      have he' := mem_of_mem_take he
      exact ⟨(h.leaders.elected _ e he').act, hreq ▸ h.leaders.term_le he'⟩
  · intro hs
    exact absurd hs hfollower
  · intro hs
    exact absurd hs hfollower
  · rw [hsame]
    exact copies_of_noRequest hno

end

theorem Move.matching (hsound : Sound M c) (h : Matching M c) (hi : i ∈ M.ids)
    (hmove : Move C c i r) (hone : (c.act i r).OneLeader) : Matching M (c.act i r) := by
  have hk := hmove.keeps hsound hi
  have hgrow : ∀ t, c.Led t → c.leaderLog t <+: (c.act i r).leaderLog t :=
    fun t ht => hmove.grows hsound h hi hone ht
  have hnext := h.next i hi
  cases hmove with
  | idle | tally =>
    exact h.sameLog hsound hi hk hone hgrow rfl (fun hs => ⟨hs, rfl⟩) hnext (by simp)
  | follow hterm =>
    refine h.sameLog hsound hi hk hone hgrow rfl ?_ ?_ (by simp [becomeFollower])
    · intro hs
      cases hs
    · intro hs
      cases hs
  | stand hstate =>
    refine h.sameLog hsound hi hk hone hgrow rfl ?_ ?_ ?_
    · intro hs
      cases hs
    · intro hs
      cases hs
    · intro m req hm hdata
      obtain hm | hm := mem_cons.mp hm
      · cases hm
      · obtain ⟨peer, -, heq⟩ := mem_map.mp hm
        cases heq
        cases hdata
  | grant | deny =>
    exact h.sameLog hsound hi hk hone hgrow rfl (fun hs => ⟨hs, rfl⟩) hnext
      (copies_of_noRequest (by simp [sendMessage, Effect.NoRequest]))
  | win hm hdata hstate hgranted hle hC hmajority => exact h.win hsound hi hk hone hgrow hstate rfl
  | @accept m req hm hdata hterm hprev hC =>
    have hfollower := hm.not_leader hsound hi hone.of_act hdata hterm
    have hacc := h.accepted hsound hi hm hdata hprev
    refine h.accept hsound hi hk hone hgrow hfollower hacc hterm ?_ ?_ ?_ ?_
    · rw [accept_fst]
      rfl
    · rw [accept_fst]
      rfl
    · rw [accept_fst]
      exact hacc.logAfter (h.indexed i hi)
        (h.leaderIndexed _)
    · intro e he
      obtain he | he := mem_append.mp he
      · obtain ⟨_, rfl⟩ | rfl := mem_accept_snd _ he
        · trivial
        · trivial
      · cases mem_singleton.mp he
        simp [answer, sendMessage, Effect.NoRequest]
  | reject | refuse =>
    exact h.sameLog hsound hi hk hone hgrow rfl (fun hs => ⟨hs, rfl⟩) hnext
      (copies_of_noRequest (by simp [answer, sendMessage, Effect.NoRequest]))
  | @acked m resp hm hdata hstate hsuccess hle hC =>
    have hnext' : ∀ p ∈ M.peers i,
        0 < ((c.nodes i).nextIndex.set m.sender (resp.index + 1)).get p := by
      intro p hp
      rw [IndexMap.get_set]
      split
      · omega
      · exact hnext hstate p hp
    obtain heq | ⟨k, -, -, -, heq⟩ := advanceCommitIndex_cases
      { c.nodes i with
        matchIndex := (c.nodes i).matchIndex.set m.sender resp.index
        nextIndex := (c.nodes i).nextIndex.set m.sender (resp.index + 1) }
    all_goals
      rw [heq] at hk hone hgrow ⊢
      exact h.sameLog hsound hi hk hone hgrow rfl (fun hs => ⟨hs, rfl⟩) (fun _ => hnext') (by simp)
  | behind hstate =>
    refine h.sameLog hsound hi hk hone hgrow rfl (fun hs => ⟨hs, rfl⟩) ?_ (by simp)
    intro _ p hp
    rw [IndexMap.get_set]
    split
    · omega
    · exact hnext hstate p hp
  | propose hstate => exact h.propose hsound hi hk hone hgrow hstate rfl
  | heartbeat hstate =>
    have hleader := h.leader i hi hstate
    rw [sendHeartbeats_of_leader _ hstate] at hk hone hgrow ⊢
    refine h.sameLog hsound hi hk hone hgrow rfl (fun hs => ⟨hs, rfl⟩) hnext ?_
    intro m req hm hdata
    obtain ⟨peer, -, heq⟩ := mem_map.mp hm
    cases heq
    cases hdata
    exact hleader ▸ copies_heartbeat (h.indexed i hi)

theorem matching_of_reach (hreach : (cluster M).Reach C.events (cluster M).init c)
    (hone : c.OneLeader) : Sound M c ∧ Matching M c :=
  invariant_of_oneLeader sound_init matching_init
    (fun hsound h hi hmove hone => hmove.matching hsound h hi hone) hreach hone

theorem reach_of_anyEvent (h : (cluster M).Reach anyEvent (cluster M).init c) :
    (cluster M).Reach noCondition.events (cluster M).init c := by
  refine reach_mono ?_ h
  intro c e _
  rw [Condition.events]
  split
  · rfl
  · rfl

/-- Log matching: without two leaders of one term, all logs have the indices 1,
2, 3, ..., and two logs that have an entry of the same index and the same term
are equal up to it. -/
theorem logs_match (M : Members) {c : Cluster}
    (hreach : (cluster M).Reach anyEvent (cluster M).init c) (hone : c.OneLeader) :
    (∀ i ∈ M.ids, (c.nodes i).logEntries.map Entry.index =
      List.range' 1 (c.nodes i).logEntries.length) ∧
    ∀ a ∈ M.ids, ∀ b ∈ M.ids, ∀ e ∈ (c.nodes a).logEntries, ∀ e' ∈ (c.nodes b).logEntries,
      e.index = e'.index → e.term = e'.term →
        ∀ k ≤ e.index, (c.nodes a).entryAt k = (c.nodes b).entryAt k := by
  obtain ⟨-, h⟩ := matching_of_reach (reach_of_anyEvent hreach) hone
  refine ⟨fun i hi => map_index (h.indexed i hi), ?_⟩
  intro a ha b hb e he e' he' hindex hterm k hk
  have hia := h.indexed a ha
  have hib := h.indexed b hb
  obtain ⟨hpos, hget⟩ := (mem_iff hia).mp he
  obtain ⟨-, hget'⟩ := (mem_iff hib).mp he'
  rw [← hindex] at hget'
  have heq := (h.coherent a ha).take_eq (h.coherent b hb) hget hget' hterm
  rw [show e.index - 0 - 1 + 1 = e.index by omega] at heq
  refine hia.entryAt_eq hib ?_
  rw [← min_eq_left hk, ← take_take, heq, take_take]

theorem three_match : ∃ c, ((cluster three).Reach anyEvent (cluster three).init c ∧ c.OneLeader ∧
      (⟨1, 1, [7]⟩ : Entry) ∈ (c.nodes (str "a")).logEntries ∧
      (⟨1, 1, [7]⟩ : Entry) ∈ (c.nodes (str "b")).logEntries) ∧
      ∀ k ≤ 1, (c.nodes (str "a")).entryAt k = (c.nodes (str "b")).entryAt k := by
  obtain ⟨c, hreach, hf⟩ := exists_reach_of_follow (A := cluster three)
    anyEvent (cluster three).init
    (fun c => c.OneLeader ∧ (⟨1, 1, [7]⟩ : Entry) ∈ (c.nodes (str "a")).logEntries ∧
      (⟨1, 1, [7]⟩ : Entry) ∈ (c.nodes (str "b")).logEntries)
    sendsEntry (by decide +kernel)
  obtain ⟨hone, ha, hb⟩ := hf
  exact ⟨c, ⟨hreach, hone, ha, hb⟩,
    (logs_match three hreach hone).2 _ (by decide) _ (by decide) _ ha _ hb rfl rfl⟩

end Geryon.Raft
