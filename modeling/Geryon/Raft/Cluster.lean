import Geryon.Conc.Events
import Geryon.Raft.Node

/-!
# A cluster of Raft nodes

Any number of nodes, none of which stops or restarts.  A step of the cluster is
one step of one node.  A message may be delivered at any time after it has been
sent, any number of times, or never.

`Cluster.history` keeps everything that the nodes have done, and so the messages
that can be delivered; `Cluster.leaderLog` keeps, for each term, the log of its
leader as far as it got.  No node reads either of them.

`Move` says once what a step can do.  A step is one move, or two when a message
of a later term arrives: the node becomes a follower, and then it handles the
message (`moves_of_step`).
-/

namespace Geryon.Raft

open Go Conc List Function Node Effect

/-! ## Clusters -/

/-- The nodes of a cluster.  The id of a node is its address: the others find
it among their peers. -/
structure Members where
  ids : List Str
  peers : Str → List Str
  nodup : ids.Nodup
  named : [] ∉ ids
  complete : ∀ i ∈ ids, ∀ j ∈ ids, i ≠ j → j ∈ peers i
  others : ∀ i ∈ ids, i ∉ peers i

/-- Nodes that list all others, and nobody else. -/
def Members.mesh (ids : List Str) (nodup : ids.Nodup) (named : [] ∉ ids) : Members where
  ids := ids
  peers i := ids.filter (· ≠ i)
  nodup := nodup
  named := named
  complete _ _ j hj hne := mem_filter.mpr ⟨hj, decide_eq_true (Ne.symm hne)⟩
  others _ _ h := by simp at h

structure Cluster where
  nodes : Str → Node
  history : List (Str × Effect)
  leaderLog : Nat → List Entry

namespace Cluster

def act (c : Cluster) (i : Str) (r : Node × List Effect) : Cluster where
  nodes := update c.nodes i r.1
  history := c.history ++ r.2.map fun e => (i, e)
  leaderLog :=
    if r.1.state = .leader then update c.leaderLog r.1.currentTerm r.1.logEntries
    else c.leaderLog

@[simp] theorem act_nodes_self (c : Cluster) (i : Str) (r : Node × List Effect) :
    (c.act i r).nodes i = r.1 := update_self ..

variable {i : Str} {c : Cluster} {r : Node × List Effect}

variable {j : Str}

theorem act_nodes_ne (c : Cluster) (r : Node × List Effect) (h : j ≠ i) :
    (c.act i r).nodes j = c.nodes j := update_of_ne h ..

theorem mem_act_history {e : Effect} :
    (j, e) ∈ (c.act i r).history ↔ (j, e) ∈ c.history ∨ j = i ∧ e ∈ r.2 := by
  simp only [act, mem_append, mem_map, Prod.mk.injEq]
  constructor
  · rintro (h | ⟨e', he', rfl, rfl⟩)
    · exact .inl h
    · exact .inr ⟨rfl, he'⟩
  · rintro (h | ⟨rfl, he⟩)
    · exact .inl h
    · exact .inr ⟨e, he, rfl, rfl⟩

theorem mem_act_of_mem {x : Str × Effect} (h : x ∈ c.history) :
    x ∈ (c.act i r).history := mem_append_left _ h

/-- Two steps of one node, of which the first does not leave it a leader. -/
theorem act_act (c : Cluster) (i : Str) (r r' : Node × List Effect) (h : r.1.state ≠ .leader) :
    (c.act i r).act i r' = c.act i (r'.1, r.2 ++ r'.2) := by
  simp [act, h]

def Sent (c : Cluster) (m : Message) : Prop := (m.sender, send m) ∈ c.history

instance (c : Cluster) (m : Message) : Decidable (c.Sent m) :=
  inferInstanceAs (Decidable ((_, _) ∈ c.history))

def Elected (c : Cluster) (t : Nat) (i : Str) : Prop := (i, became .leader t) ∈ c.history

instance (c : Cluster) (t : Nat) (i : Str) : Decidable (c.Elected t i) :=
  inferInstanceAs (Decidable ((_, _) ∈ c.history))

/-- No term has two leaders. -/
def OneLeader (c : Cluster) : Prop := ∀ t a b, c.Elected t a → c.Elected t b → a = b

/-- The effect of winning an election. -/
def wins : Effect → Bool
  | .became .leader _ => true
  | _ => false

theorem oneLeader_iff (c : Cluster) : c.OneLeader ↔
    ∀ x ∈ c.history, ∀ y ∈ c.history, x.2 = y.2 → wins x.2 = true → x.1 = y.1 := by
  constructor
  · intro h x hx y hy heq hwins
    obtain ⟨a, e⟩ := x
    obtain ⟨b, e'⟩ := y
    cases heq
    cases e with
    | became state t =>
      cases state with
      | leader => exact h t a b hx hy
      | follower | candidate => cases hwins
    | send | persist | truncate | apply => cases hwins
  · intro h t a b ha hb
    exact h _ ha _ hb rfl rfl

instance (c : Cluster) : Decidable c.OneLeader := decidable_of_iff _ c.oneLeader_iff.symm

theorem elected_act {t : Nat} :
    (c.act i r).Elected t j ↔ c.Elected t j ∨ j = i ∧ became .leader t ∈ r.2 :=
  mem_act_history

theorem OneLeader.of_act (h : (c.act i r).OneLeader) : c.OneLeader :=
  fun t a b ha hb => h t a b (mem_act_of_mem ha) (mem_act_of_mem hb)

end Cluster

structure Event where
  node : Str
  input : Input

/-- The node exists, and a message that it gets was sent to it. -/
def Event.Possible (M : Members) (c : Cluster) (e : Event) : Prop :=
  e.node ∈ M.ids ∧
    match e.input with
    | .message m _ => m.receiver = e.node ∧ c.Sent m
    | _ => True

instance (M : Members) (c : Cluster) (e : Event) : Decidable (e.Possible M c) :=
  match h : e.input with
  | .message m _ =>
    decidable_of_iff (e.node ∈ M.ids ∧ m.receiver = e.node ∧ c.Sent m) (by rw [Event.Possible, h])
  | .timeout => decidable_of_iff (e.node ∈ M.ids) (by rw [Event.Possible, h]; simp)
  | .propose _ _ => decidable_of_iff (e.node ∈ M.ids) (by rw [Event.Possible, h]; simp)
  | .heartbeat => decidable_of_iff (e.node ∈ M.ids) (by rw [Event.Possible, h]; simp)

/-- The cluster, started with empty logs. -/
def cluster (M : Members) : Automaton Cluster Event where
  init := {
    nodes := fun i => newNode i (M.peers i) [] none
    history := []
    leaderLog := fun _ => [] }
  next c e :=
    if e.Possible M c then some (c.act e.node ((c.nodes e.node).perform e.input)) else none

/-! ## Conditions on the messages that are handled -/

/-- A condition on a node and a message that it handles.  The term check of
`handleMessage` does not make a difference to it. -/
structure Condition where
  holds : Node → Message → Bool
  checkTerm : ∀ n m, holds n m = true → holds (n.checkTerm m.term).1 m = true

/-- The condition as one on the steps of a cluster. -/
def Condition.events (C : Condition) (c : Cluster) (e : Event) : Bool :=
  match e.input with
  | .message m _ => C.holds (c.nodes e.node) m
  | _ => true

def noCondition : Condition where
  holds _ _ := true
  checkTerm _ _ _ := rfl

def Condition.and (C D : Condition) : Condition where
  holds n m := C.holds n m && D.holds n m
  checkTerm n m h := by
    rw [Bool.and_eq_true] at h ⊢
    exact ⟨C.checkTerm n m h.1, D.checkTerm n m h.2⟩

/-! ## Moves -/

/-- `m` can be delivered to `i`. -/
def Cluster.Delivers (c : Cluster) (i : Str) (m : Message) : Prop := m.receiver = i ∧ c.Sent m

/-- The node after it has learned who leads. -/
def Node.heard (n : Node) (leaderID : Str) : Node := { n with votedFor := leaderID, leaderID }

/-- What a step of node `i` can do. -/
inductive Move (C : Condition) (c : Cluster) (i : Str) : Node × List Effect → Prop
  | idle : Move C c i (c.nodes i, [])
  | follow {t : Nat} (hterm : (c.nodes i).currentTerm < t) :
      Move C c i ((c.nodes i).becomeFollower t)
  | stand (hstate : (c.nodes i).state ≠ .leader) : Move C c i (c.nodes i).becomeCandidate
  | grant {m : Message} {req : VoteRequest} (hm : c.Delivers i m)
      (hdata : m.data = .voteRequest req) (hterm : req.term = (c.nodes i).currentTerm)
      (hgrants : (c.nodes i).Grants req) :
      Move C c i ({ c.nodes i with votedFor := req.candidateID },
        [(c.nodes i).sendMessage m.sender (.voteResponse ⟨(c.nodes i).currentTerm, true⟩)])
  | deny {m : Message} {req : VoteRequest} (hm : c.Delivers i m)
      (hdata : m.data = .voteRequest req) :
      Move C c i (c.nodes i,
        [(c.nodes i).sendMessage m.sender (.voteResponse ⟨(c.nodes i).currentTerm, false⟩)])
  | tally {m : Message} {resp : VoteResponse} (hm : c.Delivers i m)
      (hdata : m.data = .voteResponse resp) (hstate : (c.nodes i).state = .candidate)
      (hgranted : resp.voteGranted = true) (hle : resp.term ≤ (c.nodes i).currentTerm)
      (hC : C.holds (c.nodes i) m = true) :
      Move C c i ({ c.nodes i with votesReceived := (c.nodes i).votesReceived.insert m.sender }, [])
  | win {m : Message} {resp : VoteResponse} (hm : c.Delivers i m)
      (hdata : m.data = .voteResponse resp) (hstate : (c.nodes i).state = .candidate)
      (hgranted : resp.voteGranted = true) (hle : resp.term ≤ (c.nodes i).currentTerm)
      (hC : C.holds (c.nodes i) m = true)
      (hmajority : ((c.nodes i).peers.length + 1) / 2 <
        ((c.nodes i).votesReceived.insert m.sender).length + 1) :
      Move C c i (Node.becomeLeader
        { c.nodes i with votesReceived := (c.nodes i).votesReceived.insert m.sender })
  | accept {m : Message} {req : AppendEntries} (hm : c.Delivers i m)
      (hdata : m.data = .appendEntries req) (hterm : req.term = (c.nodes i).currentTerm)
      (hprev : req.prevLogIndex = 0 ∨
        (c.nodes i).hasLogEntry req.prevLogIndex req.prevLogTerm = true)
      (hC : C.holds (c.nodes i) m = true) :
      Move C c i ((((c.nodes i).heard req.leaderID).accept req).1,
        (((c.nodes i).heard req.leaderID).accept req).2 ++
          [(((c.nodes i).heard req.leaderID).accept req).1.answer m.sender true])
  | reject {m : Message} {req : AppendEntries} (hm : c.Delivers i m)
      (hdata : m.data = .appendEntries req) (hterm : req.term = (c.nodes i).currentTerm) :
      Move C c i ((c.nodes i).heard req.leaderID,
        [((c.nodes i).heard req.leaderID).answer m.sender false])
  | refuse {m : Message} {req : AppendEntries} (hm : c.Delivers i m)
      (hdata : m.data = .appendEntries req) :
      Move C c i (c.nodes i, [(c.nodes i).answer m.sender false])
  | acked {m : Message} {resp : AppendEntriesResponse} (hm : c.Delivers i m)
      (hdata : m.data = .appendEntriesResponse resp) (hstate : (c.nodes i).state = .leader)
      (hsuccess : resp.success = true) (hle : resp.term ≤ (c.nodes i).currentTerm)
      (hC : C.holds (c.nodes i) m = true) :
      Move C c i (Node.advanceCommitIndex
        { c.nodes i with
          matchIndex := (c.nodes i).matchIndex.set m.sender resp.index
          nextIndex := (c.nodes i).nextIndex.set m.sender (resp.index + 1) })
  | behind {m : Message} (hstate : (c.nodes i).state = .leader)
      (hnext : 1 < (c.nodes i).nextIndex.get m.sender) :
      Move C c i ({ c.nodes i with
        nextIndex :=
          (c.nodes i).nextIndex.set m.sender ((c.nodes i).nextIndex.get m.sender - 1) }, [])
  | propose {command : List UInt8} {walOk : Bool} (hstate : (c.nodes i).state = .leader) :
      Move C c i ((c.nodes i).propose command walOk)
  | heartbeat (hstate : (c.nodes i).state = .leader) : Move C c i (c.nodes i).sendHeartbeats

/-! ## What is always true -/

/-- What a message says about its sender `i` and the term `t` that it was sent
in. -/
def Data.SentBy (c : Cluster) (i : Str) (t : Nat) : Data → Prop
  | .voteRequest req =>
    req.term = t ∧ req.candidateID = i ∧ (i, became .candidate t) ∈ c.history
  | .voteResponse resp => resp.term = t
  | .appendEntries req => req.term = t ∧ req.leaderID = i ∧ c.Elected t i
  | .appendEntriesResponse resp => resp.term = t
  | _ => False

/-- The facts about terms, states and messages that every cluster keeps. -/
structure Sound (M : Members) (c : Cluster) : Prop where
  id : ∀ i ∈ M.ids, (c.nodes i).id = i
  peers : ∀ i ∈ M.ids, (c.nodes i).peers = M.peers i
  known : ∀ {i e}, (i, e) ∈ c.history → i ∈ M.ids
  sender : ∀ {i m}, (i, send m) ∈ c.history → m.sender = i
  receiver : ∀ {i m}, (i, send m) ∈ c.history → m.receiver ≠ i
  term : ∀ {i m}, (i, send m) ∈ c.history → m.term ≤ (c.nodes i).currentTerm
  data : ∀ {i m}, (i, send m) ∈ c.history → m.data.SentBy c i m.term
  stood : ∀ i ∈ M.ids, (c.nodes i).state = .candidate →
    (i, became .candidate (c.nodes i).currentTerm) ∈ c.history
  stood_le : ∀ {i t}, (i, became .candidate t) ∈ c.history →
    0 < t ∧ t ≤ (c.nodes i).currentTerm
  led : ∀ i ∈ M.ids, (c.nodes i).state = .leader → c.Elected (c.nodes i).currentTerm i
  elected_le : ∀ {i t}, c.Elected t i → 0 < t ∧ t ≤ (c.nodes i).currentTerm
  elected_eq : ∀ {i t}, c.Elected t i → t = (c.nodes i).currentTerm →
    (c.nodes i).state = .leader

variable {c c' : Cluster} {req : AppendEntries} {P : Cluster → Prop}

theorem Data.SentBy.act {i j : Str} {t : Nat} {d : Data} (r : Node × List Effect)
    (h : d.SentBy c i t) : d.SentBy (c.act j r) i t := by
  cases d with
  | voteRequest | appendEntries => exact ⟨h.1, h.2.1, Cluster.mem_act_of_mem h.2.2⟩
  | _ => exact h

variable {M : Members} {C : Condition} {c : Cluster} {i : Str} {r : Node × List Effect}

theorem sound_init : Sound M (cluster M).init where
  id _ _ := rfl
  peers _ _ := rfl
  known h := by cases h
  sender h := by cases h
  receiver h := by cases h
  term h := by cases h
  data h := by cases h
  stood _ _ h := by cases h
  stood_le h := by cases h
  led _ _ h := by cases h
  elected_le h := by cases h
  elected_eq h := by cases h

/-- The messages of a step are sent in the name of the node and in its term. -/
def Sends (c : Cluster) (i : Str) (r : Node × List Effect) : Prop :=
  ∀ m, send m ∈ r.2 → m.sender = i ∧ m.receiver ≠ i ∧ m.term = r.1.currentTerm ∧
    m.data.SentBy (c.act i r) i m.term

/-- What a step must do to keep a cluster sound. -/
structure Keeps (c : Cluster) (i : Str) (r : Node × List Effect) : Prop where
  id : r.1.id = (c.nodes i).id
  peers : r.1.peers = (c.nodes i).peers
  term : (c.nodes i).currentTerm ≤ r.1.currentTerm
  sends : Sends c i r
  stood : r.1.state = .candidate →
    (i, became .candidate r.1.currentTerm) ∈ (c.act i r).history
  stood_le : ∀ t, became .candidate t ∈ r.2 → 0 < t ∧ t ≤ r.1.currentTerm
  led : r.1.state = .leader → (c.act i r).Elected r.1.currentTerm i
  elected : ∀ t, became .leader t ∈ r.2 →
    0 < t ∧ t = r.1.currentTerm ∧ r.1.state = .leader
  stays : (c.nodes i).state = .leader → r.1.currentTerm = (c.nodes i).currentTerm →
    r.1.state = .leader

theorem Sound.act (h : Sound M c) (hi : i ∈ M.ids) (hk : Keeps c i r) : Sound M (c.act i r) := by
  have hself : (c.act i r).nodes i = r.1 := c.act_nodes_self i r
  have hterm : ∀ j, (c.nodes j).currentTerm ≤ ((c.act i r).nodes j).currentTerm := by
    intro j
    by_cases hj : j = i
    · rw [hj, hself]
      exact hk.term
    · rw [c.act_nodes_ne r hj]
  constructor
  · intro j hj
    by_cases hji : j = i
    · rw [hji, hself, hk.id, h.id i hi]
    · rw [c.act_nodes_ne r hji, h.id j hj]
  · intro j hj
    by_cases hji : j = i
    · rw [hji, hself, hk.peers, h.peers i hi]
    · rw [c.act_nodes_ne r hji, h.peers j hj]
  · intro j e he
    obtain hold | ⟨rfl, -⟩ := Cluster.mem_act_history.mp he
    · exact h.known hold
    · exact hi
  · intro j m hm
    obtain hold | ⟨rfl, hnew⟩ := Cluster.mem_act_history.mp hm
    · exact h.sender hold
    · exact (hk.sends m hnew).1
  · intro j m hm
    obtain hold | ⟨rfl, hnew⟩ := Cluster.mem_act_history.mp hm
    · exact h.receiver hold
    · exact (hk.sends m hnew).2.1
  · intro j m hm
    obtain hold | ⟨rfl, hnew⟩ := Cluster.mem_act_history.mp hm
    · exact (h.term hold).trans (hterm j)
    · rw [hself, (hk.sends m hnew).2.2.1]
  · intro j m hm
    obtain hold | ⟨rfl, hnew⟩ := Cluster.mem_act_history.mp hm
    · exact (h.data hold).act r
    · exact (hk.sends m hnew).2.2.2
  · intro j hj hstate
    by_cases hji : j = i
    · rw [hji, hself] at hstate ⊢
      exact hk.stood hstate
    · rw [c.act_nodes_ne r hji] at hstate ⊢
      exact Cluster.mem_act_of_mem (h.stood j hj hstate)
  · intro j t ht
    obtain hold | ⟨rfl, hnew⟩ := Cluster.mem_act_history.mp ht
    · have := h.stood_le hold
      exact ⟨this.1, this.2.trans (hterm j)⟩
    · rw [hself]
      exact hk.stood_le t hnew
  · intro j hj hstate
    by_cases hji : j = i
    · rw [hji, hself] at hstate ⊢
      exact hk.led hstate
    · rw [c.act_nodes_ne r hji] at hstate ⊢
      exact Cluster.mem_act_of_mem (h.led j hj hstate)
  · intro j t ht
    obtain hold | ⟨rfl, hnew⟩ := Cluster.elected_act.mp ht
    · have := h.elected_le hold
      exact ⟨this.1, this.2.trans (hterm j)⟩
    · rw [hself]
      obtain ⟨hpos, heq, -⟩ := hk.elected t hnew
      exact ⟨hpos, heq.le⟩
  · intro j t ht heq
    obtain hold | ⟨rfl, hnew⟩ := Cluster.elected_act.mp ht
    · have hle := h.elected_le hold
      have hle' := hterm j
      have hstate := h.elected_eq hold (by omega)
      by_cases hji : j = i
      · subst hji
        rw [hself] at heq hle' ⊢
        exact hk.stays hstate (by omega)
      · rwa [c.act_nodes_ne r hji]
    · rw [hself]
      exact (hk.elected t hnew).2.2

theorem Sound.still (h : Sound M c) (hi : i ∈ M.ids) (hid : r.1.id = (c.nodes i).id)
    (hpeers : r.1.peers = (c.nodes i).peers) (hstate : r.1.state = (c.nodes i).state)
    (hterm : r.1.currentTerm = (c.nodes i).currentTerm)
    (hbecame : ∀ s t, became s t ∉ r.2) (hsends : Sends c i r) : Keeps c i r where
  id := hid
  peers := hpeers
  term := hterm.ge
  sends := hsends
  stood hs := by
    rw [hstate] at hs
    rw [hterm]
    exact Cluster.mem_act_of_mem (h.stood i hi hs)
  stood_le t ht := absurd ht (hbecame _ _)
  led hs := by
    rw [hstate] at hs
    rw [hterm]
    exact Cluster.mem_act_of_mem (h.led i hi hs)
  elected t ht := absurd ht (hbecame _ _)
  stays hs _ := hstate.trans hs

variable {m : Message}

namespace Cluster

variable (hm : c.Delivers i m)
include hm

variable (h : Sound M c)
include h

theorem Delivers.sender_ne : m.sender ≠ i := by
  intro heq
  exact h.receiver hm.2 (hm.1.trans heq.symm)

/-- The leader that an `AppendEntries` of the node's term names has been
elected. -/
theorem Delivers.elected
    (hdata : m.data = .appendEntries req) (hterm : req.term = (c.nodes i).currentTerm) :
    req.leaderID = m.sender ∧ c.Elected (c.nodes i).currentTerm req.leaderID := by
  have hsent := h.data hm.2
  rw [hdata] at hsent
  obtain ⟨hreq, hleader, helected⟩ := hsent
  rw [hleader, ← hterm, hreq]
  exact ⟨rfl, helected⟩

theorem Delivers.not_leader (hi : i ∈ M.ids)
    (hone : c.OneLeader) (hdata : m.data = .appendEntries req)
    (hterm : req.term = (c.nodes i).currentTerm) : (c.nodes i).state ≠ .leader := by
  intro hstate
  obtain ⟨hleader, helected⟩ := hm.elected h hdata hterm
  have := hone _ _ _ helected (h.led i hi hstate)
  exact hm.sender_ne h (hleader.symm.trans this)

end Cluster

theorem sends_of_peers (h : Sound M c) (hi : i ∈ M.ids) {n : Node} {data : Str → Data}
    (hid : n.id = (c.nodes i).id) (hpeers : n.peers = (c.nodes i).peers)
    (hm : send m ∈ n.peers.map fun peer => n.sendMessage peer (data peer)) :
    ∃ peer, peer ≠ i ∧ m = ⟨i, peer, n.currentTerm, data peer⟩ := by
  obtain ⟨peer, hpeer, heq⟩ := mem_map.mp hm
  refine ⟨peer, ?_, ?_⟩
  · rintro rfl
    rw [hpeers, h.peers peer hi] at hpeer
    exact M.others peer hi hpeer
  · rw [sendMessage, hid, h.id i hi] at heq
    exact (send.inj heq).symm

theorem Move.keeps (h : Sound M c) (hi : i ∈ M.ids) (hmove : Move C c i r) : Keeps c i r := by
  have hid := h.id i hi
  cases hmove with
  | idle | tally | behind => exact h.still hi rfl rfl rfl rfl (by simp) (by simp [Sends])
  | follow hterm =>
    refine ⟨rfl, rfl, hterm.le, by simp [Sends, becomeFollower], ?_, ?_, ?_, ?_, ?_⟩
    · intro hs
      cases hs
    · simp [becomeFollower]
    · intro hs
      cases hs
    · simp [becomeFollower]
    · intro _ heq
      simp only [becomeFollower] at heq
      omega
  | stand hstate =>
    refine ⟨rfl, rfl, Nat.le_succ _, ?_, ?_, ?_, ?_, ?_, ?_⟩
    · intro m hm
      obtain hm | hm := mem_cons.mp hm
      · cases hm
      · obtain ⟨peer, hpeer, rfl⟩ := sends_of_peers (n := (c.nodes i).standing) h hi rfl rfl hm
        exact ⟨rfl, hpeer, rfl, rfl, hid, Cluster.mem_act_history.mpr (.inr ⟨rfl, mem_cons_self⟩)⟩
    · intro _
      exact Cluster.mem_act_history.mpr (.inr ⟨rfl, mem_cons_self⟩)
    · intro t ht
      simp only [becomeCandidate, sendMessage, mem_cons, became.injEq,
        mem_map, reduceCtorEq, and_false, exists_false, or_false, true_and] at ht
      exact ⟨ht ▸ Nat.succ_pos _, ht.le⟩
    · intro hs
      cases hs
    · simp [becomeCandidate, sendMessage]
    · intro hs
      exact absurd hs hstate
  | grant hm | deny hm | reject hm | refuse hm =>
    refine h.still hi rfl rfl rfl rfl (by simp [answer, sendMessage]) ?_
    intro m' hm'
    cases mem_singleton.mp hm'
    exact ⟨hid, hm.sender_ne h, rfl, rfl⟩
  | @win m resp hm hdata hstate hgranted hle hC hmajority =>
    have hpos := (h.stood_le (h.stood i hi hstate)).1
    refine ⟨rfl, rfl, le_rfl, by simp [Sends, becomeLeader], ?_, ?_, ?_, ?_, ?_⟩
    · intro hs
      cases hs
    · simp [becomeLeader]
    · intro _
      exact Cluster.mem_act_history.mpr (.inr ⟨rfl, mem_cons_self⟩)
    · intro t ht
      simp [becomeLeader] at ht
      subst ht
      exact ⟨hpos, rfl, rfl⟩
    · intro _ _
      rfl
  | accept hm =>
    rw [accept_fst]
    refine h.still hi rfl rfl rfl rfl ?_ ?_
    · intro s t ht
      obtain ht | ht := mem_append.mp ht
      · obtain ⟨_, heq⟩ | heq := mem_accept_snd _ ht
        · cases heq
        · cases heq
      · cases mem_singleton.mp ht
    · intro m' hm'
      obtain hm' | hm' := mem_append.mp hm'
      · obtain ⟨_, heq⟩ | heq := mem_accept_snd _ hm'
        · cases heq
        · cases heq
      · cases mem_singleton.mp hm'
        exact ⟨hid, hm.sender_ne h, rfl, rfl⟩
  | acked hm hdata hstate hsuccess hle hC =>
    obtain heq | ⟨k, -, -, -, heq⟩ := advanceCommitIndex_cases
      { c.nodes i with
        matchIndex := (c.nodes i).matchIndex.set _ _
        nextIndex := (c.nodes i).nextIndex.set _ _ }
    all_goals
      rw [heq]
      exact h.still hi rfl rfl rfl rfl (by simp) (by simp [Sends])
  | @propose command walOk hstate =>
    rw [propose_of_leader _ hstate]
    refine h.still hi rfl rfl rfl rfl ?_ ?_
    · cases walOk <;> simp [sendAppendEntriesToAll, sendMessage]
    · intro m hm
      cases walOk with
      | false => simp at hm
      | true =>
        obtain hm | hm := mem_cons.mp hm
        · cases hm
        · obtain ⟨peer, hpeer, rfl⟩ := sends_of_peers h hi rfl rfl hm
          exact ⟨rfl, hpeer, rfl, rfl, hid, Cluster.mem_act_of_mem (h.led i hi hstate)⟩
  | heartbeat hstate =>
    rw [sendHeartbeats_of_leader _ hstate]
    refine h.still hi rfl rfl rfl rfl (by simp [sendMessage]) ?_
    intro m hm
    obtain ⟨peer, hpeer, rfl⟩ := sends_of_peers h hi rfl rfl hm
    exact ⟨rfl, hpeer, rfl, rfl, hid, Cluster.mem_act_of_mem (h.led i hi hstate)⟩

theorem Move.sound (h : Sound M c) (hi : i ∈ M.ids) (hmove : Move C c i r) : Sound M (c.act i r) :=
  h.act hi (hmove.keeps h hi)

/-! ## Every step consists of moves -/

theorem move_of_dispatch (h : Sound M c) (hm : c.Delivers i m)
    (hterm : m.term ≤ (c.nodes i).currentTerm) (hC : C.holds (c.nodes i) m = true)
    (installed : Bool) : Move C c i ((c.nodes i).dispatch m installed) := by
  have hsent := h.data hm.2
  rw [dispatch]
  cases hdata : m.data with
  | voteRequest req =>
    rw [hdata] at hsent
    dsimp only
    rw [handleVoteRequest]
    split
    · rename_i hgrants
      exact .grant hm hdata (le_antisymm (hsent.1.trans_le hterm) hgrants.1) hgrants
    · exact .deny hm hdata
  | voteResponse resp =>
    rw [hdata] at hsent
    have hle : resp.term ≤ (c.nodes i).currentTerm := hsent.trans_le hterm
    dsimp only
    rw [handleVoteResponse, if_neg (not_lt.mpr hle)]
    split
    · exact .idle
    · rename_i hstate
      split
      · rename_i hgranted
        dsimp only
        split
        · rename_i hmajority
          exact .win hm hdata (not_not.mp hstate) hgranted hle hC hmajority
        · exact .tally hm hdata (not_not.mp hstate) hgranted hle hC
      · exact .idle
  | appendEntries req =>
    rw [hdata] at hsent
    dsimp only
    rw [handleAppendEntries]
    split
    · rename_i hle
      have hterm' := le_antisymm (hsent.1.trans_le hterm) hle
      split
      · rename_i hprev
        exact .accept hm hdata hterm' hprev hC
      · exact .reject hm hdata hterm'
    · exact .refuse hm hdata
  | appendEntriesResponse resp =>
    rw [hdata] at hsent
    have hle : resp.term ≤ (c.nodes i).currentTerm := hsent.trans_le hterm
    dsimp only
    rw [handleAppendEntriesResponse, if_neg (not_lt.mpr hle)]
    split
    · exact .idle
    · rename_i hstate
      split
      · rename_i hsuccess
        exact .acked hm hdata (not_not.mp hstate) hsuccess hle hC
      · split
        · rename_i hnext
          exact .behind (not_not.mp hstate) hnext
        · exact .idle
  | installSnapshot | installSnapshotResponse | garbled =>
    rw [hdata] at hsent
    exact hsent.elim

variable (M C) in
/-- A move of some node. -/
def Moved (c c' : Cluster) : Prop := ∃ i ∈ M.ids, ∃ r, Move C c i r ∧ c' = c.act i r

theorem moves_of_step (h : Sound M c) (hstep : (cluster M).Step C.events c c') :
    Relation.ReflTransGen (Moved M C) c c' := by
  obtain ⟨⟨i, input⟩, hok, hnext⟩ := hstep
  simp only [cluster] at hnext
  split at hnext
  · rename_i hpossible
    cases hnext
    obtain ⟨hi, hinput⟩ := hpossible
    cases input with
    | timeout =>
      refine .single ⟨i, hi, _, ?_, rfl⟩
      rw [perform, onElectionTimeout]
      split
      · exact .idle
      · rename_i hstate
        exact .stand hstate
    | message m installed =>
      have hm : c.Delivers i m := hinput
      have hC : C.holds (c.nodes i) m = true := hok
      rw [perform, handleMessage]
      by_cases hterm : (c.nodes i).currentTerm < m.term
      · -- First the term check makes the node a follower.
        have hfollow : Move C c i ((c.nodes i).becomeFollower m.term) := .follow hterm
        have hcheck := C.checkTerm _ _ hC
        rw [checkTerm, if_pos hterm] at hcheck ⊢
        have hmove := move_of_dispatch (hfollow.sound h hi)
          ⟨hm.1, Cluster.mem_act_of_mem hm.2⟩
          (by rw [Cluster.act_nodes_self, becomeFollower]) (by rwa [Cluster.act_nodes_self])
          installed
        refine .head ⟨i, hi, _, hfollow, rfl⟩ (.single ⟨i, hi, _, hmove, ?_⟩)
        rw [Cluster.act_act _ _ _ _ (by simp [becomeFollower]), Cluster.act_nodes_self]
      · rw [checkTerm, if_neg hterm]
        exact .single ⟨i, hi, _, move_of_dispatch h hm (not_lt.mp hterm) hC installed, rfl⟩
    | propose command walOk =>
      refine .single ⟨i, hi, _, ?_, rfl⟩
      by_cases hstate : (c.nodes i).state = .leader
      · exact .propose hstate
      · rw [perform, propose, if_pos hstate]
        exact .idle
    | heartbeat =>
      refine .single ⟨i, hi, _, ?_, rfl⟩
      by_cases hstate : (c.nodes i).state = .leader
      · exact .heartbeat hstate
      · rw [perform, sendHeartbeats, if_pos hstate]
        exact .idle
  · cases hnext

/-- What every move keeps holds in every state reached. -/
theorem invariant_of_moves (hsound : Sound M c) (hstart : P c)
    (hmove : ∀ {c i r}, Sound M c → P c → i ∈ M.ids → Move C c i r → P (c.act i r))
    (hreach : (cluster M).Reach C.events c c') : Sound M c' ∧ P c' := by
  have hmoves : ∀ {c c'}, Sound M c ∧ P c → Relation.ReflTransGen (Moved M C) c c' →
      Sound M c' ∧ P c' := by
    intro c c' hc hreach
    induction hreach with
    | refl => exact hc
    | tail _ hlast ih =>
      obtain ⟨i, hi, r, hr, rfl⟩ := hlast
      exact ⟨hr.sound ih.1 hi, hmove ih.1 ih.2 hi hr⟩
  refine Automaton.invariant (P := fun c => Sound M c ∧ P c) hreach ⟨hsound, hstart⟩ ?_
  intro s e s' hs hok hnext
  exact hmoves hs (moves_of_step hs.1 ⟨e, hok, hnext⟩)

/-- The same, when no term has two leaders. -/
theorem invariant_of_oneLeader {P : Cluster → Prop} {c c' : Cluster} (hsound : Sound M c)
    (hstart : P c) (hmove : ∀ {c i r}, Sound M c → P c → i ∈ M.ids → Move C c i r →
      (c.act i r).OneLeader → P (c.act i r))
    (hreach : (cluster M).Reach C.events c c') (hone : c'.OneLeader) : Sound M c' ∧ P c' := by
  obtain ⟨hsound', hP⟩ := invariant_of_moves (P := fun c => c.OneLeader → P c) hsound
    (fun _ => hstart)
    (fun hs hp hi hr hone => hmove hs (hp hone.of_act) hi hr hone) hreach
  exact ⟨hsound', hP hone⟩

/-! ## Three nodes -/

def three : Members := .mesh [str "a", str "b", str "c"] (by decide) (by decide)

def deliver (sender receiver : Str) (term : Nat) (data : Data) : Event where
  node := receiver
  input := .message ⟨sender, receiver, term, data⟩ false

/-- The delivery of a request for votes, for a log that ends with the given
index and term. -/
def requestVote (candidate voter : Str) (term lastIndex lastTerm : Nat) : Event :=
  deliver candidate voter term (.voteRequest ⟨term, candidate, lastIndex, lastTerm⟩)

def grantVote (voter candidate : Str) (term : Nat) : Event :=
  deliver voter candidate term (.voteResponse ⟨term, true⟩)

/-- `candidate`, with an empty log, is elected in term 1 by `voter`. -/
def elect (candidate voter : Str) : List Event :=
  [⟨candidate, .timeout⟩, requestVote candidate voter 1 0 0, grantVote voter candidate 1]

/-- `a` is elected by `b` and sends an entry to it. -/
def sendsEntry : List Event :=
  elect (str "a") (str "b") ++ [⟨str "a", .propose [7] true⟩,
    deliver (str "a") (str "b") 1 (.appendEntries ⟨1, str "a", 0, 0, [⟨1, 1, [7]⟩], 0⟩)]

/-- `b` has the entry. -/
def hasEntry : Event := deliver (str "b") (str "a") 1 (.appendEntriesResponse ⟨1, true, 1⟩)

end Geryon.Raft
