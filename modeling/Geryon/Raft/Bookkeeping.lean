import Geryon.Conc.Events
import Geryon.Raft.Node
import Mathlib.Data.List.Dedup

/-!
# Names, addresses and quorums

`Coordinator.Start` gives a node its `NodeID` as id and a list of addresses as
peers.  A message is sent to a name: to a peer, or, when it is an answer, to the
id in the request.  What a leader notes about a follower is noted under the id of
the follower.

A `Naming` tells how the nodes are called, who their peers are and which names
reach which node when they are dialled.  It is arbitrary, and so is the number of
nodes.  A node may be restarted with any log and any snapshot.
-/

namespace Geryon.Raft

open Go Conc List Function IndexMap Node Automaton Effect

/-! ## The model -/

structure Naming (ι : Type) where
  id : ι → Str
  peers : ι → List Str
  /-- A connection to the name is one to the node. -/
  reaches : Str → ι → Bool

/-- The nodes, and the messages that they have sent. -/
structure Net (ι : Type) where
  nodes : ι → Node
  sent : List (ι × Message)

/-- What can happen to a node that can be restarted. -/
inductive NetInput where
  | input (input : Input)
  | restart (entries : List Entry) (snapshot : Option (Nat × Nat))

structure NetEvent (ι : Type) where
  node : ι
  input : NetInput

def Effect.message? : Effect → Option Message
  | .send m => some m
  | _ => none

section

variable {ι : Type} [DecidableEq ι]

def Net.act (c : Net ι) (i : ι) (r : Node × List Effect) : Net ι where
  nodes := update c.nodes i r.1
  sent := c.sent ++ (r.2.filterMap message?).map fun m => (i, m)

/-- The message can get to the node. -/
def Net.delivers (N : Naming ι) (c : Net ι) (i : ι) (m : Message) : Bool :=
  N.reaches m.receiver i && c.sent.any fun x => decide (x.2 = m)

/-- A cluster with any names. -/
def network (N : Naming ι) : Automaton (Net ι) (NetEvent ι) where
  init := { nodes := fun i => newNode (N.id i) (N.peers i) [] none, sent := [] }
  next c e :=
    match e.input with
    | .restart entries snapshot =>
      some (c.act e.node (newNode (N.id e.node) (N.peers e.node) entries snapshot, []))
    | .input (.message m installed) =>
      if c.delivers N e.node m then
        some (c.act e.node ((c.nodes e.node).handleMessage m installed))
      else none
    | .input input => some (c.act e.node ((c.nodes e.node).perform input))

end

/-! ## The books of a leader -/

def IndexMap.keys (m : IndexMap) : List Str := m.map Prod.fst

/-- The keys of the leader's maps are its peers. -/
def Node.Keyed (n : Node) : Prop :=
  ∀ k, (k ∈ n.nextIndex.keys ↔ k ∈ n.peers) ∧ (k ∈ n.matchIndex.keys ↔ k ∈ n.peers)

/-- An answer to a request. -/
def Data.isResponse : Data → Bool
  | .voteResponse _ | .appendEntriesResponse _ | .installSnapshotResponse _ => true
  | _ => false

/-- The maps of the leaders have the right keys, and all answers go to peers. -/
structure Net.Booked {ι : Type} (N : Naming ι) (c : Net ι) : Prop where
  keyed : ∀ i, (c.nodes i).state = .leader → (c.nodes i).Keyed
  answers : ∀ i m, (i, m) ∈ c.sent → m.data.isResponse = true → m.receiver ∈ N.peers i

/-- The nodes that are recorded as holding an index, the leader included. -/
def Node.holders (n : Node) (index : Nat) : List Str :=
  ((if index ≤ n.lastLogIndex then [n.id] else []) ++
    (n.matchIndex.filter fun p => decide (index ≤ p.2)).map Prod.fst).dedup

/-- Enough nodes are recorded as holding an index. -/
def Node.Quorum (n : Node) (index : Nat) : Prop :=
  (n.peers.length + 1) / 2 + 1 ≤ (n.holders index).length

instance (n : Node) (index : Nat) : Decidable (n.Quorum index) :=
  inferInstanceAs (Decidable (_ ≤ _))

/-- `advanceCommitIndex` moves the commit index only to an index that a quorum
holds, and to the largest one of the current term. -/
structure Node.CommitsQuorum (n : Node) : Prop where
  only : n.advanceCommitIndex.1.commitIndex ≠ n.commitIndex →
    n.commitIndex < n.advanceCommitIndex.1.commitIndex ∧
      n.Quorum n.advanceCommitIndex.1.commitIndex ∧
      n.entryTerm n.advanceCommitIndex.1.commitIndex = n.currentTerm
  largest : ∀ k, n.commitIndex < k → n.Quorum k → n.entryTerm k = n.currentTerm →
    k ≤ n.advanceCommitIndex.1.commitIndex

/-- The node when `handleAppendEntriesResponse` calls `advanceCommitIndex`. -/
def Node.noted (n : Node) (sender : Str) (resp : AppendEntriesResponse) : Node :=
  { n with
    matchIndex := n.matchIndex.set sender resp.index
    nextIndex := n.nextIndex.set sender (resp.index + 1) }

/-- The names fit together: whoever can send something to a node is one of its
peers, under its id. -/
def Naming.Closed {ι : Type} (N : Naming ι) : Prop :=
  ∀ j, ∀ p ∈ N.peers j, ∀ i, N.reaches p i = true → N.id j ∈ N.peers i

/-- A quorum is recorded as holding an index `j` past an uncommitted entry of the
current term, and from `j` on no index of a quorum has an entry of that term. -/
def Node.Bypassed (n : Node) : Prop :=
  ∃ k j, n.commitIndex < k ∧ k < j ∧ n.entryTerm k = n.currentTerm ∧ n.Quorum j ∧
    ∀ j', j ≤ j' → n.Quorum j' → n.entryTerm j' ≠ n.currentTerm

/-! ## Keys -/

namespace IndexMap

variable {m : IndexMap} {k : Str} {v : Nat}

theorem mem_keys : k ∈ m.keys ↔ ∃ v, (k, v) ∈ m := by
  simp [keys]

theorem mem_keys_set {k' : Str} : k' ∈ (m.set k v).keys ↔ k' = k ∨ k' ∈ m.keys := by
  rw [mem_keys, mem_keys]
  constructor
  · rintro ⟨v', hv'⟩
    obtain ⟨hk, -⟩ | ⟨-, hm⟩ := mem_set hv'
    · exact .inl hk
    · exact .inr ⟨v', hm⟩
  · exact key_mem_set v

theorem mem_keys_foldl_set {ks : List Str} :
    k ∈ (ks.foldl (fun m k => m.set k v) m).keys ↔ k ∈ ks ∨ k ∈ m.keys := by
  rw [mem_keys, mem_keys]
  constructor
  · rintro ⟨v', hv'⟩
    obtain ⟨hk, -⟩ | ⟨-, hm⟩ := mem_foldl_set hv'
    · exact .inl hk
    · exact .inr ⟨v', hm⟩
  · exact key_mem_foldl_set v

end IndexMap

/-! ## What one node does -/

namespace Node

/-- The keys of the maps are peers, and those of a leader are all peers. -/
structure Kept (n : Node) : Prop where
  nodup : n.matchIndex.keys.Nodup
  nextIndex : ∀ k ∈ n.nextIndex.keys, k ∈ n.peers
  matchIndex : ∀ k ∈ n.matchIndex.keys, k ∈ n.peers
  leader : n.state = .leader → ∀ p ∈ n.peers, p ∈ n.nextIndex.keys ∧ p ∈ n.matchIndex.keys

theorem Kept.keyed {n : Node} (h : n.Kept) (hstate : n.state = .leader) : n.Keyed := by
  intro k
  exact ⟨⟨h.nextIndex k, fun hk => (h.leader hstate k hk).1⟩,
    ⟨h.matchIndex k, fun hk => (h.leader hstate k hk).2⟩⟩

/-- What a step does to the maps, and where it sends messages. -/
structure Books (n : Node) (r : Node × List Effect) : Prop where
  id : r.1.id = n.id
  peers : r.1.peers = n.peers
  kept : n.Kept → r.1.Kept
  sends : ∀ m, send m ∈ r.2 → m.sender = n.id ∧ m.receiver ∈ n.peers

variable {n : Node} {r r' : Node × List Effect}

theorem Books.andThen (h : n.Books r) (h' : r.1.Books r') : n.Books (r'.1, r.2 ++ r'.2) where
  id := h'.id.trans h.id
  peers := h'.peers.trans h.peers
  kept hn := h'.kept (h.kept hn)
  sends m hm := by
    obtain hm | hm := mem_append.mp hm
    · exact h.sends m hm
    · obtain ⟨hsender, hreceiver⟩ := h'.sends m hm
      exact ⟨hsender.trans h.id, h.peers ▸ hreceiver⟩

theorem Books.of_same (hid : r.1.id = n.id) (hpeers : r.1.peers = n.peers)
    (hnext : r.1.nextIndex = n.nextIndex) (hmatch : r.1.matchIndex = n.matchIndex)
    (hstate : r.1.state = .leader → n.state = .leader)
    (hsends : ∀ m, send m ∈ r.2 → m.sender = n.id ∧ m.receiver ∈ n.peers) : n.Books r where
  id := hid
  peers := hpeers
  kept h := {
    nodup := by rw [hmatch]; exact h.nodup
    nextIndex := by rw [hnext, hpeers]; exact h.nextIndex
    matchIndex := by rw [hmatch, hpeers]; exact h.matchIndex
    leader := by
      rw [hnext, hmatch, hpeers]
      exact fun hs => h.leader (hstate hs) }
  sends := hsends

theorem books_idle : n.Books (n, []) :=
  .of_same rfl rfl rfl rfl (fun hs => hs) (fun _ hm => absurd hm not_mem_nil)

theorem books_becomeFollower (term : Nat) : n.Books (n.becomeFollower term) := by
  refine .of_same rfl rfl rfl rfl (nofun) ?_
  intro m hm
  simp [becomeFollower] at hm

variable {m : Message} {sender : Str}

theorem sends_peers {f : Str → Data}
    (hm : send m ∈ n.peers.map fun peer => n.sendMessage peer (f peer)) :
    m.sender = n.id ∧ m.receiver ∈ n.peers := by
  obtain ⟨peer, hpeer, heq⟩ := mem_map.mp hm
  cases heq
  exact ⟨rfl, hpeer⟩

theorem books_onElectionTimeout : n.Books n.onElectionTimeout := by
  rw [onElectionTimeout]
  split
  · exact books_idle
  · refine .of_same rfl rfl rfl rfl (nofun) ?_
    intro m hm
    obtain hm | hm := mem_cons.mp hm
    · cases hm
    · exact sends_peers (n := n.standing) hm

theorem books_becomeLeader : n.Books n.becomeLeader where
  id := rfl
  peers := rfl
  kept h := {
    nodup := nodup_foldl_set h.nodup _ _
    nextIndex := by
      intro k hk
      obtain hk | hk := mem_keys_foldl_set.mp hk
      · exact hk
      · exact h.nextIndex k hk
    matchIndex := by
      intro k hk
      obtain hk | hk := mem_keys_foldl_set.mp hk
      · exact hk
      · exact h.matchIndex k hk
    leader := fun _ p hp =>
      ⟨mem_keys_foldl_set.mpr (.inl hp), mem_keys_foldl_set.mpr (.inl hp)⟩ }
  sends m hm := by simp [becomeLeader] at hm

theorem books_handleVoteRequest (hsender : sender ∈ n.peers) (req : VoteRequest) :
    n.Books (n.handleVoteRequest sender req) := by
  rw [handleVoteRequest]
  split
  all_goals
    refine .of_same rfl rfl rfl rfl (fun hs => hs) ?_
    intro m hm
    cases mem_singleton.mp hm
    exact ⟨rfl, hsender⟩

theorem books_handleVoteResponse (sender : Str) (resp : VoteResponse) :
    n.Books (n.handleVoteResponse sender resp) := by
  have hsame : n.Books ({ n with votesReceived := n.votesReceived.insert sender }, []) :=
    .of_same rfl rfl rfl rfl (fun hs => hs) (fun m hm => absurd hm not_mem_nil)
  rw [handleVoteResponse]
  split
  · exact books_idle
  · split
    · exact books_becomeFollower resp.term
    · split
      · dsimp only
        split
        · exact hsame.andThen books_becomeLeader
        · exact hsame
      · exact books_idle

theorem books_handleAppendEntries (hsender : sender ∈ n.peers) (req : AppendEntries) :
    n.Books (n.handleAppendEntries sender req) := by
  have hanswer : ∀ (n' : Node) (success : Bool) (m : Message), n'.id = n.id →
      send m = n'.answer sender success → m.sender = n.id ∧ m.receiver ∈ n.peers := by
    intro n' success m hid heq
    cases heq
    exact ⟨hid, hsender⟩
  rw [handleAppendEntries]
  split
  · dsimp only
    split
    · refine .of_same ?_ ?_ ?_ ?_ ?_ ?_
      · rw [accept_fst]
      · rw [accept_fst]
      · rw [accept_fst]
      · rw [accept_fst]
      · rw [accept_fst]
        exact fun hs => hs
      · intro m hm
        obtain hm | hm := mem_append.mp hm
        · obtain ⟨entries, heq⟩ | heq := mem_accept_snd _ hm
          · cases heq
          · cases heq
        · exact hanswer _ true m (by rw [accept_fst]) (mem_singleton.mp hm)
    · refine .of_same rfl rfl rfl rfl (fun hs => hs) ?_
      intro m hm
      exact hanswer _ false m rfl (mem_singleton.mp hm)
  · refine .of_same rfl rfl rfl rfl (fun hs => hs) ?_
    intro m hm
    exact hanswer n false m rfl (mem_singleton.mp hm)

theorem books_advanceCommitIndex : n.Books n.advanceCommitIndex := by
  obtain heq | ⟨k, -, -, -, heq⟩ := n.advanceCommitIndex_cases
  all_goals
    rw [heq]
    exact .of_same rfl rfl rfl rfl (fun hs => hs) (by simp)

section

variable (h : n.Kept) (hsender : sender ∈ n.peers)
include h hsender

theorem Kept.setNext (v : Nat) : Kept { n with nextIndex := n.nextIndex.set sender v } where
  nodup := h.nodup
  nextIndex k hk := by
    obtain rfl | hk := mem_keys_set.mp hk
    · exact hsender
    · exact h.nextIndex k hk
  matchIndex := h.matchIndex
  leader hs p hp :=
    ⟨mem_keys_set.mpr (.inr (h.leader hs p hp).1), (h.leader hs p hp).2⟩

theorem Kept.setMatch (v : Nat) : Kept { n with matchIndex := n.matchIndex.set sender v } where
  nodup := nodup_set h.nodup sender v
  nextIndex := h.nextIndex
  matchIndex k hk := by
    obtain rfl | hk := mem_keys_set.mp hk
    · exact hsender
    · exact h.matchIndex k hk
  leader hs p hp :=
    ⟨(h.leader hs p hp).1, mem_keys_set.mpr (.inr (h.leader hs p hp).2)⟩

theorem Kept.noted (resp : AppendEntriesResponse) : (n.noted sender resp).Kept :=
  (h.setMatch hsender resp.index).setNext hsender (resp.index + 1)

end

theorem books_handleAppendEntriesResponse (hsender : sender ∈ n.peers)
    (resp : AppendEntriesResponse) : n.Books (n.handleAppendEntriesResponse sender resp) := by
  have hnoted : n.Books (n.noted sender resp, []) :=
    ⟨rfl, rfl, fun h => h.noted hsender resp, fun m hm => absurd hm not_mem_nil⟩
  rw [handleAppendEntriesResponse]
  split
  · exact books_idle
  · split
    · exact books_becomeFollower resp.term
    · split
      · exact hnoted.andThen books_advanceCommitIndex
      · split
        · exact ⟨rfl, rfl, fun h => h.setNext hsender _, fun m hm => absurd hm not_mem_nil⟩
        · exact books_idle

theorem books_handleInstallSnapshot (hsender : sender ∈ n.peers) (req : InstallSnapshotRequest)
    (installed : Bool) : n.Books (n.handleInstallSnapshot sender req installed) := by
  rw [handleInstallSnapshot]
  split
  · refine .of_same rfl rfl rfl rfl (fun hs => hs) ?_
    intro m hm
    cases mem_singleton.mp hm
    exact ⟨rfl, hsender⟩
  · cases installed with
    | true =>
      refine .of_same rfl rfl rfl rfl (fun hs => hs) ?_
      intro m hm
      obtain hm | hm := mem_append.mp hm
      · cases mem_singleton.mp hm
      · cases mem_singleton.mp hm
        exact ⟨rfl, hsender⟩
    | false =>
      refine .of_same rfl rfl rfl rfl (fun hs => hs) ?_
      intro m hm
      cases mem_singleton.mp hm
      exact ⟨rfl, hsender⟩

theorem books_dispatch (hsender : m.sender ∈ n.peers) (installed : Bool) :
    n.Books (n.dispatch m installed) := by
  rw [dispatch]
  cases m.data with
  | voteRequest req => exact books_handleVoteRequest hsender req
  | voteResponse resp => exact books_handleVoteResponse m.sender resp
  | appendEntries req => exact books_handleAppendEntries hsender req
  | appendEntriesResponse resp => exact books_handleAppendEntriesResponse hsender resp
  | installSnapshot req => exact books_handleInstallSnapshot hsender req installed
  | installSnapshotResponse | garbled => exact books_idle

theorem books_handleMessage (hsender : m.sender ∈ n.peers) (installed : Bool) :
    n.Books (n.handleMessage m installed) := by
  have hcheck : n.Books (n.checkTerm m.term) := by
    rw [checkTerm]
    split
    · exact books_becomeFollower m.term
    · exact books_idle
  exact hcheck.andThen (books_dispatch (hcheck.peers ▸ hsender) installed)

theorem books_propose (command : List UInt8) (walOk : Bool) :
    n.Books (n.propose command walOk) := by
  by_cases hstate : n.state = .leader
  · rw [propose_of_leader n hstate]
    refine .of_same rfl rfl rfl rfl (fun hs => hs) ?_
    intro m hm
    cases walOk with
    | true =>
      obtain hm | hm := mem_cons.mp hm
      · cases hm
      · exact sends_peers hm
    | false => cases hm
  · rw [propose, if_pos hstate]
    exact books_idle

theorem books_sendHeartbeats : n.Books n.sendHeartbeats := by
  rw [sendHeartbeats]
  split
  · exact books_idle
  · exact .of_same rfl rfl rfl rfl (fun hs => hs) fun m hm => sends_peers hm

theorem exists_response {req : VoteRequest} (hdata : m.data = .voteRequest req) (installed : Bool) :
    ∃ m', send m' ∈ (n.handleMessage m installed).2 ∧ m'.receiver = m.sender ∧
      m'.data.isResponse = true := by
  have hvote : ∀ n' : Node, ∃ m', send m' ∈ (n'.dispatch m installed).2 ∧
      m'.receiver = m.sender ∧ m'.data.isResponse = true := by
    intro n'
    rw [dispatch, hdata]
    simp only [handleVoteRequest]
    split
    · exact ⟨_, mem_singleton.mpr rfl, rfl, rfl⟩
    · exact ⟨_, mem_singleton.mpr rfl, rfl, rfl⟩
  obtain ⟨m', hmem, hrest⟩ := hvote (n.checkTerm m.term).1
  exact ⟨m', mem_append_right _ hmem, hrest⟩

end Node

/-! ## Runs -/

section

variable {ι : Type} [DecidableEq ι] {N : Naming ι} {c c' : Net ι} {i j : ι}

variable {r : Node × List Effect} {m : Message}

theorem Net.mem_act_sent :
    (j, m) ∈ (c.act i r).sent ↔ (j, m) ∈ c.sent ∨ j = i ∧ send m ∈ r.2 := by
  have hmessage : ∀ e : Effect, e.message? = some m ↔ e = .send m := by
    intro e
    cases e with
    | send | became | persist | truncate | apply => simp [message?]
  simp only [Net.act, mem_append, mem_map, mem_filterMap]
  constructor
  · rintro (h | ⟨m', ⟨e, he, hm⟩, heq⟩)
    · exact .inl h
    · cases heq
      exact .inr ⟨rfl, (hmessage e).mp hm ▸ he⟩
  · rintro (h | ⟨rfl, he⟩)
    · exact .inl h
    · exact .inr ⟨m, ⟨.send m, he, rfl⟩, rfl⟩

/-- The nodes keep their names and their books, and send messages to peers only. -/
structure Net.Kept (N : Naming ι) (c : Net ι) : Prop where
  id : ∀ i, (c.nodes i).id = N.id i
  peers : ∀ i, (c.nodes i).peers = N.peers i
  kept : ∀ i, (c.nodes i).Kept
  sent : ∀ i m, (i, m) ∈ c.sent → m.sender = N.id i ∧ m.receiver ∈ N.peers i

theorem kept_newNode (id : Str) (peers : List Str) (entries : List Entry)
    (snapshot : Option (Nat × Nat)) : (newNode id peers entries snapshot).Kept where
  nodup := nodup_nil
  nextIndex k hk := absurd hk not_mem_nil
  matchIndex k hk := absurd hk not_mem_nil
  leader hs := by cases hs

theorem Net.act_nodes_self (c : Net ι) (i : ι) (r : Node × List Effect) :
    (c.act i r).nodes i = r.1 := update_self ..

theorem Net.act_nodes_ne (c : Net ι) (r : Node × List Effect) (h : j ≠ i) :
    (c.act i r).nodes j = c.nodes j := update_of_ne h ..

theorem Net.Kept.act (h : c.Kept N) (hr : (c.nodes i).Books r) : (c.act i r).Kept N where
  id j := by
    by_cases hj : j = i
    · rw [hj, act_nodes_self, hr.id, h.id]
    · rw [act_nodes_ne c r hj, h.id]
  peers j := by
    by_cases hj : j = i
    · rw [hj, act_nodes_self, hr.peers, h.peers]
    · rw [act_nodes_ne c r hj, h.peers]
  kept j := by
    by_cases hj : j = i
    · rw [hj, act_nodes_self]
      exact hr.kept (h.kept i)
    · rw [act_nodes_ne c r hj]
      exact h.kept j
  sent j m hm := by
    obtain hold | ⟨rfl, hnew⟩ := Net.mem_act_sent.mp hm
    · exact h.sent j m hold
    · rw [← h.id j, ← h.peers j]
      exact hr.sends m hnew

omit [DecidableEq ι] in
theorem Net.Kept.sender_mem (h : c.Kept N) (hN : N.Closed) (hm : c.delivers N i m = true) :
    m.sender ∈ (c.nodes i).peers := by
  obtain ⟨hreaches, hsent⟩ := Bool.and_eq_true_iff.mp hm
  obtain ⟨⟨j, m'⟩, hmem, heq⟩ := any_eq_true.mp hsent
  obtain rfl : m' = m := of_decide_eq_true heq
  obtain ⟨hsender, hreceiver⟩ := h.sent j m' hmem
  rw [hsender, h.peers]
  exact hN j _ hreceiver i hreaches

theorem Net.Kept.next (h : c.Kept N) (hN : N.Closed) {e : NetEvent ι}
    (hnext : (network N).next c e = some c') : c'.Kept N := by
  obtain ⟨i, input⟩ := e
  cases input with
  | restart entries snapshot =>
    cases hnext
    refine h.act ⟨?_, ?_, fun _ => kept_newNode _ _ _ _, fun m hm => absurd hm not_mem_nil⟩
    · exact (h.id i).symm
    · exact (h.peers i).symm
  | input input =>
    cases input with
    | message m installed =>
      simp only [network] at hnext
      split at hnext
      · rename_i hm
        cases hnext
        exact h.act (books_handleMessage (h.sender_mem hN hm) installed)
      · cases hnext
    | timeout =>
      cases hnext
      exact h.act books_onElectionTimeout
    | propose command walOk =>
      cases hnext
      exact h.act (books_propose command walOk)
    | heartbeat =>
      cases hnext
      exact h.act books_sendHeartbeats

theorem Net.kept_of_reach (hN : N.Closed)
    (hreach : (network N).Reach anyEvent (network N).init c) : c.Kept N :=
  invariant hreach
    ⟨fun _ => rfl, fun _ => rfl, fun _ => kept_newNode _ _ _ _, nofun⟩
    (fun h _ hnext => h.next hN hnext)

omit [DecidableEq ι] in
theorem Net.Kept.booked (h : c.Kept N) : c.Booked N where
  keyed i hstate := (h.kept i).keyed hstate
  answers i m hm _ := (h.sent i m hm).2

/-- A node asks for a vote, and the answer goes to its id. -/
theorem exists_answer {p : Str} (hp : p ∈ N.peers j) (hreaches : N.reaches p i = true) :
    ∃ c, (network N).Reach anyEvent (network N).init c ∧
      ∃ m, (i, m) ∈ c.sent ∧ m.data.isResponse = true ∧ m.receiver = N.id j := by
  let n : Node := (newNode (N.id j) (N.peers j) [] none).standing
  let m : Message := ⟨N.id j, p, 1, .voteRequest n.candidacy⟩
  let c : Net ι := (network N).init.act j (newNode (N.id j) (N.peers j) [] none).onElectionTimeout
  have hsent : (j, m) ∈ c.sent := by
    refine Net.mem_act_sent.mpr (.inr ⟨rfl, mem_cons_of_mem _ ?_⟩)
    exact mem_map.mpr ⟨p, hp, rfl⟩
  have hdelivers : c.delivers N i m = true :=
    Bool.and_eq_true_iff.mpr ⟨hreaches, any_eq_true.mpr ⟨(j, m), hsent, decide_eq_true rfl⟩⟩
  obtain ⟨m', hmem, hreceiver, hresponse⟩ :=
    exists_response (m := m) rfl false
  refine ⟨c.act i ((c.nodes i).handleMessage m false), ?_, m', ?_, hresponse, hreceiver⟩
  · refine .tail (.single ⟨⟨j, .input .timeout⟩, rfl, rfl⟩) ⟨⟨i, .input (.message m false)⟩, rfl, ?_⟩
    exact if_pos hdelivers
  · exact Net.mem_act_sent.mpr (.inr ⟨rfl, hmem⟩)

end

/-! ## The quorum -/

namespace Node

variable {n : Node} {k v : Nat}

section

variable (hnodup : n.matchIndex.keys.Nodup) (hid : n.id ∉ n.matchIndex.keys)
include hnodup hid

theorem length_holders
    (k : Nat) : (n.holders k).length = (n.matchIndices.filter fun x => decide (k ≤ x)).length := by
  have hsub : ((n.matchIndex.filter fun p => decide (k ≤ p.2)).map Prod.fst).Sublist
      n.matchIndex.keys := filter_sublist.map _
  have hlist : ((if k ≤ n.lastLogIndex then [n.id] else []) ++
      (n.matchIndex.filter fun p => decide (k ≤ p.2)).map Prod.fst).Nodup := by
    split
    · exact nodup_cons.mpr ⟨fun hmem => hid (hsub.subset hmem), hnodup.sublist hsub⟩
    · exact hnodup.sublist hsub
  rw [holders, hlist.dedup, matchIndices, length_append, length_map, filter_cons,
    filter_map, comp_def]
  split
  · rename_i hle
    rw [if_pos (decide_eq_true hle), length_cons, length_cons, length_map,
      length_nil]
    omega
  · rename_i hlt
    rw [if_neg (by simpa using hlt), length_map, length_nil]
    omega

/-- The index in the middle is the largest one that a quorum holds. -/
theorem quorum_iff (hlen : n.matchIndex.keys.length = n.peers.length)
    (hv : (n.matchIndices.insertionSort (· ≥ ·))[n.matchIndices.length / 2]? = some v) :
    n.Quorum k ↔ k ≤ v := by
  have hlength : n.matchIndices.length = n.peers.length + 1 := by
    rw [matchIndices, length_cons, length_map, ← hlen, IndexMap.keys, length_map]
  rw [← half_lt_length_filter_iff hv, Quorum, length_holders hnodup hid, hlength]
  exact Nat.succ_le_iff

end

theorem exists_middle (n : Node) :
    ∃ v, (n.matchIndices.insertionSort (· ≥ ·))[n.matchIndices.length / 2]? = some v := by
  have hlt : n.matchIndices.length / 2 < (n.matchIndices.insertionSort (· ≥ ·)).length := by
    rw [length_insertionSort, matchIndices, length_cons]
    omega
  exact ⟨_, getElem?_eq_getElem hlt⟩

theorem advanceCommitIndex_commitIndex
    (hv : (n.matchIndices.insertionSort (· ≥ ·))[n.matchIndices.length / 2]? = some v) :
    n.advanceCommitIndex.1.commitIndex =
      if n.commitIndex < v ∧ n.entryTerm v = n.currentTerm then v else n.commitIndex := by
  rw [advanceCommitIndex, hv]
  dsimp only
  by_cases hle : v ≤ n.commitIndex
  · rw [if_pos hle, if_neg (by omega)]
  · rw [if_neg hle]
    by_cases hterm : n.entryTerm v = n.currentTerm
    · rw [if_pos hterm, if_pos ⟨by omega, hterm⟩]
    · rw [if_neg hterm, if_neg (by simp [hterm])]

theorem commitsQuorum_iff (hnodup : n.matchIndex.keys.Nodup) (hid : n.id ∉ n.matchIndex.keys)
    (hlen : n.matchIndex.keys.length = n.peers.length) : n.CommitsQuorum ↔ ¬ n.Bypassed := by
  obtain ⟨v, hv⟩ := n.exists_middle
  have hquorum : ∀ k, n.Quorum k ↔ k ≤ v := fun k => quorum_iff hnodup hid hlen hv
  have hcommit := advanceCommitIndex_commitIndex hv
  constructor
  · rintro h ⟨k, j, hk, hkj, hterm, hj, hbeyond⟩
    have hkv : k ≤ v := hkj.le.trans ((hquorum j).mp hj)
    have hv' : n.entryTerm v ≠ n.currentTerm :=
      hbeyond v ((hquorum j).mp hj) ((hquorum v).mpr le_rfl)
    have hle := h.largest k hk ((hquorum k).mpr hkv) hterm
    rw [hcommit, if_neg (fun hmoves => hv' hmoves.2)] at hle
    omega
  · intro h
    by_cases hmoves : n.commitIndex < v ∧ n.entryTerm v = n.currentTerm
    · rw [if_pos hmoves] at hcommit
      refine ⟨fun _ => ?_, fun k _ hk _ => ?_⟩
      · rw [hcommit]
        exact ⟨hmoves.1, (hquorum v).mpr le_rfl, hmoves.2⟩
      · rw [hcommit]
        exact (hquorum k).mp hk
    · rw [if_neg hmoves] at hcommit
      refine ⟨fun hne => absurd hcommit hne, fun k hk hkq hterm => ?_⟩
      -- An entry of the current term below the middle, and the middle is not one.
      have hkv : k ≤ v := (hquorum k).mp hkq
      have hv' : n.entryTerm v ≠ n.currentTerm := fun heq => hmoves ⟨by omega, heq⟩
      have hne : k ≠ v := fun heq => hv' (heq ▸ hterm)
      refine absurd ⟨k, v, hk, by omega, hterm, (hquorum v).mpr le_rfl, ?_⟩ h
      intro j' hle hj'
      rw [show j' = v from le_antisymm ((hquorum j').mp hj') hle]
      exact hv'

end Node

/-- The keys of the leaders' maps are their peers and all answers go to peers, in
every state reached, exactly if the names fit together.  If, besides, no node has
a peer twice or itself as a peer, then `advanceCommitIndex` moves the commit index
to the largest index of the current term that a quorum is recorded as holding, and
to no other, exactly if the records have not bypassed the leader's own entries. -/
theorem bookkeeping_iff {ι : Type} [DecidableEq ι] (N : Naming ι) :
    ((∀ c, (network N).Reach anyEvent (network N).init c → c.Booked N) ↔ N.Closed) ∧
    (N.Closed → (∀ i, (N.peers i).Nodup ∧ N.id i ∉ N.peers i) →
      ∀ c, (network N).Reach anyEvent (network N).init c →
        ∀ i m resp, (c.nodes i).state = .leader → c.delivers N i m = true →
          m.term ≤ (c.nodes i).currentTerm → m.data = .appendEntriesResponse resp →
          resp.term ≤ (c.nodes i).currentTerm → resp.success = true →
          (((c.nodes i).noted m.sender resp).CommitsQuorum ↔
            ¬ ((c.nodes i).noted m.sender resp).Bypassed)) := by
  refine ⟨⟨?_, ?_⟩, ?_⟩
  · intro h j p hp i hreaches
    obtain ⟨c, hreach, m, hm, hresponse, hreceiver⟩ := exists_answer hp hreaches
    rw [← hreceiver]
    exact (h c hreach).answers i m hm hresponse
  · intro hN c hreach
    exact (Net.kept_of_reach hN hreach).booked
  · intro hN hproper c hreach i m resp hstate hm _ _ _ _
    have hkept := Net.kept_of_reach hN hreach
    obtain ⟨hnodup, hself⟩ := hproper i
    have hnoted := (hkept.kept i).noted (hkept.sender_mem hN hm) resp
    have hkeyed := hnoted.keyed hstate
    refine commitsQuorum_iff hnoted.nodup ?_ ?_
    · intro hid
      have hpeer := hnoted.matchIndex _ hid
      rw [Node.noted, hkept.id, hkept.peers] at hpeer
      exact hself hpeer
    · have hpeers : (c.nodes i).peers.Nodup := (hkept.peers i).symm ▸ hnodup
      refine List.Perm.length_eq ((perm_ext_iff_of_nodup hnoted.nodup hpeers).mpr ?_)
      exact fun k => (hkeyed k).2

/-! ## Names that do not fit, and records that are too high -/

/-- Two nodes with ids that are not their addresses. -/
def apart : Naming Bool where
  id i := if i then str "n2" else str "n1"
  peers i := [if i then str "h1:7000" else str "h2:7000"]
  reaches name i := decide (name = if i then str "h2:7000" else str "h1:7000")

/-- The name of one of three nodes. -/
def trioName (i : Fin 3) : Str := if i = 0 then str "a" else if i = 1 then str "b" else str "c"

/-- Three nodes with addresses as ids. -/
def trio : Naming (Fin 3) where
  id := trioName
  peers i := ([0, 1, 2].filter (· ≠ i)).map trioName
  reaches name i := decide (name = trioName i)

/-- `b` and `c` have two entries of term 2 when `a` becomes the leader of term 3 with
an old vote of `c`.  They accept a heartbeat, and then `a` gets its first command. -/
def outpaced : List (NetEvent (Fin 3)) :=
  [⟨0, .input .timeout⟩,
    ⟨2, .input (.message ⟨str "a", str "c", 1, .voteRequest ⟨1, str "a", 0, 0⟩⟩ false)⟩,
    ⟨1, .input .timeout⟩,
    ⟨1, .input .timeout⟩,
    ⟨2, .input (.message ⟨str "b", str "c", 2, .voteRequest ⟨2, str "b", 0, 0⟩⟩ false)⟩,
    ⟨1, .input (.message ⟨str "c", str "b", 2, .voteResponse ⟨2, true⟩⟩ false)⟩,
    ⟨1, .input (.propose [7] true)⟩,
    ⟨1, .input (.propose [8] true)⟩,
    ⟨2, .input (.message ⟨str "b", str "c", 2,
      .appendEntries ⟨2, str "b", 0, 0, [⟨2, 1, [7]⟩, ⟨2, 2, [8]⟩], 0⟩⟩ false)⟩,
    ⟨0, .input (.message ⟨str "b", str "a", 2, .voteRequest ⟨2, str "b", 0, 0⟩⟩ false)⟩,
    ⟨0, .input .timeout⟩,
    ⟨0, .input (.message ⟨str "c", str "a", 1, .voteResponse ⟨1, true⟩⟩ false)⟩,
    ⟨0, .input .heartbeat⟩,
    ⟨1, .input (.message ⟨str "a", str "b", 3,
      .appendEntries ⟨3, str "a", 0, 0, [], 0⟩⟩ false)⟩,
    ⟨2, .input (.message ⟨str "a", str "c", 3,
      .appendEntries ⟨3, str "a", 0, 0, [], 0⟩⟩ false)⟩,
    ⟨0, .input (.message ⟨str "b", str "a", 3, .appendEntriesResponse ⟨3, true, 2⟩⟩ false)⟩,
    ⟨0, .input (.propose [9] true)⟩]

/-- With ids that are not addresses, a vote is sent to a name that is no peer.  And
with ids that are, a leader whose entry is recorded everywhere does not commit it. -/
theorem answer_to_no_peer : (∃ c, (network apart).Reach anyEvent (network apart).init c ∧
      (true, ⟨str "n2", str "n1", 1, .voteResponse ⟨1, true⟩⟩) ∈ c.sent ∧
      str "n1" ∉ apart.peers true) ∧ ∃ c, (network trio).Reach anyEvent (network trio).init c ∧
      (c.nodes 0).state = .leader ∧
      c.delivers trio 0 ⟨str "c", str "a", 3, .appendEntriesResponse ⟨3, true, 2⟩⟩ = true ∧
      ¬ ((c.nodes 0).noted (str "c") ⟨3, true, 2⟩).CommitsQuorum := by
  constructor
  · exact exists_reach_of_follow _ _ _
      [⟨false, .input .timeout⟩,
        ⟨true, .input (.message ⟨str "n1", str "h2:7000", 1,
          .voteRequest ⟨1, str "n1", 0, 0⟩⟩ false)⟩] (by decide +kernel)
  · obtain ⟨c, hreach, hc⟩ := exists_reach_of_follow (A := network trio)
      anyEvent (network trio).init
      (fun c : Net (Fin 3) => (c.nodes 0).state = .leader ∧
        c.delivers trio 0 ⟨str "c", str "a", 3, .appendEntriesResponse ⟨3, true, 2⟩⟩ = true ∧
        ((c.nodes 0).noted (str "c") ⟨3, true, 2⟩).commitIndex = 0 ∧
        ((c.nodes 0).noted (str "c") ⟨3, true, 2⟩).Quorum 1 ∧
        ((c.nodes 0).noted (str "c") ⟨3, true, 2⟩).entryTerm 1 =
          ((c.nodes 0).noted (str "c") ⟨3, true, 2⟩).currentTerm ∧
        ((c.nodes 0).noted (str "c") ⟨3, true, 2⟩).advanceCommitIndex.1.commitIndex = 0)
      outpaced (by decide +kernel)
    obtain ⟨hstate, hdelivers, hcommit, hquorum, hterm, hstays⟩ := hc
    refine ⟨c, hreach, hstate, hdelivers, ?_⟩
    intro h
    have hle := h.largest 1 (by omega) hquorum hterm
    omega

end Geryon.Raft
