import Geryon.Raft.Goroutines

/-!
# Who speaks for a term

`sendHeartbeats` and `Propose` load the state of the node and then its term.  In
between `run` may store a new term; and `becomeFollower` stores the new term before
the new state.  So a message or an entry can get a term that the node does not lead.

It is right as long as the term is loaded while the node is still the leader and
`run` is not about to change the state.
-/

namespace Geryon.Raft.Goroutines

open Go Conc List Function Protocol Effect

/-! ## Who has led, and who speaks -/

def Shared.Led (s : Shared) (t : Nat) : Prop := became .leader t ∈ s.effects

instance (s : Shared) (t : Nat) : Decidable (s.Led t) :=
  inferInstanceAs (Decidable (_ ∈ s.effects))

/-- The requests and the new entries belong to terms that the node has led. -/
structure Shared.Spoken (s : Shared) : Prop where
  sent : ∀ m req, send m ∈ s.effects → m.data = .appendEntries req → s.Led req.term
  proposed : ∀ e ∈ s.proposed, s.Led e.term

/-- The term of a request or of a new entry is loaded while the node is the leader and
`run` has not stored another term. -/
def steady : Cond raftNode := fun s _ o _ =>
  match o with
  | .bodyTerm | .newEntry _ => !s.unsettled && decide (s.node.state = .leader)
  | _ => true

/-! ## The code -/

/-- A goroutine sends a request with the term that it has loaded for it. -/
def speaking : Protocol raftNode where
  Phase := Option Nat
  next
    | _, .bodyTerm, term => some (some term)
    | q, .send m, _ =>
      match m.data with
      | .appendEntries req => if q = some req.term then some q else none
      | _ => some q
    | q, _, _ => some q

/-- The steps that are not about a request. -/
@[simp] def Silent : Op → Prop
  | .bodyTerm => False
  | .send m => ∀ req, m.data ≠ .appendEntries req
  | _ => True

variable {o : Op} {g : Goroutine} {ch : Choice}

theorem next_of_silent (ho : Silent o) (q : Option Nat) (r : o.Ret) :
    speaking.next q o r = some q := by
  cases o
  case bodyTerm => cases ho
  case send m =>
    simp only [speaking]
    split
    · rename_i req hdata
      exact absurd hdata (ho req)
    · rfl
  all_goals rfl

@[simp] theorem uses_forEach {α : Type} {A : Op → Prop} {f : α → Code Unit} {xs : List α}
    (h : ∀ x, (f x).Uses A) : (forEach f xs).Uses A := by
  induction xs with
  | nil => trivial
  | cons x xs ih => exact Prog.uses_bind (h x) fun _ => ih

section

variable {id sender : Str} {peers : List Str}

attribute [local simp] Prog.act

@[simp] theorem silent_sendMessage {receiver : Str} {data : Data}
    (h : ∀ req, data ≠ .appendEntries req) : (sendMessage id receiver data).Uses Silent := by
  simpa [sendMessage] using h

@[simp] theorem silent_becomeFollower {term : Nat} : (becomeFollower term).Uses Silent := by
  simp [becomeFollower]

@[simp] theorem silent_onElectionTimeout : (onElectionTimeout id peers).Uses Silent := by
  simp [onElectionTimeout, becomeCandidate]

@[simp] theorem silent_handleVoteRequest {req : VoteRequest} :
    (handleVoteRequest id sender req).Uses Silent := by
  simp [handleVoteRequest, grantVote]

@[simp] theorem silent_handleVoteResponse {resp : VoteResponse} :
    (handleVoteResponse peers sender resp).Uses Silent := by
  simp [handleVoteResponse, becomeLeader]

variable {req : AppendEntries}

@[simp] theorem silent_accept : (accept req).Uses Silent := by
  have happend : ∀ entries, (appendEntries entries).Uses Silent := by
    intro entries
    induction entries with
    | nil => trivial
    | cons entry entries ih => simp [appendEntries, ih]
  simp [accept, persistNew, updateCommit, happend]

@[simp] theorem silent_takeEntries : (takeEntries req).Uses Silent := by
  simp [takeEntries, hasPrevious]

@[simp] theorem silent_dispatch {msg : Message} : (dispatch id peers msg).Uses Silent := by
  unfold dispatch
  split <;> simp [handleAppendEntries, handleAppendEntriesResponse, handleInstallSnapshot]

theorem silent_run {n : Nat} : (rounds (serve id peers) n).Uses Silent := by
  induction n with
  | zero => trivial
  | succ n ih =>
    refine Prog.uses_bind ⟨trivial, fun arrival => ?_⟩ fun _ => ih
    cases arrival with
    | message msg => simp [handleMessage, checkTerm]
    | timeout => exact silent_onElectionTimeout

end

/-! ### Heartbeats and `Propose` -/

section

variable (id : Str) (peers : List Str)

theorem obeys_sendMessage (receiver : Str) (req : AppendEntries) :
    speaking.Obeys (sendMessage id receiver (.appendEntries req)) (fun _ q => q = some req.term)
      (some req.term) :=
  fun _ => ⟨some req.term, rfl, fun _ => ⟨some req.term, if_pos rfl, rfl⟩⟩

theorem obeys_forEach {α : Type} {f : α → Code Unit} {I : Option Nat → Prop}
    (h : ∀ x q, I q → speaking.Obeys (f x) (fun _ q' => I q') q) (xs : List α) {q : Option Nat}
    (hq : I q) : speaking.Obeys (forEach f xs) (fun _ q' => I q') q := by
  induction xs generalizing q with
  | nil => exact hq
  | cons x xs ih => exact obeys_seq (h x q hq) fun _ q' hq' => ih hq'

/-- No claim about the phase at the end. -/
abbrev Obeying (p : Code Unit) (q : Option Nat) : Prop := speaking.Obeys p (fun _ _ => True) q

theorem obeys_sendHeartbeats (q : Option Nat) : Obeying (sendHeartbeats id peers) q := by
  refine obeys_act_bind fun state => ⟨q, rfl, ?_⟩
  split
  · trivial
  · refine obeys_act_bind fun last => ⟨q, rfl, ?_⟩
    refine obeys_act_bind fun term => ⟨some term, rfl, ?_⟩
    refine obeys_act_bind fun commitIndex => ⟨some term, rfl, ?_⟩
    refine obeys_mono (obeys_forEach (I := fun q' => q' = some term) ?_ peers rfl)
      fun _ _ _ => trivial
    intro peer q' hq'
    rw [hq']
    exact obeys_sendMessage id peer ⟨term, id, last.1, last.2, [], commitIndex⟩

theorem obeys_sendAppendEntriesTo (lastIndex : Nat) (peer : Str) (q : Option Nat) :
    Obeying (sendAppendEntriesTo id lastIndex peer) q := by
  refine obeys_act_bind fun nextIdx => ⟨q, rfl, ?_⟩
  have hrest : ∀ prevTerm : Nat, Obeying (do
      let entries ← act (.entriesBetween nextIdx lastIndex)
      let term ← act .bodyTerm
      let commitIndex ← act .commitIndex
      sendMessage id peer
        (.appendEntries ⟨term, id, before nextIdx, prevTerm, entries, commitIndex⟩)) q := by
    intro prevTerm
    refine obeys_act_bind fun entries => ⟨q, rfl, ?_⟩
    refine obeys_act_bind fun term => ⟨some term, rfl, ?_⟩
    refine obeys_act_bind fun commitIndex => ⟨some term, rfl, ?_⟩
    exact obeys_mono (obeys_sendMessage id peer
      ⟨term, id, before nextIdx, prevTerm, entries, commitIndex⟩) fun _ _ _ => trivial
  split
  · exact obeys_act_bind fun prevTerm => ⟨q, rfl, hrest prevTerm⟩
  · exact hrest 0

theorem obeys_propose (command : List UInt8) (q : Option Nat) :
    Obeying (propose id peers command) q := by
  refine obeys_act_bind fun state => ⟨q, rfl, ?_⟩
  split
  · trivial
  · refine obeys_act_bind fun entry => ⟨q, rfl, ?_⟩
    refine obeys_act_bind fun persisted => ⟨q, rfl, ?_⟩
    split
    · refine obeys_act_bind fun last => ⟨q, rfl, ?_⟩
      exact obeys_forEach
        (fun peer q' _ => obeys_sendAppendEntriesTo id last.1 peer q') peers trivial
    · trivial

/-- All goroutines send requests with the terms they have loaded. -/
theorem obeys_goroutines (entries : List Entry) (snapshot : Option (Nat × Nat))
    (commands : Nat → List UInt8) (n : Nat) (g : Goroutine) :
    Obeying ((goroutines id peers entries snapshot commands n).prog g) none := by
  cases g with
  | run =>
    refine obeys_mono (obeys_of_uses (Prog.uses_mono silent_run ?_)) fun _ _ _ => trivial
    exact fun o ho r => next_of_silent ho none r
  | heartbeat k =>
    have hbeats : ∀ n q, Obeying (rounds (beat id peers) n) q := by
      intro n
      induction n with
      | zero => exact fun _ => trivial
      | succ n ih =>
        intro q
        refine obeys_seq (R := fun _ _ => True) ?_ fun _ q' _ => ih q'
        exact obeys_act_bind fun _ => ⟨q, rfl, obeys_sendHeartbeats id peers q⟩
    exact hbeats n none
  | propose k => exact obeys_propose id peers (commands k) none

end

/-! ## Runs -/

/-- What the goroutines keep.  A goroutine has loaded only terms that the node has led. -/
structure Speaks (q : Goroutine → Option Nat) (s : Shared) : Prop where
  spoken : s.Spoken
  leader : s.unsettled = false → s.node.state = .leader → s.Led s.node.currentTerm
  loaded : ∀ g t, q g = some t → s.Led t

variable {q : Goroutine → Option Nat} {s s' : Shared} {es : List Effect}

namespace Speaks

variable (h : Speaks q s)
include h

/-- A step that adds effects, where every new request is for a term that was led. -/
theorem grow (heffects : s'.effects = s.effects ++ es)
    (hsent : ∀ m req, send m ∈ es → m.data = .appendEntries req → s.Led req.term)
    (hproposed : ∀ e ∈ s'.proposed, e ∈ s.proposed ∨ s.Led e.term)
    (hleader : s'.unsettled = false → s'.node.state = .leader → s'.Led s'.node.currentTerm) :
    Speaks q s' := by
  have hled : ∀ {t}, s.Led t → s'.Led t := by
    intro t ht
    rw [Shared.Led, heffects]
    exact mem_append_left _ ht
  refine ⟨⟨fun m req hm hdata => hled ?_, fun e he => hled ?_⟩, hleader,
    fun g t hg => hled (h.loaded g t hg)⟩
  · rw [heffects] at hm
    obtain hm | hm := mem_append.mp hm
    · exact h.spoken.sent m req hm hdata
    · exact hsent m req hm hdata
  · exact (hproposed e he).elim (h.spoken.proposed e) fun hnew => hnew

theorem quiet (heffects : s'.effects = s.effects ++ es)
    (hes : ∀ m, send m ∉ es) (hproposed : s'.proposed = s.proposed)
    (hterm : s'.node.currentTerm = s.node.currentTerm) (hstate : s'.node.state = s.node.state)
    (hunsettled : s'.unsettled = s.unsettled) : Speaks q s' := by
  refine h.grow heffects (fun m _ hm => absurd hm (hes m)) ?_ fun hu hs => ?_
  · exact fun e he => .inl (hproposed ▸ he)
  · rw [Shared.Led, heffects, hterm]
    exact mem_append_left _ (h.leader (hunsettled ▸ hu) (hstate ▸ hs))

theorem node {n : Node} (hterm : n.currentTerm = s.node.currentTerm)
    (hstate : n.state = s.node.state) : Speaks q { s with node := n } :=
  h.quiet (append_nil _).symm (by simp) rfl hterm hstate rfl

theorem note (sender : Str) (resp : AppendEntriesResponse) : Speaks q (s.note sender resp) := by
  simp only [Shared.note]
  split
  · refine h.quiet rfl (fun m hm => nomatch Node.mem_advanceCommitIndex_snd _ hm) rfl ?_ ?_ rfl
    all_goals rw [Node.advanceCommitIndex_fst]
  · split
    · exact h.node rfl rfl
    · exact h

/-- The state is stored: the node stands for the term that it has stored before. -/
theorem storeState (state : NodeState) : Speaks q { s with
      node := { s.node with state := state }, unsettled := false
      effects := s.effects ++ [.became state s.node.currentTerm] } := by
  refine h.grow rfl (by simp) (fun e he => .inl he) fun _ hleader => ?_
  have hleader : state = .leader := hleader
  subst hleader
  exact mem_append_right _ mem_cons_self

end Speaks

variable {r : o.Ret}

/-- A step of a goroutine that is not about to load a term for a request. -/
theorem Speaks.exec (h : Speaks q s) (hcond : steady s g o ch = true)
    (hnext : speaking.next (q g) o r = some (q g)) (hexec : s.exec g o ch = some (r, s')) :
    Speaks q s' := by
  cases o
  case receive | persist | installSnapshot =>
    cases ch <;> cases hexec
    all_goals first
      | exact h
      | exact h.quiet rfl (by simp [Node.installSnapshot]) rfl rfl rfl rfl
  case storeTerm | addTerm =>
    cases hexec
    exact h.grow (append_nil _).symm (by simp) (fun e he => .inl he) nofun
  case storeState state =>
    cases hexec
    exact h.storeState state
  case storeVotedFor | storeLeaderID | clearVotes | countVote | appendEntry | storeCommitIndex
      | initPeers =>
    cases hexec
    exact h.node rfl rfl
  case sendCommittedToApply =>
    cases hexec
    exact h.quiet rfl (by simp) rfl rfl rfl rfl
  case note sender resp =>
    cases hexec
    exact h.note sender resp
  case startHeartbeat | stopHeartbeat =>
    cases hexec
    exact h.quiet (append_nil _).symm (by simp) rfl rfl rfl rfl
  case tick =>
    cases g with
    | run | propose => cases hexec
    | heartbeat k =>
      simp only [Shared.exec] at hexec
      split at hexec <;> cases hexec
      exact h
  case newEntry command =>
    cases hexec
    have hlead : s.unsettled = false ∧ s.node.state = .leader := by simpa [steady] using hcond
    refine h.grow (append_nil _).symm (by simp) (fun e he => ?_) h.leader
    obtain he | he := mem_append.mp he
    · exact .inl he
    · cases mem_singleton.mp he
      exact .inr (h.leader hlead.1 hlead.2)
  case send m =>
    cases hexec
    refine h.grow rfl (fun m' req hm hdata => ?_) (fun e he => .inl he) fun hu hs =>
      mem_append_left _ (h.leader hu hs)
    cases mem_singleton.mp hm
    -- The protocol lets the goroutine send what it has loaded.
    simp only [speaking, hdata] at hnext
    split at hnext
    · exact h.loaded g _ ‹_›
    · cases hnext
  all_goals
    cases hexec
    exact h

theorem Speaks.step {q' : Option Nat} (h : Speaks q s) (hcond : steady s g o ch = true)
    (hnext : speaking.next (q g) o r = some q') (hexec : s.exec g o ch = some (r, s')) :
    Speaks (update q g q') s' := by
  by_cases hq : q' = q g
  · rw [hq, update_eq_self]
    exact h.exec hcond (hq ▸ hnext) hexec
  · -- Only a load of the term for a request changes what a goroutine knows.
    cases o
    case bodyTerm =>
      cases hexec
      cases hnext
      have hlead : s.unsettled = false ∧ s.node.state = .leader := by simpa [steady] using hcond
      refine ⟨h.spoken, h.leader, fun g' t ht => ?_⟩
      by_cases hg : g' = g
      · subst hg
        rw [update_self] at ht
        cases ht
        exact h.leader hlead.1 hlead.2
      · rw [update_of_ne hg] at ht
        exact h.loaded g' t ht
    case send m =>
      simp only [speaking] at hnext
      split at hnext
      · split at hnext <;> cases hnext
        exact absurd rfl hq
      · cases hnext
        exact absurd rfl hq
    all_goals
      cases hnext
      exact absurd rfl hq

/-- A node with one peer is elected: it times out, and gets the vote. -/
def election : List (Goroutine × Choice) :=
  (.run, .arrival .timeout) :: replicate 10 (.run, .ok) ++
    (.run, .arrival (.message ⟨str "b", str "a", 1, .voteResponse ⟨1, true⟩⟩)) ::
      replicate 7 (.run, .ok)

/-- The request of the first heartbeat. -/
def heartbeatOf (term : Nat) : Effect :=
  .send ⟨str "a", str "b", term, .appendEntries ⟨term, str "a", 0, 0, [], 0⟩⟩

end Geryon.Raft.Goroutines
