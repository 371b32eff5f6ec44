import Geryon.Conc.Events
import Geryon.Go.Text
import Mathlib.Data.List.AList

/-!
# The coordinator of a cluster

`Coordinator.run` in `internal/cluster/coordinator.go`, with the handlers it calls,
among the goroutines that share its channels.  `run` is the only one that receives
from `eventCh` and `commandCh`, and it also sends to both of them.

`run` is followed from one channel operation or shared read to the next.  The
select of `run` may take any of its cases that is ready.  The Raft node is seen
through what `IsLeader`, `GetLeaderID` and `Propose` return, which is arbitrary.
-/

namespace Geryon.Cluster

open Go Conc Automaton Option

/-! ## The model -/

inductive CommandType where
  | updatePoolConfig
  | createUser
  | updateUser
  | deleteUser
  | detachBackend
  | attachBackend
  | invalidateCache
  | reloadConfig
  /-- Any other number. -/
  | other (type : Int)
  deriving DecidableEq

/-- Whose channel gets the response: a client's in `Propose`, or the one that
`forwardToLeader` makes.  Both have room for one response. -/
inductive RespCh where
  | client
  | own
  deriving DecidableEq

/-- `ClusterCommand`. -/
structure Command where
  type : CommandType
  respCh : RespCh
  deriving DecidableEq

/-- `CommandResponse`. -/
inductive Response where
  | success
  /-- The index that `Propose` of the Raft node has returned. -/
  | proposed (index : Nat)
  /-- The data cannot be encoded, or `Propose` of the Raft node has failed. -/
  | proposeFailed
  /-- `unknown command type: %d`. -/
  | unknownType (type : Int)
  /-- `no leader available`. -/
  | noLeader
  /-- `command channel full`. -/
  | commandChannelFull
  /-- `node %s not found`. -/
  | nodeNotFound (nodeID : Str)
  deriving DecidableEq

inductive EventType where
  | memberJoined
  | memberLeft
  | memberFailed
  | leaderChanged
  | configChanged
  | backendHealthChanged
  deriving DecidableEq

/-- `MemberState`, as far as it is set. -/
inductive MemberState where
  | alive
  | dead
  deriving DecidableEq

structure MemberInfo where
  address : Str
  state : MemberState
  deriving DecidableEq

inductive SwimEvent where
  | memberJoin (id address : Str)
  | memberLeave (id : Str)
  | memberUpdate (id : Str) (alive : Bool)
  /-- An event without a member. -/
  | noMember
  deriving DecidableEq

inductive Phase where
  | selecting
  /-- A send on `eventCh`: with `c.mu` held for a member, or for a command. -/
  | sending (event : EventType) (cmd : Option Command)
  /-- `handleReloadConfig`, before `c.isLeader` is read. -/
  | reloading (cmd : Command)
  /-- `GetLeader`, before `IsLeader` of the Raft node. -/
  | askingRaft (cmd : Command)
  /-- `GetLeader`, before `GetLeaderID` of the Raft node. -/
  | askingLeaderID (cmd : Command)
  /-- `forwardToLeader`, with the leader. -/
  | forwarding (cmd : Command) (leader : Str)
  /-- `forwardToLeader`, at the receive from `respCh`. -/
  | awaiting (cmd : Command)
  | proposing (cmd : Command)
  /-- `cmd.RespCh <- resp`. -/
  | replying (cmd : Command) (resp : Response)
  | stopped
  deriving DecidableEq

/-- The capacity of `eventCh` and of `commandCh`. -/
def chanCap : Nat := 100

/-- `Coordinator`, with what its Raft node says. -/
structure Coordinator where
  nodeID : Str
  eventCh : List EventType := []
  commandCh : List Command := []
  members : AList (fun _ : Str => MemberInfo) := ∅
  isLeader : Bool := false
  raftIsLeader : Bool := false
  raftLeaderID : Str := []
  /-- What `monitorLeader` has read and not yet stored. -/
  monitor : Option Bool := none
  phase : Phase := .selecting
  /-- The responses that clients have got. -/
  responses : List Response := []

inductive Event where
  /-- A callback of the state machine, `monitorLeader` or a health broadcast sends
  on `eventCh`. -/
  | emit (event : EventType)
  /-- A client sends on `commandCh`. -/
  | propose (type : CommandType)
  | raft (isLeader : Bool) (leaderID : Str)
  /-- `monitorLeader` asks the Raft node. -/
  | monitorRead
  /-- `monitorLeader` sets `c.isLeader`. -/
  | monitorStore
  | receiveEvent
  | receiveCommand
  | receiveSwim (event : SwimEvent)
  | stop
  /-- The next step of `run`; `index` is what `Propose` of the Raft node returns. -/
  | step (index : Option Nat)

namespace Coordinator

/-- `run` holds `c.mu`. -/
def locked (c : Coordinator) : Bool :=
  match c.phase with
  | .sending _ none => true
  | _ => false

/-- The state of a member that is known. -/
def setState (c : Coordinator) (id : Str) (state : MemberState) :
    AList fun _ : Str => MemberInfo :=
  match c.members.lookup id with
  | none => c.members
  | some info => c.members.insert id { info with state := state }

/-- `handleSWIMEvent`, up to the send on `eventCh`. -/
def handleSWIMEvent (c : Coordinator) : SwimEvent → Coordinator
  | .memberJoin id address =>
    { c with
      members := c.members.insert id ⟨address, .alive⟩
      phase := .sending .memberJoined none }
  | .memberLeave id =>
    { c with members := c.setState id .dead, phase := .sending .memberFailed none }
  | .memberUpdate id true => { c with members := c.setState id .alive }
  | .memberUpdate _ false => c
  | .noMember => c

def handleCommand (c : Coordinator) (cmd : Command) : Coordinator :=
  { c with phase := if cmd.type = .reloadConfig then .reloading cmd else .proposing cmd }

/-- `proposeToRaft`; `index` is what the Raft node returns for the converted
command. -/
def proposeToRaft (cmd : Command) (index : Option Nat) : Response :=
  match cmd.type with
  | .other type => .unknownType type
  | _ => index.elim .proposeFailed .proposed

/-- `forwardToLeader`, once the leader is known.  The send on `commandCh` is not
waited for. -/
def forwardToLeader (c : Coordinator) (cmd : Command) (leader : Str) : Coordinator :=
  if leader = [] then { c with phase := .replying cmd .noLeader }
  else if leader = c.nodeID then
    if c.commandCh.length < chanCap then
      { c with commandCh := c.commandCh ++ [⟨cmd.type, .own⟩], phase := .awaiting cmd }
    else { c with phase := .replying cmd .commandChannelFull }
  else
    match c.members.lookup leader with
    | none => { c with phase := .replying cmd (.nodeNotFound leader) }
    | some _ => { c with phase := .replying cmd .success }

/-- The next step of `run`.  `none` means that it waits. -/
def step (c : Coordinator) (index : Option Nat) : Option Coordinator :=
  match c.phase with
  | .sending event cmd =>
    if c.eventCh.length < chanCap then
      some { c with
        eventCh := c.eventCh ++ [event]
        phase := cmd.elim .selecting fun cmd => .replying cmd .success }
    else none
  | .reloading cmd =>
    some { c with
      phase := if c.isLeader then .sending .configChanged (some cmd) else .askingRaft cmd }
  | .askingRaft cmd =>
    some { c with
      phase := if c.raftIsLeader then .forwarding cmd c.nodeID else .askingLeaderID cmd }
  | .askingLeaderID cmd => some { c with phase := .forwarding cmd c.raftLeaderID }
  | .forwarding cmd leader => some (c.forwardToLeader cmd leader)
  | .proposing cmd => some { c with phase := .replying cmd (proposeToRaft cmd index) }
  | .replying cmd resp =>
    some { c with
      phase := .selecting
      responses := if cmd.respCh = .client then c.responses ++ [resp] else c.responses }
  | .selecting | .awaiting _ | .stopped => none

/-- One step of the coordinator or of its surroundings. -/
def next (c : Coordinator) : Event → Option Coordinator
  | .emit event =>
    if c.eventCh.length < chanCap then some { c with eventCh := c.eventCh ++ [event] } else none
  | .propose type =>
    if c.commandCh.length < chanCap then
      some { c with commandCh := c.commandCh ++ [⟨type, .client⟩] }
    else none
  | .raft isLeader leaderID => some { c with raftIsLeader := isLeader, raftLeaderID := leaderID }
  | .monitorRead => if c.monitor = none then some { c with monitor := some c.raftIsLeader } else none
  | .monitorStore =>
    if c.locked then none
    else c.monitor.map fun isLeader => { c with isLeader := isLeader, monitor := none }
  | .receiveEvent =>
    match c.phase, c.eventCh with
    | .selecting, _ :: rest => some { c with eventCh := rest }
    | _, _ => none
  | .receiveCommand =>
    match c.phase, c.commandCh with
    | .selecting, cmd :: rest => some ({ c with commandCh := rest }.handleCommand cmd)
    | _, _ => none
  | .receiveSwim event => if c.phase = .selecting then some (c.handleSWIMEvent event) else none
  | .stop => if c.phase = .selecting then some { c with phase := .stopped } else none
  | .step index => c.step index

/-- `run` waits for a send on `eventCh`, which is full, or for the response to a
command that is in `commandCh`. -/
def Waits (c : Coordinator) : Prop :=
  (∃ event cmd, c.phase = .sending event cmd ∧ chanCap ≤ c.eventCh.length) ∨
    ∃ cmd, c.phase = .awaiting cmd

end Coordinator

def coordinator (nodeID : Str) : Automaton Coordinator Event where
  init := { nodeID := nodeID }
  next := Coordinator.next

namespace Coordinator

variable {c c' : Coordinator} {e : Event}

/-! ## Waiting is for ever -/

section

variable (h : c.Waits)
include h

theorem step_waits (index : Option Nat) : c.step index = none := by
  obtain ⟨event, cmd, hphase, hfull⟩ | ⟨cmd, hphase⟩ := h
  · rw [step, hphase]
    exact if_neg (Nat.not_lt_of_le hfull)
  · rw [step, hphase]

theorem not_selecting_of_waits : c.phase ≠ .selecting := by
  obtain ⟨event, cmd, hphase, -⟩ | ⟨cmd, hphase⟩ := h
  · rw [hphase]
    simp
  · rw [hphase]
    simp

/-- Nobody else can end the waiting. -/
theorem Waits.next (hnext : c.next e = some c') : c'.Waits := by
  have hkept : ∀ {c' : Coordinator}, c'.phase = c.phase →
      c.eventCh.length ≤ c'.eventCh.length → c'.Waits := by
    intro c' hphase hlen
    obtain ⟨event, cmd, hsend, hfull⟩ | ⟨cmd, hawait⟩ := h
    · exact .inl ⟨event, cmd, hphase.trans hsend, le_trans hfull hlen⟩
    · exact .inr ⟨cmd, hphase.trans hawait⟩
  have hbusy := not_selecting_of_waits h
  cases e with simp only [Coordinator.next] at hnext
  | emit event =>
    split at hnext
    · cases hnext
      exact hkept rfl (by simp)
    · cases hnext
  | propose | monitorRead =>
    split at hnext
    · cases hnext
      exact hkept rfl le_rfl
    · cases hnext
  | raft isLeader leaderID =>
    cases hnext
    exact hkept rfl le_rfl
  | monitorStore =>
    split at hnext
    · cases hnext
    · obtain ⟨isLeader, -, rfl⟩ := map_eq_some_iff.mp hnext
      exact hkept rfl le_rfl
  | receiveEvent | receiveCommand =>
    split at hnext
    · rename_i hselecting _
      exact absurd hselecting hbusy
    · cases hnext
  | receiveSwim | stop =>
    simp only [if_neg hbusy] at hnext
    cases hnext
  | step index =>
    rw [step_waits h] at hnext
    cases hnext

theorem Waits.reach {nodeID : Str} (hreach : (coordinator nodeID).Reach anyEvent c c') : c'.Waits :=
  invariant hreach h (fun h _ hnext => h.next hnext)

end

/-! ## Room in the channel -/

/-- The last place in `eventCh` is left to `run`, and `run` takes what makes it
send there only if there is a place.  While `run` forwards a command to the
leader, the Raft node does not say that the leader is this node. -/
def roomy (c : Coordinator) : Event → Bool
  | .emit _ => decide (c.eventCh.length + 1 < chanCap)
  | .receiveSwim (.memberJoin _ _) | .receiveSwim (.memberLeave _) =>
    decide (c.eventCh.length < chanCap)
  | .receiveCommand =>
    decide (c.commandCh.head?.map Command.type = some .reloadConfig → c.eventCh.length < chanCap)
  | .step _ =>
    match c.phase with
    | .askingRaft _ => !c.raftIsLeader
    | .askingLeaderID _ => decide (c.raftLeaderID ≠ c.nodeID)
    | _ => true
  | _ => true

/-- There is a place in `eventCh` when `run` may send there, and commands are
forwarded to others only. -/
def Clear (c : Coordinator) : Prop :=
  match c.phase with
  | .sending _ _ | .reloading _ => c.eventCh.length < chanCap
  | .forwarding _ leader => leader ≠ c.nodeID
  | .awaiting _ => False
  | _ => True

theorem Clear.not_waits (h : c.Clear) : ¬ c.Waits := by
  rintro (⟨event, cmd, hphase, hfull⟩ | ⟨cmd, hphase⟩)
  · rw [Clear, hphase] at h
    exact absurd h (Nat.not_lt_of_le hfull)
  · rw [Clear, hphase] at h
    exact h

theorem Clear.of_phase (h : c.Clear) (hphase : c'.phase = c.phase) (hid : c'.nodeID = c.nodeID)
    (hroom : c'.eventCh.length < chanCap ∨ c'.eventCh = c.eventCh) : c'.Clear := by
  rw [Clear] at h ⊢
  rw [hphase, hid]
  split
  · rename_i hsending
    rw [hsending] at h
    obtain hroom | hroom := hroom
    · exact hroom
    · rw [hroom]
      exact h
  · rename_i hreloading
    rw [hreloading] at h
    obtain hroom | hroom := hroom
    · exact hroom
    · rw [hroom]
      exact h
  · rename_i hforwarding
    rw [hforwarding] at h
    exact h
  · rename_i hawaiting
    rw [hawaiting] at h
    exact h
  · trivial

theorem clear_handleSWIMEvent (h : c.Clear) {event : SwimEvent}
    (hok : c.roomy (.receiveSwim event) = true) : (c.handleSWIMEvent event).Clear := by
  cases event with
  | memberJoin | memberLeave =>
    have hroom : c.eventCh.length < chanCap := of_decide_eq_true hok
    exact hroom
  | memberUpdate id alive =>
    cases alive with
    | true => exact h.of_phase rfl rfl (.inr rfl)
    | false => exact h
  | noMember => exact h

theorem clear_forwardToLeader {cmd : Command} {leader : Str} (h : leader ≠ c.nodeID) :
    (c.forwardToLeader cmd leader).Clear := by
  rw [forwardToLeader, if_neg h]
  split
  · trivial
  · split
    · trivial
    · trivial

theorem Clear.step (h : c.Clear) {index : Option Nat} (hok : c.roomy (.step index) = true)
    (hstep : c.step index = some c') : c'.Clear := by
  rw [Coordinator.step] at hstep
  rw [roomy] at hok
  rw [Clear] at h
  cases hphase : c.phase with
  | sending event cmd =>
    rw [hphase] at hstep h
    have hroom : c.eventCh.length < chanCap := h
    simp only [if_pos hroom] at hstep
    cases hstep
    cases cmd with
    | none | some => trivial
  | reloading cmd =>
    rw [hphase] at hstep h
    cases hstep
    cases hleader : c.isLeader with
    | true => exact h
    | false => trivial
  | askingRaft cmd =>
    rw [hphase] at hstep hok
    cases hstep
    have hraft : c.raftIsLeader = false := by simpa using hok
    rw [Clear, hraft]
    trivial
  | askingLeaderID cmd =>
    rw [hphase] at hstep hok
    cases hstep
    have hother : c.raftLeaderID ≠ c.nodeID := of_decide_eq_true hok
    exact hother
  | forwarding cmd leader =>
    rw [hphase] at hstep h
    cases hstep
    exact clear_forwardToLeader h
  | proposing | replying =>
    rw [hphase] at hstep
    cases hstep
    trivial
  | selecting | awaiting | stopped =>
    rw [hphase] at hstep
    cases hstep

theorem Clear.next (h : c.Clear) (hok : c.roomy e = true) (hnext : c.next e = some c') :
    c'.Clear := by
  cases e with simp only [Coordinator.next] at hnext
  | emit event =>
    split at hnext
    · cases hnext
      refine h.of_phase rfl rfl (.inl ?_)
      have hroom : c.eventCh.length + 1 < chanCap := of_decide_eq_true hok
      simpa using hroom
    · cases hnext
  | propose | monitorRead =>
    split at hnext
    · cases hnext
      exact h.of_phase rfl rfl (.inr rfl)
    · cases hnext
  | raft isLeader leaderID =>
    cases hnext
    exact h.of_phase rfl rfl (.inr rfl)
  | monitorStore =>
    split at hnext
    · cases hnext
    · obtain ⟨isLeader, -, rfl⟩ := map_eq_some_iff.mp hnext
      exact h.of_phase rfl rfl (.inr rfl)
  | receiveEvent =>
    split at hnext
    · rename_i hselecting _
      cases hnext
      rw [Clear, hselecting]
      trivial
    · cases hnext
  | receiveCommand =>
    split at hnext
    · rename_i cmd rest _ hcommands
      cases hnext
      rw [Clear, handleCommand]
      by_cases htype : cmd.type = .reloadConfig
      · rw [if_pos htype]
        rw [roomy, hcommands, List.head?_cons, map_some, htype] at hok
        exact of_decide_eq_true hok rfl
      · rw [if_neg htype]
        trivial
    · cases hnext
  | receiveSwim event =>
    split at hnext
    · cases hnext
      exact clear_handleSWIMEvent h hok
    · cases hnext
  | stop =>
    split at hnext
    · cases hnext
      trivial
    · cases hnext
  | step index => exact h.step hok hnext

end Coordinator

/-- In every run whose steps all leave room, `run` never waits for something that
only it can do. -/
theorem run_never_waits (nodeID : Str) (c : Coordinator)
    (hreach : (coordinator nodeID).Reach Coordinator.roomy (coordinator nodeID).init c) :
    ¬ c.Waits :=
  (invariant (P := Coordinator.Clear) hreach trivial
    (fun h hok hnext => h.next hok hnext)).not_waits

/-- A member joins, and `run` sends the event to itself. -/
theorem join_announced : ∃ c,
    (coordinator (str "n")).Reach Coordinator.roomy (coordinator (str "n")).init c ∧
      c.eventCh = [.memberJoined] ∧ ¬ c.Waits := by
  obtain ⟨c, hreach, hc⟩ := exists_reach_of_follow (A := coordinator (str "n"))
    Coordinator.roomy (coordinator (str "n")).init
    (fun c : Coordinator => decide (c.eventCh = [.memberJoined]))
    [.receiveSwim (.memberJoin (str "m") (str "a")), .step none] (by decide)
  exact ⟨c, hreach, of_decide_eq_true hc, run_never_waits (str "n") c hreach⟩

/-- `run` waits for ever when a member joins while `eventCh` is full, and when the
node has become leader and `c.isLeader` does not know yet. -/
theorem run_waits_for_itself :
    (∃ c, (coordinator (str "n")).Reach anyEvent (coordinator (str "n")).init c ∧
      c.phase = .sending .memberJoined none ∧ c.eventCh.length = 100 ∧
      ∀ c', (coordinator (str "n")).Reach anyEvent c c' → c'.Waits) ∧
    ∃ c, (coordinator (str "n")).Reach anyEvent (coordinator (str "n")).init c ∧
      c.phase = .awaiting ⟨.reloadConfig, .client⟩ ∧ c.commandCh = [⟨.reloadConfig, .own⟩] ∧
      ∀ c', (coordinator (str "n")).Reach anyEvent c c' → c'.Waits := by
  constructor
  · obtain ⟨c, hreach, hc⟩ := exists_reach_of_follow (A := coordinator (str "n"))
      anyEvent (coordinator (str "n")).init
      (fun c => c.phase = .sending .memberJoined none ∧ c.eventCh.length = 100)
      (List.replicate 100 (.emit .configChanged) ++
        [.receiveSwim (.memberJoin (str "m") (str "a"))]) (by decide +kernel)
    obtain ⟨hphase, hfull⟩ := hc
    have hwaits : c.Waits := .inl ⟨_, _, hphase, le_of_eq hfull.symm⟩
    exact ⟨c, hreach, hphase, hfull, fun _ hlater => hwaits.reach hlater⟩
  · obtain ⟨c, hreach, hc⟩ := exists_reach_of_follow (A := coordinator (str "n"))
      anyEvent (coordinator (str "n")).init
      (fun c => c.phase = .awaiting ⟨.reloadConfig, .client⟩ ∧
        c.commandCh = [⟨.reloadConfig, .own⟩])
      [.raft true (str "n"), .propose .reloadConfig, .receiveCommand, .step none, .step none,
        .step none] (by decide)
    obtain ⟨hphase, hcommands⟩ := hc
    have hwaits : c.Waits := .inr ⟨_, hphase⟩
    exact ⟨c, hreach, hphase, hcommands, fun _ hlater => hwaits.reach hlater⟩

end Geryon.Cluster
