import Geryon.Conc.Events
import Geryon.Raft.Log

/-!
# Applying committed entries

`sendCommittedToApply` and `ApplyCommitted` of `internal/raft/raft.go`.  The
first runs in the goroutine that handles messages, each time the commit index
has advanced.  The second is a goroutine of its own.  Between them is the
channel `applyCh`, which holds 100 entries, and the counter `lastApplied`: the
sender reads it to know what has not been applied yet, the worker writes it
after an entry has been applied.

A `Pipeline` is a node with the channel and with the places at which the two
goroutines are.
-/

namespace Geryon.Raft

open Go Conc List Automaton

/-! ## The model -/

/-- The place of the goroutine that handles messages. -/
inductive Sender where
  /-- Outside of `sendCommittedToApply`. -/
  | idle
  /-- The commit index has advanced, `sendCommittedToApply` starts. -/
  | called
  /-- In the loop over the entries.  `dropped` tells whether this call has found
  the channel full. -/
  | sending (entries : List Entry) (dropped : Bool)
  deriving DecidableEq

/-- The place of `ApplyCommitted`. -/
inductive Worker where
  /-- At the top of the loop. -/
  | waiting
  /-- With an entry from the channel. -/
  | received (entry : Entry)
  /-- After `fsm.Apply`, before `lastApplied.Store`. -/
  | handled (entry : Entry)
  /-- Before `maybeSnapshot`. -/
  | stored
  deriving DecidableEq

/-- No entry is being worked on. -/
def Worker.isFree : Worker → Bool
  | .waiting | .stored => true
  | .received _ | .handled _ => false

/-- What the code is given as state machine: whether there is one, and which
commands `json.Unmarshal` accepts. -/
structure FSM where
  present : Bool
  unmarshals : List UInt8 → Bool

structure Pipeline where
  node : Node
  applyCh : List Entry := []
  sender : Sender := .idle
  worker : Worker := .waiting
  /-- What has been handed to `fsm.Apply`, in order. -/
  applied : List Entry := []

def applyChCap : Nat := 100

/-- The entries that `sendCommittedToApply` collects. -/
def Node.unapplied (n : Node) : List Entry :=
  if n.commitIndex ≤ n.lastApplied then []
  else n.logEntries.filter fun entry =>
    decide (n.lastApplied < entry.index) && decide (entry.index ≤ n.commitIndex)

/-- The committed part of the log. -/
def Node.committed (n : Node) : List Entry :=
  n.logEntries.filter fun entry => decide (entry.index ≤ n.commitIndex)

/-- The atomic steps of the two goroutines. -/
inductive ApplyEvent where
  /-- `commitIndex.Store`. -/
  | advance (index : Nat)
  /-- `sendCommittedToApply` up to its second loop. -/
  | load
  /-- One round of the second loop, or its end. -/
  | send
  /-- `ApplyCommitted` takes an entry from the channel. -/
  | receive
  /-- The part of `ApplyCommitted` about the state machine. -/
  | handle
  | store
  deriving DecidableEq

namespace Pipeline

/-- The commit index advances within the log. -/
def advance (s : Pipeline) (index : Nat) : Option Pipeline :=
  if s.sender = .idle ∧ s.node.commitIndex < index ∧ index ≤ s.node.lastLogIndex then
    some { s with node := { s.node with commitIndex := index }, sender := .called }
  else none

def load (s : Pipeline) : Option Pipeline :=
  match s.sender with
  | .called => some { s with sender := .sending s.node.unapplied false }
  | _ => none

/-- The `select` with a `default` branch: a full channel loses the entry. -/
def send (s : Pipeline) : Option Pipeline :=
  match s.sender with
  | .sending [] _ => some { s with sender := .idle }
  | .sending (entry :: entries) dropped =>
    if s.applyCh.length < applyChCap then
      some { s with applyCh := s.applyCh ++ [entry], sender := .sending entries dropped }
    else some { s with sender := .sending entries true }
  | _ => none

def receive (s : Pipeline) : Option Pipeline :=
  match s.worker, s.applyCh with
  | .waiting, entry :: applyCh => some { s with applyCh, worker := .received entry }
  | _, _ => none

/-- A command that does not decode is skipped by `continue`. -/
def handle (fsm : FSM) (s : Pipeline) : Option Pipeline :=
  match s.worker with
  | .received entry =>
    if fsm.present then
      if fsm.unmarshals entry.command then
        some { s with applied := s.applied ++ [entry], worker := .handled entry }
      else some { s with worker := .waiting }
    else some { s with worker := .handled entry }
  | _ => none

def store (s : Pipeline) : Option Pipeline :=
  match s.worker with
  | .handled entry =>
    some { s with node := { s.node with lastApplied := entry.index }, worker := .stored }
  | _ => none

def step (fsm : FSM) (s : Pipeline) : ApplyEvent → Option Pipeline
  | .advance index => s.advance index
  | .load => s.load
  | .send => s.send
  | .receive => s.receive
  | .handle => s.handle fsm
  | .store => s.store

end Pipeline

inductive Pipeline.Stepped (fsm : FSM) (s : Pipeline) : ApplyEvent → Pipeline → Prop
  | advance {index : Nat} (hidle : s.sender = .idle) (hlt : s.node.commitIndex < index)
      (hle : index ≤ s.node.lastLogIndex) :
      Stepped fsm s (.advance index)
        { s with node := { s.node with commitIndex := index }, sender := .called }
  | load (hcalled : s.sender = .called) :
      Stepped fsm s .load { s with sender := .sending s.node.unapplied false }
  | finish {dropped : Bool} (hsending : s.sender = .sending [] dropped) :
      Stepped fsm s .send { s with sender := .idle }
  | send {entry : Entry} {entries : List Entry} {dropped : Bool}
      (hsending : s.sender = .sending (entry :: entries) dropped)
      (hroom : s.applyCh.length < applyChCap) :
      Stepped fsm s .send
        { s with applyCh := s.applyCh ++ [entry], sender := .sending entries dropped }
  | drop {entry : Entry} {entries : List Entry} {dropped : Bool}
      (hsending : s.sender = .sending (entry :: entries) dropped)
      (hfull : ¬ s.applyCh.length < applyChCap) :
      Stepped fsm s .send { s with sender := .sending entries true }
  | receive {entry : Entry} {applyCh : List Entry} (hwaiting : s.worker = .waiting)
      (hch : s.applyCh = entry :: applyCh) :
      Stepped fsm s .receive { s with applyCh, worker := .received entry }
  | apply {entry : Entry} (hreceived : s.worker = .received entry) (hfsm : fsm.present = true)
      (hcommand : fsm.unmarshals entry.command = true) :
      Stepped fsm s .handle
        { s with applied := s.applied ++ [entry], worker := .handled entry }
  | skip {entry : Entry} (hreceived : s.worker = .received entry) (hfsm : fsm.present = true)
      (hcommand : fsm.unmarshals entry.command = false) :
      Stepped fsm s .handle { s with worker := .waiting }
  | noFSM {entry : Entry} (hreceived : s.worker = .received entry) (hfsm : fsm.present = false) :
      Stepped fsm s .handle { s with worker := .handled entry }
  | store {entry : Entry} (hhandled : s.worker = .handled entry) :
      Stepped fsm s .store
        { s with node := { s.node with lastApplied := entry.index }, worker := .stored }

variable {e : ApplyEvent}

theorem Pipeline.stepped_of_step {fsm : FSM} {s s' : Pipeline}
    (h : s.step fsm e = some s') : s.Stepped fsm e s' := by
  cases e with
  | advance index =>
    simp only [Pipeline.step, Pipeline.advance] at h
    split at h
    · rename_i hcond
      cases h
      exact .advance hcond.1 hcond.2.1 hcond.2.2
    · cases h
  | load =>
    simp only [Pipeline.step, Pipeline.load] at h
    split at h
    · rename_i hcalled
      cases h
      exact .load hcalled
    · cases h
  | send =>
    simp only [Pipeline.step, Pipeline.send] at h
    split at h
    · rename_i hsending
      cases h
      exact .finish hsending
    · rename_i hsending
      split at h
      · rename_i hroom
        cases h
        exact .send hsending hroom
      · rename_i hfull
        cases h
        exact .drop hsending hfull
    · cases h
  | receive =>
    simp only [Pipeline.step, Pipeline.receive] at h
    split at h
    · rename_i hwaiting hch
      cases h
      exact .receive hwaiting hch
    · cases h
  | handle =>
    simp only [Pipeline.step, Pipeline.handle] at h
    split at h
    · rename_i hreceived
      split at h
      · rename_i hfsm
        split at h
        · rename_i hcommand
          cases h
          exact .apply hreceived hfsm hcommand
        · rename_i hcommand
          cases h
          exact .skip hreceived hfsm (Bool.eq_false_iff.mpr hcommand)
      · rename_i hfsm
        cases h
        exact .noFSM hreceived (Bool.eq_false_iff.mpr hfsm)
    · cases h
  | store =>
    simp only [Pipeline.step, Pipeline.store] at h
    split at h
    · rename_i hhandled
      cases h
      exact .store hhandled
    · cases h

/-! ## Runs on a log without gaps -/

inductive LogEvent where
  /-- The log changes behind what is committed. -/
  | log (entries : List Entry)
  | apply (e : ApplyEvent)
  /-- `maybeSnapshot`, which does nothing to what is modelled here. -/
  | snapshot

/-- A node whose log starts after the index `base` applies what is committed. -/
def pipeline (fsm : FSM) (base : Nat) (n : Node) : Automaton Pipeline LogEvent where
  init := { node := n }
  next s
    | .log entries =>
      let n' := { s.node with logEntries := entries }
      if IndexedFrom base entries ∧ n'.committed = s.node.committed then
        some { s with node := n' }
      else none
    | .apply e => s.step fsm e
    | .snapshot => if s.worker = .stored then some { s with worker := .waiting } else none

/-- `sendCommittedToApply` runs only when everything that it has sent before is applied,
it sends no more entries once it has lost one, and all commands decode. -/
def caughtUp (fsm : FSM) (s : Pipeline) : LogEvent → Bool
  | .apply .load =>
    decide (s.node.commitIndex ≤ s.node.lastApplied) || (s.applyCh.isEmpty && s.worker.isFree)
  | .apply .send =>
    match s.sender with
    | .sending (_ :: _) true => decide (applyChCap ≤ s.applyCh.length)
    | _ => true
  | .apply .handle =>
    match s.worker with
    | .received entry => !fsm.present || fsm.unmarshals entry.command
    | _ => true
  | _ => true

/-! ## The order -/

namespace Pipeline

/-- The entries that have been taken from the channel and not been applied. -/
def inHand (s : Pipeline) : List Entry :=
  match s.worker with
  | .received entry => [entry]
  | _ => []

/-- The entries that will still be sent in this call, if none is lost. -/
def toSend (s : Pipeline) : List Entry :=
  match s.sender with
  | .sending entries false => entries
  | _ => []

/-- Everything from the first applied entry to the last that will be sent. -/
def line (s : Pipeline) : List Entry := s.applied ++ s.inHand ++ s.applyCh ++ s.toSend

/-- How many of the applied entries `lastApplied` counts. -/
def counted (s : Pipeline) : Nat :=
  match s.worker with
  | .handled _ => s.applied.length - 1
  | _ => s.applied.length

/-- The line is a part of the committed log. -/
structure InOrder (base : Nat) (s : Pipeline) : Prop where
  ordered : s.line <+: s.node.committed
  counts : s.counted = 0 ∧ s.node.lastApplied ≤ base ∨ s.node.lastApplied = base + s.counted
  handled : ∀ {entry}, s.worker = .handled entry → s.applied.getLast? = some entry

variable {fsm : FSM} {base : Nat} {s s' : Pipeline}

theorem committed_eq (h : IndexedFrom base s.node.logEntries) :
    s.node.committed = s.node.logEntries.take (s.node.commitIndex - base) := h.filter_index_le _

variable (h : InOrder base s)
include h

section

variable (hlog : IndexedFrom base s.node.logEntries)
include hlog

/-- What `sendCommittedToApply` collects is what `lastApplied` does not count. -/
theorem InOrder.unapplied_eq (hlt : ¬ s.node.commitIndex ≤ s.node.lastApplied) :
    s.node.unapplied = s.node.committed.drop s.counted := by
  rw [Node.unapplied, if_neg hlt, hlog.filter_between, committed_eq hlog]
  obtain ⟨hzero, hle⟩ | heq := h.counts
  · rw [hzero, Nat.sub_eq_zero_of_le hle]
  · rw [heq, Nat.add_sub_cancel_left]

/-- The last applied entry has the index that the number of applied entries
says. -/
theorem InOrder.index_handled {entry : Entry} (hhandled : s.worker = .handled entry) :
    entry.index = base + s.applied.length := by
  have hlast := h.handled hhandled
  have hpos : 0 < s.applied.length := by
    rw [length_pos_iff]
    intro hnil
    rw [hnil] at hlast
    cases hlast
  have happlied : s.applied <+: s.node.committed := by
    refine List.IsPrefix.trans ?_ h.ordered
    rw [line, append_assoc, append_assoc]
    exact prefix_append _ _
  rw [committed_eq hlog] at happlied
  rw [getLast?_eq_getElem?] at hlast
  have hget := getElem?_of_initial (happlied.trans <| take_prefix _ _) hlast
  have := hlog _ _ hget
  omega

end

theorem InOrder.of_sender (happlied : s'.applied = s.applied)
    (hworker : s'.worker = s.worker) (hlast : s'.node.lastApplied = s.node.lastApplied)
    (hline : s'.line <+: s'.node.committed) : InOrder base s' where
  ordered := hline
  counts := by
    rw [counted, happlied, hworker, hlast]
    exact h.counts
  handled := by
    rw [happlied, hworker]
    exact h.handled

theorem InOrder.stepped (hlog : IndexedFrom base s.node.logEntries)
    (hfsm : fsm.present = true) (hok : caughtUp fsm s (.apply e) = true)
    (hstep : s.Stepped fsm e s') : InOrder base s' := by
  cases hstep with
  | @advance index hidle hlt hle =>
    refine h.of_sender rfl rfl rfl ?_
    have hgrows : s.node.committed <+:
        ({ s.node with commitIndex := index } : Node).committed := by
      rw [Node.committed, Node.committed, hlog.filter_index_le, hlog.filter_index_le]
      exact take_prefix_take_left (Nat.sub_le_sub_right hlt.le base)
    have hline := h.ordered
    rw [line, toSend, hidle] at hline
    exact hline.trans hgrows
  | load hcalled =>
    refine h.of_sender rfl rfl rfl ?_
    have hline := h.ordered
    rw [line, toSend, hcalled] at hline
    by_cases hle : s.node.commitIndex ≤ s.node.lastApplied
    · rw [line, toSend, Node.unapplied, if_pos hle]
      exact hline
    · -- Everything sent before is applied and counted.
      simp only [caughtUp, decide_eq_false hle, Bool.false_or, Bool.and_eq_true,
        List.isEmpty_iff] at hok
      obtain ⟨hempty, hfree⟩ := hok
      have hhand : s.inHand = [] ∧ s.counted = s.applied.length := by
        rw [inHand, counted]
        cases hworker : s.worker <;> simp_all [Worker.isFree]
      rw [hempty, hhand.1, append_nil, append_nil, append_nil] at hline
      have hall : s.applied ++ s.node.unapplied = s.node.committed := by
        rw [h.unapplied_eq hlog hle, hhand.2]
        exact (prefix_append_drop hline).symm
      have hline' : line { s with sender := .sending s.node.unapplied false } =
          s.applied ++ s.node.unapplied := by
        rw [line, hempty]
        show s.applied ++ s.inHand ++ [] ++ s.node.unapplied = _
        rw [hhand.1, append_nil, append_nil]
      rw [hline', hall]
  | @finish dropped hsending =>
    refine h.of_sender rfl rfl rfl ?_
    have hline := h.ordered
    rw [line, toSend, hsending] at hline
    cases dropped <;> exact hline
  | @send entry entries dropped hsending hroom =>
    refine h.of_sender rfl rfl rfl ?_
    cases dropped with
    | true =>
      simp only [caughtUp, hsending, decide_eq_true_iff] at hok
      omega
    | false =>
      have hline := h.ordered
      rw [line, toSend, hsending] at hline
      show s.applied ++ s.inHand ++ (s.applyCh ++ [entry]) ++ entries <+: s.node.committed
      rw [← append_assoc, append_assoc _ [entry]]
      exact hline
  | drop =>
    refine h.of_sender rfl rfl rfl ?_
    refine List.IsPrefix.trans ?_ h.ordered
    show s.applied ++ s.inHand ++ s.applyCh ++ [] <+: s.line
    rw [append_nil, line]
    exact prefix_append _ _
  | @receive entry applyCh hwaiting hch =>
    have hcounts := h.counts
    rw [counted, hwaiting] at hcounts
    refine ⟨?_, hcounts, by simp⟩
    have hline := h.ordered
    rw [line, inHand, hwaiting, hch, append_nil] at hline
    show s.applied ++ [entry] ++ applyCh ++ s.toSend <+: s.node.committed
    rw [append_assoc s.applied]
    exact hline
  | @apply entry hreceived _ hcommand =>
    have hcounts := h.counts
    rw [counted, hreceived] at hcounts
    refine ⟨?_, ?_, ?_⟩
    · have hline := h.ordered
      rw [line, inHand, hreceived] at hline
      show s.applied ++ [entry] ++ [] ++ s.applyCh ++ s.toSend <+: s.node.committed
      rw [append_nil]
      exact hline
    · simpa [counted] using hcounts
    · intro entry' hentry
      cases hentry
      exact getLast?_concat
  | skip hreceived _ hcommand =>
    simp [caughtUp, hreceived, hfsm, hcommand] at hok
  | noFSM hreceived hnot => exact absurd hfsm (by rw [hnot]; decide)
  | store hhandled =>
    refine ⟨?_, .inr (h.index_handled hlog hhandled), by simp⟩
    have hline := h.ordered
    rw [line, inHand, hhandled] at hline
    exact hline

end Pipeline

/-! ## The result -/

variable {fsm : FSM} {base : Nat} {n : Node} {s s' : Pipeline}

/-- What holds all along a run. -/
structure Tidy (fsm : FSM) (base : Nat) (s : Pipeline) : Prop where
  log : IndexedFrom base s.node.logEntries
  inOrder : fsm.present = true → s.InOrder base
  noFSM : fsm.present = false → s.applied = []

theorem Pipeline.Stepped.log (h : s.Stepped fsm e s') : s'.node.logEntries = s.node.logEntries := by
  cases h <;> rfl

theorem Pipeline.Stepped.noFSM_applied (h : s.Stepped fsm e s')
    (hfsm : fsm.present = false) : s'.applied = s.applied := by
  cases h with
  | apply _ hpresent => exact absurd hpresent (by rw [hfsm]; decide)
  | _ => rfl

theorem Tidy.next (h : Tidy fsm base s) {e : LogEvent} (hok : caughtUp fsm s e = true)
    (hnext : (pipeline fsm base n).next s e = some s') : Tidy fsm base s' := by
  cases e with
  | log entries =>
    simp only [pipeline] at hnext
    split at hnext
    · rename_i hcond
      cases hnext
      refine ⟨hcond.1, ?_, h.noFSM⟩
      intro hfsm
      refine (h.inOrder hfsm).of_sender rfl rfl rfl ?_
      rw [hcond.2]
      exact (h.inOrder hfsm).ordered
    · cases hnext
  | apply e =>
    have hstep := Pipeline.stepped_of_step hnext
    refine ⟨by rw [hstep.log]; exact h.log, ?_, ?_⟩
    · intro hfsm
      exact (h.inOrder hfsm).stepped h.log hfsm hok hstep
    · intro hfsm
      rw [hstep.noFSM_applied hfsm, h.noFSM hfsm]
  | snapshot =>
    simp only [pipeline] at hnext
    split at hnext
    · rename_i hstored
      cases hnext
      refine ⟨h.log, ?_, h.noFSM⟩
      intro hfsm
      obtain ⟨hordered, hcounts, -⟩ := h.inOrder hfsm
      rw [Pipeline.line, Pipeline.inHand, hstored] at hordered
      rw [Pipeline.counted, hstored] at hcounts
      exact ⟨hordered, hcounts, by simp⟩
    · cases hnext

/-- Exactly-once, in-order application: if the entries sent before are applied
whenever `sendCommittedToApply` starts, if it sends nothing after an entry that
was lost, and if all commands decode, then what has been handed to the state
machine is the beginning of the committed log. -/
theorem applied_prefix_committed (fsm : FSM) (base : Nat) (n : Node)
    (hlog : IndexedFrom base n.logEntries) (hlast : n.lastApplied ≤ base) {s : Pipeline}
    (hreach : (pipeline fsm base n).Reach (caughtUp fsm) (pipeline fsm base n).init s) :
    s.applied <+: s.node.committed := by
  have hstart : Tidy fsm base (pipeline fsm base n).init := by
    refine ⟨hlog, ?_, fun _ => rfl⟩
    intro _
    refine ⟨?_, .inl ⟨rfl, hlast⟩, by simp [pipeline]⟩
    exact nil_prefix
  have h := invariant hreach hstart
    (fun h hok hnext => h.next hok hnext)
  cases hfsm : fsm.present with
  | false =>
    rw [h.noFSM hfsm]
    exact nil_prefix
  | true =>
    refine List.IsPrefix.trans ?_ (h.inOrder hfsm).ordered
    rw [Pipeline.line, append_assoc, append_assoc]
    exact prefix_append _ _

/-- A state machine that accepts every command. -/
def anyCommand : FSM := ⟨true, fun _ => true⟩

def twoEntries : Node := newNode (str "a") [str "b", str "c"] [⟨1, 1, [7]⟩, ⟨1, 2, [8]⟩] none

/-- One entry on its way through the pipeline. -/
def applyNext : List LogEvent := [.apply .receive, .apply .handle, .apply .store, .snapshot]

theorem twoEntries_applied :
    ∃ s, (IndexedFrom 0 twoEntries.logEntries ∧ twoEntries.lastApplied ≤ 0 ∧
      (pipeline anyCommand 0 twoEntries).Reach (caughtUp anyCommand)
        (pipeline anyCommand 0 twoEntries).init s ∧ s.applied.length = 2) ∧
      s.applied <+: s.node.committed := by
  have hlog : IndexedFrom 0 twoEntries.logEntries := by decide
  obtain ⟨s, hreach, hf⟩ := exists_reach_of_follow
    (A := pipeline anyCommand 0 twoEntries) (caughtUp anyCommand)
    (pipeline anyCommand 0 twoEntries).init (fun s => s.applied.length = 2)
    ([.apply (.advance 1), .apply .load, .apply .send, .apply .send] ++ applyNext ++
      [.apply (.advance 2), .apply .load, .apply .send, .apply .send] ++ applyNext)
    (by decide +kernel)
  exact ⟨s, ⟨hlog, le_rfl, hreach, hf⟩,
    applied_prefix_committed anyCommand 0 twoEntries hlog le_rfl hreach⟩

/-- The commit index advances again while the first entry waits in the channel. -/
theorem twoEntries_applied_twice : ∃ s, (pipeline anyCommand 0 twoEntries).Reach anyEvent
        (pipeline anyCommand 0 twoEntries).init s ∧
      s.applied = [⟨1, 1, [7]⟩, ⟨1, 1, [7]⟩] ∧ ¬ s.applied <+: s.node.committed := by
  exact exists_reach_of_follow _ _ _
    ([.apply (.advance 1), .apply .load, .apply .send, .apply .send,
      .apply (.advance 2), .apply .load, .apply .send, .apply .send, .apply .send] ++
      applyNext ++ applyNext)
    (by decide +kernel)

end Geryon.Raft
