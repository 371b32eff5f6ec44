import Geryon.Conc.Events
import Geryon.Swim.Protocol

/-!
# Probes and suspicion

`probeRandomMember` with its delayed check, `suspectMember`, `checkSuspects` and
`markDead`, next to the handlers of messages.  Each is cut where it releases a
lock, and their steps interleave in any way, while the clock moves on.

The delayed check wants to know whether the probe was answered.  It compares the
`LastProbe` of the member in the table with that of the member it has probed; but
this is the same member, so the answer is always that there was none.  And
`checkSuspects` measures from the last probe, not from the suspicion.

What a probe should find out is kept beside the state: for each check whether
an Ack came since the ping, for each member since when it has been suspected,
and the list of all moves to Suspect by a check and to Dead by a scan.
-/

namespace Geryon.Swim

open Go Conc List Automaton Option

/-! ## Probes -/

/-- `now.Sub(m.LastProbe) > timeout`.  The zero time is long ago. -/
def Member.overdue (m : Member) (now timeout : Nat) : Bool :=
  match m.lastProbe with
  | none => true
  | some t => decide (timeout < now - t)

namespace Protocol

def stateOf (p : Protocol) (id : Str) : Option MemberState :=
  (p.members.lookup id).map Member.state

/-- The members that `selectRandomMember` chooses from. -/
def selectable (p : Protocol) (id : Str) : Bool :=
  decide (p.stateOf id = some .alive ∧ id ≠ p.id)

/-- The locked part of `suspectMember`. -/
def suspectMember (p : Protocol) (id : Str) : Protocol :=
  p.modify id fun m => if m.state = .alive then { m with state := .suspect } else m

/-- The locked part of `checkSuspects`. -/
def checkSuspects (p : Protocol) (now suspectTimeout : Nat) : List Str :=
  (p.members.entries.filter fun e =>
    decide (e.2.state = .suspect) && e.2.overdue now suspectTimeout).map Sigma.fst

/-- The locked part of `markDead`. -/
def markDead (p : Protocol) (id : Str) : Protocol :=
  p.modify id fun m => { m with state := .dead }

end Protocol

/-- How far `probeRandomMember` has got. -/
inductive Prober where
  | idle
  | selected (id : Str)
  /-- The channel `cancelCh` has been made. -/
  | armed (id : Str) (cancelCh : Nat)
  deriving DecidableEq

/-- How far the goroutine of a probe has got. -/
inductive CheckPhase where
  | waiting
  /-- The members have been compared, and `suspectMember` is called next. -/
  | suspecting
  | cleaning
  deriving DecidableEq

/-- The goroutine of a probe.  `acked` says whether an Ack of the member has been
handled since the ping. -/
structure Check where
  cancelCh : Nat
  id : Str
  cancelled : Bool := false
  phase : CheckPhase := .waiting
  acked : Bool := false

/-- What a check and a scan do to a member. -/
inductive Move where
  | suspected (id : Str) (acked : Bool)
  | killed (id : Str) (now : Nat) (since : Option Nat)
  deriving DecidableEq

/-- An update of a new member, from when it is entered until it is filled in. -/
structure Joining where
  id : Str
  addr : Str
  incarnation : Nat

/-- A node, its goroutines and the clock. -/
structure Watch where
  proto : Protocol
  now : Nat
  suspectTimeout : Nat := 5000000000
  prober : Prober := .idle
  pendingProbes : AList (fun _ : Str => Nat) := ∅
  channels : Nat := 0
  checks : List Check := []
  joining : List Joining := []
  /-- The members that `checkSuspects` has found and not yet marked. -/
  suspects : List Str := []
  /-- Since when a member has been suspected. -/
  since : Str → Option Nat := fun _ => none
  moves : List Move := []

inductive WatchEvent where
  | tick (now : Nat)
  /-- `updateMember`, up to its end or to the sending of the event. -/
  | update (id addr : Str) (incarnation : Nat)
  /-- The rest of `updateMember` for a new member. -/
  | joined (k : Nat)
  | handleAck (msg : Message)
  | handleSuspect (msg : Message)
  | handleDead (msg : Message)
  /-- `selectRandomMember`. -/
  | select (id : Str)
  /-- The pending probe of the member is cancelled and replaced. -/
  | arm
  /-- `LastProbe` is set, the ping is sent and the goroutine is started. -/
  | ping
  /-- A goroutine finds its channel closed. -/
  | cancelled (k : Nat)
  /-- The timer of a goroutine fires, and it compares the members. -/
  | timeout (k : Nat)
  /-- A goroutine calls `suspectMember`. -/
  | suspect (k : Nat)
  /-- A goroutine removes its pending probe and ends. -/
  | cleanup (k : Nat)
  /-- `checkSuspects` looks for suspects. -/
  | scan
  /-- `markDead` of the next suspect. -/
  | mark

namespace Watch

variable (net : Net)

def see (w : Watch) (p : Protocol) : Watch :=
  { w with
    proto := p
    since := fun id =>
      if p.stateOf id = some .suspect then
        if w.proto.stateOf id = some .suspect then w.since id else some w.now
      else none }

/-- The checks of a member after an Ack from it. -/
def ackChecks (w : Watch) (id : Str) : List Check :=
  w.checks.map fun c => if c.id = id then { c with acked := true } else c

def closeCh (w : Watch) (cancelCh : Nat) : List Check :=
  w.checks.map fun c => if c.cancelCh = cancelCh then { c with cancelled := true } else c

def setPhase (w : Watch) (k : Nat) (phase : CheckPhase) : List Check :=
  w.checks.modify k fun c => { c with phase := phase }

def step (w : Watch) : WatchEvent → Option Watch
  | .tick now => if w.now ≤ now then some { w with now := now } else none
  | .update id addr incarnation =>
    if addr ≠ [] ∧ net.isValidAddress addr = false then some w
    else
      match w.proto.members.lookup id with
      | some _ => some (w.see (w.proto.refresh w.now id addr .alive incarnation))
      | none =>
        some { w.see (w.proto.register id addr) with
          joining := w.joining ++ [⟨id, addr, incarnation⟩] }
  | .joined k =>
    (w.joining[k]?).map fun j =>
      { w.see (w.proto.refresh w.now j.id j.addr .alive j.incarnation) with
        joining := w.joining.eraseIdx k }
  | .handleAck msg =>
    some { w.see (w.proto.handleAck w.now msg).1 with checks := w.ackChecks msg.source }
  | .handleSuspect msg => some (w.see (w.proto.handleSuspect msg).1)
  | .handleDead msg => some (w.see (w.proto.handleDead msg).1)
  | .select id =>
    if w.prober = .idle ∧ w.proto.selectable id then some { w with prober := .selected id }
    else none
  | .arm =>
    match w.prober with
    | .selected id =>
      some { w with
        prober := .armed id w.channels
        channels := w.channels + 1
        pendingProbes := w.pendingProbes.insert id w.channels
        checks := (w.pendingProbes.lookup id).elim w.checks w.closeCh }
    | _ => none
  | .ping =>
    match w.prober with
    | .armed id cancelCh =>
      some { w.see (w.proto.modify id fun m => { m with lastProbe := some w.now }) with
        prober := .idle
        checks := w.checks ++ [{ cancelCh := cancelCh, id := id }] }
    | _ => none
  | .cancelled k =>
    match w.checks[k]? with
    | some c =>
      if c.phase = .waiting ∧ c.cancelled then some { w with checks := w.checks.eraseIdx k }
      else none
    | none => none
  | .timeout k =>
    match w.checks[k]? with
    | some c =>
      if c.phase = .waiting then
        -- The member that was probed is the one in the table.
        let same := (w.proto.members.lookup c.id).any fun m =>
          decide (some m.lastProbe = (w.proto.members.lookup c.id).map Member.lastProbe)
        some { w with checks := w.setPhase k (if same then .suspecting else .cleaning) }
      else none
    | none => none
  | .suspect k =>
    match w.checks[k]? with
    | some c =>
      if c.phase = .suspecting then
        some { w.see (w.proto.suspectMember c.id) with
          checks := w.setPhase k .cleaning
          moves := w.moves ++
            if w.proto.stateOf c.id = some .alive then [.suspected c.id c.acked] else [] }
      else none
    | none => none
  | .cleanup k =>
    match w.checks[k]? with
    | some c =>
      if c.phase = .cleaning then
        some { w with
          checks := w.checks.eraseIdx k
          pendingProbes :=
            if w.pendingProbes.lookup c.id = some c.cancelCh then w.pendingProbes.erase c.id
            else w.pendingProbes }
      else none
    | none => none
  | .scan =>
    if w.suspects = [] then
      some { w with suspects := w.proto.checkSuspects w.now w.suspectTimeout }
    else none
  | .mark =>
    match w.suspects with
    | [] => none
    | id :: rest =>
      some { w.see (w.proto.markDead id) with
        suspects := rest
        moves := w.moves ++
          if w.proto.stateOf id = some .dead ∨ w.proto.stateOf id = none then []
          else [.killed id w.now (w.since id)] }

end Watch

def watch (net : Net) (id addr : Str) (now : Nat) : Automaton Watch WatchEvent where
  init := { proto := { id := id, addr := addr }, now := now }
  next := Watch.step net

/-! ## The moves as they should be -/

/-- The check finds that there was no Ack since the ping; the scan finds that the
member has been suspected for longer than the timeout. -/
def Move.Right (timeout : Nat) : Move → Prop
  | .suspected _ acked => acked = false
  | .killed _ now since => ∃ s, since = some s ∧ s + timeout < now

/-- The member has been probed within the last `delay`, or is suspected already. -/
def Watch.fresh (w : Watch) (delay : Nat) (id : Str) : Bool :=
  (w.proto.members.lookup id).all fun m =>
    decide (m.state = .suspect) || !m.overdue w.now delay

/-- An Ack is handled only when no check of the member is under way.  A member becomes
Suspect at most `delay` after its last probe.  There is no scan while the last probe of
a suspect is between the timeout and the timeout plus `delay` ago.  Only Suspect
messages are heard of a member that the scan has found, until it is marked. -/
def Watch.unhurried (delay : Nat) (w : Watch) : WatchEvent → Bool
  | .handleAck msg =>
    (w.checks.all fun c => decide (c.id ≠ msg.source ∨ c.phase = .cleaning)) &&
      !w.suspects.contains msg.source
  | .update id _ _ => !w.suspects.contains id
  | .joined k => (w.joining[k]?).all fun j => !w.suspects.contains j.id
  | .handleDead msg => !w.suspects.contains msg.target
  | .handleSuspect msg => w.fresh delay msg.target
  | .suspect k => (w.checks[k]?).all fun c => w.fresh delay c.id
  | .scan =>
    w.proto.members.entries.all fun e =>
      decide (e.2.state ≠ .suspect) || !e.2.overdue w.now w.suspectTimeout ||
        e.2.overdue w.now (w.suspectTimeout + delay)
  | _ => true

/-! ## What holds all the time -/

/-- A member that is suspected was probed at most `delay` before; a member that
the scan has found has been suspected long enough; a check that is still to be
made has not been answered; and so all moves are right. -/
structure Watch.Timely (delay : Nat) (w : Watch) : Prop where
  probed : ∀ id m, w.proto.members.lookup id = some m →
    ∀ t, m.lastProbe = some t → t ≤ w.now
  suspected : ∀ id m, w.proto.members.lookup id = some m → m.state = .suspect →
    ∃ t s, m.lastProbe = some t ∧ w.since id = some s ∧ s ≤ t + delay ∧ s ≤ w.now
  found : ∀ id ∈ w.suspects, w.proto.stateOf id = some .suspect ∧
    ∃ s, w.since id = some s ∧ s + w.suspectTimeout < w.now
  nodup : w.suspects.Nodup
  unanswered : ∀ c ∈ w.checks, c.phase ≠ .cleaning → c.acked = false
  right : ∀ move ∈ w.moves, move.Right w.suspectTimeout

namespace Watch

variable {net : Net} {w w' : Watch} {delay : Nat} {id : Str} {p : Protocol}

theorem stateOf_eq {m : Member} (h : p.members.lookup id = some m) :
    p.stateOf id = some m.state := by
  rw [Protocol.stateOf, h]
  rfl

theorem exists_of_stateOf {state : MemberState} (h : p.stateOf id = some state) :
    ∃ m, p.members.lookup id = some m ∧ m.state = state :=
  map_eq_some_iff.mp h

theorem since_see_kept (hbefore : w.proto.stateOf id = some .suspect)
    (hafter : p.stateOf id = some .suspect) : (w.see p).since id = w.since id := by
  simp only [see, if_pos hafter, if_pos hbefore]

/-- A change of the table.  Whoever is suspected afterwards was so before, or was
probed at most `delay` ago. -/
theorem Timely.see (h : w.Timely delay)
    (hprobed : ∀ id m, p.members.lookup id = some m → ∀ t, m.lastProbe = some t → t ≤ w.now)
    (hsuspected : ∀ id m', p.members.lookup id = some m' → m'.state = .suspect →
      (∃ m, w.proto.members.lookup id = some m ∧ m.state = .suspect ∧
        ∀ t, m.lastProbe = some t → ∃ t', m'.lastProbe = some t' ∧ t ≤ t') ∨
      ∃ t, m'.lastProbe = some t ∧ w.now ≤ t + delay)
    (hfound : ∀ id ∈ w.suspects, p.stateOf id = some .suspect) : (w.see p).Timely delay where
  probed := hprobed
  suspected := by
    intro id m' hm' hstate
    have hafter : p.stateOf id = some .suspect := (stateOf_eq hm').trans (congrArg some hstate)
    obtain ⟨m, hm, hsuspect, hgrow⟩ | ⟨t, ht, hnow⟩ := hsuspected id m' hm' hstate
    · obtain ⟨t, s, ht, hs, hle, hsnow⟩ := h.suspected id m hm hsuspect
      obtain ⟨t', ht', htt'⟩ := hgrow t ht
      have hbefore : w.proto.stateOf id = some .suspect := by rw [stateOf_eq hm, hsuspect]
      exact ⟨t', s, ht', by rw [since_see_kept hbefore hafter, hs], by omega, hsnow⟩
    · by_cases hbefore : w.proto.stateOf id = some .suspect
      · obtain ⟨m, hm, hsuspect⟩ := exists_of_stateOf hbefore
        obtain ⟨-, s, -, hs, -, hsnow⟩ := h.suspected id m hm hsuspect
        exact ⟨t, s, ht, by rw [since_see_kept hbefore hafter, hs], by omega, hsnow⟩
      · refine ⟨t, w.now, ht, ?_, hnow, le_rfl⟩
        simp only [Watch.see, if_pos hafter, if_neg hbefore]
  found := by
    intro id hid
    obtain ⟨hbefore, s, hs, hlt⟩ := h.found id hid
    exact ⟨hfound id hid, s, by rw [since_see_kept hbefore (hfound id hid), hs], hlt⟩
  nodup := h.nodup
  unanswered := h.unanswered
  right := h.right

variable {f : Member → Member}

theorem Timely.modify (h : w.Timely delay)
    (hf : ∀ m, w.proto.members.lookup id = some m → (∀ t, (f m).lastProbe = some t → t ≤ w.now) ∧
      ((f m).state = .suspect →
        (m.state = .suspect ∧ ∀ t, m.lastProbe = some t → ∃ t', (f m).lastProbe = some t' ∧ t ≤ t') ∨
        ∃ t, (f m).lastProbe = some t ∧ w.now ≤ t + delay) ∧
      (id ∈ w.suspects → (f m).state = .suspect)) : (w.see (w.proto.modify id f)).Timely delay := by
  refine h.see ?_ ?_ ?_
  · intro id' m' hm'
    by_cases hid : id' = id
    · rw [hid, Protocol.lookup_modify_self] at hm'
      obtain ⟨m, hm, rfl⟩ := map_eq_some_iff.mp hm'
      exact (hf m hm).1
    · rw [Protocol.lookup_modify_ne hid] at hm'
      exact h.probed id' m' hm'
  · intro id' m' hm' hstate
    by_cases hid : id' = id
    · rw [hid, Protocol.lookup_modify_self] at hm'
      obtain ⟨m, hm, rfl⟩ := map_eq_some_iff.mp hm'
      obtain ⟨hsuspect, hgrow⟩ | hrecent := (hf m hm).2.1 hstate
      · exact .inl ⟨m, hid ▸ hm, hsuspect, hgrow⟩
      · exact .inr hrecent
    · rw [Protocol.lookup_modify_ne hid] at hm'
      exact .inl ⟨m', hm', hstate, fun t ht => ⟨t, ht, le_rfl⟩⟩
  · intro id' hid'
    obtain ⟨hbefore, -⟩ := h.found id' hid'
    obtain ⟨m, hm, hstate⟩ := exists_of_stateOf hbefore
    by_cases hid : id' = id
    · rw [hid] at hm hid' ⊢
      rw [Protocol.stateOf, Protocol.lookup_modify_self, hm, map_some, map_some, (hf m hm).2.2 hid']
    · rw [Protocol.stateOf, Protocol.lookup_modify_ne hid, hm, map_some, hstate]

theorem lastProbe_kept {m m' : Member} (h : m'.lastProbe = m.lastProbe) :
    ∀ t, m.lastProbe = some t → ∃ t', m'.lastProbe = some t' ∧ t ≤ t' :=
  fun t ht => ⟨t, h.trans ht, le_rfl⟩

theorem Timely.refresh (h : w.Timely delay) (hid : id ∉ w.suspects) (addr : Str)
    (incarnation : Nat) :
    (w.see (w.proto.refresh w.now id addr .alive incarnation)).Timely delay := by
  refine h.modify fun m hm => ⟨?_, ?_, fun hmem => absurd hmem hid⟩
  · split
    · exact h.probed id m hm
    · exact h.probed id m hm
  · split
    · intro halive
      cases halive
    · exact fun hsuspect => .inl ⟨hsuspect, lastProbe_kept rfl⟩

theorem Timely.register (h : w.Timely delay) {addr : Str}
    (hunknown : w.proto.members.lookup id = none) :
    (w.see (w.proto.register id addr)).Timely delay := by
  have hnew := @Protocol.lookup_register_unknown w.proto id addr hunknown
  refine h.see ?_ ?_ ?_
  · intro id' m' hm'
    by_cases hid : id' = id
    · rw [hid, hnew] at hm'
      cases hm'
      intro t ht
      cases ht
    · rw [Protocol.lookup_register_ne hid] at hm'
      exact h.probed id' m' hm'
  · intro id' m' hm' hstate
    by_cases hid : id' = id
    · rw [hid, hnew] at hm'
      cases hm'
      cases hstate
    · rw [Protocol.lookup_register_ne hid] at hm'
      exact .inl ⟨m', hm', hstate, lastProbe_kept rfl⟩
  · intro id' hid'
    obtain ⟨hbefore, -⟩ := h.found id' hid'
    obtain ⟨m, hm, hstate⟩ := exists_of_stateOf hbefore
    have hid : id' ≠ id := by
      intro heq
      rw [heq, hunknown] at hm
      cases hm
    rw [Protocol.stateOf, Protocol.lookup_register_ne hid, hm, map_some, hstate]

theorem recent_of_fresh {m : Member} (hfresh : w.fresh delay id = true)
    (hm : w.proto.members.lookup id = some m) (hstate : m.state ≠ .suspect) :
    ∃ t, m.lastProbe = some t ∧ w.now ≤ t + delay := by
  rw [fresh, hm] at hfresh
  simp only [all_some, Bool.or_eq_true, decide_eq_true_eq, hstate, false_or,
    Bool.not_eq_true', Member.overdue] at hfresh
  split at hfresh
  · cases hfresh
  · rename_i t ht
    refine ⟨t, ht, ?_⟩
    have hle : ¬ delay < w.now - t := by simpa only [decide_eq_false_iff_not] using hfresh
    omega

namespace Timely

variable (h : w.Timely delay)
include h

/-- The member is accused, or not, and has been probed lately. -/
theorem accuse {c : Member → Prop} [DecidablePred c]
    (hfresh : w.fresh delay id = true) : (w.see (w.proto.modify id fun m =>
      if c m then { m with state := .suspect } else m)).Timely delay := by
  refine h.modify fun m hm => ⟨?_, ?_, ?_⟩
  · split
    · exact h.probed id m hm
    · exact h.probed id m hm
  · intro hsuspect
    by_cases hstate : m.state = .suspect
    · refine .inl ⟨hstate, lastProbe_kept ?_⟩
      split
      · rfl
      · rfl
    · obtain ⟨t, ht, hnow⟩ := recent_of_fresh hfresh hm hstate
      refine .inr ⟨t, ?_, hnow⟩
      split
      · exact ht
      · exact ht
  · intro hmem
    obtain ⟨hbefore, -⟩ := h.found id hmem
    rw [stateOf_eq hm] at hbefore
    split
    · rfl
    · exact some.inj hbefore

theorem clear (hid : id ∉ w.suspects) (hprobe : ∀ m, (f m).lastProbe = m.lastProbe)
    (hstate : ∀ m, (f m).state = .suspect → m.state = .suspect) :
    (w.see (w.proto.modify id f)).Timely delay := by
  refine h.modify fun m hm => ⟨?_, ?_, fun hmem => absurd hmem hid⟩
  · intro t ht
    rw [hprobe] at ht
    exact h.probed id m hm t ht
  · exact fun hsuspect => .inl ⟨hstate m hsuspect, lastProbe_kept (hprobe m)⟩

theorem ping :
    (w.see (w.proto.modify id fun m => { m with lastProbe := some w.now })).Timely delay := by
  refine h.modify fun m hm => ⟨?_, ?_, ?_⟩
  · intro t ht
    cases ht
    exact le_rfl
  · exact fun hsuspect => .inl ⟨hsuspect, fun t ht => ⟨w.now, rfl, h.probed id m hm t ht⟩⟩
  · intro hmem
    obtain ⟨hbefore, -⟩ := h.found id hmem
    rw [stateOf_eq hm] at hbefore
    exact some.inj hbefore

theorem record {moves : List Move} (hmoves : ∀ move ∈ moves, move.Right w.suspectTimeout) :
    ({ w with moves := w.moves ++ moves } : Watch).Timely delay :=
  { h with
    right := by
      intro move hmove
      obtain hmove | hmove := mem_append.mp hmove
      · exact h.right move hmove
      · exact hmoves move hmove }

theorem tick {now : Nat} (hnow : w.now ≤ now) : ({ w with now := now } : Watch).Timely delay where
  probed := fun id m hm t ht => le_trans (h.probed id m hm t ht) hnow
  suspected := by
    intro id m hm hstate
    obtain ⟨t, s, ht, hs, hle, hsnow⟩ := h.suspected id m hm hstate
    exact ⟨t, s, ht, hs, hle, le_trans hsnow hnow⟩
  found := by
    intro id hid
    obtain ⟨hstate, s, hs, hlt⟩ := h.found id hid
    exact ⟨hstate, s, hs, lt_of_lt_of_le hlt hnow⟩
  nodup := h.nodup
  unanswered := h.unanswered
  right := h.right

theorem scan (hok : w.unhurried delay .scan = true) :
    ({ w with suspects := w.proto.checkSuspects w.now w.suspectTimeout } : Watch).Timely delay :=
  { h with
    found := by
      intro id hid
      obtain ⟨e, he, rfl⟩ := mem_map.mp hid
      obtain ⟨hmem, hfilter⟩ := mem_filter.mp he
      obtain ⟨hstate, hoverdue⟩ := Bool.and_eq_true_iff.mp hfilter
      have hstate := of_decide_eq_true hstate
      have hlookup : w.proto.members.lookup e.1 = some e.2 := AList.mem_lookup_iff.mpr hmem
      obtain ⟨t, s, ht, hs, hle, -⟩ := h.suspected e.1 e.2 hlookup hstate
      have hlate := all_eq_true.mp hok e hmem
      rw [hoverdue, Member.overdue, ht] at hlate
      have hlate' : w.suspectTimeout + delay < w.now - t := by simpa [hstate] using hlate
      refine ⟨(stateOf_eq hlookup).trans (congrArg some hstate), s, hs, ?_⟩
      show s + w.suspectTimeout < w.now
      omega
    nodup := (List.Sublist.map Sigma.fst filter_sublist).nodup w.proto.members.keys_nodup }

theorem mark {rest : List Str} (hsuspects : w.suspects = id :: rest) :
    ({ w.see (w.proto.markDead id) with
        suspects := rest
        moves := w.moves ++
          if w.proto.stateOf id = some .dead ∨ w.proto.stateOf id = none then []
          else [.killed id w.now (w.since id)] } : Watch).Timely delay := by
  obtain ⟨hid, hrest⟩ := nodup_cons.mp (hsuspects ▸ h.nodup)
  have hless : ({ w with suspects := rest } : Watch).Timely delay :=
    { h with
      found := fun id' hid' => h.found id' (hsuspects ▸ mem_cons_of_mem _ hid')
      nodup := hrest }
  have hclear : (({ w with suspects := rest } : Watch).see (w.proto.markDead id)).Timely delay :=
    hless.clear hid (fun _ => rfl) (by simp)
  obtain ⟨hstate, s, hs, hlt⟩ := h.found id (hsuspects ▸ mem_cons_self)
  refine hclear.record ?_
  rw [if_neg (by rw [hstate]; simp)]
  intro move hmove
  rw [mem_singleton.mp hmove]
  exact ⟨s, hs, hlt⟩

end Timely

/-! ## Steps and runs -/

section

variable (h : w.Timely delay)
include h

theorem unanswered_eraseIdx (k : Nat) :
    ∀ c ∈ w.checks.eraseIdx k, c.phase ≠ .cleaning → c.acked = false :=
  fun c hc => h.unanswered c (mem_of_mem_eraseIdx hc)

theorem unanswered_closeCh (cancelCh : Nat) :
    ∀ c ∈ w.closeCh cancelCh, c.phase ≠ .cleaning → c.acked = false := by
  intro c hc
  obtain ⟨c0, hc0, rfl⟩ := mem_map.mp hc
  split
  · exact h.unanswered c0 hc0
  · exact h.unanswered c0 hc0

theorem unanswered_setPhase {k : Nat} {c : Check}
    (hget : w.checks[k]? = some c) (hc : c.phase ≠ .cleaning) (phase : CheckPhase) :
    ∀ c ∈ w.setPhase k phase, c.phase ≠ .cleaning → c.acked = false := by
  intro c' hc' hphase
  obtain ⟨i, hi⟩ := mem_iff_getElem?.mp hc'
  rw [setPhase, getElem?_modify] at hi
  obtain ⟨c0, hc0, rfl⟩ := map_eq_some_iff.mp hi
  by_cases hik : k = i
  · rw [← hik, hget] at hc0
    cases hc0
    simp only [hik, if_true]
    exact h.unanswered c (mem_of_getElem? hget) hc
  · simp only [hik, if_false] at hphase ⊢
    exact h.unanswered c0 (mem_of_getElem? hc0) hphase

theorem unanswered_ackChecks
    (hnone : (w.checks.all fun c => decide (c.id ≠ id ∨ c.phase = .cleaning)) = true) :
    ∀ c ∈ w.ackChecks id, c.phase ≠ .cleaning → c.acked = false := by
  intro c hc
  obtain ⟨c0, hc0, rfl⟩ := mem_map.mp hc
  have hc0' := of_decide_eq_true (all_eq_true.mp hnone c0 hc0)
  split
  · rename_i hid
    intro hphase
    exact absurd (hc0'.resolve_left (not_not.mpr hid)) hphase
  · exact h.unanswered c0 hc0

end

theorem not_mem_suspects (h : (!w.suspects.contains id) = true) : id ∉ w.suspects := by
  simpa using h

theorem Timely.next (h : w.Timely delay) {e : WatchEvent} (hok : w.unhurried delay e = true)
    (hnext : w.step net e = some w') : w'.Timely delay := by
  cases e with simp only [step] at hnext
  | tick now =>
    split at hnext
    · rename_i hle
      cases hnext
      exact h.tick hle
    · cases hnext
  | update id addr incarnation =>
    split at hnext
    · cases hnext
      exact h
    · split at hnext
      · cases hnext
        exact h.refresh (not_mem_suspects hok) addr incarnation
      · rename_i hunknown
        cases hnext
        exact { h.register hunknown with }
  | joined k =>
    obtain ⟨j, hj, rfl⟩ := map_eq_some_iff.mp hnext
    rw [unhurried, hj, all_some] at hok
    exact { h.refresh (not_mem_suspects hok) j.addr j.incarnation with }
  | handleAck msg =>
    cases hnext
    obtain ⟨hnone, hid⟩ := Bool.and_eq_true_iff.mp hok
    have hclear := h.clear (f := fun m : Member => { m with lastSeen := some w.now, state := .alive })
      (not_mem_suspects hid) (fun _ => rfl) (by simp)
    exact { hclear with unanswered := unanswered_ackChecks h hnone }
  | handleSuspect msg =>
    cases hnext
    exact h.accuse hok
  | handleDead msg =>
    cases hnext
    refine h.clear (not_mem_suspects hok) (fun m => ?_) (fun m => ?_)
    · split
      · rfl
      · rfl
    · split
      · simp
      · exact id
  | select id =>
    split at hnext
    · cases hnext
      exact { h with }
    · cases hnext
  | arm =>
    split at hnext
    · cases hnext
      refine { h with unanswered := ?_ }
      cases w.pendingProbes.lookup _ with
      | none => exact h.unanswered
      | some cancelCh => exact unanswered_closeCh h cancelCh
    · cases hnext
  | ping =>
    split at hnext
    · rename_i id cancelCh hprober
      cases hnext
      refine { h.ping with unanswered := ?_ }
      intro c hc
      obtain hc | hc := mem_append.mp hc
      · exact h.unanswered c hc
      · rw [mem_singleton.mp hc]
        exact fun _ => rfl
    · cases hnext
  | cancelled k | cleanup k =>
    split at hnext
    · split at hnext
      · cases hnext
        exact { h with unanswered := unanswered_eraseIdx h k }
      · cases hnext
    · cases hnext
  | timeout k =>
    split at hnext
    · rename_i c hget
      split at hnext
      · rename_i hphase
        cases hnext
        exact { h with unanswered := unanswered_setPhase h hget (by rw [hphase]; decide) _ }
      · cases hnext
    · cases hnext
  | suspect k =>
    split at hnext
    · rename_i c hget
      split at hnext
      · rename_i hphase
        cases hnext
        rw [unhurried, hget, all_some] at hok
        have hne : c.phase ≠ .cleaning := by rw [hphase]; decide
        have hsee : ({ w.see (w.proto.suspectMember c.id) with
            checks := w.setPhase k .cleaning } : Watch).Timely delay :=
          { h.accuse hok with unanswered := unanswered_setPhase h hget hne _ }
        refine hsee.record ?_
        split
        · intro move hmove
          rw [mem_singleton.mp hmove]
          exact h.unanswered c (mem_of_getElem? hget) hne
        · intro move hmove
          cases hmove
      · cases hnext
    · cases hnext
  | scan =>
    split at hnext
    · cases hnext
      exact h.scan hok
    · cases hnext
  | mark =>
    split at hnext
    · cases hnext
    · rename_i id rest hsuspects
      cases hnext
      exact h.mark hsuspects

theorem timely_init (id addr : Str) (now : Nat) : (watch net id addr now).init.Timely delay where
  probed _ _ hm := by cases hm
  suspected _ _ hm := by cases hm
  found _ hid := by cases hid
  nodup := nodup_nil
  unanswered _ hc := by cases hc
  right _ hmove := by cases hmove

end Watch

/-- In every run of a node whose steps are unhurried, a check moves a member to
Suspect only if no Ack of it was handled since the ping, and a scan moves a
member to Dead only if it has been Suspect for longer than the timeout. -/
theorem probes_accurate (net : Net) (id addr : Str) (now delay : Nat) (w : Watch)
    (hreach : (watch net id addr now).Reach (Watch.unhurried delay)
      (watch net id addr now).init w) : ∀ move ∈ w.moves, move.Right w.suspectTimeout :=
  (invariant hreach (Watch.timely_init id addr now) (fun h hok hnext => h.next hok hnext)).right

/-- The member `m` joins and is probed. -/
def probeM : List WatchEvent :=
  [.update (str "m") (str "m") 0, .joined 0, .select (str "m"), .arm, .ping]

/-- Half a second after the ping `m` is suspected, and 6.1 seconds after the ping
it is dead. -/
theorem silent_member_killed : ∃ w,
    (watch plainNet (str "n") (str "n") 0).Reach (Watch.unhurried 500000000)
      (watch plainNet (str "n") (str "n") 0).init w ∧
    w.moves = [.suspected (str "m") false, .killed (str "m") 6100000000 (some 500000000)] ∧
    ∀ move ∈ w.moves, move.Right w.suspectTimeout := by
  obtain ⟨w, hreach, hmoves⟩ := exists_reach_of_follow
    (A := watch plainNet (str "n") (str "n") 0) (Watch.unhurried 500000000)
    (watch plainNet (str "n") (str "n") 0).init
    (fun w => w.moves = [.suspected (str "m") false, .killed (str "m") 6100000000 (some 500000000)])
    (probeM ++ [.tick 500000000, .timeout 0, .suspect 0, .tick 6100000000, .scan, .mark])
    (by decide)
  exact ⟨w, hreach, hmoves, probes_accurate plainNet (str "n") (str "n") 0 500000000 w hreach⟩

/-- The member answers the ping, is suspected all the same, and is dead after
4.6 seconds of suspicion. -/
theorem answering_member_killed : ∃ w, (watch plainNet (str "n") (str "n") 0).Reach anyEvent
      (watch plainNet (str "n") (str "n") 0).init w ∧
    w.moves = [.suspected (str "m") true, .killed (str "m") 5100000000 (some 500000000)] := by
  exact exists_reach_of_follow _ _ _
    (probeM ++ [.handleAck { type := .ack, source := str "m" }, .tick 500000000, .timeout 0,
      .suspect 0, .tick 5100000000, .scan, .mark])
    (by decide)

end Geryon.Swim
