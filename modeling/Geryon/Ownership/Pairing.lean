import Geryon.Ownership.Exclusive

/-!
# Answers go to those who asked

A message is answered on the connection that a session has written it to.  The
relay reads answers in two places: in the loop of `forwardAndCapture`, right after
it has written a message that is to be cached, and in `forwardServerToClient`,
from `ps.serverConn`.  All other messages are written to `Session.serverConn`,
which is another connection, so nobody in the session reads their answers; a reset
of the connection finds them.

`answersCaptured` is the condition under which answers go where they should:
messages are captured, and capturing one is not cut short.  `Matched` is the
invariant.  It says what may be under way on a connection by where the
connection is: on one of a session nothing, or one message whose answer the
goroutine in the session's callback is reading.
-/

namespace Geryon.Ownership

open Conc Conc.Discipline Pool Proxy List Function State Bool

/-- The discipline is kept and messages are written while holding; every
message is captured; a goroutine that is reading an answer reads it to its end
and no further than a `ReadyForQuery`; no `ReadMessage` takes more from the
connection than it returns; what is read is written to the client; and when a
connection goes to the idle list, everything has been executed and read. -/
def answersCaptured : Cond proxy := fun s t o ch =>
  holding s t o ch &&
    match o with
    | .write _ _ _ captured => captured
    | .read _ c =>
      decide (ch.lost = 0) &&
        (decide ((s.talk t).answering ≠ some c) || decide (ch = .ok) && !(s.conn c).closed &&
          (s.conn c).replies.head?.all fun r => !r.ready || r.last)
    | .writeClient n _ => decide (ch = .ok) && !s.clientClosed n
    | .releaseIdle c => (s.conn c).requests.isEmpty && (s.conn c).replies.isEmpty
    | _ => true

theorem holding_of_answersCaptured {s : State} {t : Thread} {o : Op} {ch : Choice}
    (h : answersCaptured s t o ch = true) : holding s t o ch = true :=
  (and_eq_true_iff.mp h).1

/-! ## What is under way on a connection -/

/-- Nothing is under way. -/
structure Silent (k : Conn) : Prop where
  requests : k.requests = []
  replies : k.replies = []

/-- One message is to be executed, or its answer is to be read. -/
def OneAnswer (k : Conn) : Prop :=
  (∃ q, k.requests = [q] ∧ k.replies = []) ∨
    k.requests = [] ∧ ∀ r ∈ k.replies.dropLast, r.last = false

/-- Everything under way was written by `origin`. -/
structure From (origin : Origin) (k : Conn) : Prop where
  requests : ∀ q ∈ k.requests, q.origin = origin
  replies : ∀ r ∈ k.replies, r.origin = origin

/-- A goroutine is in a callback of the session, and is reading an answer from
the connection. -/
def Reading (s : State) (n : SessionId) (c : ConnId) : Prop :=
  ∃ t, (s.session n).turn = some t ∧ (s.session n).region = .message ∧
    (s.talk t).answering = some c

/-- What may be under way on a connection of a session. -/
structure Held (s : State) (n : SessionId) (c : ConnId) (k : Conn) : Prop where
  origin : From (.session n) k
  answering : Silent k ∨ Reading s n c ∧ OneAnswer k

/-- What may be under way on a connection, by where it is. -/
def Matches (s : State) (c : ConnId) : Place → Conn → Prop
  | .idle, k | .waiter _, k | .handing _, k => Silent k
  | .releasing _, k | .nowhere, k => From .reset k
  | .session n, k => Held s n c k

/-- What a goroutine has read answers its session, and it has left no answer
before its end. -/
structure Faithful (k : Talk) : Prop where
  unsent : ∀ n r, k.unsent = some (n, r) → r.origin = .session n
  dropped : k.dropped = false

structure Matched (s : State) : Prop where
  conn : ∀ c, Matches s c (s.place c) (s.conn c)
  talk : ∀ t, Faithful (s.talk t)

variable {cfg : PoolConfig} {users : Users} {cfg' : Config proxy} {s s' : State} {t : Thread}
  {n : SessionId} {c : ConnId} {o : Op} {ch : Choice} {origin : Origin} {q : Place} {k : Conn}

theorem Silent.from (h : Silent k) : From origin k where
  requests q hq := by
    rw [h.requests] at hq
    cases hq
  replies r hr := by
    rw [h.replies] at hr
    cases hr

theorem Silent.held (h : Silent k) : Held s n c k := ⟨h.from, .inl h⟩

/-- When the goroutine whose turn it is reads no answer, nothing is under way
on the connections of the session. -/
theorem Matched.silent (hJ : Matched s) (hplace : s.place c = .session n)
    (hturn : (s.session n).turn = some t) (ht : Settled (s.talk t)) : Silent (s.conn c) := by
  have h := hJ.conn c
  rw [hplace] at h
  rcases h.answering with hsilent | ⟨⟨u, hu, -, hans⟩, -⟩
  · exact hsilent
  · cases hturn.symm.trans hu
    rw [ht.answering (hJ.talk t).dropped] at hans
    cases hans

theorem Matched.silent_of_rest (hJ : Matched s) (hplace : s.place c = .session n)
    (hturn : (s.session n).turn = none) : Silent (s.conn c) := by
  have h := hJ.conn c
  rw [hplace] at h
  rcases h.answering with hsilent | ⟨⟨u, hu, -, -⟩, -⟩
  · exact hsilent
  · rw [hturn] at hu
    cases hu

/-! ## Steps that write or read no message -/

/-- The operations that write and read messages of sessions. -/
def talks : Op → Bool
  | .write _ _ _ _ | .read _ _ | .writeClient _ _ => true
  | _ => false

theorem talk_of_exec {r : o.Ret} (ho : talks o = false) (h : exec s t o ch = some (r, s')) :
    s'.talk = s.talk := by
  cases performed_of_exec h with
  | wrote | received | lost | sent => cases ho
  | @dequeued _ _ conn => cases conn <;> rfl
  | _ => rfl

theorem Reading.step {r : o.Ret} (h : Reading s n c) (hJ : Matched s) (hguar : Guar s t o)
    (ho : talks o = false) (hexec : exec s t o ch = some (r, s')) : Reading s' n c := by
  obtain ⟨u, hturn, hregion, hans⟩ := h
  have hview := view_of_exec (n := n) hexec
  have hkept : ((view (s.session n)).after t n o).turn = (s.session n).turn ∧
      ((view (s.session n)).after t n o).region = (s.session n).region := by
    cases o
    case enter m r =>
      by_cases hm : m = n
      · subst hm
        rcases hguar with hnone | hstartup
        · rw [hturn] at hnone
          cases hnone
        · rw [hregion] at hstartup
          cases hstartup
      · simp only [View.after, hm, if_false]
        exact ⟨rfl, rfl⟩
    case leave m =>
      by_cases hm : m = n
      · subst hm
        cases hturn.symm.trans hguar.1
        rw [hguar.2.answering (hJ.talk t).dropped] at hans
        cases hans
      · simp only [View.after, hm, if_false]
        exact ⟨rfl, rfl⟩
    case goRelay m =>
      by_cases hm : m = n
      · subst hm
        have hstartup := hguar.2
        rw [hregion] at hstartup
        cases hstartup
      · simp only [View.after, hm, if_false]
        exact ⟨rfl, rfl⟩
    case giveUp | signal | setServerConn | setPsConn =>
      simp only [View.after]
      split <;> exact ⟨rfl, rfl⟩
    all_goals exact ⟨rfl, rfl⟩
  refine ⟨u, ?_, ?_, ?_⟩
  · exact (congrArg View.turn hview).trans (hkept.1.trans hturn)
  · exact (congrArg View.region hview).trans (hkept.2.trans hregion)
  · rw [talk_of_exec ho hexec]
    exact hans

variable {rs : List Reply} {r : Reply} {qs : List Request}

theorem OneAnswer.answered {q : Request} (h : OneAnswer k)
    (hq : k.requests = q :: qs) (hrs : Answers q rs) : OneAnswer (answered k q qs rs) := by
  rcases h with ⟨q', hreq, hrep⟩ | ⟨hreq, -⟩
  · rw [hreq] at hq
    cases hq
    refine .inr ⟨rfl, ?_⟩
    show ∀ r ∈ (k.replies ++ rs).dropLast, r.last = false
    rw [hrep]
    exact hrs.before
  · rw [hreq] at hq
    cases hq

theorem From.answered {q : Request} (h : From origin k)
    (hq : k.requests = q :: qs) (hrs : Answers q rs) : From origin (answered k q qs rs) where
  requests q' hq' := h.requests q' (hq ▸ mem_cons_of_mem _ hq')
  replies r hr := by
    rcases mem_append.mp hr with hr | hr
    · exact h.replies r hr
    · exact (hrs.origin r hr).trans (h.requests q (hq ▸ mem_cons_self))

theorem Matches.answered {q : Request} {p : Place} (h : Matches s c p k)
    (hq : k.requests = q :: qs) (hrs : Answers q rs) : Matches s c p (answered k q qs rs) := by
  have hloud : ¬ Silent k := by
    intro hk
    rw [hk.requests] at hq
    cases hq
  cases p with
  | idle | waiter | handing => exact absurd h hloud
  | releasing | nowhere => exact From.answered h hq hrs
  | session n =>
    exact ⟨h.origin.answered hq hrs,
      .inr ⟨(h.answering.resolve_left hloud).1, (h.answering.resolve_left hloud).2.answered hq hrs⟩⟩

variable {p : Place} {f : Talk → Talk}

theorem Matches.congr {k' : Conn} (h : Matches s c p k) (hreq : k'.requests = k.requests)
    (hrep : k'.replies = k.replies) : Matches s c p k' := by
  have hsilent : Silent k → Silent k' := fun h =>
    ⟨hreq.trans h.requests, hrep.trans h.replies⟩
  have hfrom : ∀ origin, From origin k → From origin k' := fun origin h =>
    ⟨hreq ▸ h.requests, hrep ▸ h.replies⟩
  have hone : OneAnswer k → OneAnswer k' := by
    unfold OneAnswer
    rw [hreq, hrep]
    exact id
  cases p with
  | idle | waiter | handing => exact hsilent h
  | releasing | nowhere => exact hfrom _ h
  | session n => exact ⟨hfrom _ h.origin, h.answering.imp hsilent (And.imp_right hone)⟩

/-- What may be under way after an operation that writes or reads no message
of a session, with the reading goroutines as they were. -/
theorem Matched.step_effect (hJ : Matched s) (hinv : Owned cfg s) (hguar : Guar s t o)
    (hcond : answersCaptured s t o ch = true) (ho : talks o = false)
    (heff : Effect s t ch c o q k) : Matches s c q k := by
  have h := hJ.conn c
  cases heff with
  | same => exact h
  | acquired hc | added hc | returned hc =>
    rw [hc] at h
    exact Silent.held h
  | connected => exact ⟨rfl, rfl⟩
  | prefetched hc =>
    rw [hinv.fresh c (Nat.le_of_eq hc.symm)]
    exact ⟨nofun, nofun⟩
  | seen _ hc =>
    rw [hc] at h
    exact h
  | delivered _ hc => exact hJ.silent hc hguar.1 hguar.2.2.2.2.2
  | passed _ hc => exact (hJ.silent hc hguar.1 hguar.2.2.2.2.2).from
  | idled hc =>
    have hempty : ((s.conn c).requests.isEmpty && (s.conn c).replies.isEmpty) = true :=
      (and_eq_true_iff.mp hcond).2
    simp only [and_eq_true, List.isEmpty_iff] at hempty
    exact ⟨hempty.1, hempty.2⟩
  | discarded hc =>
    rw [hc] at h
    exact Matches.congr h rfl rfl
  | dropped _ hc =>
    rw [hc] at h
    exact Matches.congr h.from rfl rfl
  | shut | ended | exchanged => exact h.congr rfl rfl
  | wrote | read => cases ho
  | wroteReset =>
    rw [hguar.1] at h ⊢
    refine ⟨fun q hq => ?_, h.replies⟩
    rcases mem_append.mp hq with hq | hq
    · exact h.requests q hq
    · cases mem_singleton.mp hq
      rfl
  | @readReset l rs hc =>
    rw [hguar.1] at h ⊢
    have hrest : Matches s c (.releasing t) { s.conn c with replies := rs } :=
      ⟨h.requests, fun r' hr' => h.replies r' (hc ▸ mem_append_right _ hr')⟩
    obtain ⟨_, _, hk⟩ := Conn.noteResets_eq { s.conn c with replies := rs } l
    rw [hk]
    exact hrest.congr rfl rfl
  | answered hc hrs _ => exact h.answered hc hrs

theorem Matches.mono (h : Matches s c p k) (hread : ∀ n, Reading s n c → Reading s' n c) :
    Matches s' c p k := by
  cases p with
  | idle | waiter | handing | releasing | nowhere => exact h
  | session n => exact ⟨h.origin, h.answering.imp id (And.imp_left (hread n))⟩

theorem Matched.step_other {r : o.Ret} (hJ : Matched s) (hinv : Owned cfg s) (hguar : Guar s t o)
    (hcond : answersCaptured s t o ch = true) (ho : talks o = false)
    (hexec : exec s t o ch = some (r, s')) : Matched s' where
  conn c := (hJ.step_effect hinv hguar hcond ho (effect_of_exec hinv hguar hexec)).mono
    fun _ h => h.step hJ hguar ho hexec
  talk := by
    rw [talk_of_exec ho hexec]
    exact hJ.talk

/-! ## Writing and reading messages -/

theorem forall_talk {P : Thread → Talk → Prop} (hself : P t (f (s.talk t)))
    (hother : ∀ u, u ≠ t → P u (s.talk u)) (u : Thread) : P u ((s.say t f).talk u) := by
  by_cases hu : u = t
  · subst hu
    rw [show (s.say u f).talk u = f (s.talk u) from update_self ..]
    exact hself
  · rw [show (s.say t f).talk u = s.talk u from update_of_ne hu ..]
    exact hother u hu

theorem Reading.say (h : Reading s n c)
    (hans : (s.talk t).answering = some c → (f (s.talk t)).answering = some c) :
    Reading (s.say t f) n c := by
  obtain ⟨u, hturn, hregion, hread⟩ := h
  exact ⟨u, hturn, hregion, forall_talk
    (P := fun u k => (s.talk u).answering = some c → k.answering = some c) hans
    (fun _ _ => id) u hread⟩

/-- A goroutine notes something about what it reads or passes on, which leaves
what it is answering as it is. -/
theorem Matched.say (hJ : Matched s) (hans : (f (s.talk t)).answering = (s.talk t).answering)
    (hf : Faithful (f (s.talk t))) : Matched (s.say t f) where
  conn c := (hJ.conn c).mono fun _ h => h.say hans.trans
  talk := forall_talk (P := fun _ => Faithful) hf fun u _ => hJ.talk u

theorem Matched.step_write {e : TxnEffect} {b r : Bool} (hJ : Matched s)
    (hearly : (s.session n).early = false) (hguar : Guar s t (.write n c e b))
    (hcond : answersCaptured s t (.write n c e b) ch = true)
    (hexec : exec s t (.write n c e b) ch = some (r, s')) : Matched s' := by
  rcases hguar with ⟨hturn, hregion, -, hheld, hsettled⟩
  have hplace : s.place c = .session n := hheld hearly
  have hb : b = true := (and_eq_true_iff.mp hcond).2
  have hnone : (s.talk t).answering = none := hsettled.answering (hJ.talk t).dropped
  have hsilent := hJ.silent hplace hturn hsettled
  simp only [exec, Option.some.injEq] at hexec
  split at hexec
  · cases hexec
    refine ⟨?_, forall_talk ⟨(hJ.talk t).unsent, ?_⟩ fun u _ => hJ.talk u⟩
    · intro d
      by_cases hd : d = c
      · subst hd
        show Matches _ d (s.place d) (update s.conn d _ d)
        rw [hplace, update_self]
        have hreq : (s.conn d).requests ++ [⟨.session n, e⟩] = [⟨.session n, e⟩] := by
          rw [hsilent.requests]
          rfl
        refine ⟨⟨?_, hsilent.from.replies⟩, .inr ⟨⟨t, hturn, hregion, ?_⟩,
          .inl ⟨⟨.session n, e⟩, hreq, hsilent.replies⟩⟩⟩
        · show ∀ q ∈ (s.conn d).requests ++ [⟨.session n, e⟩], q.origin = .session n
          rw [hreq]
          simp
        · show (update s.talk t _ t).answering = some d
          rw [update_self]
          rfl
      · show Matches _ d (s.place d) (update s.conn c _ d)
        rw [update_of_ne hd]
        refine (hJ.conn d).mono fun m h => ?_
        have hread : Reading (s.write n c e) m d := h
        refine hread.say fun hans => ?_
        cases hnone.symm.trans hans
    · show ((s.talk t).dropped || !b) = false
      rw [(hJ.talk t).dropped, hb]
      rfl
  · cases hexec
    exact hJ

theorem OneAnswer.read (h : OneAnswer k) (hr : k.replies = r :: rs) :
    OneAnswer { k with replies := rs } ∧ (r.last = true → Silent { k with replies := rs }) := by
  rcases h with ⟨q, -, hnil⟩ | ⟨hreq, hlast⟩
  · rw [hnil] at hr
    cases hr
  · rw [hr] at hlast
    cases rs with
    | nil => exact ⟨.inr ⟨hreq, nofun⟩, fun _ => ⟨hreq, rfl⟩⟩
    | cons r' rs =>
      refine ⟨.inr ⟨hreq, fun r'' hr'' => hlast r'' ?_⟩, fun h => ?_⟩
      · exact mem_cons_of_mem _ hr''
      · rw [hlast r mem_cons_self] at h
        cases h

theorem read_answering {k : Talk} (h : ¬ (k.answering = some c ∧ r.last = true)) :
    (k.read n c r).answering = k.answering := if_neg h

theorem Matched.step_reply (hJ : Matched s) (hplace : s.place c = .session n)
    (hr : (s.conn c).replies = r :: rs)
    (hready : (s.talk t).answering = some c → r.ready = true → r.last = true) :
    Matched ((s.setConn c fun k => { k with replies := rs }).say t (.read n c r)) := by
  have hc := hJ.conn c
  rw [hplace] at hc
  have hloud : ¬ Silent (s.conn c) := by
    intro hk
    rw [hk.replies] at hr
    cases hr
  obtain ⟨hreading, hone⟩ := hc.answering.resolve_left hloud
  refine ⟨?_, forall_talk ⟨?_, ?_⟩ fun u _ => hJ.talk u⟩
  · intro d
    by_cases hd : d = c
    · subst hd
      show Matches _ d (s.place d) (update s.conn d _ d)
      rw [hplace, update_self]
      refine ⟨⟨hc.origin.requests, fun r' hr' =>
        hc.origin.replies r' (hr ▸ mem_cons_of_mem _ hr')⟩, ?_⟩
      by_cases hend : (s.talk t).answering = some d ∧ r.last = true
      · exact .inl ((hone.read hr).2 hend.2)
      · refine .inr ⟨?_, (hone.read hr).1⟩
        have hread : Reading (s.setConn d fun k => { k with replies := rs }) n d := hreading
        exact hread.say fun hans => (read_answering hend).trans hans
    · show Matches _ d (s.place d) (update s.conn c _ d)
      rw [update_of_ne hd]
      refine (hJ.conn d).mono fun m h => ?_
      have hread : Reading (s.setConn c fun k => { k with replies := rs }) m d := h
      refine hread.say fun hans => (read_answering ?_).trans hans
      rintro ⟨hans', -⟩
      exact hd (Option.some.inj (hans.symm.trans hans'))
  · intro m r' h
    cases h
    exact hc.origin.replies r (hr ▸ mem_cons_self)
  · show ((s.talk t).dropped || decide ((s.talk t).answering = some c) && r.ready && !r.last) = false
    rw [(hJ.talk t).dropped]
    by_cases hans : (s.talk t).answering = some c
    · cases hrd : r.ready with
      | false => simp
      | true => simp [hready hans hrd]
    · simp [hans]

theorem Matched.step_read {r : Option Reply} (hJ : Matched s)
    (hearly : (s.session n).early = false) (hguar : Guar s t (.read n c))
    (hcond : answersCaptured s t (.read n c) ch = true)
    (hexec : exec s t (.read n c) ch = some (r, s')) : Matched s' := by
  have hcond : (decide (ch.lost = 0) &&
      (decide ((s.talk t).answering ≠ some c) || decide (ch = .ok) && !(s.conn c).closed &&
        (s.conn c).replies.head?.all fun r => !r.ready || r.last)) = true :=
    (and_eq_true_iff.mp hcond).2
  obtain ⟨hlost, hread⟩ := and_eq_true_iff.mp hcond
  simp only [exec] at hexec
  split at hexec
  · rename_i hok
    split at hexec
    · cases hexec
    · rename_i reply s1 hnext
      rcases nextReply_eq_some hnext with ⟨rs, hrs, rfl⟩
      cases hexec
      rw [of_decide_eq_true hlost, drop_zero]
      refine hJ.step_reply (hguar.1 hok.2 hearly) hrs fun hans hrd => ?_
      have hall : (!reply.ready || reply.last) = true := by
        simp only [hans, hrs, head?_cons, Option.all_some, ne_eq, not_true_eq_false, decide_false,
          Bool.false_or, and_eq_true] at hread
        exact hread.2
      simpa [hrd] using hall
  · rename_i hfail
    cases hexec
    refine hJ.say rfl ⟨(hJ.talk t).unsent, ?_⟩
    show ((s.talk t).dropped || decide ((s.talk t).answering = some c)) = false
    rw [(hJ.talk t).dropped]
    by_cases hans : (s.talk t).answering = some c
    · simp only [hans, ne_eq, not_true_eq_false, decide_false, Bool.false_or, Bool.and_eq_true,
        decide_eq_true_eq, Bool.not_eq_true'] at hread
      exact absurd ⟨by rw [hread.1.1]; rfl, hread.1.2⟩ hfail
    · simp [hans]

theorem Matched.step_writeClient {reply : Reply} {r : Bool} (hJ : Matched s)
    (hcond : answersCaptured s t (.writeClient n reply) ch = true)
    (hexec : exec s t (.writeClient n reply) ch = some (r, s')) : Matched s' := by
  have hok : (decide (ch = .ok) && !s.clientClosed n) = true := (and_eq_true_iff.mp hcond).2
  simp only [and_eq_true, decide_eq_true_eq, not_eq_true'] at hok
  cases hexec
  refine hJ.say rfl ⟨nofun, ?_⟩
  show ((s.talk t).dropped || !decide (ch = .ok ∧ s.clientClosed n = false) && _) = false
  rw [(hJ.talk t).dropped, decide_eq_true hok]
  rfl

theorem Matched.step {r : o.Ret} (hJ : Matched s) (hearly : ∀ n, (s.session n).early = false)
    (hinv : Owned cfg s) (hguar : Guar s t o) (hcond : answersCaptured s t o ch = true)
    (hexec : exec s t o ch = some (r, s')) : Matched s' := by
  cases ho : talks o with
  | false => exact hJ.step_other hinv hguar hcond ho hexec
  | true =>
    cases o
    case write n c e b => exact hJ.step_write (hearly n) hguar hcond hexec
    case read n c => exact hJ.step_read (hearly n) hguar hcond hexec
    case writeClient n reply => exact hJ.step_writeClient hcond hexec
    all_goals cases ho

theorem matched_of_run (hrun : Run answersCaptured (system cfg users) cfg') : Matched cfg'.state :=
  holding_invariant holding_of_answersCaptured
    ⟨fun _ => ⟨nofun, nofun⟩, fun _ => ⟨nofun, rfl⟩⟩ Matched.step hrun

/-! ## Pairing -/

/-- Answers are read and passed on by those who asked. -/
structure Paired (C : Cond proxy) (cfg : Config proxy) : Prop where
  /-- What a session reads next answers a message of its own. -/
  reads : ∀ t n c ch r s', cfg.Performs C t (.read n c) ch →
    exec cfg.state t (.read n c) ch = some (some r, s') → r.origin = .session n
  /-- What it passes to its client next is what it has read, and answers a
  message of its own. -/
  forwards : ∀ t n r ch, cfg.Performs C t (.writeClient n r) ch →
    (cfg.state.talk t).unsent = some (n, r) ∧ r.origin = .session n
  /-- It reads on, and ends, only once it has passed on what it has read. -/
  forwardsAll : ∀ t n c ch, cfg.Performs C t (.read n c) ch ∨ cfg.Performs C t (.sendErr n) ch →
    (cfg.state.talk t).unsent = none
  /-- A reset reads the answer of nobody else. -/
  drains : ∀ t c ch r s', cfg.Performs C t (.readReset c) ch →
    exec cfg.state t (.readReset c) ch = some (some r, s') → r.origin = .reset
  /-- What a session has asked is executed, answered and read on a connection
  that is the session's. -/
  asked : ∀ c n, (∃ q ∈ (cfg.state.conn c).requests, q.origin = .session n) ∨
    (∃ r ∈ (cfg.state.conn c).replies, r.origin = .session n) → cfg.state.place c = .session n
  /-- Once the message has been handled, its answer has been read. -/
  complete : ∀ c n, cfg.state.place c = .session n → (cfg.state.session n).turn = none →
    (cfg.state.conn c).requests = [] ∧ (cfg.state.conn c).replies = []

/-- Messages of a session are under way only on its connections. -/
theorem Matched.place_of_origin (hJ : Matched s)
    (h : (∃ q ∈ (s.conn c).requests, q.origin = .session n) ∨
      ∃ r ∈ (s.conn c).replies, r.origin = .session n) : s.place c = .session n := by
  have hc := hJ.conn c
  have hloud : ¬ Silent (s.conn c) := by
    intro hk
    rcases h with ⟨q, hq, -⟩ | ⟨r, hr, -⟩
    · rw [hk.requests] at hq
      cases hq
    · rw [hk.replies] at hr
      cases hr
  have horigin : ∀ origin, From origin (s.conn c) → origin = .session n := by
    intro origin hfrom
    rcases h with ⟨q, hq, heq⟩ | ⟨r, hr, heq⟩
    · exact (hfrom.requests q hq).symm.trans heq
    · exact (hfrom.replies r hr).symm.trans heq
  generalize hp : s.place c = p at hc
  cases p with
  | idle | waiter | handing => exact absurd hc hloud
  | releasing | nowhere => cases horigin _ hc
  | session m =>
    cases horigin _ hc.origin
    rfl

theorem read_eq (h : exec s t (.read n c) ch = some (some r, s')) :
    (s.conn c).closed = false ∧ ∃ rs, (s.conn c).replies = r :: rs ∧
      s' = (s.setConn c fun k => { k with replies := rs.drop ch.lost }).say t (.read n c r) := by
  simp only [exec] at h
  split at h
  · rename_i hok
    split at h
    · cases h
    · rename_i reply s1 hnext
      rcases nextReply_eq_some hnext with ⟨rs, hrs, rfl⟩
      cases h
      exact ⟨hok.2, rs, hrs, rfl⟩
  · cases h

theorem head_of_readReset (h : exec s t (.readReset c) ch = some (some r, s')) :
    r ∈ (s.conn c).replies := by
  simp only [exec] at h
  split at h
  · split at h
    · cases h
    · rename_i reply s1 hnext
      rcases nextReply_eq_some hnext with ⟨rs, hrs, -⟩
      cases h
      exact hrs ▸ mem_cons_self
  · cases h

theorem undisturbed_of_answersCaptured (s : State) (t : Thread) (o : Op) (ch : Choice)
    (h : answersCaptured s t o ch = true) : undisturbed s t o ch = true :=
  undisturbed_of_holding (holding_of_answersCaptured h)

theorem unsent_of_run (hrun : Run answersCaptured (system cfg users) cfg')
    (h : cfg'.Performs answersCaptured t (.read n c) ch ∨
      cfg'.Performs answersCaptured t (.sendErr n) ch) : (cfg'.state.talk t).unsent = none := by
  rcases h with hperf | hperf
  · exact (guar_of_run undisturbed_of_answersCaptured hrun hperf).2
  · exact (guar_of_run undisturbed_of_answersCaptured hrun hperf).unsent

theorem origin_of_readReset (hrun : Run answersCaptured (system cfg users) cfg')
    (hperf : cfg'.Performs answersCaptured t (.readReset c) ch)
    (hexec : exec cfg'.state t (.readReset c) ch = some (some r, s')) : r.origin = .reset := by
  have hc := (matched_of_run hrun).conn c
  rw [(guar_of_run undisturbed_of_answersCaptured hrun hperf).1] at hc
  exact hc.replies r (head_of_readReset hexec)

/-- In every run that meets the condition, every answer is read by the session
that asked, from the connection it asked on, and passed to its client. -/
theorem answers_paired (hrun : Run answersCaptured (system cfg users) cfg') :
    Paired answersCaptured cfg' := by
  have hJ := matched_of_run hrun
  refine ⟨?_, ?_, fun t n c ch => unsent_of_run hrun, fun t c ch r s' => origin_of_readReset hrun,
    fun c n => hJ.place_of_origin, ?_⟩
  · intro t n c ch r s' hperf hexec
    rcases read_eq hexec with ⟨hopen, rs, hrs, -⟩
    have hplace := (guar_of_run undisturbed_of_answersCaptured hrun hperf).1 hopen
      (early_of_run (fun _ _ _ _ => holding_of_answersCaptured) hrun n)
    have hc := hJ.conn c
    rw [hplace] at hc
    exact hc.origin.replies r (hrs ▸ mem_cons_self)
  · intro t n r ch hperf
    have hunsent := guar_of_run undisturbed_of_answersCaptured hrun hperf
    exact ⟨hunsent, (hJ.talk t).unsent n r hunsent⟩
  · intro c n hplace hturn
    have hsilent := hJ.silent_of_rest hplace hturn
    exact ⟨hsilent.requests, hsilent.replies⟩

/-- The answer of a backend to a query of session 0. -/
def readyForQuery : Reply := { origin := .session 0, last := true, ready := true }

/-- A query that is to be cached is answered: the goroutine that wrote it has
read the answer and is about to pass it to the client. -/
theorem answers_paired_capture :
    ∃ cfg', Run answersCaptured (system smallPool (sends 0 [{ cache := .miss }])) cfg' ∧
      cfg'.Performs answersCaptured (.clientToServer 0) (.writeClient 0 readyForQuery) .ok ∧
      readyForQuery.origin = .session 0 ∧ Paired answersCaptured cfg' := by
  rcases exists_run_of_follow answersCaptured (system smallPool (sends 0 [{ cache := .miss }]))
    (fun cfg' => cfg'.Performs answersCaptured (.clientToServer 0)
      (.writeClient 0 readyForQuery) .ok)
    (relays 7 ++ [(.backend, .answer 1 [readyForQuery])] ++ alone (.clientToServer 0) [.ok])
    (by decide +kernel) with ⟨cfg', hrun, hperf⟩
  have h := answers_paired hrun
  exact ⟨cfg', hrun, hperf, (h.forwards _ _ _ _ hperf).2, h⟩

/-- A query that is not to be cached is answered where nobody in the session reads.  The
session ends, and the reset of the connection is about to read the answer. -/
theorem exists_reset_reads : ∃ cfg' s', Run anyStep (system smallPool (sends 0 [{}])) cfg' ∧
    cfg'.Performs anyStep (.handle 0) (.readReset 1) .ok ∧
    exec cfg'.state (.handle 0) (.readReset 1) .ok = some (some readyForQuery, s') := by
  rcases exists_run_of_follow anyStep (system smallPool (sends 0 [{}]))
    (fun cfg' => cfg'.Performs anyStep (.handle 0) (.readReset 1) .ok ∧
      (cfg'.state.conn 1).closed = false ∧ (cfg'.state.conn 1).replies = [readyForQuery])
    (relays 8 ++ [(.backend, .answer 1 [readyForQuery])] ++ alone (.handle 0) (endsRelay ++ oks 5))
    (by decide +kernel) with ⟨cfg', hrun, hbad⟩
  rcases hbad with ⟨hperf, hopen, hreplies⟩
  refine ⟨cfg', (cfg'.state.setConn 1 fun k => { k with replies := [] }).noteResets 1
    [readyForQuery], hrun, hperf, ?_⟩
  simp [exec, nextReply, Choice.reads, Choice.lost, hopen, hreplies]

theorem answer_read_by_reset : ¬ ∀ (cfg : PoolConfig) (users : Users) (cfg' : Config proxy),
      Run anyStep (system cfg users) cfg' → Paired anyStep cfg' := by
  intro h
  obtain ⟨cfg', s', hrun, hperf, hexec⟩ := exists_reset_reads
  cases (h _ _ cfg' hrun).drains _ _ _ _ _ hperf hexec

/-! ## The stream of a response -/

/-- The messages of the backend reach the client whole, once and in their order. -/
structure Relayed (C : Cond proxy) (cfg : Config proxy) : Prop where
  /-- A goroutine reads the oldest message that is left on the connection, has it in hand,
  and leaves all the others there. -/
  reads : ∀ t n c ch r s', cfg.Performs C t (.read n c) ch →
    exec cfg.state t (.read n c) ch = some (some r, s') →
    (cfg.state.conn c).replies = r :: (s'.conn c).replies ∧ (s'.talk t).unsent = some (n, r)
  /-- What it writes to the client is what it has in hand, and then it has nothing. -/
  writes : ∀ t n r ch ok s', cfg.Performs C t (.writeClient n r) ch →
    exec cfg.state t (.writeClient n r) ch = some (ok, s') →
    (cfg.state.talk t).unsent = some (n, r) ∧ ok = true ∧ (s'.talk t).unsent = none
  /-- It reads on, and ends, with nothing in hand. -/
  inOrder : ∀ t n c ch, cfg.Performs C t (.read n c) ch ∨ cfg.Performs C t (.sendErr n) ch →
    (cfg.state.talk t).unsent = none
  /-- Nobody else takes a message of a response. -/
  alone : ∀ t c ch r s', cfg.Performs C t (.readReset c) ch →
    exec cfg.state t (.readReset c) ch = some (some r, s') → r.origin = .reset
  /-- Between two messages of the client nothing is left on the connections of the session:
  neither on that of `OnQuery` nor on `ps.serverConn`. -/
  complete : ∀ c n, cfg.state.place c = .session n → (cfg.state.session n).turn = none →
    (cfg.state.conn c).replies = []

theorem replies_of_read (hcond : answersCaptured s t (.read n c) ch = true)
    (h : exec s t (.read n c) ch = some (some r, s')) :
    (s.conn c).replies = r :: (s'.conn c).replies ∧ (s'.talk t).unsent = some (n, r) := by
  have hcond : (decide (ch.lost = 0) && _) = true := (and_eq_true_iff.mp hcond).2
  have hlost : ch.lost = 0 := of_decide_eq_true (and_eq_true_iff.mp hcond).1
  obtain ⟨-, rs, hrs, rfl⟩ := read_eq h
  rw [hrs, hlost, drop_zero]
  constructor
  · simp [State.say, setConn]
  · simp [State.say, Talk.read]

/-- In every run that meets the condition, the goroutine that captures a response passes
it on as the backend sends it. -/
theorem responses_relayed (hrun : Run answersCaptured (system cfg users) cfg') :
    Relayed answersCaptured cfg' := by
  refine ⟨fun t n c ch r s' hperf => replies_of_read hperf.2.1, ?_,
    fun t n c ch => unsent_of_run hrun, fun t c ch r s' => origin_of_readReset hrun, ?_⟩
  · intro t n r ch ok s' hperf hexec
    have hok : (decide (ch = .ok) && !cfg'.state.clientClosed n) = true :=
      (and_eq_true_iff.mp hperf.2.1).2
    simp only [and_eq_true, decide_eq_true_eq, not_eq_true'] at hok
    refine ⟨guar_of_run undisturbed_of_answersCaptured hrun hperf, ?_⟩
    cases hexec
    exact ⟨decide_eq_true hok, by simp [State.say, Talk.sent]⟩
  · intro c n hplace hturn
    exact ((matched_of_run hrun).silent_of_rest hplace hturn).replies

/-- The first message of a captured response is about to be read, and the second has to
wait. -/
theorem responses_relayed_capture :
    ∃ cfg', Run answersCaptured (system smallPool (sends 0 [{ cache := .miss }])) cfg' ∧
      cfg'.Performs answersCaptured (.clientToServer 0) (.read 0 1) .ok ∧
      (cfg'.state.conn 1).replies.length = 2 ∧ Relayed answersCaptured cfg' := by
  rcases exists_run_of_follow answersCaptured (system smallPool (sends 0 [{ cache := .miss }]))
    (fun cfg' => cfg'.Performs answersCaptured (.clientToServer 0) (.read 0 1) .ok ∧
      (cfg'.state.conn 1).replies.length = 2)
    (relays 7 ++ [(.backend, .answer 1 [{ origin := .session 0, last := false }, readyForQuery])])
    (by decide +kernel) with ⟨cfg', hrun, hperf, hlen⟩
  exact ⟨cfg', hrun, hperf, hlen, responses_relayed hrun⟩

/-- The answer to a query that is not captured is not relayed: `forwardServerToClient` reads
another connection, and the reset takes it. -/
theorem uncaptured_response_left : ¬ ∀ (cfg : PoolConfig) (users : Users) (cfg' : Config proxy),
      Run anyStep (system cfg users) cfg' → Relayed anyStep cfg' := by
  intro h
  obtain ⟨cfg', s', hrun, hperf, hexec⟩ := exists_reset_reads
  cases (h _ _ cfg' hrun).alone _ _ _ _ _ hperf hexec

end Geryon.Ownership
