import Geryon.Ownership.Discipline

/-!
# Operations that move nothing

Most operations leave alone what the discipline is about: they read a field, or
change one that nobody relies on.  One lemma, `does_quiet`, is about all of
them.
-/

namespace Geryon.Ownership

open Conc Conc.Discipline Pool Function View

variable {cfg : PoolConfig} {s s' : State} {t : Thread} {n : SessionId} {c : ConnId}

/-! ## Operations that move nothing -/

/-- The parts of the state that the discipline is about are the same. -/
structure Quiet (s s' : State) : Prop where
  idle : s'.conns.idle = s.conns.idle
  locked : s'.conns.locked = s.conns.locked
  place : s'.place = s.place
  waiter : ∀ w, (s'.waiter w).conn = (s.waiter w).conn ∧
    (s'.waiter w).owner = (s.waiter w).owner ∧ (s'.waiter w).taken = (s.waiter w).taken
  nextWaiter : s'.nextWaiter = s.nextWaiter
  nextConn : s'.nextConn = s.nextConn
  closed : ∀ c, (s'.conn c).closed = (s.conn c).closed
  view : ∀ n, view (s'.session n) = view (s.session n)
  started : ∀ n, (s'.session n).started = (s.session n).started
  ended : ∀ n, (s'.session n).ended = (s.session n).ended
  txn : ∀ x k, s'.txn x = some k → ∃ k', s.txn x = some k' ∧ k'.session = k.session
  asked : s.asked = true → s'.asked = true
  talk : s'.talk = s.talk

theorem Quiet.refl (s : State) : Quiet s s where
  idle := rfl
  locked := rfl
  place := rfl
  waiter _ := ⟨rfl, rfl, rfl⟩
  nextWaiter := rfl
  nextConn := rfl
  closed _ := rfl
  view _ := rfl
  started _ := rfl
  ended _ := rfl
  txn _ k h := ⟨k, h, rfl⟩
  asked := id
  talk := rfl

theorem Quiet.setConn {f : Conn → Conn} (hf : (f (s.conn c)).closed = (s.conn c).closed) :
    Quiet s (s.setConn c f) :=
  { Quiet.refl s with
    closed := by
      intro d
      by_cases hd : d = c
      · subst hd
        simpa [State.setConn] using hf
      · simp [State.setConn, hd] }

theorem Quiet.setSession {f : Session → Session}
    (hview : Ownership.view (f (s.session n)) = Ownership.view (s.session n))
    (hstart : (f (s.session n)).started = (s.session n).started)
    (hended : (f (s.session n)).ended = (s.session n).ended) : Quiet s (s.setSession n f) :=
  { Quiet.refl s with
    view := by
      intro m
      by_cases hm : m = n
      · subst hm
        simpa [State.setSession] using hview
      · simp [State.setSession, hm]
    started := by
      intro m
      by_cases hm : m = n
      · subst hm
        simpa [State.setSession] using hstart
      · simp [State.setSession, hm]
    ended := by
      intro m
      by_cases hm : m = n
      · subst hm
        simpa [State.setSession] using hended
      · simp [State.setSession, hm] }

theorem Quiet.setWaiter {w : Pool.WaiterId} {f : Waiter → Waiter}
    (hf : ∀ k, (f k).conn = k.conn ∧ (f k).owner = k.owner ∧ (f k).taken = k.taken) :
    Quiet s (s.setWaiter w f) :=
  { Quiet.refl s with
    waiter := by
      intro v
      by_cases hv : v = w
      · subst hv
        simpa [State.setWaiter] using hf _
      · simp [State.setWaiter, hv] }

/-- The operations that move nothing, and neither write nor read what a relay
passes on. -/
def quiet : Op → Bool
  | .stuck | .acquire _ | .addActive _ _ | .releaseLock _ _ | .releaseIdle _ | .releaseClose _
  | .closeAll | .closeBackend _ | .tryConnect _ _ | .enqueue _ _ | .checkWaiter _ _
  | .recheckWaiter _ _ | .dequeue _ _ (some _) | .signal _ _ | .setServerConn _ _
  | .setPsConn _ _ | .register _ _ | .goRelay _ | .closeRelay _ | .enter _ _ | .leave _
  | .giveUp _ _ _ | .write _ _ _ _ | .read _ _ | .writeClient _ _ => false
  | _ => true

theorem quiet_setTxn {x : TxnId} {v : Option Txn}
    (hv : ∀ k, v = some k → ∃ k', s.txn x = some k' ∧ k'.session = k.session) :
    Quiet s { s with txn := update s.txn x v } :=
  { Quiet.refl s with
    txn := by
      intro y k hk
      by_cases hy : y = x
      · subst hy
        simp only [update_self] at hk
        exact hv k hk
      · simp only [update_of_ne hy] at hk
        exact ⟨k, hk, rfl⟩ }

theorem Quiet.trans {s'' : State} (h : Quiet s s') (h' : Quiet s' s'') : Quiet s s'' where
  idle := h'.idle.trans h.idle
  locked := h'.locked.trans h.locked
  place := h'.place.trans h.place
  waiter w := ⟨(h'.waiter w).1.trans (h.waiter w).1, (h'.waiter w).2.1.trans (h.waiter w).2.1,
    (h'.waiter w).2.2.trans (h.waiter w).2.2⟩
  nextWaiter := h'.nextWaiter.trans h.nextWaiter
  nextConn := h'.nextConn.trans h.nextConn
  closed c := (h'.closed c).trans (h.closed c)
  view n := (h'.view n).trans (h.view n)
  started n := (h'.started n).trans (h.started n)
  ended n := (h'.ended n).trans (h.ended n)
  txn x k hk := by
    rcases h'.txn x k hk with ⟨k', hk', hs'⟩
    rcases h.txn x k' hk' with ⟨k'', hk'', hs⟩
    exact ⟨k'', hk'', hs.trans hs'⟩
  asked ha := h'.asked (h.asked ha)
  talk := h'.talk.trans h.talk

theorem quiet_dequeue {w : Pool.WaiterId} : Quiet s (s.dequeue n w none) := by
  have hqueue : Quiet s { s with queue := s.queue.remove w } := { Quiet.refl s with }
  exact hqueue.trans (Quiet.setWaiter (f := fun k => { k with finished := true })
    fun _ => ⟨rfl, rfl, rfl⟩)

theorem quiet_of_exec {o : Op} {ch : Choice} {r : o.Ret} (ho : quiet o = true)
    (h : exec s t o ch = some (r, s')) : Quiet s s' := by
  cases performed_of_exec h with
  | looked => exact .refl s
  | counted => exact { Quiet.refl s with }
  | noted => exact .setSession rfl rfl rfl
  | flagged => exact .setWaiter fun _ => ⟨rfl, rfl, rfl⟩
  | settled _ hv => exact quiet_setTxn hv
  | @dequeued n w conn =>
    cases conn with
    | none => exact quiet_dequeue
    | some c => cases ho
  | @wroteReset c effect =>
    have hconn : Quiet s (s.setConn c fun k =>
      { k with requests := k.requests ++ [⟨.reset, effect⟩], resetError := false }) :=
      Quiet.setConn rfl
    exact { hconn with asked := fun _ => rfl }
  | readReset =>
    refine (Quiet.setConn rfl).trans (Quiet.setConn ?_)
    obtain ⟨_, _, hk⟩ := Conn.noteResets_eq _ _
    rw [hk]
  | exchanged => exact (Quiet.setConn rfl).trans (Quiet.setSession rfl rfl rfl)
  | answered => exact .setConn rfl
  | seen hseen => rcases hseen with rfl | rfl <;> cases ho
  | _ => cases ho

namespace Quiet

variable (h : Quiet s s')
include h

theorem session (n : SessionId) :
    (s'.session n).turn = (s.session n).turn ∧ (s'.session n).psConn = (s.session n).psConn ∧
      (s'.session n).serverConn = (s.session n).serverConn :=
  ⟨congrArg turn (h.view n), congrArg psConn (h.view n),
    congrArg serverConn (h.view n)⟩

theorem owned (hinv : Owned cfg s) : Owned cfg s' where
  nodup := by
    rw [h.idle]
    exact hinv.nodup
  idle := by
    rw [h.idle, h.place]
    exact hinv.idle
  delivered w c hc htaken := by
    rw [(h.waiter w).1] at hc
    rw [(h.waiter w).2.2] at htaken
    rw [h.place]
    exact hinv.delivered w c hc htaken
  fresh c hc := by
    rw [h.nextConn] at hc
    rw [h.place]
    exact hinv.fresh c hc
  rest n hn := by
    rw [(h.session n).1] at hn
    rw [(h.session n).2.1, (h.session n).2.2, h.place]
    exact hinv.rest n hn
  reader n c hc := by
    rw [(h.session n).2.1] at hc
    rw [(h.session n).1, h.started, h.closed, h.place]
    exact hinv.reader n c hc
  ended n c he hc := by
    rw [h.ended] at he
    rw [(h.session n).2.1] at hc
    rw [h.closed]
    exact hinv.ended n c he hc
  relay n hn := (h.started n).trans (hinv.relay n ((h.ended n).symm.trans hn))
  mode n c hc := by
    rw [(h.session n).2.1] at hc
    rw [h.nextConn]
    exact hinv.mode n c hc
  txn x k hk := by
    rcases h.txn x k hk with ⟨k', hk', hs⟩
    rw [h.started, ← hs]
    exact hinv.txn x k' hk'

theorem rely : Rely t s s' where
  view n _ _ := h.view n
  fresh n _ _ := h.view n
  turn n _ _ hu := (h.session n).1 ▸ hu
  started n hn := (h.started n).trans hn
  unstarted n _ hn := (h.started n).trans hn
  ended n hn := (h.ended n).trans hn
  kept c _ _ _ := congrFun h.place c
  releasing c _ _ _ := congrFun h.place c
  nextWaiter := le_of_eq h.nextWaiter.symm
  waiter w _ _ := (h.waiter w).2
  nextConn := le_of_eq h.nextConn.symm
  closed c _ hc := (h.closed c).trans hc
  locked _ c _ hl := ⟨h.locked.trans hl, h.asked, fun _ => h.closed c⟩
  reader n c _ hps hplace := .inr ⟨(h.session n).2.1.trans hps, (congrFun h.place c).trans hplace⟩
  talk u _ := congrFun h.talk u

theorem turn {T : Turn} (hT : T.Holds s t) : T.Holds s' t where
  view := (h.view _).trans hT.view
  turn := hT.turn
  mine c hc := (congrFun h.place c).trans (hT.mine c hc)
  hand c hc := (congrFun h.place c).trans (hT.hand c hc)
  waiter w hw := by
    rw [h.nextWaiter, (h.waiter w).2.1, (h.waiter w).2.2]
    exact hT.waiter w hw
  began := hT.began.imp id (h.started _).trans

theorem rel {R : Releasing} (hR : R.Holds s t) : R.Holds s' t where
  place := (congrFun h.place _).trans hR.place
  locked hl := h.locked.trans (hR.locked hl)
  live hl := ⟨(hR.live hl).1, h.asked (hR.live hl).2.1, (h.closed _).trans (hR.live hl).2.2⟩

theorem past {p : Past} (hp : p.Holds s t) : p.Holds s' t where
  started n hn := (h.started n).trans (hp.started n hn)
  before n hn := ⟨(hp.before n hn).1, (h.started n).trans (hp.before n hn).2⟩
  after n hn := ⟨(hp.after n hn).1, (h.ended n).trans (hp.after n hn).2⟩
  unsent := by
    rw [h.talk]
    exact hp.unsent
  answering := by
    rw [h.talk]
    exact hp.answering

theorem holds {κ : Know} (hκ : κ.Holds s t) : κ.Holds s' t where
  turn T hT := h.turn (hκ.turn T hT)
  only n hn := hκ.only n ((h.session n).1 ▸ hn)
  rel R hR := h.rel (hκ.rel R hR)
  past := h.past hκ.past
  fresh n hn := by
    rcases hκ.fresh n hn with ⟨ht, hstart, hview⟩
    exact ⟨ht, (h.started n).trans hstart, (h.view n).trans hview⟩
  reading n c hc := by
    rcases hκ.reading n c hc with ⟨hstart, hlt, hread⟩
    rw [h.started, h.nextConn, h.closed, (h.session n).2.1, h.place]
    exact ⟨hstart, hlt, hread⟩

end Quiet

theorem does_quiet {o : Op} {κ : Know} {Q : o.Ret → Know → Prop} (ho : quiet o = true)
    (hguar : ∀ s, Owned cfg s → κ.Holds s t → Guar s t o)
    (hQ : ∀ s ch r s', Owned cfg s → κ.Holds s t → exec s t o ch = some (r, s') →
      κ.Holds s' t → undisturbed s t o ch = true → ∃ κ', Know.Holds κ' s' t ∧ Q r κ') :
    (owning cfg).Does t o Q κ := by
  refine ⟨nofun, ?_⟩
  intro s ch r s' hinv hknows hcond hexec
  have h := quiet_of_exec ho hexec
  exact ⟨hguar s hinv hknows, h.owned hinv, h.rely.stable,
    hQ s ch r s' hinv hknows hexec (h.holds hknows) hcond⟩

theorem does_aside {o : Op} {κ : Know} {Q : o.Ret → Know → Prop} (ho : quiet o = true)
    (hguar : ∀ s, Owned cfg s → κ.Holds s t → Guar s t o) (hQ : ∀ r, Q r κ) :
    (owning cfg).Does t o Q κ :=
  does_quiet ho hguar fun _ _ r _ _ _ _ hκ _ => ⟨κ, hκ, hQ r⟩

end Geryon.Ownership
