import Geryon.Ownership.Goroutines

/-!
# What an operation does

`Owned` and the guarantees of the discipline say which operations are
performed in which states.  This module says what they then do: to the fields
of a session (`view_of_exec`), and to a connection (`effect_of_exec`).
Invariants beyond `Owned` are proved from these, without looking at the
programs or at `exec` again.
-/

namespace Geryon.Ownership

open Conc Conc.Discipline Pool Proxy List Function State

variable {cfg : PoolConfig} {s s' : State} {t : Thread} {n : SessionId} {c : ConnId}
  {o : Op} {ch : Choice} {r : o.Ret}

/-! ## Sessions -/

/-- The view of session `n` after an operation of `t`. -/
def View.after (t : Thread) (n : SessionId) (V : View) : Op → View
  | .enter m r =>
    if m = n then
      { V with turn := some t, region := r, giving := none, swapping := false, early := false }
    else V
  | .leave m | .goRelay m => if m = n then { V with turn := none } else V
  | .giveUp m c why =>
    if m = n then
      { V with
        giving := some c
        swapping := decide (why = .roleChange)
        early := V.early || decide (why = .transactionEnd) }
    else V
  | .signal m _ => if m = n then { V with giving := none } else V
  | .setServerConn m v => if m = n then { V with serverConn := v, swapping := false } else V
  | .setPsConn m v => if m = n then { V with psConn := v } else V
  | _ => V

theorem view_setSession {f : Session → Session} {m : SessionId} (g : View → View)
    (hf : view (f (s.session m)) = g (view (s.session m))) : view ((s.setSession m f).session n) =
      if m = n then g (view (s.session n)) else view (s.session n) := by
  by_cases hm : m = n
  · subst hm
    rw [session_self, if_pos rfl]
    exact hf
  · rw [session_other (Ne.symm hm), if_neg hm]

theorem after_of_turns {V : View} (ho : o.turns = false) : V.after t n o = V := by
  cases o <;> first | rfl | cases ho

theorem view_of_exec (h : exec s t o ch = some (r, s')) :
    view (s'.session n) = (view (s.session n)).after t n o := by
  cases performed_of_exec h with
  | looked ho | counted ho | flagged ho | settled ho => exact (after_of_turns ho).symm
  | noted ho =>
    rw [after_of_turns ho]
    exact (view_setSession id rfl).trans (ite_self _)
  | ended | exchanged => exact (view_setSession id rfl).trans (ite_self _)
  | seen ho => rcases ho with rfl | rfl <;> rfl
  | @dequeued _ _ conn => cases conn <;> rfl
  | delivered | passed => exact view_setSession (fun V => { V with giving := none }) rfl
  | @serverConn _ v =>
    exact view_setSession (fun V => { V with serverConn := v, swapping := false }) rfl
  | @psConn _ v => exact view_setSession (fun V => { V with psConn := v }) rfl
  | started | left => exact view_setSession (fun V => { V with turn := none }) rfl
  | @entered _ r =>
    exact view_setSession (fun V => { V with
      turn := some t, region := r, giving := none, swapping := false, early := false }) rfl
  | @gaveBack _ d why =>
    exact view_setSession (fun V => { V with
      giving := some d
      swapping := decide (why = .roleChange)
      early := V.early || decide (why = .transactionEnd) }) rfl
  | _ => rfl

/-! ## Connections -/

/-- A connection that the proxy has closed. -/
def shut (k : Conn) : Conn := { k with closed := true }

/-- The connection after its backend has answered a request. -/
def answered (k : Conn) (q : Request) (qs : List Request) (rs : List Reply) : Conn :=
  { k with
    requests := qs
    replies := k.replies ++ rs
    inTxn := match q.effect with
      | .opens => true
      | .closes => false
      | .keeps => k.inTxn }

/-- The answer to a request: replies to it, of which exactly the final one is
the last, if there are any. -/
structure Answers (q : Request) (rs : List Reply) : Prop where
  origin : ∀ r ∈ rs, r.origin = q.origin
  before : ∀ r ∈ rs.dropLast, r.last = false
  last : ∀ r, rs.getLast? = some r → r.last = true

/-- What an operation of `t` does to connection `c`: where the connection is
after it, and its record. -/
inductive Effect (s : State) (t : Thread) (ch : Choice) (c : ConnId) : Op → Place → Conn → Prop
  | same {o : Op} : Effect s t ch c o (s.place c) (s.conn c)
  | acquired {n : SessionId} (hc : s.place c = .idle) :
    Effect s t ch c (.acquire n) (.session n) (s.conn c)
  | connected {n : SessionId} {b : Backend} (hc : c = s.nextConn) :
    Effect s t ch c (.tryConnect (some n) b) (.handing n) { backend := b }
  | prefetched {b : Backend} (hc : c = s.nextConn) :
    Effect s t ch c (.tryConnect none b) (s.place c) { backend := b }
  | added {n : SessionId} (hc : s.place c = .handing n) :
    Effect s t ch c (.addActive n c) (.session n) (s.conn c)
  | seen {n : SessionId} {w : WaiterId} {o : Op} (ho : o = .checkWaiter n w ∨ o = .recheckWaiter n w)
      (hc : s.place c = .waiter w) : Effect s t ch c o (.handing n) (s.conn c)
  | returned {n : SessionId} {w : WaiterId} (hc : s.place c = .handing n) :
    Effect s t ch c (.dequeue n w (some c)) (.session n) (s.conn c)
  | delivered {n : SessionId} {w : WaiterId} (hw : s.queue.pop.1 = some w)
      (hc : s.place c = .session n) : Effect s t ch c (.signal n c) (.waiter w) (s.conn c)
  | passed {n : SessionId} (hw : s.queue.pop.1 = none) (hc : s.place c = .session n) :
    Effect s t ch c (.signal n c) (.releasing t) (s.conn c)
  | idled (hc : s.place c = .releasing t) : Effect s t ch c (.releaseIdle c) .idle (s.conn c)
  | discarded (hc : s.place c = .releasing t) :
    Effect s t ch c (.releaseClose c) .nowhere (shut (s.conn c))
  | dropped {o : Op} (ho : o = .closeAll ∨ ∃ address, o = .closeBackend address)
      (hc : s.place c = .idle) : Effect s t ch c o .nowhere (shut (s.conn c))
  | shut (hc : c ∈ s.conns.active) : Effect s t ch c .closeAll (s.place c) (shut (s.conn c))
  | ended {n : SessionId} (hc : (s.session n).psConn = some c) :
    Effect s t ch c (.closeRelay n) (s.place c) (shut (s.conn c))
  | wrote {n : SessionId} {e : TxnEffect} {captured : Bool} :
    Effect s t ch c (.write n c e captured) (s.place c)
      { s.conn c with
        requests := (s.conn c).requests ++ [⟨.session n, e⟩], user := some n }
  | read {n : SessionId} {r : Reply} {l rs : List Reply} (hopen : (s.conn c).closed = false)
      (hc : (s.conn c).replies = r :: (l ++ rs)) :
    Effect s t ch c (.read n c) (s.place c) { s.conn c with replies := rs }
  | wroteReset {e : TxnEffect} :
    Effect s t ch c (.writeReset c e) (s.place c)
      { s.conn c with
        requests := (s.conn c).requests ++ [⟨.reset, e⟩], resetError := false }
  | readReset {l rs : List Reply} (hc : (s.conn c).replies = l ++ rs) :
    Effect s t ch c (.readReset c) (s.place c)
      (({ s.conn c with replies := rs } : Conn).noteResets l)
  | exchanged {n : SessionId} {startups : List Bool} :
    Effect s t ch c (.exchange n c) (s.place c) { s.conn c with startups := startups }
  | answered {q : Request} {qs : List Request} {rs : List Reply}
      (hc : (s.conn c).requests = q :: qs) (hrs : Answers q rs) (hch : ch = .answer c rs) :
    Effect s t ch c .backend (s.place c) (answered (s.conn c) q qs rs)

variable {d : ConnId}

theorem Effect.moved {q : Place} (hconn : s'.conn = s.conn) (hplace : s'.place = update s.place d q)
    (hd : c = d → Effect s t ch c o q (s.conn c)) : Effect s t ch c o (s'.place c) (s'.conn c) := by
  rw [hplace, hconn]
  by_cases hc : c = d
  · subst hc
    rw [update_self]
    exact hd rfl
  · rw [update_of_ne hc]
    exact .same

theorem Effect.changed {k : Conn} (hplace : s'.place = s.place)
    (hconn : s'.conn = update s.conn d k) (hd : c = d → Effect s t ch c o (s.place c) k) :
    Effect s t ch c o (s'.place c) (s'.conn c) := by
  rw [hplace, hconn]
  by_cases hc : c = d
  · subst hc
    rw [update_self]
    exact hd rfl
  · rw [update_of_ne hc]
    exact .same

theorem effect_connect {m : Option SessionId} {b : Backend} :
    Effect s t ch c (.tryConnect m b) ((s.connect t m b).2.place c)
      ((s.connect t m b).2.conn c) := by
  by_cases hc : c = s.nextConn
  · have hconn : (s.connect t m b).2.conn c = { backend := b } := by
      rw [hc]
      exact update_self ..
    rw [hconn]
    cases m with
    | none => exact .prefetched hc
    | some n =>
      have hplace : (s.connect t (some n) b).2.place c = .handing n := by
        rw [hc]
        exact update_self ..
      rw [hplace]
      exact .connected hc
  · have hconn : (s.connect t m b).2.conn c = s.conn c := update_of_ne hc ..
    rw [hconn]
    cases m with
    | none => exact .same
    | some n =>
      have hplace : (s.connect t (some n) b).2.place c = s.place c := update_of_ne hc ..
      rw [hplace]
      exact .same

theorem effect_close {l l' : List ConnId} {conns : ServerConnPool} (hinv : Owned cfg s)
    (hidle : ∀ d ∈ l, d ∈ s.conns.idle) (hsub : ∀ d ∈ l, d ∈ l')
    (hdrop : o = .closeAll ∨ ∃ address, o = .closeBackend address)
    (hshut : ∀ d ∈ l', d ∉ l → o = .closeAll ∧ d ∈ s.conns.active) :
    Effect s t ch c o (({ (s.closeMany l').dropMany l with conns := conns } : State).place c)
      (({ (s.closeMany l').dropMany l with conns := conns } : State).conn c) := by
  by_cases hl : c ∈ l
  · simp only [dropMany, closeMany, hl, hsub c hl, if_true]
    exact .dropped hdrop (hinv.idle c (hidle c hl))
  · by_cases hl' : c ∈ l'
    · simp only [dropMany, closeMany, hl, hl', if_true, if_false]
      rcases hshut c hl' hl with ⟨rfl, hactive⟩
      exact .shut hactive
    · simp only [dropMany, closeMany, hl, hl', if_false]
      exact .same

theorem effect_of_exec (hinv : Owned cfg s) (hguar : Guar s t o)
    (h : exec s t o ch = some (r, s')) : Effect s t ch c o (s'.place c) (s'.conn c) := by
  cases performed_of_exec h with
  | acquired hd =>
    refine Effect.moved rfl rfl ?_
    rintro rfl
    exact .acquired (hinv.idle c (mem_of_getLast? hd))
  | connected => exact effect_connect
  | added =>
    refine Effect.moved rfl rfl ?_
    rintro rfl
    exact .added hguar.2
  | @seen m w _ _ d ho hd =>
    refine Effect.moved rfl rfl ?_
    rintro rfl
    exact .seen ho (hinv.delivered w c hd (by rcases ho with rfl | rfl <;> exact hguar.2))
  | @dequeued m w conn =>
    cases conn with
    | none => exact .same
    | some d =>
      refine Effect.moved rfl rfl ?_
      rintro rfl
      exact .returned hguar.2
  | delivered hpop =>
    refine Effect.moved rfl rfl ?_
    rintro rfl
    exact .delivered (congrArg Prod.fst hpop) hguar.2.1
  | passed hpop =>
    refine Effect.moved rfl rfl ?_
    rintro rfl
    exact .passed (congrArg Prod.fst hpop) hguar.2.1
  | idled =>
    refine Effect.moved rfl rfl ?_
    rintro rfl
    exact .idled hguar.1
  | @discarded d =>
    by_cases hc : c = d
    · subst hc
      simp only [releaseClose, close, setConn, move, update_self]
      exact .discarded hguar
    · simp only [releaseClose, close, setConn, move, update_of_ne hc]
      exact .same
  | closedAll =>
    refine effect_close hinv (fun _ hd => hd) (fun _ hd => mem_append_left _ hd) (.inl rfl) ?_
    intro d hd hd'
    exact ⟨rfl, (mem_append.mp hd).resolve_left hd'⟩
  | @closedBackend address =>
    exact effect_close hinv (fun _ hd => (mem_filter.mp hd).1) (fun _ hd => hd)
      (.inr ⟨address, rfl⟩) (fun _ hd hd' => absurd hd hd')
  | @ended m conn hconn =>
    show Effect s t ch c _ (s.place c) (conn c)
    rcases hconn c with hsame | ⟨hps, hshut⟩
    · rw [hsame]
      exact .same
    · rw [hshut]
      exact .ended hps
  | wrote =>
    refine Effect.changed rfl rfl ?_
    rintro rfl
    exact .wrote
  | received hopen hrs =>
    refine Effect.changed rfl rfl ?_
    rintro rfl
    exact .read hopen hrs
  | wroteReset =>
    refine Effect.changed rfl rfl ?_
    rintro rfl
    exact .wroteReset
  | @readReset d reply l rs hrs =>
    refine Effect.changed (d := d)
      (k := ({ s.conn d with replies := rs } : Conn).noteResets l) rfl ?_ ?_
    · simp [noteResets, setConn]
    · rintro rfl
      exact .readReset hrs
  | exchanged =>
    refine Effect.changed rfl rfl ?_
    rintro rfl
    exact .exchanged
  | @answered d rs q qs hqs hrs hch =>
    simp only [Bool.and_eq_true, all_eq_true, decide_eq_true_eq, Bool.not_eq_true',
      Option.all_eq_true] at hrs
    refine Effect.changed rfl rfl ?_
    rintro rfl
    exact .answered hqs ⟨hrs.1.1, hrs.1.2, hrs.2⟩ hch
  | _ => exact .same

theorem mem_idle_of_acquire (h : exec s t (.acquire n) ch = some (some c, s')) :
    c ∈ s.conns.idle := by
  simp only [exec, State.acquire] at h
  split at h
  · split at h
    · cases h
    · rename_i d hd
      cases h
      exact mem_of_getLast? hd
  · cases h

/-! ## The mutex -/

/-- What an operation of `t` does to the mutex of the pool while a connection
is reset. -/
inductive Locking (s s' : State) (t : Thread) : Op → Prop
  | same {o : Op} (hl : s'.conns.locked = s.conns.locked) (ha : s'.asked = s.asked) :
    Locking s s' t o
  | locked {c : ConnId} {maxSize : Nat} (hl : s'.conns.locked = some (t, c))
      (ha : s'.asked = false) : Locking s s' t (.releaseLock c maxSize)
  | freed {o : Op} (hl : s'.conns.locked = none) : Locking s s' t o
  | asked {c : ConnId} {e : TxnEffect} (hl : s'.conns.locked = s.conns.locked)
      (hc : (s'.conn c).requests = (s.conn c).requests ++ [⟨.reset, e⟩]) :
    Locking s s' t (.writeReset c e)

theorem locking_of_exec (h : exec s t o ch = some (r, s')) : Locking s s' t o := by
  cases performed_of_exec h with
  | locked => exact .locked rfl rfl
  | idled | discarded => exact .freed rfl
  | wroteReset =>
    refine .asked rfl ?_
    simp [writeReset, setConn]
  | @dequeued _ _ conn => cases conn <;> exact .same rfl rfl
  | _ => exact .same rfl rfl

/-! ## Runs of the proxy -/

section Run

variable {C : Cond proxy} {users : Users} {cfg' : Config proxy}

variable (hC : ∀ s t o ch, C s t o ch = true → undisturbed s t o ch = true)
include hC

theorem owned_of_run (hrun : Run C (system cfg users) cfg') : Owned cfg cfg'.state :=
  (Discipline.sound (system_within cfg users) (hrun.mono hC)).1

theorem guar_of_run
    (hrun : Run C (system cfg users) cfg') (hperf : cfg'.Performs C t o ch) : Guar cfg'.state t o :=
  guarantee_of_performs (system_within cfg users) hC hrun hperf

/-- What holds of a new connection, and is kept by whatever an operation does
to a connection, holds of every connection in every state of a run. -/
theorem run_effects {I : Place → Conn → Prop} (hinit : I .nowhere {})
    (hstep : ∀ {s t ch c o q k}, Owned cfg s → Guar s t o → C s t o ch = true →
      I (s.place c) (s.conn c) → Effect s t ch c o q k → I q k)
    (hrun : Run C (system cfg users) cfg') (c : ConnId) :
    I (cfg'.state.place c) (cfg'.state.conn c) := by
  refine run_invariant (J := fun s : State => ∀ c, I (s.place c) (s.conn c))
    (system_within cfg users) hC
    (fun _ => hinit) ?_ hrun c
  intro s t o ch r s' hJ hinv hguar hcond hexec c
  exact hstep hinv hguar hcond (hJ c) (effect_of_exec hinv hguar hexec)

end Run

end Geryon.Ownership
