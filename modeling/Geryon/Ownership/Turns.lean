import Geryon.Ownership.Releases

/-!
# Taking turns, and talking

How a goroutine enters and leaves a session, how a relay starts and ends, and
what the goroutines of a relay read and write.
-/

namespace Geryon.Ownership

open Conc Conc.Discipline Pool List Function View Option State

variable {cfg : PoolConfig} {s s' : State} {t : Thread} {n : SessionId} {c : ConnId}
  {T : Turn} {p : Past}

/-! ## Taking turns -/

/-- What a goroutine knows when it enters a session. -/
def entered (n : SessionId) (t : Thread) (r : Region) (ps sc : Option ConnId) : Turn where
  session := n
  view := { turn := some t, region := r, psConn := ps, serverConn := sc }
  mine := sc.toList ++ ps.toList

variable {κ : Know} {Q : Unit → Know → Prop} {r : Region}

theorem enter_free (hinv : Owned cfg s) (hκ : κ.Holds s t)
    (hout : ∀ m, (s.session m).turn ≠ some t) (hfree : (s.session n).turn = none)
    (hbegan : t = .handle n ∨ (s.session n).started = true) (hs' : s' = s.setSession n fun k =>
        { k with turn := some t, region := r, giving := none, swapping := false, early := false }) :
    Owned cfg s' ∧ Rely t s s' ∧
      (inside (entered n t r (s.session n).psConn (s.session n).serverConn) κ.past).Holds s' t := by
  subst hs'
  have hheld : ∀ c, (s.session n).psConn = some c → s.place c = .session n := by
    intro c hc
    rcases hinv.reader n c hc with h | h
    · exact h
    · rw [hfree] at h
      cases h.1
  refine ⟨?_, ?_, ?_⟩
  · exact hinv.setSession nofun id rfl (fun c hc => .inl (hheld c hc)) (hinv.ended n) (hinv.mode n)
  · refine Rely.setSession (.inl hfree) ?_ hbegan id rfl fun _ c hc => .inr hc
    intro u hu
    exact (some.inj hu).symm
  · refine holds_inside ⟨?_, rfl, ?_, nofun, nofun, ?_⟩ ?_ (hκ.past.setSession rfl rfl)
    · show view ((s.setSession n _).session n) = _
      rw [session_self]
      rfl
    · intro c hc
      rcases mem_append.mp hc with hc | hc
      · exact (hinv.rest n hfree).1 c (mem_toList.mp hc)
      · exact hheld c (mem_toList.mp hc)
    · show t = .handle n ∨ ((s.setSession n _).session n).started = true
      rw [session_self]
      exact hbegan
    · exact forall_session (P := fun m k => k.turn = some t → n = m) (fun _ => rfl)
        (fun m _ hm => absurd hm (hout m))

/-- Under the condition, a goroutine that is in no session enters a free one. -/
theorem free_of_undisturbed (ch : Choice) (hout : (s.session n).turn ≠ some t)
    (hcond : undisturbed s t (.enter n r) ch = true) : (s.session n).turn = none := by
  simp only [undisturbed, Bool.and_eq_true, Bool.or_eq_true, decide_eq_true_eq] at hcond
  exact hcond.1.elim id fun h => absurd h hout

/-- A goroutine enters a session whose relay has started, or the `Handle` of
the session does after its relay. -/
theorem does_enter (hbegan : n ∈ p.started ∨ p.after = some n)
    (hQ : ∀ ps sc, (∀ c, ps = some c → sc ≠ some c) → Q () (inside (entered n t r ps sc) p)) :
    (owning cfg).Does t (.enter n r) Q { past := p } := by
  refine ⟨nofun, ?_⟩
  intro s ch r' s' hinv hknows hcond hexec
  have hκ : Know.Holds { past := p } s t := hknows
  have hfree := free_of_undisturbed ch (hκ.outside_only n) hcond
  cases hexec
  rcases enter_free hinv hκ hκ.outside_only hfree
    (hbegan.elim (fun h => .inr (hκ.past.started n h))
      fun h => .inl (hκ.past.after n h).1) rfl with ⟨hinv', hrely, hκ'⟩
  exact ⟨.inl hfree, hinv', hrely.stable, _, hκ', hQ _ _ (hinv.rest n hfree).2⟩

variable {Q : Unit → Know → Prop}

theorem does_begin
    (hQ : Q () (inside (entered n (.handle n) .startup none none) { before := some n })) :
    (owning cfg).Does (.handle n) (.enter n .startup) Q { fresh := some n } := by
  refine ⟨nofun, ?_⟩
  intro s ch r s' hinv hknows hcond hexec
  have hκ : Know.Holds { fresh := some n } s (.handle n) := hknows
  rcases hκ.fresh n rfl with ⟨-, hstart, hview⟩
  have hout : ∀ m, (s.session m).turn ≠ some (.handle n) := by
    intro m hm
    rcases hκ.only m hm with ⟨T, hT, -⟩
    cases hT
  have hbefore : Know.Holds { past := { before := some n } } s (.handle n) := by
    refine holds_outside hout { hκ.past with before := ?_ }
    intro m hm
    cases hm
    exact ⟨rfl, hstart⟩
  cases hexec
  have hfree : (s.session n).turn = none := congrArg turn hview
  rcases enter_free hinv hbefore hout hfree (.inl rfl) rfl with ⟨hinv', hrely, hκ'⟩
  have hps : (s.session n).psConn = none := congrArg psConn hview
  have hsc : (s.session n).serverConn = none := congrArg serverConn hview
  rw [hps, hsc] at hκ'
  exact ⟨.inl hfree, hinv', hrely.stable, _, hκ', hQ⟩

/-- The clean-up of a `Handle` whose start-up has failed.  It does not begin
while both fields refer to the same connection. -/
theorem does_giveIn (hn : T.session = n) (hregion : T.view.region = .startup)
    (hQ : (T.view.psConn = none ∨ T.view.psConn ≠ T.view.serverConn) →
      Q () (inside { T with view := { T.view with
        region := .cleanup, giving := none, swapping := false, early := false } } p)) :
    (owning cfg).Does t (.enter n .cleanup) Q (inside T p) := by
  subst hn
  refine ⟨nofun, ?_⟩
  intro s ch r s' hinv hknows hcond hexec
  have hκ : (inside T p).Holds s t := hknows
  have hT := hκ.inside_turn
  have hcond : undisturbed s t (.enter T.session .cleanup) ch = true := hcond
  simp only [undisturbed, Bool.and_eq_true, Bool.or_eq_true, decide_eq_true_eq, ne_eq,
    not_true_eq_false, false_or, hT.psConn, hT.serverConn] at hcond
  cases hexec
  rcases changed (f := fun k => { k with
      turn := some t, region := .cleanup, giving := none, swapping := false, early := false })
    (V := { T.view with region := .cleanup, giving := none, swapping := false, early := false })
    hinv hκ rfl (fun h => h ▸ hT.session_turn ▸ rfl) hT.turn rfl rfl rfl with ⟨hinv', hrely, hκ'⟩
  exact ⟨.inr (hT.region.trans hregion), hinv', hrely.stable, _, hκ', hQ hcond.2⟩

/-- The state in which a turn may end: the session holds the connections that
it refers to, and they are two. -/
structure Turn.Rests (T : Turn) : Prop where
  serverConn : ∀ c, T.view.serverConn = some c → c ∈ T.mine
  psConn : ∀ c, T.view.psConn = some c → c ∈ T.mine
  two : ∀ c, T.view.psConn = some c → T.view.serverConn ≠ some c

theorem end_turn {f : Session → Session} (hinv : Owned cfg s) (hκ : (inside T p).Holds s t)
    (hn : T.session = n) (hrests : T.Rests)
    (hf : view (s.session n) = T.view → view (f (s.session n)) = { T.view with turn := none })
    (hstart : (f (s.session n)).started = (s.session n).started ∨
      p.before = some n ∧ (f (s.session n)).started = true)
    (hended : (f (s.session n)).ended = (s.session n).ended) :
    Owned cfg (s.setSession n f) ∧ Rely t s (s.setSession n f) ∧
      ∀ m, ((s.setSession n f).session m).turn ≠ some t := by
  subst hn
  have hT := hκ.inside_turn
  have hf := hf hT.view
  have hturn : (f (s.session T.session)).turn = none := congrArg turn hf
  have hps : (f (s.session T.session)).psConn = T.view.psConn := congrArg psConn hf
  have hsc : (f (s.session T.session)).serverConn = T.view.serverConn :=
    congrArg serverConn hf
  have hmono : (s.session T.session).started = true →
      (f (s.session T.session)).started = true := fun h => hstart.elim (fun h' => h'.trans h) And.right
  refine ⟨?_, ?_, ?_⟩
  · refine hinv.setSession ?_ hmono hended ?_ ?_ ?_
    · rw [hps, hsc]
      exact fun _ => ⟨fun c hc => hT.mine c (hrests.serverConn c hc), hrests.two⟩
    · rw [hps]
      exact fun c hc => .inl (hT.mine c (hrests.psConn c hc))
    · rw [hps, ← hT.psConn]
      exact hinv.ended _
    · rw [hps, ← hT.psConn]
      exact hinv.mode _
  · refine Rely.setSession (.inr hT.session_turn) ?_ hT.began hmono hended ?_
    · rw [hturn]
      nofun
    · rw [hps, ← hT.psConn]
      exact fun _ c hc => .inr hc
  · refine forall_session (P := fun _ k => k.turn ≠ some t) ?_ ?_
    · rw [hturn]
      nofun
    · exact fun m hm h => hm (hκ.inside_only m h).symm

theorem does_leave (hn : T.session = n) (hp : p.Calm)
    (hrests : T.Rests) (hQ : Q () { past := p }) : (owning cfg).Does t (.leave n) Q (inside T p) := by
  subst hn
  refine does_inside fun s ch r s' hinv hκ hT hexec => ?_
  cases hexec
  rcases end_turn (f := fun k => { k with turn := none }) hinv hκ rfl hrests (fun h => h ▸ rfl)
    (.inl rfl) rfl with ⟨hinv', hrely, hnone⟩
  exact ⟨⟨hT.session_turn, hκ.past.settled hp⟩, hinv', hrely.stable, { past := p },
    holds_outside hnone (hκ.past.setSession rfl rfl), hQ⟩

theorem does_goRelay (hn : T.session = n) (hregion : T.view.region = .startup) (hrests : T.Rests)
    (hQ : Q () { past := { started := [n] } }) :
    (owning cfg).Does t (.goRelay n) Q (inside T { before := some n }) := by
  subst hn
  refine does_inside fun s ch r s' hinv hκ hT hexec => ?_
  cases hexec
  rcases end_turn (f := fun k => { k with started := true, turn := none }) hinv hκ rfl hrests
    (fun h => h ▸ rfl) (.inr ⟨rfl, rfl⟩) rfl with ⟨hinv', hrely, hnone⟩
  refine ⟨⟨hT.session_turn, hT.region.trans hregion⟩, hinv', hrely.stable,
    { past := { started := [T.session] } }, ?_, hQ⟩
  refine holds_outside hnone { hκ.past with started := ?_, before := nofun, after := nofun }
  intro m hm
  rw [mem_singleton.mp hm, session_self]

/-- What `closeRelay` does: the relay is over, and the connection that it read
from is closed. -/
structure RelayCloses (n : SessionId) (s s' : State) : Prop where
  conns : s'.conns = s.conns
  place : s'.place = s.place
  waiter : s'.waiter = s.waiter
  nextWaiter : s'.nextWaiter = s.nextWaiter
  nextConn : s'.nextConn = s.nextConn
  session : s'.session = (s.setSession n fun k => { k with ended := true }).session
  txn : s'.txn = s.txn
  asked : s'.asked = s.asked
  talk : s'.talk = s.talk
  closed : ∀ c, (s'.conn c).closed = ((s.conn c).closed || decide ((s.session n).psConn = some c))

theorem relayCloses_of_exec (t : Thread) (ch : Choice) {r : Unit}
    (h : exec s t (.closeRelay n) ch = some (r, s')) : RelayCloses n s s' := by
  rcases h with ⟨-, rfl⟩
  cases hps : (s.session n).psConn with
  | none =>
    exact ⟨rfl, rfl, rfl, rfl, rfl, rfl, rfl, rfl, rfl, fun c => by simp [setSession, hps]⟩
  | some c =>
    refine ⟨rfl, rfl, rfl, rfl, rfl, rfl, rfl, rfl, rfl, ?_⟩
    intro d
    by_cases hd : d = c
    · subst hd
      simp [close, setConn, setSession, hps]
    · simp [close, setConn, setSession, hps, hd, Ne.symm hd]

section RelayCloses

variable (h : RelayCloses n s s')

include h

theorem RelayCloses.mono (hc : (s.conn c).closed = true) : (s'.conn c).closed = true := by
  rw [h.closed, hc]
  rfl

theorem RelayCloses.view (m : SessionId) : view (s'.session m) = view (s.session m) := by
  rw [h.session]
  by_cases hm : m = n
  · subst hm
    rw [session_self]
    rfl
  · rw [session_other hm]

theorem RelayCloses.started (m : SessionId) : (s'.session m).started = (s.session m).started := by
  rw [h.session]
  by_cases hm : m = n
  · subst hm
    rw [session_self]
  · rw [session_other hm]

theorem RelayCloses.ended {m : SessionId} (hm : (s'.session m).ended = true) :
    m = n ∨ (s.session m).ended = true := by
  rw [h.session] at hm
  by_cases hmn : m = n
  · exact .inl hmn
  · rw [session_other hmn] at hm
    exact .inr hm

theorem RelayCloses.owned (hinv : Owned cfg s) (hstart : (s.session n).started = true) :
    Owned cfg s' where
  nodup := by
    rw [h.conns]
    exact hinv.nodup
  idle := by
    rw [h.conns, h.place]
    exact hinv.idle
  delivered := by
    rw [h.waiter, h.place]
    exact hinv.delivered
  fresh := by
    rw [h.nextConn, h.place]
    exact hinv.fresh
  rest m hm := by
    have hsc : (s'.session m).serverConn = (s.session m).serverConn :=
      congrArg serverConn (h.view m)
    have hps : (s'.session m).psConn = (s.session m).psConn := congrArg psConn (h.view m)
    rw [hsc, hps, h.place]
    exact hinv.rest m ((congrArg turn (h.view m)).symm.trans hm)
  reader m c hc := by
    have hturn : (s'.session m).turn = (s.session m).turn := congrArg turn (h.view m)
    rw [h.place, hturn, h.started]
    exact (hinv.reader m c ((congrArg psConn (h.view m)).symm.trans hc)).imp id
      fun hr => ⟨hr.1, hr.2.imp id h.mono⟩
  ended m c he hc := by
    have hc' : (s.session m).psConn = some c := (congrArg psConn (h.view m)).symm.trans hc
    rcases h.ended he with rfl | he
    · rw [h.closed, hc', decide_eq_true rfl, Bool.or_true]
    · exact h.mono (hinv.ended m c he hc')
  relay m he := by
    rw [h.started]
    rcases h.ended he with rfl | he
    · exact hstart
    · exact hinv.relay m he
  mode m c hc := by
    rw [h.nextConn]
    exact hinv.mode m c ((congrArg psConn (h.view m)).symm.trans hc)
  txn x k hk := by
    rw [h.started]
    exact hinv.txn x k (h.txn ▸ hk)

theorem RelayCloses.rely (hheld : ∀ c, (s.session n).psConn = some c → s.place c = .session n) :
    Rely t s s' where
  view m _ _ := h.view m
  fresh m _ _ := h.view m
  turn m _ _ hm := (congrArg View.turn (h.view m)).symm.trans hm
  started m hm := (h.started m).trans hm
  unstarted m _ hm := (h.started m).trans hm
  ended m hm := by
    rw [h.session]
    by_cases hmn : m = n
    · subst hmn
      rw [session_self]
    · rwa [session_other hmn]
  kept c _ _ _ := congrFun h.place c
  releasing c _ _ _ := congrFun h.place c
  nextWaiter := le_of_eq h.nextWaiter.symm
  waiter w _ _ := by
    rw [h.waiter]
    exact ⟨rfl, rfl⟩
  nextConn := le_of_eq h.nextConn.symm
  closed _ _ hc := h.mono hc
  locked u c _ hl := by
    refine ⟨h.conns ▸ hl, h.asked.trans, fun hc => ?_⟩
    have hne : (s.session n).psConn ≠ some c := by
      intro hps
      rw [hheld c hps] at hc
      cases hc
    rw [h.closed, decide_eq_false hne, Bool.or_false]
  reader m c _ hps hplace :=
    .inr ⟨(congrArg psConn (h.view m)).trans hps, (congrFun h.place c).trans hplace⟩
  talk u _ := congrFun h.talk u

end RelayCloses

theorem does_closeRelay (hQ : Q () { past := { after := some n } }) :
    (owning cfg).Does (.handle n) (.closeRelay n) Q { past := { started := [n] } } := by
  refine ⟨nofun, ?_⟩
  intro s ch r s' hinv hknows _ hexec
  have hκ : Know.Holds { past := { started := [n] } } s (.handle n) := hknows
  have h : RelayCloses n s s' := relayCloses_of_exec (.handle n) ch hexec
  have hheld : ∀ c, (s.session n).psConn = some c → s.place c = .session n := by
    intro c hc
    rcases hinv.reader n c hc with h | h
    · exact h
    · rcases hκ.only n h.1 with ⟨T, hT, -⟩
      cases hT
  refine ⟨hheld, h.owned hinv (hκ.past.started n mem_cons_self), (h.rely hheld).stable,
    { past := { after := some n } }, ?_, hQ⟩
  refine holds_outside ?_ ⟨nofun, nofun, ?_, ?_, ?_⟩
  · intro m hm
    exact hκ.outside_only m ((congrArg turn (h.view m)).symm.trans hm)
  · intro m hm
    cases hm
    rw [h.session, session_self]
    exact ⟨rfl, rfl⟩
  · rw [h.talk]
    exact hκ.past.unsent
  · rw [h.talk]
    exact hκ.past.answering

/-! ## Looking at a session, and other quiet operations -/

theorem does_getServerConn {Q : Option ConnId → Know → Prop} (hn : T.session = n)
    (hQ : Q T.view.serverConn (inside T p)) :
    (owning cfg).Does t (.getServerConn n) Q (inside T p) := by
  subst hn
  apply does_quiet rfl
  · exact fun _ _ _ => trivial
  · intro s ch r s' _ hκ hexec hκ' _
    cases hexec
    exact ⟨_, hκ', hκ.inside_turn.serverConn ▸ hQ⟩

theorem does_getPsConn {Q : Option ConnId → Know → Prop} (hn : T.session = n)
    (hQ : Q T.view.psConn (inside T p)) : (owning cfg).Does t (.getPsConn n) Q (inside T p) := by
  subst hn
  apply does_quiet rfl
  · exact fun _ _ _ => trivial
  · intro s ch r s' _ hκ hexec hκ' _
    cases hexec
    exact ⟨_, hκ', hκ.inside_turn.psConn ▸ hQ⟩

/-- `forwardServerToClient` takes the connection that it is going to read. -/
theorem does_takePsConn {Q : Option ConnId → Know → Prop}
    (hnone : Q none { past := { started := [n] } })
    (hsome : ∀ c, cfg.mode = .session →
      Q (some c) { past := { started := [n] }, reading := some (n, c) }) :
    (owning cfg).Does t (.getPsConn n) Q { past := { started := [n] } } := by
  apply does_quiet rfl
  · exact fun _ _ _ => trivial
  · intro s ch r s' hinv hκ hexec hκ' _
    cases hexec
    cases hps : (s.session n).psConn with
    | none => exact ⟨_, hκ', hnone⟩
    | some c =>
      have hstart : (s.session n).started = true := hκ.past.started n mem_cons_self
      refine ⟨{ past := { started := [n] }, reading := some (n, c) },
        { hκ' with reading := ?_ }, hsome c (hinv.mode n c hps).1⟩
      intro m d hd
      cases hd
      refine ⟨hstart, (hinv.mode n c hps).2, ?_⟩
      rcases hinv.reader n c hps with h | ⟨-, h | h⟩
      · exact .inr ⟨hps, h⟩
      · rw [hstart] at h
        cases h
      · exact .inl h

theorem does_awaitRelay (hQ : Q () { past := { started := [n] } }) :
    (owning cfg).Does t (.awaitRelay n) Q {} := by
  apply does_quiet rfl
  · exact fun _ _ _ => trivial
  · intro s ch r s' hinv hκ hexec hκ' _
    simp only [exec] at hexec
    split at hexec
    · rename_i hstart
      cases hexec
      refine ⟨{ past := { started := [n] } }, { hκ' with past := { hκ'.past with started := ?_ } },
        hQ⟩
      intro m hm
      rw [mem_singleton.mp hm]
      exact hstart
    · cases hexec

theorem does_register {abortFunc : Bool} {Q : TxnId → Know → Prop} (hn : n ∈ p.started)
    (hQ : ∀ x, Q x (inside T p)) : (owning cfg).Does t (.register n abortFunc) Q (inside T p) := by
  refine does_inside fun s ch r s' hinv hκ hT hexec => ?_
  cases hexec
  refine ⟨trivial, { hinv with txn := ?_ }, Rely.stable { Rely.refl s with }, inside T p,
    holds_inside { hT with } hκ.inside_only { hκ.past with }, hQ _⟩
  intro x k hk
  by_cases hx : x = s.nextTxn
  · subst hx
    simp only [update_self] at hk
    cases hk
    exact hκ.past.started n hn
  · simp only [update_of_ne hx] at hk
    exact hinv.txn x k hk

/-- A session whose transaction has timed out has registered one. -/
theorem txn_of_timeouts {l l' : List (Option SessionId × TxnId)} {ch : Choice}
    (h : exec s t .timeouts ch = some ((l, l'), s')) (hn : n ∈ (l ++ l').filterMap Prod.fst) :
    ∃ x k, s.txn x = some k ∧ k.session = n := by
  simp only [exec] at h
  split at h
  · split at h <;> cases h
    rw [← map_append] at hn
    rcases mem_filterMap.mp hn with ⟨e, he, hen⟩
    rcases mem_map.mp he with ⟨x, -, rfl⟩
    rcases bind_eq_some_iff.mp hen with ⟨k, hk, hkn⟩
    split at hkn
    · cases hkn
      exact ⟨x, k, hk, rfl⟩
    · cases hkn
  · cases h

theorem does_timeouts {l0 : List SessionId}
    {Q : List (Option SessionId × TxnId) × List (Option SessionId × TxnId) → Know → Prop}
    (hQ : ∀ l l', Q (l, l') { past := { started := (l ++ l').filterMap Prod.fst } }) :
    (owning cfg).Does t .timeouts Q { past := { started := l0 } } := by
  apply does_quiet rfl
  · exact fun _ _ _ => trivial
  · intro s ch r s' hinv hκ hexec hκ' _
    rcases r with ⟨l, l'⟩
    refine ⟨{ past := { started := (l ++ l').filterMap Prod.fst } },
      { hκ' with past := { hκ'.past with started := ?_ } }, hQ l l'⟩
    intro n hn
    rcases txn_of_timeouts hexec hn with ⟨x, k, hk, rfl⟩
    rw [(quiet_of_exec rfl hexec).started]
    exact hinv.txn x k hk

theorem does_readReset {Q : Option Reply → Know → Prop} {live : Bool}
    (hQ : ∀ r, Q r (resetting T p { conn := c, locked := true, live := live })) :
    (owning cfg).Does t (.readReset c) Q
      (resetting T p { conn := c, locked := true, live := live }) :=
  does_aside rfl (fun _ _ hκ => ⟨hκ.resetting_rel.place, hκ.resetting_rel.locked rfl⟩) hQ

theorem does_acquireFailed (hn : T.session = n) (hQ : T.view.swapping = false → Q () (inside T p)) :
    (owning cfg).Does t (.acquireFailed n) Q (inside T p) := by
  subst hn
  apply does_quiet rfl
  · exact fun _ _ _ => trivial
  · intro s ch r s' hinv hκ hexec hκ' hcond
    have hswap : (s.session T.session).swapping = false := by
      simpa [undisturbed] using hcond
    exact ⟨_, hκ', hQ (hκ.inside_turn.swapping.symm.trans hswap)⟩

/-! ## What a relay writes and reads -/

/-- What a goroutine records of its own writing and reading concerns nobody
else. -/
theorem said {s1 : State} {f : Talk → Talk} {κ : Know} (u : Option (SessionId × Reply))
    (a : Option ConnId) (h : Quiet s s1) (hinv : Owned cfg s) (hκ : κ.Holds s t)
    (hunsent : (f (s.talk t)).unsent = u) (hanswering : (f (s.talk t)).dropped = false →
      (f (s.talk t)).answering = none ∨ (f (s.talk t)).answering = a) :
    Owned cfg (s1.say t f) ∧ Rely t s (s1.say t f) ∧
      Know.Holds { κ with past := { κ.past with unsent := u, answering := a } } (s1.say t f) t := by
  have hinv1 := h.owned hinv
  have hκ1 := h.holds hκ
  have hself : (s1.say t f).talk t = f (s.talk t) := by
    rw [← h.talk]
    exact update_self ..
  refine ⟨{ hinv1 with }, h.rely_trans { Rely.refl s1 with talk := ?_ }, ?_⟩
  · intro v hv
    exact update_of_ne hv ..
  · refine { hκ1 with turn := ?_, rel := ?_, past := { hκ1.past with unsent := ?_, answering := ?_ } }
    · exact fun T hT => { hκ1.turn T hT with }
    · exact fun R hR => { hκ1.rel R hR with }
    · rw [hself]
      exact hunsent
    · rw [hself]
      exact hanswering

variable {Q : Bool → Know → Prop}

/-- A message is written to a connection of the session, unless the end of a
transaction has released it already. -/
theorem does_write {effect : TxnEffect} {captured : Bool}
    (hn : T.session = n) (hp : p.Calm) (hregion : T.view.region = .message)
    (hgiving : T.view.giving = none) (hc : T.view.early = false → c ∈ T.mine)
    (hok : Q true (inside T { p with answering := if captured = true then some c else none }))
    (hfail : Q false (inside T p)) :
    (owning cfg).Does t (.write n c effect captured) Q (inside T p) := by
  subst hn
  refine does_inside fun s ch r s' hinv hκ hT hexec => ?_
  have hguar : Guar s t (.write T.session c effect captured) := by
    refine ⟨hT.session_turn, hT.region.trans hregion, hT.giving.trans hgiving, ?_,
      hκ.past.settled hp⟩
    intro hearly
    exact hT.mine c (hc (hT.early.symm.trans hearly))
  refine ⟨hguar, ?_⟩
  simp only [exec, some.injEq] at hexec
  split at hexec
  · cases hexec
    have hquiet : Quiet s (s.write T.session c effect) := Quiet.setConn rfl
    have hanswering : (Talk.wrote c captured (s.talk t)).dropped = false →
        some c = none ∨ some c = if captured = true then some c else none := by
      cases captured with
      | true => exact fun _ => .inr rfl
      | false =>
        intro hd
        have hd : ((s.talk t).dropped || true) = false := hd
        rw [Bool.or_true] at hd
        cases hd
    rcases said p.unsent _ hquiet hinv hκ hκ.past.unsent hanswering with
      ⟨hinv', hrely, hκ'⟩
    exact ⟨hinv', hrely.stable, _, hκ', hok⟩
  · cases hexec
    exact ⟨hinv, Stable.refl s, _, hκ, hfail⟩

/-- A reply is read.  It is the session's own, if the connection is. -/
theorem does_read {κ : Know} {Q : Option Reply → Know → Prop}
    (hguar : ∀ s, κ.Holds s t → (s.conn c).closed = false → (s.session n).early = false →
      s.place c = .session n) (hunsent : κ.past.unsent = none)
    (hanswering : κ.past.answering = none ∨ κ.past.answering = some c)
    (hnone : Q none { κ with past := { κ.past with unsent := none, answering := none } })
    (hsome : ∀ r, Q (some r) { κ with past := { κ.past with
      unsent := some (n, r), answering := if r.ready = true then none else κ.past.answering } }) :
    (owning cfg).Does t (.read n c) Q κ := by
  refine ⟨nofun, ?_⟩
  intro s ch r s' hinv hknows _ hexec
  have hκ : κ.Holds s t := hknows
  -- What is under way for the goroutine, if anything, is the answer on `c`.
  have hunder : (s.talk t).dropped = false → (s.talk t).answering = none ∨
      (s.talk t).answering = some c ∧ κ.past.answering = some c := by
    intro hd
    rcases hκ.past.answering hd with h | h
    · exact .inl h
    · rcases hanswering with ha | ha
      · exact .inl (h.trans ha)
      · exact .inr ⟨h.trans ha, ha⟩
  refine ⟨⟨hguar s hκ, hκ.past.unsent.trans hunsent⟩, ?_⟩
  simp only [exec] at hexec
  split at hexec
  · split at hexec
    · cases hexec
    · rename_i reply s1 hnext
      rcases nextReply_eq_some hnext with ⟨rs, -, rfl⟩
      cases hexec
      have hrest : (Talk.read n c reply (s.talk t)).dropped = false →
          (Talk.read n c reply (s.talk t)).answering = none ∨
            (Talk.read n c reply (s.talk t)).answering =
              if reply.ready = true then none else κ.past.answering := by
        intro hd
        simp only [Talk.read, Bool.or_eq_false_iff] at hd ⊢
        rcases hunder hd.1 with h | ⟨h, ha⟩
        · simp [h]
        · simp only [h, ha, decide_true, Bool.true_and, Bool.and_eq_false_iff] at hd ⊢
          rcases hd.2 with hr | hr
          · simp [hr]
          · have hl : reply.last = true := by simpa using hr
            simp [hl]
      have hquiet : Quiet s (s.setConn c fun k => { k with replies := rs.drop ch.lost }) :=
        Quiet.setConn rfl
      rcases said _ _ hquiet hinv hκ rfl hrest with
        ⟨hinv', hrely, hκ'⟩
      exact ⟨hinv', hrely.stable, _, hκ', hsome reply⟩
  · cases hexec
    have hrest : (Talk.lost c (s.talk t)).dropped = false → (s.talk t).answering = none ∨
        (s.talk t).answering = none := by
      intro hd
      simp only [Talk.lost, Bool.or_eq_false_iff, decide_eq_false_iff_not] at hd
      rcases hunder hd.1 with h | ⟨h, -⟩
      · exact .inl h
      · exact absurd h hd.2
    rcases said _ _ (Quiet.refl s) hinv hκ (hκ.past.unsent.trans hunsent) hrest
      with ⟨hinv', hrely, hκ'⟩
    exact ⟨hinv', hrely.stable, _, hκ', hnone⟩

theorem does_writeClient {κ : Know} {r : Reply} (hunsent : κ.past.unsent = some (n, r))
    (hok : Q true { κ with past := { κ.past with unsent := none } })
    (hfail : Q false { κ with past := { κ.past with unsent := none, answering := none } }) :
    (owning cfg).Does t (.writeClient n r) Q κ := by
  refine ⟨nofun, ?_⟩
  intro s ch b s' hinv hknows _ hexec
  have hκ : κ.Holds s t := hknows
  refine ⟨hκ.past.unsent.trans hunsent, ?_⟩
  simp only [exec, some.injEq, Prod.mk.injEq] at hexec
  rcases hexec with ⟨hb, rfl⟩
  rw [hb]
  cases b with
  | true =>
    rcases said (f := .sent true) none κ.past.answering (Quiet.refl s) hinv hκ rfl
      (fun hd => hκ.past.answering (Bool.or_eq_false_iff.mp hd).1) with ⟨hinv', hrely, hκ'⟩
    exact ⟨hinv', hrely.stable, _, hκ', hok⟩
  | false =>
    have hrest : (Talk.sent false (s.talk t)).dropped = false → (s.talk t).answering = none ∨
        (s.talk t).answering = none := by
      intro hd
      have hd : (s.talk t).answering.isSome = false := (Bool.or_eq_false_iff.mp hd).2
      exact .inl (isNone_iff_eq_none.mp (isSome_eq_false_iff.mp hd))
    rcases said none none (Quiet.refl s) hinv hκ rfl hrest with
      ⟨hinv', hrely, hκ'⟩
    exact ⟨hinv', hrely.stable, _, hκ', hfail⟩

end Geryon.Ownership
