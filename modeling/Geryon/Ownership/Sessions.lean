import Geryon.Ownership.Moves

/-!
# Changing a session inside a turn

The fields of a session belong to the goroutine whose turn it is; these are
the operations by which it changes them.
-/

namespace Geryon.Ownership

open Conc Conc.Discipline Pool Option Function

variable {cfg : PoolConfig} {s s' : State} {t : Thread} {n : SessionId} {c : ConnId}
  {T : Turn} {p : Past}

/-! ## Changing a session inside a turn -/

section Session

variable {f : Session → Session}

theorem session_self : (s.setSession n f).session n = f (s.session n) := update_self ..

theorem session_other {m : SessionId} (hm : m ≠ n) :
    (s.setSession n f).session m = s.session m := update_of_ne hm ..

/-- What holds of the changed session and of all others holds of every
session. -/
theorem forall_session {P : SessionId → Session → Prop} (hself : P n (f (s.session n)))
    (hother : ∀ m, m ≠ n → P m (s.session m)) (m : SessionId) :
    P m ((s.setSession n f).session m) := by
  by_cases hm : m = n
  · subst hm
    rw [session_self]
    exact hself
  · rw [session_other hm]
    exact hother m hm

/-- Whoever has the turn, or takes it, may change the session, but not what
`Relay.Run` has done, and not the connection that the relay reads from. -/
theorem Rely.setSession (hturn : (s.session n).turn = none ∨ (s.session n).turn = some t)
    (hturn' : ∀ u, (f (s.session n)).turn = some u → u = t)
    (hbegan : t = .handle n ∨ (s.session n).started = true)
    (hstart : (s.session n).started = true → (f (s.session n)).started = true)
    (hended : (f (s.session n)).ended = (s.session n).ended)
    (hps : (s.session n).started = true → ∀ c, (s.session n).psConn = some c →
      (s.conn c).closed = true ∨ (f (s.session n)).psConn = some c) :
    Rely t s (s.setSession n f) := by
  have hfresh : t ≠ .handle n → (s.session n).started = false → False := by
    intro ht hs
    rcases hbegan with h | h
    · exact ht h
    · rw [h] at hs
      cases hs
  exact { Rely.refl s with
    view := forall_session (P := fun m k => (s.session m).turn ≠ none →
        (s.session m).turn ≠ some t → Ownership.view k = Ownership.view (s.session m))
      (fun h h' => (hturn.elim h h').elim) (fun _ _ _ _ => rfl)
    fresh := forall_session (P := fun m k => t ≠ .handle m → (s.session m).started = false →
        Ownership.view k = Ownership.view (s.session m))
      (fun h h' => (hfresh h h').elim) (fun _ _ _ _ => rfl)
    turn := forall_session (P := fun m k => ∀ u, u ≠ t → k.turn = some u →
        (s.session m).turn = some u)
      (fun u hu h => absurd (hturn' u h) hu) (fun _ _ _ _ => id)
    started := forall_session (P := fun m k => (s.session m).started = true → k.started = true)
      hstart (fun _ _ => id)
    unstarted := forall_session (P := fun m k => t ≠ .handle m → (s.session m).started = false →
        k.started = false)
      (fun h h' => (hfresh h h').elim) (fun _ _ _ => id)
    ended := forall_session (P := fun m k => (s.session m).ended = true → k.ended = true)
      hended.trans (fun _ _ => id)
    reader := forall_session (P := fun m k => ∀ c, (s.session m).started = true →
        (s.session m).psConn = some c → s.place c = .session m →
        (s.conn c).closed = true ∨ k.psConn = some c ∧ s.place c = .session m)
      (fun c hs hc hplace => (hps hs c hc).imp id fun h => ⟨h, hplace⟩)
      (fun _ _ _ _ hc hplace => .inr ⟨hc, hplace⟩) }

theorem Owned.setSession (hinv : Owned cfg s) (hrest : (f (s.session n)).turn = none →
      (∀ c, (f (s.session n)).serverConn = some c → s.place c = .session n) ∧
        ∀ c, (f (s.session n)).psConn = some c → (f (s.session n)).serverConn ≠ some c)
    (hstart : (s.session n).started = true → (f (s.session n)).started = true)
    (hended : (f (s.session n)).ended = (s.session n).ended)
    (hreader : ∀ c, (f (s.session n)).psConn = some c → s.place c = .session n ∨
      (f (s.session n)).turn = some (.handle n) ∧
        ((f (s.session n)).started = false ∨ (s.conn c).closed = true))
    (hclosed : ∀ c, (s.session n).ended = true → (f (s.session n)).psConn = some c →
      (s.conn c).closed = true)
    (hmode : ∀ c, (f (s.session n)).psConn = some c → cfg.mode = .session ∧ c < s.nextConn) :
    Owned cfg (s.setSession n f) where
  nodup := hinv.nodup
  idle := hinv.idle
  delivered := hinv.delivered
  fresh := hinv.fresh
  rest := forall_session (P := fun m k => k.turn = none →
      (∀ c, k.serverConn = some c → s.place c = .session m) ∧
        ∀ c, k.psConn = some c → k.serverConn ≠ some c)
    hrest (fun m _ => hinv.rest m)
  reader := forall_session (P := fun m k => ∀ c, k.psConn = some c → s.place c = .session m ∨
      k.turn = some (.handle m) ∧ (k.started = false ∨ (s.conn c).closed = true))
    hreader (fun m _ => hinv.reader m)
  ended := forall_session (P := fun _ k => ∀ c, k.ended = true → k.psConn = some c →
      (s.conn c).closed = true)
    (fun c he => hclosed c (hended.symm.trans he)) (fun m _ => hinv.ended m)
  relay := forall_session (P := fun _ k => k.ended = true → k.started = true)
    (fun he => hstart (hinv.relay n (hended.symm.trans he))) (fun m _ => hinv.relay m)
  mode := forall_session (P := fun _ k => ∀ c, k.psConn = some c →
      cfg.mode = .session ∧ c < s.nextConn)
    hmode (fun m _ => hinv.mode m)
  txn x k hk := forall_session (P := fun m k => (s.session m).started = true → k.started = true)
    hstart (fun _ _ => id) _ (hinv.txn x k hk)

/-- What a goroutine knows about the past is not touched by a change that
leaves alone what `Relay.Run` has done. -/
theorem Past.Holds.setSession (hp : p.Holds s t)
    (hstart : (f (s.session n)).started = (s.session n).started)
    (hended : (f (s.session n)).ended = (s.session n).ended) : p.Holds (s.setSession n f) t where
  started := forall_session (P := fun m k => m ∈ p.started → k.started = true)
    (fun hm => hstart.trans (hp.started n hm)) (fun m _ => hp.started m)
  before := forall_session (P := fun m k => p.before = some m → t = .handle m ∧ k.started = false)
    (fun hm => ⟨(hp.before n hm).1, hstart.trans (hp.before n hm).2⟩) (fun m _ => hp.before m)
  after := forall_session (P := fun m k => p.after = some m → t = .handle m ∧ k.ended = true)
    (fun hm => ⟨(hp.after n hm).1, hended.trans (hp.after n hm).2⟩) (fun m _ => hp.after m)
  unsent := hp.unsent
  answering := hp.answering

theorem inside_setSession {V : View} (hκ : (inside T p).Holds s t) (hn : T.session = n)
    (hview : view (s.session n) = T.view → view (f (s.session n)) = V) (hturn : V.turn = some t)
    (hstart : (f (s.session n)).started = (s.session n).started)
    (hended : (f (s.session n)).ended = (s.session n).ended) :
    (inside { T with view := V } p).Holds (s.setSession n f) t := by
  subst hn
  have hT := hκ.inside_turn
  refine holds_inside { hT with view := ?_, turn := hturn, began := ?_ } ?_
    (hκ.past.setSession hstart hended)
  · show view ((s.setSession T.session f).session T.session) = V
    rw [session_self]
    exact hview hT.view
  · show t = .handle T.session ∨ ((s.setSession T.session f).session T.session).started = true
    rw [session_self, hstart]
    exact hT.began
  · exact forall_session (P := fun m k => k.turn = some t → T.session = m)
      (fun _ => rfl) (fun m _ => hκ.inside_only m)

/-- A change inside a turn that keeps the turn and the connection that the
relay reads from. -/
theorem changed {V : View} (hinv : Owned cfg s) (hκ : (inside T p).Holds s t)
    (hn : T.session = n) (hview : view (s.session n) = T.view → view (f (s.session n)) = V)
    (hturn : V.turn = some t) (hps : V.psConn = T.view.psConn)
    (hstart : (f (s.session n)).started = (s.session n).started)
    (hended : (f (s.session n)).ended = (s.session n).ended) :
    Owned cfg (s.setSession n f) ∧ Rely t s (s.setSession n f) ∧
      (inside { T with view := V } p).Holds (s.setSession n f) t := by
  subst hn
  have hT := hκ.inside_turn
  have hV := hview hT.view
  have hturn' : (f (s.session T.session)).turn = some t := (congrArg View.turn hV).trans hturn
  have hps' : (f (s.session T.session)).psConn = (s.session T.session).psConn :=
    ((congrArg View.psConn hV).trans hps).trans hT.psConn.symm
  refine ⟨?_, ?_, inside_setSession hκ rfl hview hturn hstart hended⟩
  · refine hinv.setSession ?_ hstart.trans hended ?_ ?_ ?_
    · rw [hturn']
      nofun
    · rw [hps', hturn', hstart, ← hT.session_turn]
      exact hinv.reader _
    · rw [hps']
      exact hinv.ended _
    · rw [hps']
      exact hinv.mode _
  · refine Rely.setSession (.inr hT.session_turn) ?_ hT.began hstart.trans hended ?_
    · intro u hu
      exact some.inj (hu.symm.trans hturn')
    · intro _ c hc
      exact .inr (hps'.trans hc)

end Session

variable {Q : Unit → Know → Prop}

theorem does_setServerConn {v : Option ConnId} (hn : T.session = n)
    (hregion : v ≠ none → T.view.region = .startup ∨ T.view.region = .message)
    (hQ : Q () (inside { T with view := { T.view with serverConn := v, swapping := false } } p)) :
    (owning cfg).Does t (.setServerConn n v) Q (inside T p) := by
  subst hn
  refine does_inside fun s ch r s' hinv hκ hT hexec => ?_
  cases hexec
  rcases changed (f := fun k => { k with serverConn := v, swapping := false })
    (V := { T.view with serverConn := v, swapping := false }) hinv hκ rfl (fun h => h ▸ rfl) hT.turn
    rfl rfl rfl with ⟨hinv', hrely, hκ'⟩
  refine ⟨⟨hT.session_turn, ?_⟩, hinv', hrely.stable, _, hκ', hQ⟩
  rw [hT.region]
  exact hregion

theorem does_giveUp {why : Reason} (hn : T.session = n)
    (hp : p.Calm) (hregion : T.view.region = .message) (hsc : T.view.serverConn = some c)
    (hQ : Q () (inside { T with view := { T.view with
      giving := some c
      swapping := decide (why = .roleChange)
      early := T.view.early || decide (why = .transactionEnd) } } p)) :
    (owning cfg).Does t (.giveUp n c why) Q (inside T p) := by
  subst hn
  refine does_inside fun s ch r s' hinv hκ hT hexec => ?_
  cases hexec
  rcases changed (f := fun k => { k with
      giving := some c
      swapping := decide (why = .roleChange)
      early := k.early || decide (why = .transactionEnd) })
    (V := { T.view with
      giving := some c
      swapping := decide (why = .roleChange)
      early := T.view.early || decide (why = .transactionEnd) })
    hinv hκ rfl (fun h => h ▸ rfl) hT.turn rfl rfl rfl with ⟨hinv', hrely, hκ'⟩
  exact ⟨⟨hT.session_turn, hT.region.trans hregion, hT.serverConn.trans hsc,
    hκ.past.settled hp⟩, hinv', hrely.stable, _, hκ', hQ⟩

theorem does_setPsConn (hn : T.session = n)
    (hregion : T.view.region = .startup) (hbefore : p.before = some n) (hc : c ∈ T.mine)
    (hmode : cfg.mode = .session)
    (hQ : Q () (inside { T with view := { T.view with psConn := some c } } p)) :
    (owning cfg).Does t (.setPsConn n (some c)) Q (inside T p) := by
  subst hn
  refine does_inside fun s ch r s' hinv hκ hT hexec => ?_
  have hstart : (s.session T.session).started = false := (hκ.past.before _ hbefore).2
  have hplace : s.place c = .session T.session := hT.mine c hc
  cases hexec
  refine ⟨⟨hT.session_turn, fun _ => hT.region.trans hregion⟩, ?_, Rely.stable ?_, _,
    inside_setSession
      (V := { T.view with psConn := some c }) hκ rfl (fun h => h ▸ rfl) hT.turn rfl rfl, hQ⟩
  · refine hinv.setSession ?_ id rfl ?_ ?_ ?_
    · show (s.session T.session).turn = none → _
      rw [hT.session_turn]
      nofun
    · intro d hd
      cases hd
      exact .inl hplace
    · intro d he _
      rw [hinv.relay _ he] at hstart
      cases hstart
    · intro d hd
      cases hd
      exact ⟨hmode, hinv.lt (by rw [hplace]; nofun)⟩
  · refine Rely.setSession (.inr hT.session_turn) ?_ hT.began id rfl ?_
    · intro u hu
      exact some.inj (hu.symm.trans hT.session_turn)
    · intro hs
      rw [hstart] at hs
      cases hs

theorem does_clearPsConn (hn : T.session = n)
    (hout : p.before = some n ∨ p.after = some n)
    (hQ : Q () (inside { T with view := { T.view with psConn := none } } p)) :
    (owning cfg).Does t (.setPsConn n none) Q (inside T p) := by
  subst hn
  refine does_inside fun s ch r s' hinv hκ hT hexec => ?_
  cases hexec
  refine ⟨⟨hT.session_turn, fun h => absurd rfl h⟩, ?_, Rely.stable ?_, _,
    inside_setSession
      (V := { T.view with psConn := none }) hκ rfl (fun h => h ▸ rfl) hT.turn rfl rfl, hQ⟩
  · refine hinv.setSession ?_ id rfl nofun nofun nofun
    rw [hT.session_turn]
    nofun
  · refine Rely.setSession (.inr hT.session_turn) ?_ hT.began id rfl ?_
    · intro u hu
      exact some.inj (hu.symm.trans hT.session_turn)
    · intro hs c hc
      rcases hout with hb | ha
      · rw [(hκ.past.before _ hb).2] at hs
        cases hs
      · exact .inl (hinv.ended _ c (hκ.past.after _ ha).2 hc)

end Geryon.Ownership
