import Geryon.Ownership.Sessions

/-!
# Releasing and closing connections

`Release` operation by operation, and what an administrator does to the
connections of the pool.
-/

namespace Geryon.Ownership

open Conc Conc.Discipline Pool List Function Rely Option

variable {cfg : PoolConfig} {s s' : State} {t : Thread} {n : SessionId} {c : ConnId}
  {T : Turn} {p : Past}

/-! ## Releasing a connection -/

variable {q : Place} {Q : Unit → Know → Prop}

theorem let_go (hinv : Owned cfg s) (hκ : (inside T p).Holds s t) (hn : T.session = n)
    (hc : c ∈ T.mine) (hhand : T.hand = none)
    (hps : T.view.psConn = some c → p.before = some n ∨ p.after = some n)
    (hs' : s' = (s.setSession n fun k => { k with giving := none }).move c q) :
    Owned cfg s' ∧ Rely t s s' ∧ (inside (T.drop c) p).Holds s' t := by
  subst hn hs'
  have hT := hκ.inside_turn
  have hplace : s.place c = .session T.session := hT.mine c hc
  have hne : ∀ q, q ≠ Place.session T.session → s.place c ≠ q :=
    fun q hq h => hq (h.symm.trans hplace)
  rcases changed (f := fun k => { k with giving := none }) (V := { T.view with giving := none })
    hinv hκ rfl (fun h => h ▸ rfl) hT.turn rfl rfl rfl with ⟨hinv1, hrely1, hκ1⟩
  have hT1 := hκ1.inside_turn
  -- Only the clean-up of the session lets go of the connection that its relay
  -- reads from, and then that connection is closed or has no reader.
  have hreader : (s.session T.session).psConn = some c → t = .handle T.session ∧
      ((s.session T.session).started = false ∨ (s.conn c).closed = true) := by
    intro h
    rcases hps (hT.psConn.symm.trans h) with hb | ha
    · exact ⟨(hκ.past.before _ hb).1, .inl (hκ.past.before _ hb).2⟩
    · exact ⟨(hκ.past.after _ ha).1, .inr (hinv.ended _ c (hκ.past.after _ ha).2 h)⟩
  refine ⟨?_, ?_, ?_⟩
  · apply hinv1.move
    · exact hinv.notIdle (hne _ nofun)
    · exact hinv.lt (hne _ nofun)
    · intro w hw htaken
      exact absurd (hinv.delivered w c hw htaken) (hne _ nofun)
    · intro m hm hsc
      have hm' : s.place c = .session m := (hinv1.rest m hm).1 c hsc
      rw [hplace] at hm'
      cases hm'
      have hturn : (((s.setSession T.session fun k => { k with giving := none }).session
        T.session).turn) = some t := hT1.session_turn
      rw [hturn] at hm
      cases hm
    · intro m hm hm'
      have hm' : s.place c = .session m := hm'
      rw [hplace] at hm'
      cases hm'
      rw [session_self] at hm ⊢
      rcases hreader hm with ⟨ht, hdone⟩
      exact .inr ⟨by rw [← ht]; exact hT.session_turn, hdone⟩
  · have hrely : Rely t s (s.move c q) := by
      apply move
      · intro m hm
        rw [hplace] at hm
        rcases hm with hm | hm
        · cases hm
          exact hT.session_turn
        · cases hm
      · intro u hu
        exact absurd hu (hne _ nofun)
      · intro m hstart hm hm'
        rw [hplace] at hm'
        cases hm'
        rcases (hreader hm).2 with h | h
        · rw [hstart] at h
          cases h
        · exact .inl h
    refine { hrely with
      view := hrely1.view, fresh := hrely1.fresh, turn := hrely1.turn
      started := hrely1.started, unstarted := hrely1.unstarted, ended := hrely1.ended
      reader := ?_ }
    intro m d hstart hd hd'
    rcases hrely.reader m d hstart hd hd' with h | ⟨-, h⟩
    · exact .inl h
    · rcases hrely1.reader m d hstart hd hd' with h1 | ⟨h1, -⟩
      · exact .inl h1
      · exact .inr ⟨h1, h⟩
  · have hother : ∀ d, d ≠ c →
        ((s.setSession T.session fun k => { k with giving := none }).move c q).place d = s.place d :=
      fun d hd => update_of_ne hd ..
    refine holds_inside { hT1 with mine := ?_, hand := ?_ } hκ1.inside_only { hκ1.past with }
    · intro d hd
      rcases mem_filter.mp hd with ⟨hmem, hdc⟩
      rw [hother d (by simpa using hdc)]
      exact hT.mine d hmem
    · intro d hd
      rw [show (T.drop c).hand = none from hhand] at hd
      cases hd

theorem does_signal {Q : Bool → Know → Prop} (hn : T.session = n) (hp : p.Calm)
    (hc : c ∈ T.mine) (hhand : T.hand = none)
    (hps : T.view.psConn = some c → p.before = some n ∨ p.after = some n)
    (href : T.view.serverConn = some c ∨ T.view.psConn = some c)
    (hregion : T.view.region ≠ .startup)
    (hgiving : T.view.region = .message → T.view.giving = some c)
    (hserved : Q true (inside (T.drop c) p))
    (hnobody : Q false { inside (T.drop c) p with rel := some { conn := c } }) :
    (owning cfg).Does t (.signal n c) Q (inside T p) := by
  subst hn
  refine does_inside fun s ch r s' hinv hκ hT hexec => ?_
  have hguar : Guar s t (.signal T.session c) := by
    refine ⟨hT.session_turn, hT.mine c hc, ?_, ?_, ?_, hκ.past.settled hp⟩
    · rw [hT.serverConn, hT.psConn]
      exact href
    · rw [hT.region]
      exact hregion
    · rw [hT.region, hT.giving]
      exact hgiving
  refine ⟨hguar, ?_⟩
  simp only [exec, some.injEq] at hexec
  unfold State.signal at hexec
  split at hexec
  · rename_i q hpop
    cases hexec
    rcases let_go hinv hκ rfl hc hhand hps rfl with ⟨hinv', hrely, hκ'⟩
    refine ⟨{ hinv' with }, stable { hrely with },
      { inside (T.drop c) p with rel := some { conn := c } }, ?_, hnobody⟩
    refine { hκ' with turn := ?_, rel := ?_, past := { hκ'.past with } }
    · intro T' hT'
      exact { hκ'.turn T' hT' with }
    · intro R hR
      cases hR
      exact ⟨update_self .., by simp, by simp⟩
  · rename_i w q hpop
    cases hexec
    rcases let_go hinv hκ rfl hc hhand hps rfl with ⟨hinv', hrely, hκ'⟩
    have hself : (s.move c (.waiter w)).place c = .waiter w := update_self ..
    have hsame : ∀ v, (update s.waiter w { s.waiter w with conn := some c } v).owner =
        (s.waiter v).owner ∧
        (update s.waiter w { s.waiter w with conn := some c } v).taken =
        (s.waiter v).taken := by
      intro v
      by_cases hv : v = w
      · subst hv
        simp
      · simp [hv]
    refine ⟨{ hinv' with delivered := ?_ }, stable { hrely with waiter := fun v _ _ => hsame v },
      inside (T.drop c) p, ?_, hserved⟩
    · intro v d hd htaken
      have hd : (update s.waiter w { s.waiter w with conn := some c } v).conn = some d := hd
      by_cases hv : v = w
      · subst hv
        rw [update_self] at hd
        cases hd
        exact hself
      · rw [update_of_ne hv] at hd
        exact hinv'.delivered v d hd ((hsame v).2.symm.trans htaken)
    · refine holds_inside { hκ'.inside_turn with waiter := ?_ } hκ'.inside_only { hκ'.past with }
      intro v hv
      have hold := hκ'.inside_turn.waiter v hv
      exact ⟨hold.1, (hsame v).1.trans hold.2.1, (hsame v).2.trans hold.2.2⟩

/-- What a goroutine knows while it resets a connection. -/
def resetting (T : Turn) (p : Past) (R : Releasing) : Know := { inside T p with rel := some R }

variable {R : Releasing}

theorem Know.Holds.resetting_rel (h : (resetting T p R).Holds s t) : R.Holds s t := h.rel R rfl

theorem Know.Holds.resetting_inside (h : (resetting T p R).Holds s t) : (inside T p).Holds s t :=
  { h with rel := nofun }

theorem holds_resetting (h : (inside T p).Holds s t) (hR : R.Holds s t) :
    (resetting T p R).Holds s t :=
  { h with
    rel := by
      intro R' hR'
      cases hR'
      exact hR }

theorem does_releaseLock {maxSize : Nat} {Q : Bool → Know → Prop}
    (hQ : ∀ b, Q b (resetting T p { conn := c, locked := true })) :
    (owning cfg).Does t (.releaseLock c maxSize) Q (resetting T p { conn := c }) := by
  refine ⟨nofun, ?_⟩
  intro s ch r s' hinv hknows _ hexec
  have hκ : (resetting T p { conn := c }).Holds s t := hknows
  have hin := hκ.resetting_inside
  simp only [exec] at hexec
  split at hexec
  · rename_i hfree
    cases hexec
    have hnone : s.conns.locked = none := isNone_iff_eq_none.mp hfree
    refine ⟨hκ.resetting_rel.place, { hinv with }, stable { refl s with locked := ?_ },
      resetting T p { conn := c, locked := true }, ?_, hQ _⟩
    · intro u d _ hl
      rw [hnone] at hl
      cases hl
    · exact holds_resetting
        (holds_inside { hin.inside_turn with } hin.inside_only { hin.past with })
        ⟨hκ.resetting_rel.place, fun _ => rfl, by simp⟩
  · cases hexec

/-- Where the releasing goroutine holds the mutex, nobody else waits for what
it does to the connection. -/
theorem Rely.locked_of (hl : s.conns.locked = some (t, c)) {P : Thread → ConnId → Prop} :
    ∀ u d, u ≠ t → s.conns.locked = some (u, d) → P u d := by
  intro u d hu hud
  rw [hl] at hud
  cases hud
  exact absurd rfl hu

theorem does_writeReset {effect : TxnEffect} {Q : Bool → Know → Prop} (he : effect ≠ .opens)
    (hok : Q true (resetting T p { conn := c, locked := true, live := true }))
    (hfail : Q false (resetting T p { conn := c, locked := true })) :
    (owning cfg).Does t (.writeReset c effect) Q (resetting T p { conn := c, locked := true }) := by
  apply does_quiet rfl
  · intro s _ hκ
    exact ⟨hκ.resetting_rel.place, hκ.resetting_rel.locked rfl, he⟩
  · intro s ch r s' hinv hκ hexec hκ' _
    simp only [exec] at hexec
    split at hexec
    · rename_i h
      cases hexec
      refine ⟨resetting T p { conn := c, locked := true, live := true }, ?_, hok⟩
      refine holds_resetting hκ'.resetting_inside { hκ'.resetting_rel with live := ?_ }
      intro _
      refine ⟨rfl, rfl, ?_⟩
      simpa [State.writeReset, State.setConn] using h.2
    · cases hexec
      exact ⟨_, hκ', hfail⟩

theorem Owned.moveReleased (hinv : Owned cfg s) (hc : s.place c = .releasing t) :
    Owned cfg (s.move c q) := by
  have hne : ∀ q, q ≠ Place.releasing t → s.place c ≠ q := fun q hq h => hq (h.symm.trans hc)
  refine hinv.move_free (hinv.notIdle (hne _ nofun)) (hinv.lt (hne _ nofun)) ?_ fun _ =>
    hne _ nofun
  intro w hw htaken
  exact absurd (hinv.delivered w c hw htaken) (hne _ nofun)

theorem Rely.moveReleased (hc : s.place c = .releasing t) : Rely t s (s.move c q) := by
  apply move
  · intro m hm
    rw [hc] at hm
    rcases hm with hm | hm <;> cases hm
  · intro u hu
    rw [hc] at hu
    cases hu
    rfl
  · intro m _ _ hm
    rw [hc] at hm
    cases hm

theorem inside_moveReleased (hκ : (inside T p).Holds s t) (hc : s.place c = .releasing t) :
    (inside T p).Holds (s.move c q) t := by
  have hT := hκ.inside_turn
  have hne : ∀ q, q ≠ Place.releasing t → s.place c ≠ q := fun q hq h => hq (h.symm.trans hc)
  exact holds_inside (hT.move (hT.notMem (hne _ nofun)) (hT.notHand (hne _ nofun)))
    hκ.inside_only { hκ.past with }

theorem does_releaseIdle (hQ : Q () (inside T p)) : (owning cfg).Does t (.releaseIdle c) Q
      (resetting T p { conn := c, locked := true, live := true }) := by
  refine ⟨nofun, ?_⟩
  intro s ch r s' hinv hknows _ hexec
  have hκ : (resetting T p { conn := c, locked := true, live := true }).Holds s t := hknows
  have hR := hκ.resetting_rel
  have hl := hR.locked rfl
  cases hexec
  have hinv' : Owned cfg (s.move c .idle) := Owned.moveReleased hinv hR.place
  have hrely : Rely t s (s.move c .idle) := moveReleased hR.place
  have hin := inside_moveReleased (q := .idle) hκ.resetting_inside hR.place
  have hnot : c ∉ s.conns.idle := hinv.notIdle (by rw [hR.place]; nofun)
  refine ⟨⟨hR.place, hl, (hR.live rfl).2⟩, { hinv' with nodup := ?_, idle := ?_ },
    stable { hrely with locked := locked_of hl }, inside T p,
    holds_inside { hin.inside_turn with } hin.inside_only { hin.past with }, hQ⟩
  · show (s.conns.idle ++ [c]).Nodup
    rw [nodup_append]
    refine ⟨hinv.nodup, pairwise_singleton _ _, ?_⟩
    intro d hd e he heq
    rw [mem_singleton.mp he] at heq
    exact hnot (heq ▸ hd)
  · intro d hd
    rcases mem_append.mp hd with hd | hd
    · exact hinv'.idle d hd
    · rw [mem_singleton.mp hd]
      exact update_self ..

theorem Owned.close (hinv : Owned cfg s) : Owned cfg (s.close c) := by
  have hmono : ∀ d, (s.conn d).closed = true → ((s.close c).conn d).closed = true := by
    intro d hd
    by_cases hdc : d = c
    · subst hdc
      simp [State.close, State.setConn]
    · simpa [State.close, State.setConn, hdc] using hd
  refine { hinv with reader := ?_, ended := ?_ }
  · intro m d hd
    exact (hinv.reader m d hd).imp id fun h => ⟨h.1, h.2.imp id (hmono d)⟩
  · intro m d he hd
    exact hmono d (hinv.ended m d he hd)

theorem does_releaseClose {live : Bool} (hQ : Q () (inside T p)) :
    (owning cfg).Does t (.releaseClose c) Q
      (resetting T p { conn := c, locked := true, live := live }) := by
  refine ⟨nofun, ?_⟩
  intro s ch r s' hinv hknows _ hexec
  have hκ : (resetting T p { conn := c, locked := true, live := live }).Holds s t := hknows
  have hR := hκ.resetting_rel
  have hl := hR.locked rfl
  cases hexec
  have hinv' : Owned cfg ((s.close c).move c .nowhere) :=
    Owned.moveReleased hinv.close hR.place
  have hrely : Rely t s (s.move c .nowhere) := moveReleased hR.place
  have hin := inside_moveReleased (q := .nowhere) hκ.resetting_inside hR.place
  refine ⟨hR.place, { hinv' with }, stable { hrely with
    closed := ?_, locked := locked_of hl }, inside T p,
    holds_inside { hin.inside_turn with } hin.inside_only { hin.past with }, hQ⟩
  intro d _ hd
  by_cases hdc : d = c
  · subst hdc
    simp [State.releaseClose, State.close, State.setConn, State.move]
  · simpa [State.releaseClose, State.close, State.setConn, State.move, hdc] using hd

/-! ## Closing the pool, or what is idle for a backend -/

/-- Idle connections, and others, are closed, and the idle ones are gone. -/
theorem closed_idle {l l' : List ConnId} (conns : ServerConnPool) (hinv : Owned cfg s)
    (hκ : Know.Holds {} s t) (hfree : s.unlocked = true) (hl : ∀ c ∈ l, c ∈ s.conns.idle)
    (hidle : conns.idle.Sublist s.conns.idle) (hoff : ∀ c ∈ conns.idle, c ∉ l)
    (hs' : s' = { (s.closeMany l').dropMany l with conns := conns }) :
    Owned cfg s' ∧ Rely t s s' ∧ Know.Holds {} s' t := by
  have hother : ∀ {d q}, s.place d = q → q ≠ .idle → s'.place d = q := by
    intro d q hd hq
    have hnot : d ∉ l := fun hmem => hq (hd.symm.trans (hinv.idle d (hl d hmem)))
    simpa [hs', State.dropMany, State.closeMany, hnot] using hd
  have hmono : ∀ d, (s.conn d).closed = true → (s'.conn d).closed = true := by
    intro d hd
    simp only [hs', State.dropMany, State.closeMany]
    split
    · rfl
    · exact hd
  have hnone : s.conns.locked = none := isNone_iff_eq_none.mp hfree
  subst hs'
  refine ⟨?_, ?_, ?_⟩
  · refine { hinv with
      nodup := hinv.nodup.sublist hidle, idle := ?_, delivered := ?_, fresh := ?_, rest := ?_
      reader := ?_, ended := ?_ }
    · intro d hd
      have hnot : d ∉ l := hoff d hd
      simpa [State.dropMany, State.closeMany, hnot] using hinv.idle d (hidle.subset hd)
    · intro w d hd htaken
      exact hother (hinv.delivered w d hd htaken) nofun
    · intro d hd
      exact hother (hinv.fresh d hd) nofun
    · intro m hm
      refine ⟨fun d hd => ?_, (hinv.rest m hm).2⟩
      exact hother ((hinv.rest m hm).1 d hd) nofun
    · intro m d hd
      rcases hinv.reader m d hd with h | h
      · exact .inl (hother h nofun)
      · exact .inr ⟨h.1, h.2.imp id (hmono d)⟩
    · intro m d he hd
      exact hmono d (hinv.ended m d he hd)
  · refine { refl s with
      kept := ?_, releasing := ?_, closed := ?_, locked := ?_, reader := ?_ }
    · intro d m hd _
      rcases hd with hd | hd
      · exact (hother hd nofun).trans hd.symm
      · exact (hother hd nofun).trans hd.symm
    · intro d u _ hd
      exact (hother hd nofun).trans hd.symm
    · intro d _ hd
      exact hmono d hd
    · intro u d _ hl
      rw [hnone] at hl
      cases hl
    · intro m d _ hps hd
      exact .inr ⟨hps, hother hd nofun⟩
  · exact holds_outside hκ.outside_only { hκ.past with }

theorem does_closeAll (hQ : Q () {}) : (owning cfg).Does t .closeAll Q {} := by
  refine ⟨nofun, ?_⟩
  intro s ch r s' hinv hknows _ hexec
  simp only [exec] at hexec
  split at hexec
  · rename_i hfree
    cases hexec
    rcases closed_idle { s.conns with idle := [], active := [] } hinv hknows hfree
      (fun _ h => h) (nil_sublist _) (by simp) rfl with ⟨hinv', hrely, hκ'⟩
    exact ⟨trivial, hinv', hrely.stable, {}, hκ', hQ⟩
  · cases hexec

theorem does_closeBackend {address : Nat} (hQ : Q () {}) :
    (owning cfg).Does t (.closeBackend address) Q {} := by
  refine ⟨nofun, ?_⟩
  intro s ch r s' hinv hknows _ hexec
  simp only [exec] at hexec
  split at hexec
  · rename_i hfree
    cases hexec
    have hl : ∀ c ∈ s.conns.idle.filter (fun c => (s.conn c).backend.address = address),
        c ∈ s.conns.idle := fun c hc => (mem_filter.mp hc).1
    have hoff : ∀ c ∈ s.conns.idle.filter (fun c => (s.conn c).backend.address ≠ address),
        c ∉ s.conns.idle.filter (fun c => (s.conn c).backend.address = address) := by
      intro c hc hc'
      have h := (mem_filter.mp hc).2
      have h' := (mem_filter.mp hc').2
      simp only [decide_eq_true_eq] at h h'
      exact h h'
    rcases closed_idle { s.conns with
        idle := s.conns.idle.filter (fun c => (s.conn c).backend.address ≠ address) }
      hinv hknows hfree hl filter_sublist hoff rfl with ⟨hinv', hrely, hκ'⟩
    exact ⟨trivial, hinv', hrely.stable, {}, hκ', hQ⟩
  · cases hexec

end Geryon.Ownership
