import Geryon.Ownership.Quiet

/-!
# Moving connections

What holds when a connection is moved by the goroutine it belongs to, and the
operations by which the pool gives out connections: it takes one from the idle
list, creates one, or finds one that was delivered to its waiter.
-/

namespace Geryon.Ownership

open Conc Conc.Discipline Pool List Function State

variable {cfg : PoolConfig} {s s' : State} {t : Thread} {n : SessionId} {c : ConnId}
  {T : Turn} {p : Past}

/-! ## Inside a turn -/

/-- What a goroutine knows inside a turn, between two calls of the pool. -/
def inside (T : Turn) (p : Past) : Know := { turn := some T, past := p }

theorem holds_inside (hT : T.Holds s t)
    (honly : ∀ n, (s.session n).turn = some t → T.session = n) (hp : p.Holds s t) :
    (inside T p).Holds s t where
  turn T' hT' := by
    cases hT'
    exact hT
  only n hn := ⟨T, rfl, honly n hn⟩
  rel _ h := nomatch h
  past := hp
  fresh _ h := nomatch h
  reading _ _ h := nomatch h

theorem holds_outside (honly : ∀ n, (s.session n).turn ≠ some t) (hp : p.Holds s t) :
    Know.Holds { past := p } s t where
  turn _ h := nomatch h
  only n hn := absurd hn (honly n)
  rel _ h := nomatch h
  past := hp
  fresh _ h := nomatch h
  reading _ _ h := nomatch h

theorem Know.Holds.outside_only (h : Know.Holds { past := p } s t) (n : SessionId) :
    (s.session n).turn ≠ some t := by
  intro hn
  rcases h.only n hn with ⟨T, hT, -⟩
  cases hT

theorem Know.Holds.inside_turn (h : (inside T p).Holds s t) : T.Holds s t := h.turn T rfl

theorem does_inside {o : Op} {Q : o.Ret → Know → Prop}
    (h : ∀ (s : proxy.State) ch r s', Owned cfg s → (inside T p).Holds s t → T.Holds s t →
      proxy.exec s t o ch = some (r, s') → Guar s t o ∧ Owned cfg s' ∧ (owning cfg).Stable t s s' ∧
        ∃ κ : Know, κ.Holds s' t ∧ Q r κ) : (owning cfg).Does t o Q (inside T p) :=
  ⟨nofun, fun s ch r s' hinv hκ _ hexec => h s ch r s' hinv hκ (hκ.turn T rfl) hexec⟩

theorem Know.Holds.inside_only (h : (inside T p).Holds s t) (n : SessionId)
    (hn : (s.session n).turn = some t) : T.session = n := by
  rcases h.only n hn with ⟨T', hT', hn'⟩
  cases hT'
  exact hn'

namespace Turn

variable (h : T.Holds s t)
include h

theorem Holds.session_turn : (s.session T.session).turn = some t :=
  (congrArg View.turn h.view).trans h.turn

theorem Holds.psConn : (s.session T.session).psConn = T.view.psConn :=
  congrArg View.psConn h.view

theorem Holds.serverConn : (s.session T.session).serverConn = T.view.serverConn :=
  congrArg View.serverConn h.view

theorem Holds.region : (s.session T.session).region = T.view.region :=
  congrArg View.region h.view

theorem Holds.giving : (s.session T.session).giving = T.view.giving :=
  congrArg View.giving h.view

theorem Holds.early : (s.session T.session).early = T.view.early :=
  congrArg View.early h.view

theorem Holds.swapping : (s.session T.session).swapping = T.view.swapping :=
  congrArg View.swapping h.view

end Turn

/-- The goroutine is where connections are acquired. -/
structure Turn.Acquires (T : Turn) (n : SessionId) : Prop where
  session : T.session = n
  region : T.view.region = .startup ∨ T.view.region = .message
  giving : T.view.giving = none

theorem Turn.Holds.acquiring (h : T.Holds s t) (hacq : T.Acquires n) :
    Acquiring t (s.session n) := by
  rcases hacq with ⟨rfl, hregion, hgiving⟩
  exact ⟨h.session_turn, hregion.imp h.region.trans h.region.trans, h.giving.trans hgiving⟩

/-- The session has one more connection. -/
def Turn.add (T : Turn) (c : ConnId) : Turn := { T with mine := c :: T.mine }

/-- The session has passed a connection to `Release`. -/
def Turn.drop (T : Turn) (c : ConnId) : Turn :=
  { T with mine := T.mine.filter (· ≠ c), view := { T.view with giving := none } }

/-! ## Moving a connection -/

variable {q : Place} {Q : Option ConnId → Know → Prop} {w : Pool.WaiterId} {b : Backend} {q : Place}

theorem Owned.move (hinv : Owned cfg s) (hidle : c ∉ s.conns.idle) (hlt : c < s.nextConn)
    (hwait : ∀ w, (s.waiter w).conn = some c → (s.waiter w).taken = false → q = .waiter w)
    (hrest : ∀ m, (s.session m).turn = none → (s.session m).serverConn = some c → q = .session m)
    (hreader : ∀ m, (s.session m).psConn = some c → s.place c = .session m → q = .session m ∨
      (s.session m).turn = some (.handle m) ∧
        ((s.session m).started = false ∨ (s.conn c).closed = true)) : Owned cfg (s.move c q) := by
  have hself : (s.move c q).place c = q := update_self ..
  have hother : ∀ d, d ≠ c → (s.move c q).place d = s.place d :=
    fun d hd => update_of_ne hd ..
  refine { hinv with idle := ?_, delivered := ?_, fresh := ?_, rest := ?_, reader := ?_ }
  · intro d hd
    rw [hother d (fun h => hidle (h ▸ hd))]
    exact hinv.idle d hd
  · intro w d hd htaken
    by_cases hdc : d = c
    · subst hdc
      rw [hself]
      exact hwait w hd htaken
    · rw [hother d hdc]
      exact hinv.delivered w d hd htaken
  · intro d hd
    rw [hother d (fun h => not_lt.mpr hd (h ▸ hlt))]
    exact hinv.fresh d hd
  · intro m hm
    refine ⟨?_, (hinv.rest m hm).2⟩
    intro d hd
    by_cases hdc : d = c
    · subst hdc
      rw [hself]
      exact hrest m hm hd
    · rw [hother d hdc]
      exact (hinv.rest m hm).1 d hd
  · intro m d hd
    by_cases hdc : d = c
    · subst hdc
      rw [hself]
      rcases hinv.reader m d hd with hplace | hturn
      · exact hreader m hd hplace
      · exact .inr hturn
    · rw [hother d hdc]
      exact hinv.reader m d hd

theorem Owned.move_free (hinv : Owned cfg s) (hidle : c ∉ s.conns.idle) (hlt : c < s.nextConn)
    (hwait : ∀ w, (s.waiter w).conn = some c → (s.waiter w).taken = false → q = .waiter w)
    (hsess : ∀ m, s.place c ≠ .session m) : Owned cfg (s.move c q) :=
  hinv.move hidle hlt hwait (fun m hm hsc => absurd ((hinv.rest m hm).1 c hsc) (hsess m))
    fun m _ hm => absurd hm (hsess m)

theorem Rely.move (hsess : ∀ m, s.place c = .session m ∨ s.place c = .handing m →
      (s.session m).turn = some t) (hrel : ∀ u, s.place c = .releasing u → u = t)
    (hread : ∀ m, (s.session m).started = true → (s.session m).psConn = some c →
      s.place c = .session m → (s.conn c).closed = true ∨ q = .session m) :
    Rely t s (s.move c q) := by
  have hself : (s.move c q).place c = q := update_self ..
  have hother : ∀ d, d ≠ c → (s.move c q).place d = s.place d :=
    fun d hd => update_of_ne hd ..
  refine { Rely.refl s with kept := ?_, releasing := ?_, reader := ?_ }
  · intro d m hd hturn
    by_cases hdc : d = c
    · subst hdc
      exact absurd (hsess m hd) hturn
    · exact hother d hdc
  · intro d u hu hd
    by_cases hdc : d = c
    · subst hdc
      exact absurd (hrel u hd) hu
    · exact hother d hdc
  · intro m d hstart hps hd
    by_cases hdc : d = c
    · subst hdc
      exact (hread m hstart hps hd).imp id fun h => ⟨hps, hself.trans h⟩
    · exact .inr ⟨hps, (hother d hdc).trans hd⟩

namespace Turn

variable (h : T.Holds s t)
include h

theorem Holds.move (hmine : c ∉ T.mine) (hhand : T.hand ≠ some c) : T.Holds (s.move c q) t := by
  have hother : ∀ d, d ≠ c → (s.move c q).place d = s.place d :=
    fun d hd => update_of_ne hd ..
  refine { h with mine := ?_, hand := ?_ }
  · intro d hd
    rw [hother d (fun heq => hmine (heq ▸ hd))]
    exact h.mine d hd
  · intro d hd
    rw [hother d (fun heq => hhand (heq ▸ hd))]
    exact h.hand d hd

theorem Holds.add (hc : s.place c = .session T.session) : (T.add c).Holds s t :=
  { h with
    mine := by
      intro d hd
      rcases mem_cons.mp hd with rfl | hd
      · exact hc
      · exact h.mine d hd }

theorem Holds.notMem (hc : s.place c ≠ .session T.session) : c ∉ T.mine :=
  fun hmem => hc (h.mine c hmem)

theorem Holds.notHand (hc : s.place c ≠ .handing T.session) : T.hand ≠ some c :=
  fun hhand => hc (h.hand c hhand)

end Turn

/-- A quiet change before a step does not matter to the others. -/
theorem Quiet.rely_trans {s1 : State} (h : Quiet s s1) (h' : Rely t s1 s') : Rely t s s' where
  view n hnone hother := by
    rw [h'.view n ((h.session n).1 ▸ hnone) ((h.session n).1 ▸ hother)]
    exact h.view n
  fresh n ht hn := (h'.fresh n ht ((h.started n).trans hn)).trans (h.view n)
  turn n u hu hn := (h.session n).1 ▸ h'.turn n u hu hn
  started n hn := h'.started n ((h.started n).trans hn)
  unstarted n ht hn := h'.unstarted n ht ((h.started n).trans hn)
  ended n hn := h'.ended n ((h.ended n).trans hn)
  kept c n hc hturn := by
    rw [← h.place] at hc ⊢
    exact h'.kept c n hc ((h.session n).1 ▸ hturn)
  releasing c u hu hc := by
    rw [← h.place] at hc ⊢
    exact h'.releasing c u hu hc
  nextWaiter := h.nextWaiter ▸ h'.nextWaiter
  waiter w hw hown := by
    have hsame := h'.waiter w (h.nextWaiter ▸ hw) ((h.waiter w).2.1 ▸ hown)
    exact ⟨hsame.1.trans (h.waiter w).2.1, hsame.2.trans (h.waiter w).2.2⟩
  nextConn := h.nextConn ▸ h'.nextConn
  closed c hc hclosed := h'.closed c (h.nextConn ▸ hc) ((h.closed c).trans hclosed)
  locked u c hu hl := by
    rcases h'.locked u c hu (h.locked.trans hl) with ⟨hl', hasked, hclosed⟩
    refine ⟨hl', fun ha => hasked (h.asked ha), fun hc => ?_⟩
    rw [← h.place] at hc
    exact (hclosed hc).trans (h.closed c)
  reader n c hstart hps hplace := by
    rw [← h.place] at hplace
    rcases h'.reader n c ((h.started n).trans hstart) ((h.session n).2.1.trans hps) hplace with
      hclosed | hheld
    · exact .inl ((h.closed c).symm.trans hclosed)
    · exact .inr hheld
  talk u hu := (h'.talk u hu).trans (congrFun h.talk u)

/-! ## The pool gives out connections -/

/-- A connection that is on the idle list, or was never created, is nobody's. -/
theorem Owned.lt (hinv : Owned cfg s) (hc : s.place c ≠ .nowhere) : c < s.nextConn := by
  by_contra hlt
  exact hc (hinv.fresh c (Nat.le_of_not_lt hlt))

theorem Owned.notIdle (hinv : Owned cfg s) (hc : s.place c ≠ .idle) : c ∉ s.conns.idle :=
  fun hmem => hc (hinv.idle c hmem)

/-- A connection that belongs to no session, no waiter and no goroutine can be
moved by anyone. -/
theorem Rely.move_free (hsess : ∀ m, s.place c ≠ .session m) (hhand : ∀ m, s.place c ≠ .handing m)
    (hrel : ∀ u, s.place c ≠ .releasing u) : Rely t s (s.move c q) := by
  apply Rely.move
  · intro m hm
    rcases hm with hm | hm
    · exact absurd hm (hsess m)
    · exact absurd hm (hhand m)
  · intro u hu
    exact absurd hu (hrel u)
  · intro m _ _ hm
    exact absurd hm (hsess m)

theorem does_acquire (hacq : T.Acquires n) (hnone : Q none (inside T p))
    (hsome : ∀ c, c ∉ T.mine → Q (some c) (inside (T.add c) p)) :
    (owning cfg).Does t (.acquire n) Q (inside T p) := by
  have hn := hacq.session
  subst hn
  refine does_inside fun s ch r s' hinv hκ hT hexec => ?_
  simp only [exec] at hexec
  split at hexec
  · unfold State.acquire at hexec
    split at hexec
    · cases hexec
      exact ⟨hT.acquiring hacq, hinv, Stable.refl s, _, hκ, hnone⟩
    · rename_i c hlast
      cases hexec
      rcases getLast?_eq_some_iff.mp hlast with ⟨l, hl⟩
      have hplace : s.place c = .idle := hinv.idle c (hl ▸ mem_append_right l mem_cons_self)
      have hnodup : (l ++ [c]).Nodup := hl ▸ hinv.nodup
      have hnot : c ∉ l := by
        intro hmem
        rw [nodup_append] at hnodup
        exact hnodup.2.2 c hmem c mem_cons_self rfl
      -- The connection is off the list, and then it is the session's.
      have hoff : Owned cfg { s with conns := { s.conns with
          idle := s.conns.idle.dropLast, active := s.conns.active.insert c } } := by
        refine { hinv with nodup := ?_, idle := ?_ }
        · exact hinv.nodup.sublist (dropLast_sublist _)
        · intro d hd
          exact hinv.idle d ((dropLast_sublist _).subset hd)
      have hne : ∀ q, q ≠ Place.idle → s.place c ≠ q := fun q hq h => hq (h.symm.trans hplace)
      refine ⟨hT.acquiring hacq, ?_, ?_, inside (T.add c) p, ?_, hsome c (hT.notMem (hne _ (by simp)))⟩
      · refine hoff.move_free ?_ (hinv.lt (hne _ (by simp))) ?_ fun _ => hne _ (by simp)
        · show c ∉ s.conns.idle.dropLast
          rw [hl, dropLast_concat]
          exact hnot
        · intro w hw htaken
          exact absurd (hinv.delivered w c hw htaken) (hne _ (by simp))
      · have hrely : Rely t s (s.move c (.session T.session)) :=
          Rely.move_free (fun _ => hne _ (by simp)) (fun _ => hne _ (by simp))
            (fun _ => hne _ (by simp))
        exact Rely.stable { hrely with }
      · have hT' : T.Holds (s.move c (.session T.session)) t :=
          hT.move (hT.notMem (hne _ (by simp))) (hT.notHand (hne _ (by simp)))
        have hadd := hT'.add (update_self ..)
        exact holds_inside { hadd with } hκ.inside_only { hκ.past with }
  · cases hexec

theorem Turn.Holds.take (h : T.Holds s t) (hhand : T.hand = some c) :
    ({ T with hand := none } : Turn).Holds s t ∧ c ∉ T.mine := by
  refine ⟨{ h with hand := nofun }, h.notMem ?_⟩
  rw [h.hand c hhand]
  nofun

theorem took {s1 : State} (hquiet : Quiet s s1) (hinv : Owned cfg s) (hT : T.Holds s t)
    (hhand : T.hand = some c) :
    Owned cfg (s1.move c (.session T.session)) ∧ Rely t s (s1.move c (.session T.session)) ∧
      (({ T with hand := none } : Turn).add c).Holds (s1.move c (.session T.session)) t := by
  have hplace : s1.place c = .handing T.session := by
    rw [hquiet.place]
    exact hT.hand c hhand
  have hne : ∀ q, q ≠ Place.handing T.session → s1.place c ≠ q :=
    fun q hq h => hq (h.symm.trans hplace)
  have hinv1 := hquiet.owned hinv
  have hT1 := hquiet.turn hT
  refine ⟨?_, ?_, ?_⟩
  · refine hinv1.move_free (hinv1.notIdle (hne _ nofun)) (hinv1.lt (hne _ nofun)) ?_ fun _ =>
      hne _ nofun
    intro w hw htaken
    exact absurd (hinv1.delivered w c hw htaken) (hne _ nofun)
  · refine hquiet.rely_trans (Rely.move ?_ ?_ ?_)
    · intro m hm
      rcases hm with hm | hm
      · exact absurd hm (hne _ nofun)
      · rw [hplace] at hm
        cases hm
        exact hT1.session_turn
    · intro u hu
      exact absurd hu (hne _ nofun)
    · intro m _ _ hm
      exact absurd hm (hne _ nofun)
  · have hfree := (hT1.take hhand).1
    have hmove : ({ T with hand := none } : Turn).Holds (s1.move c (.session T.session)) t :=
      hfree.move (hT1.take hhand).2 nofun
    exact hmove.add (update_self ..)

variable {Q : Unit → Know → Prop}

theorem does_addActive (hacq : T.Acquires n) (hhand : T.hand = some c)
    (hQ : c ∉ T.mine → Q () (inside (({ T with hand := none } : Turn).add c) p)) :
    (owning cfg).Does t (.addActive n c) Q (inside T p) := by
  have hn := hacq.session
  subst hn
  refine does_inside fun s ch r s' hinv hκ hT hexec => ?_
  simp only [exec] at hexec
  split at hexec
  · cases hexec
    have hquiet : Quiet s { s with
        conns := { s.conns with active := s.conns.active.insert c }
        unregistered := s.unregistered.erase c } := { Quiet.refl s with }
    rcases took hquiet hinv hT hhand with ⟨hinv', hrely, hT'⟩
    exact ⟨⟨hT.acquiring hacq, hT.hand c hhand⟩, hinv', hrely.stable, _,
      holds_inside hT' hκ.inside_only { hκ.past with }, hQ (hT.take hhand).2⟩
  · cases hexec

variable {w : Pool.WaiterId}

theorem does_dequeue (hacq : T.Acquires n) (hhand : T.hand = some c)
    (hQ : c ∉ T.mine → Q () (inside (({ T with hand := none } : Turn).add c) p)) :
    (owning cfg).Does t (.dequeue n w (some c)) Q (inside T p) := by
  have hn := hacq.session
  subst hn
  refine does_inside fun s ch r s' hinv hκ hT hexec => ?_
  cases hexec
  have hquiet : Quiet s { s.dequeue T.session w none with
      returned := s.returned ++ [(c, w)] } := by
    have hdeq : Quiet s (s.dequeue T.session w none) := quiet_dequeue
    exact { hdeq with }
  rcases took hquiet hinv hT hhand with ⟨hinv', hrely, hT'⟩
  exact ⟨⟨hT.acquiring hacq, hT.hand c hhand⟩, hinv', hrely.stable, _,
    holds_inside hT' hκ.inside_only { hκ.past with }, hQ (hT.take hhand).2⟩

theorem place_connect {d : ConnId} (o : Option SessionId) (hd : d ≠ s.nextConn) :
    (s.connect t o b).2.place d = s.place d := by
  cases o with
  | none => rfl
  | some m => exact update_of_ne hd ..

section

variable (hinv : Owned cfg s)
include hinv

theorem Owned.ne_nextConn {d : ConnId} (hd : s.place d = q)
    (hq : q ≠ .nowhere) : d ≠ s.nextConn := by
  rintro rfl
  rw [hinv.fresh _ (le_refl _)] at hd
  exact hq hd.symm

variable (o : Option SessionId)

theorem Owned.connect : Owned cfg (s.connect t o b).2 := by
  have hconn : ∀ d, d ≠ s.nextConn → (s.connect t o b).2.conn d = s.conn d :=
    fun d hd => update_of_ne hd ..
  refine { hinv with
    idle := ?_, delivered := ?_, fresh := ?_, rest := ?_, reader := ?_, ended := ?_, mode := ?_ }
  · intro d hd
    rw [place_connect o (hinv.ne_nextConn (hinv.idle d hd) nofun)]
    exact hinv.idle d hd
  · intro w d hd htaken
    have hd' := hinv.delivered w d hd htaken
    rw [place_connect o (hinv.ne_nextConn hd' (by simp))]
    exact hd'
  · intro d hd
    have hlt : s.nextConn < d := hd
    rw [place_connect o (ne_of_gt hlt)]
    exact hinv.fresh d (le_of_lt hlt)
  · intro m hm
    refine ⟨fun d hd => ?_, (hinv.rest m hm).2⟩
    have hd' := (hinv.rest m hm).1 d hd
    rw [place_connect o (hinv.ne_nextConn hd' (by simp))]
    exact hd'
  · intro m d hd
    have hne := ne_of_lt (hinv.mode m d hd).2
    rw [place_connect o hne, hconn d hne]
    exact hinv.reader m d hd
  · intro m d he hd
    rw [hconn d (ne_of_lt (hinv.mode m d hd).2)]
    exact hinv.ended m d he hd
  · intro m d hd
    exact ⟨(hinv.mode m d hd).1, Nat.lt_succ_of_lt (hinv.mode m d hd).2⟩

theorem Rely.connect : Rely t s (s.connect t o b).2 := by
  have hconn : ∀ d, d ≠ s.nextConn → (s.connect t o b).2.conn d = s.conn d :=
    fun d hd => update_of_ne hd ..
  refine { Rely.refl s with
    kept := ?_, releasing := ?_, nextConn := Nat.le_succ _, closed := ?_, locked := ?_,
    reader := ?_ }
  · intro d m hd _
    rcases hd with hd | hd
    · exact place_connect o (hinv.ne_nextConn hd nofun)
    · exact place_connect o (hinv.ne_nextConn hd nofun)
  · intro d u _ hd
    exact place_connect o (hinv.ne_nextConn hd nofun)
  · intro d hd hclosed
    rw [hconn d (ne_of_lt hd)]
    exact hclosed
  · intro u d _ hl
    refine ⟨hl, id, fun hd => ?_⟩
    rw [hconn d (hinv.ne_nextConn hd nofun)]
  · intro m d _ hps hd
    exact .inr ⟨hps, (place_connect o (hinv.ne_nextConn hd nofun)).trans hd⟩

end

variable {Q : Option ConnId → Know → Prop}

theorem does_tryConnect {b : Backend} (hn : T.session = n)
    (hnone : Q none (inside T p)) (hsome : ∀ c, Q (some c) (inside { T with hand := some c } p)) :
    (owning cfg).Does t (.tryConnect (some n) b) Q (inside T p) := by
  subst hn
  refine does_inside fun s ch r s' hinv hκ hT hexec => ?_
  simp only [exec] at hexec
  split at hexec
  · cases hexec
    refine ⟨hT.session_turn, hinv.connect _, (Rely.connect hinv _).stable,
      inside { T with hand := some s.nextConn } p, ?_, hsome _⟩
    refine holds_inside { hT with mine := ?_, hand := ?_ } hκ.inside_only { hκ.past with }
    · intro d hd
      have hd' := hT.mine d hd
      exact (place_connect _ (hinv.ne_nextConn hd' (by simp))).trans hd'
    · intro d hd
      cases hd
      exact update_self ..
  · cases hexec
    exact ⟨hT.session_turn, hinv, Stable.refl s, _, hκ, hnone⟩

theorem does_prefetch (hQ : ∀ r, Q r {}) : (owning cfg).Does t (.tryConnect none b) Q {} := by
  refine ⟨nofun, ?_⟩
  intro s ch r s' hinv hknows _ hexec
  have hκ : Know.Holds {} s t := hknows
  simp only [exec] at hexec
  split at hexec
  · cases hexec
    exact ⟨trivial, hinv.connect _, (Rely.connect hinv _).stable, {},
      holds_outside hκ.outside_only { hκ.past with }, hQ _⟩
  · cases hexec
    exact ⟨trivial, hinv, Stable.refl s, {}, hκ, hQ _⟩

/-! ## Waiting -/

theorem does_enqueue {maxSize : Nat} {Q : Option Pool.WaiterId → Know → Prop}
    (hfull : Q none (inside T p)) (hQ : ∀ w, Q (some w) (inside { T with waiter := some w } p)) :
    (owning cfg).Does t (.enqueue n maxSize) Q (inside T p) := by
  refine does_inside fun s ch r s' hinv hκ hT hexec => ?_
  simp only [exec, Option.some.injEq] at hexec
  unfold enqueue at hexec
  split at hexec
  · cases hexec
    exact ⟨trivial, hinv, Stable.refl s, _, hκ, hfull⟩
  · cases hexec
    have hold : ∀ w < s.nextWaiter, (update s.waiter s.nextWaiter
        ({ owner := t } : Waiter)) w = s.waiter w :=
      fun w hw => update_of_ne (ne_of_lt hw) ..
    refine ⟨trivial, { hinv with delivered := ?_ }, Rely.stable { Rely.refl s with
      nextWaiter := Nat.le_succ _, waiter := ?_ }, inside { T with waiter := some s.nextWaiter } p,
      ?_, hQ _⟩
    · intro w d hd htaken
      by_cases hw : w = s.nextWaiter
      · subst hw
        simp at hd
      · simp only [update_of_ne hw] at hd htaken
        exact hinv.delivered w d hd htaken
    · intro w hw _
      exact ⟨congrArg Waiter.owner (hold w hw), congrArg Waiter.taken (hold w hw)⟩
    · refine holds_inside { hT with waiter := ?_ } hκ.inside_only { hκ.past with }
      intro w hw
      cases hw
      exact ⟨Nat.lt_succ_self _, by simp, by simp⟩

theorem looked (hinv : Owned cfg s) (hκ : (inside T p).Holds s t) (hw : T.waiter = some w) :
    ((s.waiter w).conn = none ∧ s.lookAt T.session w = (none, s)) ∨
    ∃ c, (s.waiter w).conn = some c ∧ (s.lookAt T.session w).1 = some c ∧
      Owned cfg (s.lookAt T.session w).2 ∧ Rely t s (s.lookAt T.session w).2 ∧
      (inside { T with hand := some c, waiter := none } p).Holds (s.lookAt T.session w).2 t := by
  have hT := hκ.inside_turn
  rcases hT.waiter w hw with ⟨hlt, hown, htaken⟩
  unfold lookAt
  cases hc : (s.waiter w).conn with
  | none => exact .inl ⟨rfl, rfl⟩
  | some c =>
    refine .inr ⟨c, rfl, rfl, ?_⟩
    have hplace : s.place c = .waiter w := hinv.delivered w c hc htaken
    have hne : ∀ q, q ≠ Place.waiter w → s.place c ≠ q := fun q hq h => hq (h.symm.trans hplace)
    have hself : ((s.setWaiter w fun k => { k with taken := true }).waiter w).taken = true := by
      simp [setWaiter]
    have hother : ∀ v, v ≠ w →
        (s.setWaiter w fun k => { k with taken := true }).waiter v = s.waiter v :=
      fun v hv => update_of_ne hv ..
    have hinv1 : Owned cfg (s.setWaiter w fun k => { k with taken := true }) := by
      refine { hinv with delivered := ?_ }
      intro v d hd hv
      by_cases hvw : v = w
      · subst hvw
        rw [hself] at hv
        cases hv
      · rw [hother v hvw] at hd hv
        exact hinv.delivered v d hd hv
    refine ⟨?_, ?_, ?_⟩
    · refine hinv1.move_free (hinv.notIdle (hne _ (by simp))) (hinv.lt (hne _ (by simp))) ?_
        fun _ => hne _ (by simp)
      intro v hv hvtaken
      by_cases hvw : v = w
      · subst hvw
        rw [hself] at hvtaken
        cases hvtaken
      · rw [hother v hvw] at hv hvtaken
        exact absurd (hinv.delivered v c hv hvtaken) (hne _ (by simpa using hvw))
    · have hrely : Rely t s (s.move c (.handing T.session)) :=
        Rely.move_free (fun _ => hne _ (by simp)) (fun _ => hne _ (by simp)) (fun _ => hne _ (by simp))
      refine { hrely with waiter := ?_ }
      intro v _ hv
      have hvw : v ≠ w := fun h => hv (h ▸ hown)
      show ((s.setWaiter w fun k => { k with taken := true }).waiter v).owner = _ ∧
        ((s.setWaiter w fun k => { k with taken := true }).waiter v).taken = _
      rw [hother v hvw]
      exact ⟨rfl, rfl⟩
    · have hT' : T.Holds (s.move c (.handing T.session)) t :=
        hT.move (hT.notMem (hne _ (by simp))) (hT.notHand (hne _ (by simp)))
      refine holds_inside { hT' with hand := ?_, waiter := by simp } hκ.inside_only { hκ.past with }
      intro d hd
      cases hd
      exact update_self ..

theorem does_checkWaiter {Q : Option ConnId × Bool → Know → Prop}
    (hn : T.session = n) (hw : T.waiter = some w) (hnone : ∀ b, Q (none, b) (inside T p))
    (hsome : ∀ c b, Q (some c, b) (inside { T with hand := some c, waiter := none } p)) :
    (owning cfg).Does t (.checkWaiter n w) Q (inside T p) := by
  subst hn
  refine does_inside fun s ch r s' hinv hκ hT hexec => ?_
  have hguar : Guar s t (.checkWaiter T.session w) :=
    ⟨hT.session_turn, (hT.waiter w hw).2.2⟩
  rcases hexec with ⟨rfl, rfl⟩
  rcases looked hinv hκ hw with ⟨-, hlook⟩ | ⟨c, -, hc, hinv', hrely, hκ'⟩
  · rw [hlook]
    exact ⟨hguar, hinv, Stable.refl s, _, hκ, hnone _⟩
  · rw [hc]
    exact ⟨hguar, hinv', hrely.stable, _, hκ', hsome c _⟩

theorem does_recheckWaiter
    (hn : T.session = n) (hw : T.waiter = some w) (hnone : Q none (inside T p))
    (hsome : ∀ c, Q (some c) (inside { T with hand := some c, waiter := none } p)) :
    (owning cfg).Does t (.recheckWaiter n w) Q (inside T p) := by
  subst hn
  refine does_inside fun s ch r s' hinv hκ hT hexec => ?_
  have hguar : Guar s t (.recheckWaiter T.session w) :=
    ⟨hT.session_turn, (hT.waiter w hw).2.2⟩
  have hexec' : s.lookAt T.session w = (r, s') := Option.some.inj hexec
  rcases looked hinv hκ hw with ⟨-, hlook⟩ | ⟨c, -, hc, hinv', hrely, hκ'⟩
  · rw [hlook] at hexec'
    cases hexec'
    exact ⟨hguar, hinv, Stable.refl s, _, hκ, hnone⟩
  · rw [hexec'] at hc hinv' hrely hκ'
    have hr : r = some c := hc
    subst hr
    exact ⟨hguar, hinv', hrely.stable, _, hκ', hsome c⟩

end Geryon.Ownership
