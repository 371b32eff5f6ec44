import Geryon.Startup.Quiet

/-!
# Reads and writes of a handler

What the operations on the two connections do when a handler runs on its own:
one lemma for each of them, by cases of how it ends.
-/

namespace Geryon.Startup

open Conc Conc.Fallible Go.Conn Option World Outcome

variable {α β : Type}

/-! ## The two connections -/

@[simp] theorem World.conn_setConn (w : World) (side : Side) (c : Go.Conn) :
    (w.setConn side c).conn side = some c := by
  cases side <;> rfl

variable {w w' : World} {side : Side} {c : Go.Conn} {p : Handler α} {s : String} {n : Nat}

theorem World.setConn_self (h : w.conn side = some c) : w.setConn side c = w := by
  obtain ⟨shared, sess⟩ := w
  cases side with
  | client =>
    cases h
    rfl
  | server =>
    change sess.server = some c at h
    simp only [setConn, modify, ← h]

/-! ## Reads and writes -/

theorem eval_pure (a : α) (w : World) : eval (pure a) w = (some (.ok a), w) := rfl

theorem eval_bind (p : Handler α) (f : α → Handler β) (w : World) :
    eval (p >>= f) w = andThen (eval p w) fun a w' => eval (f a) w' :=
  alone_bind p f w

variable {o : Op} {r : o.Ret} {out : Option (Except Exc α)} {a : α} {buf b : Bytes}

theorem eval_op_of_some (h : step w o = some (r, w')) : eval (op o) w = (some (.ok r), w') :=
  alone_op_of_some h

theorem eval_op_of_none (h : step w o = none) : eval (op o) w = (none, w) :=
  alone_op_of_none h

theorem eval_bind_cases {f : α → Handler β} {out : Option (Except Exc β)}
    (h : eval (p >>= f) w = (out, w')) :
    (∃ a w1, eval p w = (some (.ok a), w1) ∧ eval (f a) w1 = (out, w')) ∨
      (∃ o, eval p w = (o, w') ∧ Failed o) ∧ Failed out :=
  alone_bind_cases h

theorem eval_bind_ok {f : α → Handler β} {b : β} (h : eval (p >>= f) w = (some (.ok b), w')) :
    ∃ a w1, eval p w = (some (.ok a), w1) ∧ eval (f a) w1 = (some (.ok b), w') := by
  rcases eval_bind_cases h with hok | ⟨-, hbad⟩
  · exact hok
  · exact absurd rfl (hbad b)

theorem eval_wrap_cases (h : eval (wrap s p) w = (out, w')) :
    (∃ a, out = some (.ok a) ∧ eval p w = (some (.ok a), w')) ∨
      (∃ o, eval p w = (o, w') ∧ Failed o) ∧ Failed out :=
  alone_mapError_cases h

theorem eval_onError {q : Handler Unit} (h : eval (onError p q) w = (some (.ok a), w')) :
    eval p w = (some (.ok a), w') := by
  refine alone_handle_ok (fun e w1 b hb => ?_) h
  cases e with
  | err e =>
    have hbind : eval (q >>= fun _ => fail e) w1 = (some (.ok b), _) := Prod.ext hb rfl
    rcases eval_bind_cases hbind with ⟨_, _, -, hfail⟩ | ⟨-, hbad⟩
    · cases hfail
    · exact hbad b rfl
  | panic => cases hb

theorem eval_wrap_of_ok (h : eval p w = (some (.ok a), w')) :
    eval (wrap s p) w = (some (.ok a), w') := by
  have hmap : eval (wrap s p) w = mapError (Exc.wrap s) (eval p w) :=
    alone_mapError (Exc.wrap s) p w
  rw [hmap, h]
  rfl

theorem eval_of_uses {A : Op → Prop} {J : World → Prop} {p : Handler α} {w w' : World}
    {out : Option (Except Exc α)} (hp : p.Uses A)
    (hstep : ∀ {w : World} {o : Op} {r : o.Ret} {w' : World}, A o → J w →
      step w o = some (r, w') → J w') (hw : J w) (h : eval p w = (out, w')) : J w' := by
  have hJ := Prog.alone_of_uses hp hstep hw
  rw [show p.run.alone step w = (out, w') from h] at hJ
  exact hJ

theorem eval_eq_of_fst (h : (eval p w).1 = some (.ok a)) :
    eval p w = (some (.ok a), (eval p w).2) := by
  rw [← h]

/-! ## However a handler ends -/

/-- If the part returns, `Q` holds of its result and of the state after it; if
it fails or blocks, `E` holds of the state it leaves. -/
def Meets (p : Handler α) (w : World) (Q : α → World → Prop) (E : World → Prop) : Prop :=
  ∀ out w', eval p w = (out, w') → (∃ a, out = some (.ok a) ∧ Q a w') ∨ Failed out ∧ E w'

section Meets

variable {Q R : α → World → Prop} {E : World → Prop}

theorem meets_pure (h : Q a w) : Meets (pure a) w Q E := by
  intro out w' hout
  cases hout
  exact .inl ⟨a, rfl, h⟩

theorem meets_throw {e : Exc} (h : E w) : Meets (throw e) w Q E := by
  intro out w' hout
  cases hout
  exact .inr ⟨failed_error _, h⟩

theorem meets_of_eval (h : eval p w = (some (.ok a), w')) (hQ : Q a w') : Meets p w Q E := by
  intro out w'' hout
  cases h.symm.trans hout
  exact .inl ⟨a, rfl, hQ⟩

/-- What follows the part, and how the whole fails with it. -/
theorem Meets.of_bind {f : α → Handler β} {out : Option (Except Exc β)} (hp : Meets p w Q E)
    (h : eval (p >>= f) w = (out, w')) :
    (∃ a w1, Q a w1 ∧ eval (f a) w1 = (out, w')) ∨ Failed out ∧ E w' := by
  rcases eval_bind_cases h with ⟨a, w1, ha, hfa⟩ | ⟨⟨o, ho, hfailed⟩, hbad⟩
  · rcases hp _ _ ha with ⟨b, hb, hQ⟩ | ⟨hbad, -⟩
    · cases hb
      exact .inl ⟨a, w1, hQ, hfa⟩
    · exact absurd rfl (hbad a)
  · rcases hp _ _ ho with ⟨b, rfl, -⟩ | ⟨-, hE⟩
    · exact absurd rfl (hfailed b)
    · exact .inr ⟨hbad, hE⟩

theorem meets_bind {f : α → Handler β} {R : β → World → Prop} (hp : Meets p w Q E)
    (hf : ∀ a w1, Q a w1 → Meets (f a) w1 R E) : Meets (p >>= f) w R E := by
  intro out w' h
  rcases hp.of_bind h with ⟨a, w1, hQ, hfa⟩ | hbad
  · exact hf a w1 hQ out w' hfa
  · exact .inr hbad

theorem meets_wrap (hp : Meets p w Q E) : Meets (wrap s p) w Q E := by
  intro out w' h
  rcases eval_wrap_cases h with ⟨a, rfl, ha⟩ | ⟨⟨o, ho, hfailed⟩, hbad⟩
  · exact hp _ _ ha
  · rcases hp _ _ ho with ⟨b, rfl, -⟩ | ⟨-, hE⟩
    · exact absurd rfl (hfailed b)
    · exact .inr ⟨hbad, hE⟩

theorem meets_mono {F : World → Prop} (hp : Meets p w Q E) (hQ : ∀ a w', Q a w' → R a w')
    (hE : ∀ w', E w' → F w') : Meets p w R F := by
  intro out w' h
  rcases hp out w' h with ⟨a, rfl, ha⟩ | ⟨hfailed, hw'⟩
  · exact .inl ⟨a, rfl, hQ a w' ha⟩
  · exact .inr ⟨hfailed, hE w' hw'⟩

theorem meets_ite {c : Prop} [Decidable c] {q : Handler α} (hp : c → Meets p w Q E)
    (hq : ¬c → Meets q w Q E) : Meets (if c then p else q) w Q E := by
  split
  · exact hp ‹_›
  · exact hq ‹_›

theorem meets_of_uses {A : Op → Prop} {J : World → Prop} (hp : p.Uses A)
    (hstep : ∀ {w : World} {o : Op} {r : o.Ret} {w' : World}, A o → J w →
      step w o = some (r, w') → J w') (hw : J w) : Meets p w (fun _ => J) J := by
  intro out w' h
  have hJ := eval_of_uses hp hstep hw h
  rcases ok_or_failed out with ⟨a, rfl⟩ | hfailed
  · exact .inl ⟨a, rfl, hJ⟩
  · exact .inr ⟨hfailed, hJ⟩

end Meets

section ReadFull

variable {side : Side} {buf : Bytes} {n : Nat} {w : World} {c : Go.Conn}

theorem eval_readFull (hc : w.conn side = some c) (hlen : n ≤ (buf ++ c.bytes).length) :
    ∃ buf' c', eval (readFull side buf n) w =
        (some (.ok ((buf ++ c.bytes).take n, buf')), w.setConn side c') ∧
      buf' ++ c'.bytes = (buf ++ c.bytes).drop n ∧
      (buf', c'.inp) = (c.reader buf).after n ∧ c.SameBut c' := by
  obtain ⟨buf', c', hread, hrest, hafter, hsame⟩ := readFull_ok hlen
  have hstep : step w (.readFull side buf n) =
      some ((.ok ((buf ++ c.bytes).take n), buf'), w.setConn side c') := by
    simp only [step, hc, hread, map_some]
  refine ⟨buf', c', ?_, hrest, hafter, hsame⟩
  rw [readFull, eval_bind, eval_op_of_some hstep]
  rfl

/-- A read at the end of what a peer has sent that has closed the
connection. -/
theorem eval_readFull_closed (hc : w.conn side = some c) (hlen : (buf ++ c.bytes).length < n)
    (hclosed : c.closed = true) :
    ∃ e c', eval (readFull side buf n) w = (some (.error (.err (.io e))), w.setConn side c') ∧
      c.SameBut c' := by
  have hshort := readFull_short hlen
  rw [if_pos hclosed] at hshort
  obtain ⟨e, c', hread, hsame⟩ := hshort
  have hstep : step w (.readFull side buf n) = some ((.error e, []), w.setConn side c') := by
    simp only [step, hc, hread, map_some]
  refine ⟨e, c', ?_, hsame⟩
  rw [readFull, eval_bind, eval_op_of_some hstep]
  rfl

theorem eval_readFull_blocks (hc : w.conn side = some c) (hlen : (buf ++ c.bytes).length < n)
    (hopen : c.closed = false) : eval (readFull side buf n) w = (none, w) := by
  have hshort := readFull_short hlen
  rw [if_neg (by simp [hopen])] at hshort
  have hstep : step w (.readFull side buf n) = none := by
    simp only [step, hc, hshort, map_none]
  rw [readFull, eval_bind, eval_op_of_none hstep]
  rfl

end ReadFull

theorem meets_readFull (hc : w.conn side = some c) : Meets (readFull side buf n) w
      (fun r w1 => ∃ c1, w1 = w.setConn side c1 ∧ c.SameBut c1 ∧
        n ≤ (buf ++ c.bytes).length ∧ r.1 = (buf ++ c.bytes).take n ∧
        r.2 ++ c1.bytes = (buf ++ c.bytes).drop n)
      fun w1 => (buf ++ c.bytes).length < n ∧ ∃ c1, w1 = w.setConn side c1 ∧ c.SameBut c1 := by
  intro out w' h
  by_cases hlen : n ≤ (buf ++ c.bytes).length
  · obtain ⟨buf', c', hread, hrest, -, hsame⟩ := eval_readFull hc hlen
    rw [hread] at h
    cases h
    exact .inl ⟨_, rfl, c', rfl, hsame, hlen, rfl, hrest⟩
  · have hlt := Nat.lt_of_not_le hlen
    refine .inr ?_
    cases hclosed : c.closed with
    | true =>
      obtain ⟨e, c', hread, hsame⟩ := eval_readFull_closed hc hlt hclosed
      rw [hread] at h
      cases h
      exact ⟨failed_error _, hlt, c', rfl, hsame⟩
    | false =>
      rw [eval_readFull_blocks hc hlt hclosed] at h
      cases h
      exact ⟨failed_none, hlt, c, (setConn_self hc).symm, .refl c⟩

theorem meets_readDirect (hc : w.conn side = some c) : Meets (readDirect side n) w
      (fun data w1 => ∃ c1, w1 = w.setConn side c1 ∧ c.SameBut c1 ∧ n ≤ c.bytes.length ∧
        data = c.bytes.take n ∧ c1.bytes = c.bytes.drop n)
      fun w1 => c.bytes.length < n ∧ ∃ c1, w1 = w.setConn side c1 ∧ c.SameBut c1 := by
  intro out w' h
  have hstep : step w (.readDirect side n) =
      (c.readDirect n).map fun r => (r.1, w.setConn side r.2) := by
    simp only [step, hc]
  cases hread : c.readDirect n with
  | none =>
    rw [hread] at hstep
    rw [readDirect, eval_bind, eval_op_of_none hstep] at h
    cases h
    exact .inr ⟨failed_none, of_readDirect_none hread, c, (setConn_self hc).symm,
      .refl c⟩
  | some res =>
    obtain ⟨r, c'⟩ := res
    rw [hread] at hstep
    rw [readDirect, eval_bind, eval_op_of_some hstep] at h
    cases r with
    | error e =>
      cases h
      obtain ⟨hlen, hsame⟩ := of_readDirect_error hread
      exact .inr ⟨failed_error _, hlen, c', rfl, hsame⟩
    | ok data =>
      cases h
      obtain ⟨hlen, hdata, hrest, hsame⟩ := of_readDirect_ok hread
      exact .inl ⟨_, rfl, c', rfl, hsame, hlen, hdata, hrest⟩

/-- A write that fails is marked on the connection. -/
theorem meets_write (hc : w.conn side = some c) : Meets (write side b) w
      (fun _ w1 => w1 = w.setConn side (c.write b).2 ∧ (c.write b).1 = true)
      fun w1 => w1 = w.setConn side (c.write b).2 ∧ (c.write b).1 = false := by
  intro out w' h
  have hstep : step w (.write side b) = some ((c.write b).1, w.setConn side (c.write b).2) := by
    simp only [step, hc]
  rw [write, eval_bind, eval_op_of_some hstep] at h
  cases hw : (c.write b).1 <;> rw [hw] at h <;> cases h
  · exact .inr ⟨failed_error _, rfl, rfl⟩
  · exact .inl ⟨(), rfl, rfl, rfl⟩

theorem eval_write (hc : w.conn side = some c) (haccepts : c.peer.accepts (c.stream ++ b) = true) :
    eval (write side b) w = (some (.ok ()), w.setConn side (c.write b).2) := by
  rcases meets_write hc _ _ (Prod.ext rfl rfl : eval (write side b) w = (_, _)) with
    ⟨_, hout, hw', -⟩ | ⟨-, -, hno⟩
  · exact Prod.ext hout hw'
  · rw [(write_of_accepts haccepts).1] at hno
    cases hno

/-! ## Later in a run -/

/-- `w'` is `w` after more of an exchange over the same two connections. -/
structure Reaches (w w' : World) : Prop where
  client : w.sess.client.Later w'.sess.client
  server : ∀ c, w.sess.server = some c → ∃ c', w'.sess.server = some c' ∧ c.Later c'

theorem Reaches.refl (w : World) : Reaches w w :=
  ⟨.refl _, fun c hc => ⟨c, hc, .refl _⟩⟩

theorem Reaches.trans {w'' : World} (h : Reaches w w') (h' : Reaches w' w'') : Reaches w w'' := by
  refine ⟨h.client.trans h'.client, fun c hc => ?_⟩
  obtain ⟨c', hc', hlater⟩ := h.server c hc
  obtain ⟨c'', hc'', hlater'⟩ := h'.server c' hc'
  exact ⟨c'', hc'', hlater.trans hlater'⟩

theorem reaches_setConn {c' : Go.Conn} (hc : w.conn side = some c) (h : c.Later c') :
    Reaches w (w.setConn side c') := by
  cases side with
  | client =>
    cases hc
    exact ⟨h, fun d hd => ⟨d, hd, .refl _⟩⟩
  | server =>
    refine ⟨.refl _, fun d hd => ⟨c', rfl, ?_⟩⟩
    cases hd.symm.trans hc
    exact h

theorem reaches_of_sess (hclient : w'.sess.client = w.sess.client)
    (hserver : w'.sess.server = w.sess.server) : Reaches w w' :=
  ⟨hclient ▸ .refl _, fun c hc => ⟨c, hserver.trans hc, .refl _⟩⟩

/-- The operations that keep the two connections. -/
def Keeps : Op → Prop
  | .startTLS | .onClientConnect _ => False
  | _ => True

theorem keeps_of_relays {p : Handler α} (hp : p.Uses Relays) : p.Uses Keeps := by
  refine Prog.uses_mono hp fun o h => ?_
  cases o <;> first | exact h.elim | trivial

theorem Talk.keeps : ∀ o : Op, Talk o → Keeps o := by
  intro o h
  cases o <;> trivial

/-- What a step does on the connections of a session. -/
inductive Effect (w : World) : Op → World → Prop
  | readFull {side : Side} {buf : Bytes} {n : Nat} {c c' : Go.Conn} (hc : w.conn side = some c)
      (hsame : c.SameBut c') : Effect w (.readFull side buf n) (w.setConn side c')
  | readDirect {side : Side} {n : Nat} {c c' : Go.Conn} (hc : w.conn side = some c)
      (hsame : c.SameBut c') : Effect w (.readDirect side n) (w.setConn side c')
  | write {side : Side} {b : Bytes} {c : Go.Conn} (hc : w.conn side = some c) :
      Effect w (.write side b) (w.setConn side (c.write b).2)
  | startTLS {w' : World} : Effect w .startTLS w'
  | connect {mode : Pool.PoolMode} {w' : World} : Effect w (.onClientConnect mode) w'
  | none {o : Op} {w' : World} (hclient : w'.sess.client = w.sess.client)
      (hserver : w'.sess.server = w.sess.server) (hbackend : w'.sess.backend = w.sess.backend)
      (hpassword : w'.sess.password = w.sess.password)
      (hhandshakes : w'.sess.handshakes = w.sess.handshakes) : Effect w o w'

theorem effect_of_step (h : step w o = some (r, w')) : Effect w o w' := by
  cases o <;> simp only [step] at h
  case startTLS => exact .startTLS
  case onClientConnect mode => exact .connect
  case stuck | reload => cases h
  case readFull side buf n =>
    split at h
    · cases h
    · rename_i c hc
      obtain ⟨⟨r', c'⟩, hread, hres⟩ := map_eq_some_iff.mp h
      cases hres
      exact .readFull hc (sameBut_of_readFull hread)
  case readDirect side n =>
    split at h
    · cases h
    · rename_i c hc
      obtain ⟨⟨r', c'⟩, hread, hres⟩ := map_eq_some_iff.mp h
      cases hres
      exact .readDirect hc (sameBut_of_readDirect hread)
  case write side b =>
    split at h
    · cases h
    · rename_i c hc
      cases h
      exact .write hc
  case isLimited | random | mapOrder | loadOrStore | compareAndSwap =>
    split at h <;> cases h <;> exact .none rfl rfl rfl rfl rfl
  case note n =>
    cases h
    cases n <;> exact .none rfl rfl rfl rfl rfl
  all_goals
    cases h
    exact .none rfl rfl rfl rfl rfl

theorem step_reaches (ho : Keeps o) (h : step w o = some (r, w')) : Reaches w w' := by
  cases effect_of_step h with
  | startTLS | connect => exact ho.elim
  | readFull hc hsame | readDirect hc hsame => exact reaches_setConn hc hsame.later
  | write hc => exact reaches_setConn hc (later_write _)
  | none hclient hserver => exact reaches_of_sess hclient hserver

theorem reaches_of_uses (hp : p.Uses Keeps) (h : eval p w = (out, w')) : Reaches w w' :=
  eval_of_uses hp (fun ho hw hstep => hw.trans (step_reaches ho hstep)) (.refl w) h

end Geryon.Startup
