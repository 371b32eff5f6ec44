import Geryon.Ownership.Turns

/-!
# The calls of the pool under the ownership discipline

What a goroutine knows before and after `createServerConn`, `Wait`, `Acquire`,
`Release` and what they call.
-/

namespace Geryon.Ownership

open Conc Conc.Discipline Pool

variable {cfg : PoolConfig} {t : Thread} {n : SessionId} {c : ConnId} {T : Turn} {p : Past}

variable {α : Type} {Q : α → Know → Prop} {κ : Know} {role : Option Role} {k : Nat} {w : WaiterId}
  {timeout : Bool}

theorem wp_stuck {f : Unit → Prog α} : (owning cfg).wp t (act .stuck >>= f) Q κ := by
  refine ⟨nofun, ?_⟩
  intro s ch r s' _ _ _ h
  cases h

theorem wp_skip {o : Op} {f : o.Ret → Prog α} (ho : quiet o = true)
    (hguar : (Guar · t o) = fun _ => True) (h : ∀ r, (owning cfg).wp t (f r) Q κ) :
    (owning cfg).wp t (act o >>= f) Q κ :=
  wp_act_bind (does_aside ho (fun s _ _ => (congrFun hguar s).mpr trivial) h)

/-! ## Creating a connection -/

/-- What is known when a connection has been created, or not. -/
def Created (T : Turn) (p : Past) : Except PoolError ConnId → Know → Prop
  | .ok c, κ => κ = inside { T with hand := some c } p
  | .error _, κ => κ = inside T p

theorem wp_tryBackends {maxRetries : Nat} (hn : T.session = n) :
    (owning cfg).wp t (tryBackends (some n) role maxRetries k) (Created T p) (inside T p) := by
  induction k with
  | zero =>
    refine wp_skip rfl rfl fun _ => ?_
    rfl
  | succ k ih =>
    refine wp_skip rfl rfl fun backend => ?_
    cases backend with
    | none =>
      refine wp_skip rfl rfl fun _ => ?_
      rfl
    | some b =>
      refine wp_skip rfl rfl fun circuit => ?_
      cases circuit with
      | true => exact ih
      | false =>
        apply wp_act_bind
        apply does_tryConnect hn
        · exact ih
        · intro c
          rfl

theorem wp_createWith (hn : T.session = n) :
    (owning cfg).wp t (createWith (some n) role) (Created T p) (inside T p) := by
  refine wp_skip rfl rfl fun some => ?_
  cases some with
  | false => rfl
  | true =>
    refine wp_skip rfl rfl fun room => ?_
    cases room with
    | false => rfl
    | true => exact wp_tryBackends hn

/-! ## `Acquire` -/

/-- What is known when a connection has been acquired, or not. -/
def Acquired (T : Turn) (p : Past) : Except PoolError ConnId → Know → Prop
  | .ok c, κ => c ∉ T.mine ∧ κ = inside (T.add c) p
  | .error _, κ => κ = inside T p

/-- Nothing is in hand, and nothing is waited for. -/
structure Turn.Idle (T : Turn) : Prop where
  hand : T.hand = none
  waiter : T.waiter = none

theorem Turn.Idle.add_hand (h : T.Idle) (c : ConnId) :
    ({ ({ T with hand := some c } : Turn) with hand := none } : Turn).add c = T.add c := by
  rcases T with ⟨n, V, mine, hand, waiter⟩
  cases h.hand
  rfl

theorem Turn.Idle.taken (h : T.Idle) (w : WaiterId) (c : ConnId) :
    ({ ({ T with waiter := some w } : Turn) with hand := some c, waiter := none } : Turn) =
      { T with hand := some c } := by
  rcases T with ⟨n, V, mine, hand, waiter⟩
  cases h.waiter
  rfl

theorem wp_waitLoop (hn : T.session = n) (hidle : T.Idle) :
    (owning cfg).wp t (waitLoop n w timeout k) (fun r κ => match r with
        | .ok c => κ = inside { T with hand := some c } p
        | .error _ => κ = inside { T with waiter := some w } p)
      (inside { T with waiter := some w } p) := by
  induction k with
  | zero => exact wp_stuck
  | succ k ih =>
    refine wp_act_bind (does_checkWaiter hn rfl ?_ ?_)
    · intro timedOut
      cases timedOut with
      | true => rfl
      | false =>
        refine wp_skip rfl rfl fun case => ?_
        cases case with
        | ready =>
          refine wp_act_bind (does_recheckWaiter hn rfl ih ?_)
          intro c
          exact congrArg (inside · p) (hidle.taken w c)
        | timeout | done =>
          refine wp_skip rfl rfl fun _ => ?_
          rfl
    · intro c _
      exact congrArg (inside · p) (hidle.taken w c)

theorem does_dequeueNone {Q : Unit → Know → Prop} (hidle : T.Idle) (hQ : Q () (inside T p)) :
    (owning cfg).Does t (.dequeue n w none) Q (inside { T with waiter := some w } p) := by
  apply does_quiet rfl
  · exact fun _ _ _ => trivial
  · intro s ch r s' _ _ _ hκ' _
    refine ⟨inside T p, holds_inside { hκ'.inside_turn with waiter := ?_ } hκ'.inside_only
      hκ'.past, hQ⟩
    rw [hidle.waiter]
    nofun

theorem wp_wait {maxSize : Nat} (hacq : T.Acquires n) (hidle : T.Idle) :
    (owning cfg).wp t (wait n maxSize timeout k) (Acquired T p) (inside T p) := by
  apply wp_act_bind
  apply does_enqueue
  · rfl
  · intro w
    apply wp_seq (wp_waitLoop hacq.session hidle)
    intro result κ hκ
    cases result with
    | error err =>
      subst hκ
      exact wp_act_bind (does_dequeueNone hidle rfl)
    | ok c =>
      subst hκ
      refine wp_act_bind (does_dequeue
        ⟨hacq.1, hacq.2, hacq.3⟩ rfl fun hc => ?_)
      exact ⟨hc, congrArg (inside · p) (hidle.add_hand c)⟩

theorem wp_acquireWith (hacq : T.Acquires n) (hidle : T.Idle) :
    (owning cfg).wp t (acquireWith cfg n (createWith (some n) role)) (Acquired T p)
      (inside T p) := by
  apply wp_act_bind
  apply does_acquire hacq
  · refine wp_skip rfl rfl fun below => ?_
    cases below with
    | true =>
      apply wp_seq (wp_createWith hacq.session)
      intro result κ hκ
      cases result with
      | error err => exact hκ
      | ok c =>
        have hκ : κ = inside { T with hand := some c } p := hκ
        subst hκ
        refine wp_act_bind (does_addActive
          ⟨hacq.1, hacq.2, hacq.3⟩ rfl fun hc => ?_)
        exact ⟨hc, congrArg (inside · p) (hidle.add_hand c)⟩
    | false =>
      apply wp_act_bind
      apply does_acquire hacq
      · exact wp_wait hacq hidle
      · intro c hc
        exact ⟨hc, rfl⟩
  · intro c hc
    exact ⟨hc, rfl⟩

/-! ## `Release` -/

theorem wp_drain : (owning cfg).wp t (drain c k)
      (fun _ κ => κ = resetting T p { conn := c, locked := true, live := true })
      (resetting T p { conn := c, locked := true, live := true }) := by
  induction k with
  | zero => exact wp_stuck
  | succ k ih =>
    refine wp_skip rfl rfl fun set => ?_
    cases set with
    | false => rfl
    | true =>
      apply wp_act_bind
      apply does_readReset
      intro reply
      cases reply with
      | none => rfl
      | some r => exact ih

theorem resetEffect_ne_opens (body : Wire.Protocol) : resetEffect body ≠ .opens := by
  cases body <;> nofun

theorem wp_resetConnection : (owning cfg).wp t (resetConnection cfg c)
      (fun ok κ => ∃ live, κ = resetting T p { conn := c, locked := true, live := live } ∧
        (ok = true → live = true))
      (resetting T p { conn := c, locked := true }) := by
  apply wp_act_bind
  apply does_writeReset (resetEffect_ne_opens cfg.body)
  · cases cfg.body with
    | mySQL =>
      apply wp_act_bind
      apply does_readReset
      intro reply
      cases reply with
      | none | some => exact ⟨true, rfl, fun _ => rfl⟩
    | postgreSQL | msSQL => exact wp_mono wp_drain fun _ _ hκ => ⟨true, hκ, fun _ => rfl⟩
  · exact ⟨false, rfl, nofun⟩

/-- When a goroutine may pass a connection of the session to `Release`. -/
structure Turn.Releases (T : Turn) (p : Past) (n : SessionId) (c : ConnId) : Prop where
  session : T.session = n
  calm : p.Calm
  mine : c ∈ T.mine
  hand : T.hand = none
  reader : T.view.psConn = some c → p.before = some n ∨ p.after = some n
  ref : T.view.serverConn = some c ∨ T.view.psConn = some c
  region : T.view.region ≠ .startup
  giving : T.view.region = .message → T.view.giving = some c

theorem wp_release (h : T.Releases p n c) :
    (owning cfg).wp t (release cfg n c) (fun _ κ => κ = inside (T.drop c) p) (inside T p) := by
  apply wp_act_bind
  apply does_signal h.session h.calm h.mine h.hand h.reader h.ref h.region h.giving
  · rfl
  · apply wp_act_bind
    apply does_releaseLock
    intro room
    cases room with
    | false =>
      apply wp_act
      apply does_releaseClose
      rfl
    | true =>
      apply wp_seq wp_resetConnection
      intro ok κ hκ
      rcases hκ with ⟨live, rfl, hlive⟩
      cases ok with
      | false =>
        apply wp_act
        apply does_releaseClose
        rfl
      | true =>
        rw [hlive rfl]
        apply wp_act
        apply does_releaseIdle
        rfl

end Geryon.Ownership
