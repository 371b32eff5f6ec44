import Geryon.Startup.Order

/-!
# The connection limit of a user

`userConnCounts` against the sessions that passed `TryIncrementUserCount`, over
every interleaving of the sessions of a pool and of reloads of the user
database.

Nothing ties the name under which a session is counted to the name under which
it is taken off: a session that was refused at the limit, or never got as far,
has a user name, too, and a counted one may have been renamed.  The counters are
right under `endsAsCounted`, which looks at a session when it takes itself off a
counter, and at one that ends without doing so.
-/

namespace Geryon.Startup

open Conc Conc.Fallible List Function World

variable {lib : Lib}

/-! ## The pool and its sessions -/

/-- The goroutine that loads the user database again, `n` times. -/
def reloads : Nat → Conc.Prog sessions Unit
  | 0 => .pure ()
  | n + 1 => .op .reload fun _ => reloads n

/-- A pool that `clients` clients connect to, and whose user database is loaded
again `k` times. -/
def poolOf (lib : Lib) (cfgs : Nat → Config) (clients k : Nat) (users : List User)
    (arrivals : Nat → Arrival) : Conc.Config sessions where
  state := ⟨{ users }, clients, fun i => newSession (arrivals i)⟩
  prog t :=
    match t with
    | .session i => handle lib (cfgs i)
    | .admin => reloads k

/-- A live session that passed `TryIncrementUserCount` as `u`. -/
def Session.countedAs (s : Session) (u : Bytes) : Bool := s.live && s.counted = some u

/-- The number of live sessions that passed `TryIncrementUserCount` as `u`. -/
def State.number (s : State) (u : Bytes) : Nat :=
  (range s.clients).countP fun i => (s.sess i).countedAs u

/-- A session that takes itself off a counter has been counted there, and one
that ends without doing so has not been counted. -/
def endsAsCounted : Cond sessions := fun s t o _ =>
  match t, o with
  | .session i, .addCount username => (s.sess i).counted = some username
  | .session i, .finish => !(s.sess i).live || (s.sess i).counted = none
  | _, _ => true

/-! ## What a step changes -/

/-- The shared part and what matters of the session are as before. -/
structure Same (w w' : World) : Prop where
  shared : w'.shared = w.shared
  username : w'.sess.username = w.sess.username
  counted : w'.sess.counted = w.sess.counted
  live : w'.sess.live = w.sess.live

theorem Same.refl (w : World) : Same w w := ⟨rfl, rfl, rfl, rfl⟩

variable {w : World} {i : Nat} {s : State} {u : Bytes} {users : List User}
  {q : Thread → Option Progress} {p : Progress}

variable {o : Op} {r : o.Ret} {s' : State} {cfgs : Nat → Config} {clients k : Nat}
  {arrivals : Nat → Arrival} {p' : Progress}

theorem step_same {w w' : World} {o : Op} {r : o.Ret} (h : step w o = some (r, w'))
    (ho : ∀ u, o ≠ .setUsername u ∧ o ≠ .loadOrStore u ∧ o ≠ .addCount u ∧
      ∀ n, o ≠ .compareAndSwap u n) (hfinish : o ≠ .finish) : Same w w' := by
  cases o
  case setUsername u => exact absurd rfl (ho u).1
  case loadOrStore u => exact absurd rfl (ho u).2.1
  case addCount u => exact absurd rfl (ho u).2.2.1
  case compareAndSwap u n => exact absurd rfl ((ho u).2.2.2 n)
  case finish => exact absurd rfl hfinish
  case stuck | reload => cases h
  case readFull | readDirect | write | startTLS | isLimited | random | mapOrder
      | onClientConnect =>
    obtain ⟨hshared, hcore⟩ := step_outer h trivial
    exact ⟨hshared, congrArg Core.username hcore, congrArg Core.counted hcore,
      congrArg Core.live hcore⟩
  case note n =>
    cases h
    cases n <;> exact ⟨rfl, rfl, rfl, rfl⟩
  all_goals
    cases h
    exact ⟨rfl, rfl, rfl, rfl⟩

/-- Replacing one of `n` sessions changes the count by what it counts for. -/
theorem countP_update {n : Nat} (hi : i < n) (sess : Nat → Session) (x : Session)
    (f : Session → Bool) :
    ((range n).countP fun j => f (update sess i x j)) + (f (sess i)).toNat =
      ((range n).countP fun j => f (sess j)) + (f x).toNat := by
  induction n with
  | zero => omega
  | succ n ih =>
    rw [range_succ, countP_append, countP_append]
    by_cases hin : i = n
    · subst hin
      have hsame : ((range i).countP fun j => f (update sess i x j)) =
          (range i).countP fun j => f (sess j) := by
        refine countP_congr fun j hj => ?_
        rw [update_of_ne (Nat.ne_of_lt (mem_range.mp hj))]
      rw [hsame]
      cases hx : f x <;> cases hs : f (sess i) <;> simp [hx, hs]
    · have hlast : update sess i x n = sess n :=
        update_of_ne (Ne.symm hin) _ _
      have := ih (by omega)
      simp only [countP_singleton, hlast]
      omega

def State.after (s : State) (i : Nat) (w : World) : State :=
  { s with shared := w.shared, sess := update s.sess i w.sess }

theorem number_after (hi : i < s.clients) (w : World) (u : Bytes) :
    (s.after i w).number u + ((s.sess i).countedAs u).toNat =
      s.number u + (w.sess.countedAs u).toNat :=
  countP_update hi s.sess w.sess fun x => x.countedAs u

theorem number_after_same (hi : i < s.clients) (h : w.sess.countedAs u = (s.sess i).countedAs u) :
    (s.after i w).number u = s.number u := by
  have hafter := number_after hi w u
  rw [h] at hafter
  omega

theorem exec_session (h : sessions.exec s (.session i) o users = some (r, s')) :
    i < s.clients ∧ ∃ w, step ⟨s.shared, s.sess i⟩ o = some (r, w) ∧ s' = s.after i w := by
  have h' : (if i < s.clients then
      (step ⟨s.shared, s.sess i⟩ o).map fun r => (r.1, s.after i r.2) else none) =
      some (r, s') := h
  split at h'
  · rename_i hi
    obtain ⟨⟨r', w⟩, hstep, hres⟩ := Option.map_eq_some_iff.mp h'
    cases hres
    exact ⟨hi, w, hstep, rfl⟩
  · cases h'

/-! ## The invariant -/

/-- The counters are the numbers of the sessions, and no number was above the
limit of the user when it grew. -/
structure Counted (q : Thread → Option Progress) (s : State) : Prop where
  phase : ∀ i, ∃ p, q (.session i) = some p ∧ (s.sess i).username = p.username ∧
    (s.sess i).counted.isSome = p.counted ∧ (s.sess i).live = !p.ended ∧
    ∀ name m, p.user = some (name, m) →
      ∃ user ∈ s.shared.loaded, user.username = name ∧ user.maxConnections = m
  users : ∀ user ∈ s.shared.users, user ∈ s.shared.loaded
  counts : ∀ u, (s.shared.userConnCounts u).getD 0 = s.number u
  bound : ∀ u, s.number u = 0 ∨ ∃ user ∈ s.shared.loaded, user.username = u ∧
    (s.number u : Int) ≤ user.maxConnections

theorem number_init (sh : Shared) (clients : Nat) (arrivals : Nat → Arrival) (u : Bytes) :
    State.number ⟨sh, clients, fun i => newSession (arrivals i)⟩ u = 0 := by
  rw [State.number, countP_eq_zero]
  intro i _
  simp [Session.countedAs, newSession]

theorem Counted.init :
    Counted (fun _ => some {}) (poolOf lib cfgs clients k users arrivals).state where
  phase := fun i => ⟨{}, rfl, rfl, rfl, rfl, fun _ _ h => by cases h⟩
  users := fun _ h => h
  counts := fun u => by
    show ((none : Option Int).getD 0 = _)
    rw [show (poolOf lib cfgs clients k users arrivals).state =
      ⟨{ users }, clients, fun i => newSession (arrivals i)⟩ from rfl, number_init]
    rfl
  bound := fun u => Or.inl (number_init _ _ _ u)

/-- What the phase of a session says about it. -/
def Matches (p : Progress) (x : Session) (sh : Shared) : Prop :=
  x.username = p.username ∧ x.counted.isSome = p.counted ∧ x.live = !p.ended ∧
    ∀ name m, p.user = some (name, m) →
      ∃ user ∈ sh.loaded, user.username = name ∧ user.maxConnections = m

variable {q : Thread → Option Progress} {s : State} {w : World} {i : Nat}

/-- A step of session `i` that leaves `loaded` and `users` alone, for a new
phase that fits the session and new counters that fit the numbers. -/
theorem Counted.after
    {p' : Progress} (h : Counted q s) (hloaded : w.shared.loaded = s.shared.loaded)
    (husers : w.shared.users = s.shared.users) (hmatch : Matches p' w.sess w.shared)
    (hcounts : ∀ u, (w.shared.userConnCounts u).getD 0 = (s.after i w).number u)
    (hbound : ∀ u, (s.after i w).number u ≤ s.number u ∨ ∃ user ∈ s.shared.loaded,
      user.username = u ∧ ((s.after i w).number u : Int) ≤ user.maxConnections) :
    Counted (update q (.session i) (some p')) (s.after i w) where
  phase := by
    intro j
    by_cases hj : j = i
    · subst hj
      refine ⟨p', update_self .., ?_⟩
      rw [show (s.after j w).sess j = w.sess from update_self ..]
      exact hmatch
    · obtain ⟨p, hp, hrest⟩ := h.phase j
      refine ⟨p, ?_, ?_⟩
      · rw [update_of_ne (by simpa using hj)]
        exact hp
      · rw [show (s.after i w).sess j = s.sess j from update_of_ne hj ..]
        show _ ∧ _ ∧ _ ∧ ∀ name m, _ → ∃ user ∈ w.shared.loaded, _
        rw [hloaded]
        exact hrest
  users := by
    show ∀ user ∈ w.shared.users, user ∈ w.shared.loaded
    rw [hloaded, husers]
    exact h.users
  counts := hcounts
  bound := by
    intro u
    show _ ∨ ∃ user ∈ w.shared.loaded, _
    rw [hloaded]
    rcases hbound u with hle | hnew
    · rcases h.bound u with hzero | ⟨user, hmem, hname, hle'⟩
      · exact Or.inl (by omega)
      · exact Or.inr ⟨user, hmem, hname, by omega⟩
    · exact Or.inr hnew

theorem Counted.same {p p' : Progress} (h : Counted q s) (hi : i < s.clients)
    (hp : Matches p (s.sess i) s.shared) (hsame : Same ⟨s.shared, s.sess i⟩ w)
    (hp' : p'.username = p.username ∧ p'.counted = p.counted ∧ p'.ended = p.ended)
    (huser : ∀ name m, p'.user = some (name, m) →
      ∃ user ∈ s.shared.loaded, user.username = name ∧ user.maxConnections = m) :
    Counted (update q (.session i) (some p')) (s.after i w) := by
  have hnumber : ∀ u, (s.after i w).number u = s.number u := fun u =>
    number_after_same hi (by simp only [Session.countedAs, hsame.live, hsame.counted])
  refine h.after (by rw [hsame.shared]) (by rw [hsame.shared]) ?_ (fun u => ?_)
    fun u => Or.inl (hnumber u).le
  · refine ⟨?_, ?_, ?_, ?_⟩
    · rw [hsame.username, hp'.1]
      exact hp.1
    · rw [hsame.counted, hp'.2.1]
      exact hp.2.1
    · rw [hsame.live, hp'.2.2]
      exact hp.2.2.1
    · rw [hsame.shared]
      exact huser
  · rw [hsame.shared, hnumber]
    exact h.counts u

theorem Counted.reload (q' : Option Progress) (h : Counted q s) : Counted (update q .admin q')
      { s with shared := { s.shared with users, loaded := s.shared.loaded ++ users } } where
  phase := by
    intro i
    obtain ⟨p, hp, hname, hcounted, hlive, huser⟩ := h.phase i
    refine ⟨p, ?_, hname, hcounted, hlive, fun name m hm => ?_⟩
    · rw [update_of_ne (by simp)]
      exact hp
    · obtain ⟨user, hmem, hrest⟩ := huser name m hm
      exact ⟨user, mem_append_left _ hmem, hrest⟩
  users := fun user hmem => mem_append_right _ hmem
  counts := h.counts
  bound := by
    intro u
    rcases h.bound u with hzero | ⟨user, hmem, hrest⟩
    · exact Or.inl hzero
    · exact Or.inr ⟨user, mem_append_left _ hmem, hrest⟩

/-- A step that sets one counter. -/
structure Sets (s : State) (i : Nat) (w : World) (u : Bytes) (n : Int) : Prop where
  users : w.shared.users = s.shared.users
  loaded : w.shared.loaded = s.shared.loaded
  counts : w.shared.userConnCounts = update s.shared.userConnCounts u (some n)
  username : w.sess.username = (s.sess i).username

/-- The counters fit the numbers after a step that changes both at one name. -/
theorem Sets.counts_number {n : Int} (h : Sets s i w u n) (hu : ((s.after i w).number u : Int) = n)
    (hother : ∀ v, v ≠ u → (s.after i w).number v = s.number v)
    (hcounts : ∀ v, (s.shared.userConnCounts v).getD 0 = s.number v) (v : Bytes) :
    (w.shared.userConnCounts v).getD 0 = (s.after i w).number v := by
  rw [h.counts]
  by_cases hv : v = u
  · subst hv
    rw [update_self, hu]
    rfl
  · rw [update_of_ne hv, hother v hv]
    exact hcounts v

section

variable (h : Counted q s) (hi : i < s.clients)
include h hi

/-- A successful `CompareAndSwap` below the limit of a user. -/
theorem Counted.swap {current max : Int}
    (hp : Matches p (s.sess i) s.shared) (hopen : p.counted = false ∧ p.ended = false)
    (huser : p.user = some (u, max)) (hlt : current < max)
    (hcount : s.shared.userConnCounts u = some current) (hw : Sets s i w u (current + 1))
    (hsess : w.sess.counted = some u ∧ w.sess.live = (s.sess i).live) :
    Counted (update q (.session i) (some { p with counted := true })) (s.after i w) := by
  obtain ⟨hname, hcounted, hlive, hloaded⟩ := hp
  have hlive' : (s.sess i).live = true := by simpa [hopen.2] using hlive
  have hnone : (s.sess i).counted = none := by
    rw [hopen.1] at hcounted
    simpa using hcounted
  have hcurrent : (s.number u : Int) = current := by
    rw [← h.counts u, hcount]
    rfl
  have hnew : ((s.after i w).number u : Int) = current + 1 := by
    have hafter := number_after hi w u
    simp [Session.countedAs, hnone, hsess.1, hsess.2, hlive'] at hafter
    omega
  have hother : ∀ v, v ≠ u → (s.after i w).number v = s.number v := fun v hv =>
    number_after_same hi (by simp [Session.countedAs, hnone, hsess.1, Ne.symm hv])
  refine h.after hw.loaded hw.users ⟨hw.username.trans hname, by rw [hsess.1]; rfl,
    hsess.2.trans hlive, by rw [hw.loaded]; exact hloaded⟩
    (hw.counts_number hnew hother h.counts) fun v => ?_
  by_cases hv : v = u
  · subst hv
    obtain ⟨user, hmem, hname', hmax⟩ := hloaded v max huser
    exact Or.inr ⟨user, hmem, hname', by omega⟩
  · exact Or.inl (hother v hv).le

/-- A session that takes itself off the counter it was counted on. -/
theorem Counted.add (hp : Matches p (s.sess i) s.shared)
    (hopen : p.ended = false) (hcounted : (s.sess i).counted = some u)
    (hw : Sets s i w u ((s.shared.userConnCounts u).getD 0 - 1))
    (hsess : w.sess.counted = (s.sess i).counted ∧ w.sess.live = false) :
    Counted (update q (.session i) (some { p with ended := true })) (s.after i w) := by
  obtain ⟨hname, hcounted', hlive, hloaded⟩ := hp
  have hlive' : (s.sess i).live = true := by simpa [hopen] using hlive
  have hnew : ((s.after i w).number u : Int) = (s.shared.userConnCounts u).getD 0 - 1 := by
    have hafter := number_after hi w u
    simp [Session.countedAs, hcounted, hsess.2, hlive'] at hafter
    rw [h.counts u]
    omega
  have hother : ∀ v, v ≠ u → (s.after i w).number v = s.number v := fun v hv =>
    number_after_same hi (by simp [Session.countedAs, hcounted, hsess.2, Ne.symm hv])
  refine h.after hw.loaded hw.users ⟨hw.username.trans hname, by rw [hsess.1]; exact hcounted',
    hsess.2, by rw [hw.loaded]; exact hloaded⟩ (hw.counts_number hnew hother h.counts)
    fun v => Or.inl ?_
  by_cases hv : v = u
  · have hcounts := h.counts v
    subst hv
    omega
  · exact (hother v hv).le

theorem Counted.finish {p : Progress} (hp : Matches p (s.sess i) s.shared)
    (hcond : (s.sess i).live = false ∨ (s.sess i).counted = none)
    (hshared : w.shared = s.shared) (hsess : w.sess = { s.sess i with live := false }) :
    Counted (update q (.session i) (some { p with ended := true })) (s.after i w) := by
  obtain ⟨hname, hcounted, hlive, hloaded⟩ := hp
  have hnumber : ∀ v, (s.after i w).number v = s.number v := by
    intro v
    refine number_after_same hi ?_
    rcases hcond with hdead | hnone
    · simp [Session.countedAs, hsess, hdead]
    · simp [Session.countedAs, hsess, hnone]
  refine h.after (by rw [hshared]) (by rw [hshared]) ?_ (fun v => ?_) fun v =>
    Or.inl (hnumber v).le
  · rw [hsess, hshared]
    exact ⟨hname, hcounted, rfl, hloaded⟩
  · rw [hshared, hnumber]
    exact h.counts v

end

theorem Counted.step {t : Thread} {q' : Option Progress} (h : Counted q s)
    (hcond : endsAsCounted s t o users = true) (hnext : counting.next (q t) o r = some q')
    (hexec : sessions.exec s t o users = some (r, s')) : Counted (update q t q') s' := by
  cases t with
  | admin =>
    cases o
    case reload =>
      cases hexec
      exact h.reload q'
    all_goals cases hexec
  | session i =>
    obtain ⟨hi, w, hstep, rfl⟩ := exec_session hexec
    obtain ⟨p, hp, hmatch⟩ := h.phase i
    rw [hp] at hnext
    cases o
    case setUsername username =>
      cases hnext
      cases hstep
      have hnumber : ∀ u, (s.after i (modify ⟨s.shared, s.sess i⟩ fun x =>
          { x with username })).number u = s.number u := fun u => number_after_same hi rfl
      exact h.after rfl rfl ⟨rfl, hmatch.2⟩ (fun u => by rw [hnumber]; exact h.counts u)
        fun u => Or.inl (hnumber u).le
    case getUsername =>
      cases hstep
      simp only [counting, Progress.next, hmatch.1, if_true] at hnext
      cases hnext
      exact h.same hi hmatch (.refl _) ⟨rfl, rfl, rfl⟩ hmatch.2.2.2
    case getUser username =>
      cases hstep
      cases hnext
      refine h.same hi hmatch (.refl _) ⟨rfl, rfl, rfl⟩ fun name m hm => ?_
      obtain ⟨user, huser, hm⟩ := Option.map_eq_some_iff.mp hm
      cases hm
      exact ⟨user, h.users user (mem_of_find?_eq_some huser),
        by simpa using find?_some huser, rfl⟩
    case loadOrStore username =>
      cases hnext
      simp only [Startup.step] at hstep
      split at hstep
      · rename_i hnone
        cases hstep
        have hzero : (s.number username : Int) = 0 := by
          rw [← h.counts username, hnone]
          rfl
        have hnumber : ∀ u, (s.after i (setCount ⟨s.shared, s.sess i⟩ username 0)).number u =
            s.number u := fun u => number_after_same hi rfl
        have hw : Sets s i (setCount ⟨s.shared, s.sess i⟩ username 0) username 0 :=
          ⟨rfl, rfl, rfl, rfl⟩
        exact h.after rfl rfl hmatch
          (hw.counts_number (by rw [hnumber]; exact hzero) (fun v _ => hnumber v) h.counts)
          fun u => Or.inl (hnumber u).le
      · cases hstep
        exact h.same hi hmatch (.refl _) ⟨rfl, rfl, rfl⟩ hmatch.2.2.2
    case compareAndSwap username current =>
      simp only [Startup.step] at hstep
      split at hstep
      · rename_i hcount
        cases hstep
        simp only [counting, Progress.next, if_true] at hnext
        split at hnext
        · cases hnext
        · rename_i name max huser
          split at hnext
          · rename_i hok
            obtain ⟨hfresh, hended, rfl, hlt⟩ := hok
            cases hnext
            exact h.swap hi hmatch ⟨hfresh, hended⟩ huser hlt hcount ⟨rfl, rfl, rfl, rfl⟩ ⟨rfl, rfl⟩
          · cases hnext
      · cases hstep
        cases hnext
        exact h.same hi hmatch (.refl _) ⟨rfl, rfl, rfl⟩ hmatch.2.2.2
    case addCount username =>
      cases hstep
      simp only [counting, Progress.next] at hnext
      split at hnext
      · cases hnext
      · rename_i hended
        cases hnext
        exact h.add hi hmatch (by simpa using hended) (by simpa [endsAsCounted] using hcond)
          ⟨rfl, rfl, rfl, rfl⟩ ⟨rfl, rfl⟩
    case finish =>
      cases hstep
      cases hnext
      exact h.finish hi hmatch (by simpa [endsAsCounted] using hcond) rfl rfl
    all_goals
      cases hnext
      exact h.same hi hmatch (step_same hstep (by simp) (by simp)) ⟨rfl, rfl, rfl⟩ hmatch.2.2.2

/-! ## The counters -/

theorem obeys_reloads (k : Nat) (q : Option Progress) :
    counting.Obeys (reloads k) (fun _ _ => True) q := by
  induction k generalizing q with
  | zero => trivial
  | succ k ih =>
    intro _
    cases q with
    | none => exact ⟨none, rfl, ih _⟩
    | some q => exact ⟨_, rfl, ih _⟩

theorem obeys_poolOf (t : Thread) :
    counting.Obeys ((poolOf lib cfgs clients k users arrivals).prog t) (fun _ _ => True)
      (some {}) := by
  cases t with
  | session i =>
    refine obeys_handle fun p hp => ?_
    cases hp
    exact ⟨rfl, rfl⟩
  | admin => exact obeys_reloads k _

/-- A pool of a database server that cannot be reached, in passthrough mode. -/
def unreachable : Config where
  body := .postgreSQL
  authMode := .passthrough
  poolName := ascii "p"
  rounds := 5

def single : User where
  username := ascii "u"
  maxConnections := 1
  allowedPools := [ascii "p"]

def singleStartup : Bytes :=
  [0, 0, 0, 16, 0, 3, 0, 0] ++ ascii "user" ++ 0 :: ascii "u" ++ [0, 0]

def asSingle (i : Nat) : Arrival where
  id := i
  client := { peer := { reply := fun _ => [] }, inp := [singleStartup], nonempty := by decide }
  backend := .error .noBackends

end Geryon.Startup
