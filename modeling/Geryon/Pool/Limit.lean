import Geryon.Conc.Calculus
import Geryon.Pool.Pool
import Mathlib.Data.List.Nodup
import Mathlib.Data.List.Perm.Subperm

/-!
# The limit on server connections

`MaxServerConnections` is checked before a connection is created, and the
connection is registered only after it has been made.  In between other callers
find the same number; and the prefetch goroutine never registers what it creates.
So the limit can be exceeded (`two_callers_exceed_limit`).

It is not exceeded when every check that lets a caller create a connection
leaves room for those that others are creating, have not registered yet, or never
register (`roomLeft`).  Then the connections that exist and those being created
are together at most `MaxServerConnections`, and a check turns one free place into
a connection being created (`Limited`).
-/

namespace Geryon.Pool

open Conc List State

/-! ## Callers of the pool -/

inductive Call where
  | acquire
  | acquireToRole (role : Role)
  | release (conn : ConnId)

/-- Make a call.  A caller need not have acquired what it releases. -/
def Call.run (cfg : PoolConfig) (n : SessionId) : Call → Prog Unit
  | .acquire => do
    let _ ← Pool.acquire cfg n
    return ()
  | .acquireToRole role => do
    let _ ← Pool.acquireToRole cfg n role
    return ()
  | .release conn => Pool.release cfg n conn

def calls (cfg : PoolConfig) (n : SessionId) : List Call → Prog Unit
  | [] => return ()
  | call :: rest => do
    call.run cfg n
    calls cfg n rest

/-- A new pool with its prefetch goroutine and any number of callers. -/
def callers (cfg : PoolConfig) (scripts : Nat → List Call) : Config proxy where
  state := {}
  prog
    | .caller i => calls cfg i (scripts i)
    | .prefetch => prefetchConns cfg
    | .backend => backendLoop cfg.rounds
    | _ => .pure ()

/-! ## The limit -/

/-- The connections that were created and are not closed. -/
def openConns (s : State) : List ConnId :=
  (range s.nextConn).filter fun c => !(s.conn c).closed

/-- A check that lets a caller create a connection leaves room for the
connections that it does not count. -/
def roomLeft : Cond proxy := fun s _ o _ =>
  match o with
  | .sizeBelow _ limit =>
    !decide (s.size < limit) ||
      decide (s.size + s.unregistered.length + s.creating.length < limit)
  | _ => true

/-- There are at most `m` connections, those being created included, and each
one is registered, or will be, or never will be. -/
structure Limited (m : Nat) (s : State) : Prop where
  bound : (openConns s).length + s.creating.length ≤ m
  registered : ∀ c ∈ openConns s, c ∈ s.conns.idle ∨ c ∈ s.conns.active ∨
    c ∈ s.unregistered ∨ ∃ t, s.conns.locked = some (t, c)

/-- What a goroutine knows: whether it has passed the check, and the
connection it is resetting. -/
structure LimitKnow where
  creating : Bool := false
  locked : Option ConnId := none

def limits (m : Nat) : Discipline proxy where
  cond := roomLeft
  Know := LimitKnow
  inv := Limited m
  knows s t κ := (κ.creating = true → t ∈ s.creating) ∧
    ∀ c, κ.locked = some c → s.conns.locked = some (t, c)
  guar _ _ _ _ := True

variable {m : Nat} {s s' : State} {t : Thread}

/-! ## Operations that have nothing to do with it -/

/-- The parts of the state that the limit is about are the same. -/
structure Same (s s' : State) : Prop where
  conns : s'.conns = s.conns
  creating : s'.creating = s.creating
  unregistered : s'.unregistered = s.unregistered
  openConns : openConns s' = openConns s

theorem Same.refl (s : State) : Same s s := ⟨rfl, rfl, rfl, rfl⟩

variable {c : ConnId} {κ : LimitKnow} {n : SessionId} {k : Nat} {cfg : PoolConfig}

variable {f : Conn → Conn} {o : Op} {Q : Unit → LimitKnow → Prop} {maxSize : Nat}
  {role : Option Role} {timeout : Bool}

theorem openConns_setConn (hf : ∀ k, (f k).closed = k.closed) :
    openConns (s.setConn c f) = openConns s := by
  apply filter_congr
  intro d _
  by_cases hd : d = c
  · subst hd
    simp [setConn, hf]
  · simp [setConn, hd]

theorem Same.setConn (hf : ∀ k, (f k).closed = k.closed) : Same s (s.setConn c f) :=
  ⟨rfl, rfl, rfl, openConns_setConn hf⟩

/-- The operations that leave those parts alone. -/
def aside : Op → Bool
  | .idleCount | .activeCount | .selectBackend _ | .isCircuitOpen | .enqueue _ _ => true
  | .checkWaiter _ _ | .select _ _ | .recheckWaiter _ _ | .timeOut _ | .dequeue _ _ _ => true
  | .signal _ _ | .writeReset _ _ | .setReadDeadline _ | .readReset _ | .ctxDone => true
  | .backend => true
  | _ => false

theorem Same.trans {s'' : State} (h : Same s s') (h' : Same s' s'') : Same s s'' :=
  ⟨h'.conns.trans h.conns, h'.creating.trans h.creating, h'.unregistered.trans h.unregistered,
    h'.openConns.trans h.openConns⟩

theorem same_of_exec {ch : Choice} {r : o.Ret} (ho : aside o = true)
    (h : exec s t o ch = some (r, s')) : Same s s' := by
  cases performed_of_exec h with
  | looked => exact .refl s
  | counted _ hcount => cases o <;> first | (cases ho; done) | cases hcount
  | flagged | enqueued | seen | delivered | passed => exact ⟨rfl, rfl, rfl, rfl⟩
  | noted | settled => exact ⟨rfl, rfl, rfl, rfl⟩
  | @dequeued _ _ conn => cases conn <;> exact ⟨rfl, rfl, rfl, rfl⟩
  | @wroteReset c effect =>
    have hconn : Same s (s.setConn c fun k =>
      { k with requests := k.requests ++ [⟨.reset, effect⟩], resetError := false }) :=
      Same.setConn fun _ => rfl
    exact ⟨rfl, rfl, rfl, hconn.openConns⟩
  | @readReset c reply l rs =>
    have hread : Same s (s.setConn c fun k => { k with replies := rs }) := .setConn fun _ => rfl
    refine hread.trans (.setConn fun k => ?_)
    obtain ⟨_, _, hk⟩ := Conn.noteResets_eq _ _
    rw [hk]
  | answered => exact Same.setConn fun _ => rfl
  | _ => cases ho

theorem Limited.of_same (h : Limited m s) (hs : Same s s') : Limited m s' := by
  constructor
  · rw [hs.openConns, hs.creating]
    exact h.bound
  · rw [hs.openConns, hs.conns, hs.unregistered]
    exact h.registered

theorem final : (limits m).Final t κ := fun _ _ _ => id

theorem stable_of (hcreating : ∀ u, u ≠ t → u ∈ s.creating → u ∈ s'.creating)
    (hlocked : ∀ u c, u ≠ t → s.conns.locked = some (u, c) → s'.conns.locked = some (u, c)) :
    (limits m).Stable t s s' := by
  intro u hu κ hκ
  exact ⟨fun h => hcreating u hu (hκ.1 h), fun c h => hlocked u c hu (hκ.2 c h)⟩

theorem does_aside {Q : o.Ret → LimitKnow → Prop} (ho : aside o = true) (hQ : ∀ r, Q r κ) :
    (limits m).Does t o Q κ := by
  refine ⟨nofun, ?_⟩
  intro s ch r s' hinv hknows _ hexec
  have hs := same_of_exec ho hexec
  refine ⟨trivial, hinv.of_same hs, stable_of ?_ ?_, κ, ?_, hQ r⟩
  · intro u _ h
    rw [hs.creating]
    exact h
  · intro u c _ h
    rw [hs.conns]
    exact h
  · show (κ.creating = true → t ∈ s'.creating) ∧ ∀ c, κ.locked = some c → s'.conns.locked = some (t, c)
    rw [hs.creating, hs.conns]
    exact hknows

/-! ## Creating a connection -/

theorem openConns_length_le (h : Limited m s) (hun : s.unlocked = true) :
    (openConns s).length ≤ s.size + s.unregistered.length := by
  have hnodup : (openConns s).Nodup := List.Nodup.filter _ nodup_range
  have hsub : openConns s ⊆ s.conns.idle ++ s.conns.active ++ s.unregistered := by
    intro c hc
    rcases h.registered c hc with hc | hc | hc | ⟨t, hc⟩
    · simp [hc]
    · simp [hc]
    · simp [hc]
    · simp [unlocked, hc] at hun
  have hle := (hnodup.subperm hsub).length_le
  simpa [size, Nat.add_assoc] using hle

variable {κ : LimitKnow}

/-- The check: a free place becomes a connection being created. -/
theorem does_sizeBelow {n : Option SessionId} {Q : Bool → LimitKnow → Prop}
    (hQ : ∀ b, Q b { κ with creating := b || κ.creating }) :
    (limits m).Does t (.sizeBelow n m) Q κ := by
  refine ⟨nofun, ?_⟩
  intro s ch r s' hinv hknows hcond hexec
  simp only [exec] at hexec
  split at hexec
  case isFalse => cases hexec
  rename_i hun
  unfold sizeBelow at hexec
  split at hexec <;> cases hexec
  · rename_i hlt
    have hroom : s.size + s.unregistered.length + s.creating.length < m := by
      simpa [limits, roomLeft, hlt] using hcond
    have hle := openConns_length_le hinv hun
    refine ⟨trivial, ⟨?_, hinv.registered⟩, stable_of ?_ ?_, _, ?_, hQ true⟩
    · show (openConns s).length + (t :: s.creating).length ≤ m
      rw [length_cons]
      omega
    · intro u _ h
      exact mem_cons_of_mem t h
    · intro u c _ h
      exact h
    · exact ⟨fun _ => mem_cons_self, hknows.2⟩
  · exact ⟨trivial, hinv, Discipline.Stable.refl s, κ, hknows, by simpa using hQ false⟩

theorem stable_notCreating : (limits m).Stable t s (s.notCreating t) := by
  apply stable_of
  · intro u hu h
    exact (mem_erase_of_ne hu).mpr h
  · intro u c _ h
    exact h

theorem Limited.notCreating (h : Limited m s) : Limited m (s.notCreating t) := by
  constructor
  · have hle := (erase_sublist (a := t) (l := s.creating)).length_le
    have hb := h.bound
    show (openConns s).length + (s.creating.erase t).length ≤ m
    omega
  · exact h.registered

/-- Giving up: the place is free again. -/
theorem does_notCreating {o : Op} {Q : o.Ret → LimitKnow → Prop}
    (hexec : ∀ s ch r s', exec s t o ch = some (r, s') →
      s' = s.notCreating t ∧ Q r { κ with creating := false } ∨ s' = s ∧ Q r κ) :
    (limits m).Does t o Q κ := by
  refine ⟨nofun, ?_⟩
  intro s ch r s' hinv hknows _ h
  rcases hexec s ch r s' h with ⟨rfl, hq⟩ | ⟨rfl, hq⟩
  · exact ⟨trivial, hinv.notCreating, stable_notCreating, { κ with creating := false },
      ⟨nofun, hknows.2⟩, hq⟩
  · exact ⟨trivial, hinv, Discipline.Stable.refl s', κ, hknows, hq⟩

theorem openConns_connect (s : State) (t : Thread) (n : Option SessionId) (b : Backend) :
    openConns (s.connect t n b).2 = openConns s ++ [s.nextConn] := by
  show (range (s.nextConn + 1)).filter _ = _
  rw [range_succ, filter_append]
  congr 1
  · apply filter_congr
    intro c hc
    have hne : c ≠ s.nextConn := ne_of_lt (mem_range.mp hc)
    simp [connect, hne]
  · simp [connect]

/-- The dial: a connection being created becomes one that exists. -/
theorem does_tryConnect {n : Option SessionId} {b : Backend}
    {Q : Option ConnId → LimitKnow → Prop} (hκ : κ.creating = true)
    (hok : ∀ c, Q (some c) { κ with creating := false }) (hfail : Q none κ) :
    (limits m).Does t (.tryConnect n b) Q κ := by
  refine ⟨fun _ _ _ hurgent => False.elim hurgent, ?_⟩
  intro s ch r s' hinv hknows _ hexec
  simp only [exec] at hexec
  split at hexec <;> cases hexec
  · have hmem : t ∈ s.creating := hknows.1 hκ
    have hlen : (s.creating.erase t).length + 1 = s.creating.length := by
      rw [length_erase_of_mem hmem]
      have := length_pos_of_mem hmem
      omega
    refine ⟨trivial, ⟨?_, ?_⟩, stable_of ?_ ?_, { κ with creating := false },
      ⟨fun h => Bool.noConfusion h, hknows.2⟩, hok _⟩
    · have hb := hinv.bound
      rw [openConns_connect, length_append]
      show (openConns s).length + [s.nextConn].length + (s.creating.erase t).length ≤ m
      rw [length_singleton]
      omega
    · intro c hc
      rw [openConns_connect] at hc
      rcases mem_append.mp hc with hc | hc
      · rcases hinv.registered c hc with h | h | h | h
        · exact Or.inl h
        · exact Or.inr (Or.inl h)
        · exact Or.inr (Or.inr (Or.inl (mem_append_left _ h)))
        · exact Or.inr (Or.inr (Or.inr h))
      · exact Or.inr (Or.inr (Or.inl (mem_append_right _ hc)))
    · intro u hu h
      exact (mem_erase_of_ne hu).mpr h
    · intro u c _ h
      exact h
  · exact ⟨trivial, hinv, Discipline.Stable.refl s, κ, hknows, hfail⟩

/-! ## Registering and releasing a connection -/

theorem Limited.of_registered (h : Limited m s) (hcreating : s'.creating = s.creating)
    (hopen : openConns s' ⊆ openConns s) (hlen : (openConns s').length ≤ (openConns s).length)
    (hreg : ∀ c ∈ openConns s', (c ∈ s.conns.idle ∨ c ∈ s.conns.active ∨ c ∈ s.unregistered ∨
      ∃ t, s.conns.locked = some (t, c)) → c ∈ s'.conns.idle ∨ c ∈ s'.conns.active ∨
      c ∈ s'.unregistered ∨ ∃ t, s'.conns.locked = some (t, c)) : Limited m s' := by
  constructor
  · have hb := h.bound
    rw [hcreating]
    omega
  · intro c hc
    exact hreg c hc (h.registered c (hopen hc))

theorem does_acquire {Q : Option ConnId → LimitKnow → Prop} (hQ : ∀ r, Q r κ) :
    (limits m).Does t (.acquire n) Q κ := by
  refine ⟨nofun, ?_⟩
  intro s ch r s' hinv hknows _ hexec
  simp only [exec] at hexec
  split at hexec
  case isFalse => cases hexec
  unfold State.acquire at hexec
  split at hexec <;> cases hexec
  · exact ⟨trivial, hinv, Discipline.Stable.refl s, κ, hknows, hQ _⟩
  · rename_i c hc
    refine ⟨trivial, ?_, stable_of (fun _ _ h => h) (fun _ _ _ h => h), κ, hknows, hQ _⟩
    refine hinv.of_registered rfl (fun _ h => h) (le_refl _) fun d _ hd => ?_
    have hsplit := dropLast_append_getLast? c hc
    rcases hd with hd | hd | hd
    · rw [← hsplit] at hd
      rcases mem_append.mp hd with hd | hd
      · exact Or.inl hd
      · obtain rfl : d = c := by simpa using hd
        exact Or.inr (Or.inl mem_insert_self)
    · exact Or.inr (Or.inl (mem_insert_of_mem hd))
    · exact Or.inr (Or.inr hd)

theorem does_addActive (hQ : Q () κ) : (limits m).Does t (.addActive n c) Q κ := by
  refine ⟨nofun, ?_⟩
  intro s ch r s' hinv hknows _ hexec
  simp only [exec] at hexec
  split at hexec <;> cases hexec
  refine ⟨trivial, ?_, stable_of (fun _ _ h => h) (fun _ _ _ h => h), κ, hknows, hQ⟩
  refine hinv.of_registered rfl (fun _ h => h) (le_refl _) fun d _ hd => ?_
  rcases hd with hd | hd | hd | hd
  · exact Or.inl hd
  · exact Or.inr (Or.inl (mem_insert_of_mem hd))
  · by_cases hdc : d = c
    · subst hdc
      exact Or.inr (Or.inl mem_insert_self)
    · exact Or.inr (Or.inr (Or.inl ((mem_erase_of_ne hdc).mpr hd)))
  · exact Or.inr (Or.inr (Or.inr hd))

variable {c : ConnId}

theorem does_releaseLock {maxSize : Nat} {Q : Bool → LimitKnow → Prop}
    (hQ : ∀ b, Q b { κ with locked := some c }) :
    (limits m).Does t (.releaseLock c maxSize) Q κ := by
  refine ⟨nofun, ?_⟩
  intro s ch r s' hinv hknows _ hexec
  simp only [exec] at hexec
  split at hexec <;> cases hexec
  rename_i hun
  have hnone : s.conns.locked = none := by simpa [unlocked] using hun
  refine ⟨trivial, ?_, stable_of (fun _ _ h => h) ?_, { κ with locked := some c },
    ⟨hknows.1, ?_⟩, hQ _⟩
  · show Limited m _
    refine hinv.of_registered rfl (fun _ h => h) (le_refl _) fun d _ hd => ?_
    rcases hd with hd | hd | hd | ⟨u, hd⟩
    · exact Or.inl hd
    · by_cases hdc : d = c
      · subst hdc
        exact Or.inr (Or.inr (Or.inr ⟨t, rfl⟩))
      · exact Or.inr (Or.inl ((mem_erase_of_ne hdc).mpr hd))
    · exact Or.inr (Or.inr (Or.inl hd))
    · rw [hnone] at hd
      cases hd
  · intro u d _ h
    rw [hnone] at h
    cases h
  · intro d hd
    cases hd
    rfl

theorem stable_unlock (hknows : (limits m).knows s t κ) (hκ : κ.locked = some c)
    (hcreating : s'.creating = s.creating) : (limits m).Stable t s s' := by
  apply stable_of
  · intro u _ h
    rw [hcreating]
    exact h
  · intro u d hu h
    rw [hknows.2 c hκ] at h
    cases h
    exact absurd rfl hu

variable {Q : Unit → LimitKnow → Prop}

theorem does_releaseIdle (hκ : κ.locked = some c) (hQ : Q () { κ with locked := none }) :
    (limits m).Does t (.releaseIdle c) Q κ := by
  refine ⟨nofun, ?_⟩
  intro s ch r s' hinv hknows _ hexec
  cases hexec
  refine ⟨trivial, ?_, stable_unlock hknows hκ rfl, { κ with locked := none },
    ⟨hknows.1, nofun⟩, hQ⟩
  refine hinv.of_registered rfl (fun _ h => h) (le_refl _) fun d _ hd => ?_
  rcases hd with hd | hd | hd | ⟨u, hd⟩
  · exact Or.inl (mem_append_left _ hd)
  · exact Or.inr (Or.inl hd)
  · exact Or.inr (Or.inr (Or.inl hd))
  · rw [hknows.2 c hκ] at hd
    cases hd
    exact Or.inl (mem_append_right _ (mem_singleton_self _))

theorem openConns_releaseClose (s : State) (c : ConnId) :
    openConns (s.releaseClose c) = (openConns s).filter fun d => d ≠ c := by
  unfold openConns
  rw [filter_filter]
  apply filter_congr
  intro d _
  by_cases hd : d = c
  · subst hd
    simp [releaseClose, close, setConn, move]
  · simp [releaseClose, close, setConn, move, hd]

theorem does_releaseClose (hκ : κ.locked = some c) (hQ : Q () { κ with locked := none }) :
    (limits m).Does t (.releaseClose c) Q κ := by
  refine ⟨nofun, ?_⟩
  intro s ch r s' hinv hknows _ hexec
  cases hexec
  refine ⟨trivial, ?_, stable_unlock hknows hκ rfl, { κ with locked := none },
    ⟨hknows.1, nofun⟩, hQ⟩
  have hopen := openConns_releaseClose s c
  refine hinv.of_registered ?_ ?_ ?_ ?_
  · rfl
  · rw [hopen]
    exact filter_subset_self _
  · rw [hopen]
    exact length_filter_le _ _
  · intro d hd hreg
    rw [hopen] at hd
    rcases hreg with h | h | h | ⟨u, h⟩
    · exact Or.inl h
    · exact Or.inr (Or.inl h)
    · exact Or.inr (Or.inr (Or.inl h))
    · rw [hknows.2 c hκ] at h
      cases h
      simp at hd

/-! ## The programs -/

open Discipline (wp_act wp_act_bind wp_seq)

/-- Outside of the pool's functions a goroutine is neither creating nor
resetting a connection. -/
def outside : LimitKnow := {}

/-- After the check. -/
def inside : LimitKnow := { creating := true }

theorem wp_skip {α : Type} {f : o.Ret → Prog α} {Q : α → LimitKnow → Prop} (ho : aside o = true)
    (h : ∀ r, (limits m).wp t (f r) Q κ) : (limits m).wp t (act o >>= f) Q κ :=
  wp_act_bind (does_aside ho h)

theorem wp_tryBackends {n : Option SessionId} {maxRetries : Nat} :
    (limits m).wp t (tryBackends n role maxRetries k) (fun _ κ => κ = outside) inside := by
  have hfree : ∀ e : PoolError, (limits m).wp t (act .free >>= fun _ => pure (.error e))
      (fun (_ : Except PoolError ConnId) κ => κ = outside) inside := by
    intro e
    apply wp_act_bind
    apply does_notCreating
    intro s ch r s' h
    cases h
    exact Or.inl ⟨rfl, rfl⟩
  induction k with
  | zero => exact hfree _
  | succ k ih =>
    refine wp_skip rfl fun backend => ?_
    cases backend with
    | none => exact hfree _
    | some b =>
      refine wp_skip rfl fun circuit => ?_
      cases circuit with
      | true => exact ih
      | false =>
        apply wp_act_bind
        apply does_tryConnect rfl
        · intro c
          rfl
        · exact ih

theorem wp_createWith {n : Option SessionId} :
    (limits m).wp t (createWith n role) (fun _ κ => κ = outside) inside := by
  apply wp_act_bind
  apply does_notCreating
  intro s ch r s' h
  simp only [exec] at h
  split at h <;> cases h
  · refine Or.inr ⟨rfl, ?_⟩
    apply wp_act_bind
    apply does_notCreating
    intro s ch r s' h
    simp only [exec] at h
    split at h <;> cases h
    · exact Or.inr ⟨rfl, wp_tryBackends⟩
    · exact Or.inl ⟨rfl, rfl⟩
  · exact Or.inl ⟨rfl, rfl⟩

theorem wp_stuck {α : Type} {f : Unit → Prog α} {Q : α → LimitKnow → Prop} :
    (limits m).wp t (act .stuck >>= f) Q κ := by
  refine ⟨nofun, ?_⟩
  intro s ch r s' _ _ _ h
  cases h

theorem wp_prefetchLoop {target : Nat} :
    (limits m).wp t (prefetchLoop target m k) (fun _ κ => (limits m).Final t κ) outside := by
  induction k with
  | zero =>
    refine ⟨nofun, ?_⟩
    intro s ch r s' _ _ _ h
    cases h
  | succ k ih =>
    refine wp_skip rfl fun idleCount => ?_
    refine wp_skip rfl fun activeCount => ?_
    split
    · refine wp_skip rfl fun done => ?_
      cases done with
      | true => exact final
      | false =>
        apply wp_act_bind
        apply does_sizeBelow
        intro below
        cases below with
        | true =>
          apply wp_seq wp_createWith
          intro _ κ hκ
          exact hκ ▸ ih
        | false => exact final
    · exact final

theorem wp_waitLoop {w : WaiterId} :
    (limits m).wp t (waitLoop n w timeout k) (fun _ κ => κ = outside) outside := by
  induction k with
  | zero => exact wp_stuck
  | succ k ih =>
    refine wp_skip rfl fun check => ?_
    split
    · rfl
    · rfl
    · refine wp_skip rfl fun case => ?_
      cases case with
      | ready =>
        refine wp_skip rfl fun conn => ?_
        cases conn with
        | some c => rfl
        | none => exact ih
      | timeout | done =>
        refine wp_skip rfl fun _ => ?_
        rfl

theorem wp_wait : (limits m).wp t (wait n maxSize timeout k) (fun _ κ => κ = outside) outside := by
  refine wp_skip rfl fun w => ?_
  cases w with
  | none => rfl
  | some w =>
    apply wp_seq wp_waitLoop
    intro result κ hκ
    subst hκ
    refine wp_skip rfl fun _ => ?_
    rfl

theorem wp_acquireWith :
    (limits cfg.maxServerConnections).wp t (acquireWith cfg n (createWith (some n) role))
      (fun _ κ => κ = outside) outside := by
  apply wp_act_bind
  apply does_acquire
  intro conn
  cases conn with
  | some c => rfl
  | none =>
    apply wp_act_bind
    apply does_sizeBelow
    intro below
    cases below with
    | true =>
      apply wp_seq wp_createWith
      intro result κ hκ
      subst hκ
      cases result with
      | error e => rfl
      | ok c =>
        apply wp_act_bind
        apply does_addActive
        rfl
    | false =>
      apply wp_act_bind
      apply does_acquire
      intro conn
      cases conn with
      | some c => rfl
      | none => exact wp_wait

/-- While a connection is reset. -/
def resetting (c : ConnId) : LimitKnow := { locked := some c }

def resets : Op → Bool
  | .stuck | .setReadDeadline _ | .readReset _ | .writeReset _ _ => true
  | _ => false

/-- Where its operations change nothing of what is known, a reset does not. -/
theorem wp_resetConnection {L : Calculus proxy} {κ : L.Know}
    (hL : ∀ o, resets o = true → L.wp (act o) (fun _ κ' => κ' = κ) κ) :
    L.wp (resetConnection cfg c) (fun _ κ' => κ' = κ) κ := by
  have hdrain : ∀ k, L.wp (drain c k) (fun _ κ' => κ' = κ) κ := by
    intro k
    induction k with
    | zero => exact L.andThen (hL _ rfl) fun _ => L.pure rfl
    | succ k ih =>
      refine L.andThen (hL _ rfl) fun set => L.ite (L.andThen (hL _ rfl) fun reply => ?_) (L.pure rfl)
      cases reply with
      | none => exact L.pure rfl
      | some r => exact ih
  refine L.andThen (hL _ rfl) fun written => L.ite ?_ (L.pure rfl)
  cases cfg.body with
  | mySQL =>
    refine L.andThen (hL _ rfl) fun reply => ?_
    cases reply with
    | none | some => exact L.pure rfl
  | postgreSQL | msSQL => exact hdrain _

theorem wp_release : (limits m).wp t (release cfg n c) (fun _ κ => κ = outside) outside := by
  refine wp_skip rfl fun signalled => ?_
  cases signalled with
  | true => rfl
  | false =>
    apply wp_act_bind
    apply does_releaseLock
    intro room
    cases room with
    | false =>
      apply wp_act
      apply does_releaseClose rfl
      rfl
    | true =>
      have hreset : (limits m).wp t (resetConnection cfg c) (fun _ κ => κ = resetting c)
          (resetting c) := by
        refine wp_resetConnection (L := (limits m).calculus t) fun o ho => ?_
        cases o
        case stuck => exact wp_stuck
        all_goals first | exact wp_act (does_aside rfl fun _ => rfl) | cases ho
      apply wp_seq hreset
      intro ok κ hκ
      subst hκ
      cases ok with
      | true =>
        apply wp_act
        apply does_releaseIdle rfl
        rfl
      | false =>
        apply wp_act
        apply does_releaseClose rfl
        rfl

theorem wp_calls {l : List Call} : (limits cfg.maxServerConnections).wp t (calls cfg n l)
      (fun _ κ => (limits cfg.maxServerConnections).Final t κ) outside := by
  induction l with
  | nil => exact final
  | cons call l ih =>
    have hcall : (limits cfg.maxServerConnections).wp t (call.run cfg n)
        (fun _ κ => κ = outside) outside := by
      cases call with
      | acquire | acquireToRole =>
        apply wp_seq wp_acquireWith
        intro _ κ hκ
        exact hκ
      | release c => exact wp_release
    apply wp_seq hcall
    intro _ κ hκ
    exact hκ ▸ ih

theorem wp_backendLoop :
    (limits m).wp t (backendLoop k) (fun _ κ => (limits m).Final t κ) outside := by
  induction k with
  | zero =>
    refine ⟨nofun, ?_⟩
    intro s ch r s' _ _ _ h
    cases h
  | succ k ih =>
    refine wp_skip rfl fun _ => ?_
    exact ih

theorem callers_within (hm : 0 < cfg.maxServerConnections) (scripts : Nat → List Call) :
    (limits cfg.maxServerConnections).Within (callers cfg scripts) := by
  refine ⟨⟨Nat.zero_le _, nofun⟩, fun t => ⟨outside, ⟨nofun, nofun⟩, ?_⟩⟩
  cases t with
  | caller i => exact wp_calls
  | backend => exact wp_backendLoop
  | prefetch =>
    show (limits cfg.maxServerConnections).wp _ (prefetchConns cfg) _ outside
    unfold prefetchConns
    rw [if_neg (ne_of_gt hm)]
    simp only
    split
    · exact wp_prefetchLoop
    · exact final
  | _ => exact final

/-! ## The limit holds when there is room -/

/-- In every run in which each check leaves room, there are never more than
`MaxServerConnections` connections. -/
theorem openConns_le_max {cfg : PoolConfig} {scripts : Nat → List Call} {cfg' : Config proxy}
    (hm : 0 < cfg.maxServerConnections) (hrun : Run roomLeft (callers cfg scripts) cfg') :
    (openConns cfg'.state).length ≤ cfg.maxServerConnections := by
  have hin := Discipline.sound (callers_within hm scripts) hrun
  have hbound := hin.1.bound
  omega

/-- A pool that may have one server connection. -/
def oneConn : PoolConfig where
  mode := .session
  body := .postgreSQL
  authMode := .passthrough
  maxServerConnections := 1
  minServerConnections := 0
  waitTimeout := true
  rounds := 4

/-- What a caller of `Acquire` does from the check on to make a connection. -/
def connects (t : Thread) : List (Thread × Choice) :=
  [(t, .ok), (t, .ok), (t, .backend ⟨0, .primary⟩), (t, .ok), (t, .ok), (t, .ok)]

/-- One caller creates a connection while the other one waits its turn. -/
theorem openConns_le_max_oneConn : ∃ cfg', Run roomLeft (callers oneConn fun _ => [.acquire]) cfg' ∧
      openConns cfg'.state = [0] ∧ (openConns cfg'.state).length ≤ 1 := by
  obtain ⟨cfg', hrun, hopen⟩ := exists_run_of_follow roomLeft
    (callers oneConn fun _ => [.acquire]) (fun c => openConns c.state = [0])
    ([(.caller 0, .ok), (.caller 0, .ok)] ++ connects (.caller 0) ++
      [(.caller 1, .ok), (.caller 1, .ok)]) (by decide)
  exact ⟨cfg', hrun, by simpa using hopen, openConns_le_max (by decide) hrun⟩

/-- Two callers pass the check before one of them registers its connection. -/
theorem two_callers_exceed_limit :
    ¬ ∀ (cfg : PoolConfig) (scripts : Nat → List Call) (cfg' : Config proxy),
      0 < cfg.maxServerConnections → Run anyStep (callers cfg scripts) cfg' →
        (openConns cfg'.state).length ≤ cfg.maxServerConnections := by
  intro h
  obtain ⟨cfg', hrun, hopen⟩ := exists_run_of_follow anyStep
    (callers oneConn fun _ => [.acquire]) (fun c => openConns c.state = [0, 1])
    ([(.caller 0, .ok), (.caller 0, .ok), (.caller 1, .ok), (.caller 1, .ok)] ++
      connects (.caller 0) ++ connects (.caller 1)) (by decide)
  have hle := h oneConn _ cfg' (by decide) hrun
  rw [hopen] at hle
  exact absurd hle (by decide)

end Geryon.Pool
