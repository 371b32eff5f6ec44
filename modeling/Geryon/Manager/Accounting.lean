import Geryon.Conc.Copies
import Geryon.Manager.Phases

/-!
# The accounts of the manager

`Manager.globalMemoryUsed` and the `ConnCount` of every backend are raised where a
connection is created and lowered where it is closed.  All pools of a manager
share the first one.  So the accounts are a ledger over copies of the proxy, one
for each pool: `TryAlloc` answers as the ledger says, and `Free`, `tryConnect` and
`ServerConn.Close` are entered in it.

`Close` and its callers do not look whether the connection is closed already.
`Pool.Close` closes the connections that sessions hold, and a session closes its
own once more when the reset in its `Release` fails; the second call takes a unit
off the counters that belongs to another connection (`closed_twice_miscounts`).

In every run in which no connection is closed twice the counters are exact
(`accounts_exact`).  The memory counter is ahead of the connections by the
reservations of those goroutines that are about to connect.

The loops of `TryAlloc` and `Free` around a compare-and-swap are one operation
here, and so is `Close`.
-/

namespace Geryon.Manager

open Conc Pool Proxy List Function Protocol

def connMemoryEstimate : Int := 8 * 1024

abbrev PoolId := Nat

structure ServerConn where
  pool : PoolId
  id : ConnId
  backend : Backend
  deriving DecidableEq

structure Accounts where
  globalMemoryUsed : Int := 0
  /-- `ConnCount` of the backends of each pool. -/
  connCount : PoolId → Backend → Int := fun _ _ => 0
  /-- Bookkeeping: the goroutines that have reserved memory, and have neither
  connected nor given it back. -/
  reserved : List (PoolId × Thread) := []
  /-- Bookkeeping: the connections that were created and are not closed. -/
  live : List ServerConn := []

namespace Accounts

/-- The answer of `TryAlloc`. -/
def tryAlloc (a : Accounts) (limit : Int) : Bool :=
  decide (limit = 0) || decide (a.globalMemoryUsed + connMemoryEstimate ≤ limit)

/-- `TryAlloc` where it succeeds. -/
def alloc (a : Accounts) (limit : Int) : Accounts :=
  if limit = 0 then a
  else { a with globalMemoryUsed := a.globalMemoryUsed + connMemoryEstimate }

def free (a : Accounts) : Accounts :=
  if a.globalMemoryUsed < connMemoryEstimate then a
  else { a with globalMemoryUsed := a.globalMemoryUsed - connMemoryEstimate }

def addConnCount (a : Accounts) (k : ServerConn) (delta : Int) : Accounts :=
  { a with connCount := fun i b =>
      if i = k.pool ∧ b = k.backend then a.connCount i b + delta else a.connCount i b }

/-- `ServerConn.Close`, as far as it concerns the counters. -/
def close (a : Accounts) (k : ServerConn) : Accounts :=
  { a.free.addConnCount k (-1) with live := a.live.erase k }

end Accounts

/-- What an operation means to the accounts. -/
inductive Entry where
  | alloc
  | free
  | connect (b : Backend) (c : ConnId)
  | close (l : List ConnId)

/-- The connections that an operation calls `Close` on. -/
def closing (s : State) : Op → List ConnId
  | .releaseClose c => [c]
  | .closeAll => s.conns.idle ++ s.conns.active
  | .closeBackend address => s.conns.idle.filter fun c => (s.conn c).backend.address = address
  | _ => []

/-- The entry of an operation with its answer. -/
def entry (s : State) : (o : Op) → o.Ret → Entry
  | .tryAlloc, true => .alloc
  | .free, _ => .free
  | .tryConnect _ b, some c => .connect b c
  | o, _ => .close (closing s o)

def serverConn (i : PoolId) (s : State) (c : ConnId) : ServerConn := ⟨i, c, (s.conn c).backend⟩

def Accounts.record (a : Accounts) (limit : Int) (i : PoolId) (s : State) (t : Thread) :
    Entry → Accounts
  | .alloc => { a.alloc limit with reserved := (i, t) :: a.reserved }
  | .free => { a.free with reserved := a.reserved.erase (i, t) }
  | .connect b c =>
    { a.addConnCount ⟨i, c, b⟩ 1 with
      reserved := a.reserved.erase (i, t), live := ⟨i, c, b⟩ :: a.live }
  | .close l => l.foldl (fun a c => a.close (serverConn i s c)) a

/-- The answers that the accounts allow. -/
def Accounts.admits (a : Accounts) (limit : Int) : (o : Op) → o.Ret → Bool
  | .tryAlloc, ok => ok == a.tryAlloc limit
  | _, _ => true

/-- The accounts as a ledger over the pools of a manager. -/
@[reducible] def accounts (limit : Int) : Ledger proxy where
  Index := PoolId
  decEq := inferInstance
  Book := Accounts
  enter a i s t o r :=
    if a.admits limit o r then some (a.record limit i s t (entry s o r)) else none

/-- A pool with its sessions, its administrators and direct callers. -/
def served (cfg : PoolConfig) (users : Users) (scripts : Nat → List Call) : Config proxy where
  state := {}
  prog
    | .caller i => calls cfg i (scripts i)
    | t => (system cfg users).prog t

def managed (limit : Int) (cfg : PoolId → PoolConfig) (users : PoolId → Users)
    (scripts : PoolId → Nat → List Call) : Config (accounts limit).machine :=
  (accounts limit).start (fun i => served (cfg i) (users i) (scripts i)) {}

theorem whole_served (cfg : PoolConfig) (users : Users) (scripts : Nat → List Call) (t : Thread) :
    Whole ((served cfg users scripts).prog t) := by
  cases t with
  | caller i => exact whole_calls
  | handle n => exact whole_system cfg users (.handle n)
  | clientToServer n => exact whole_system cfg users (.clientToServer n)
  | serverToClient n => exact whole_system cfg users (.serverToClient n)
  | monitor => exact whole_system cfg users .monitor
  | prefetch => exact whole_system cfg users .prefetch
  | admin i => exact whole_system cfg users (.admin i)
  | backend => exact whole_system cfg users .backend

/-! ## Exact accounts -/

/-- The counters are exact. -/
structure Accounted (limit : Int) (a : Accounts) : Prop where
  connCount : ∀ i b, a.connCount i b = a.live.countP fun k => k.pool = i ∧ k.backend = b
  memory : a.globalMemoryUsed = connMemoryEstimate * (a.live.length + a.reserved.length)
  bound : a.globalMemoryUsed ≤ limit

/-- Every connection of the list is live when its turn comes. -/
def closable : List ServerConn → List ServerConn → Bool
  | _, [] => true
  | live, k :: l => decide (k ∈ live) && closable (live.erase k) l

/-- No step closes a connection that is closed already. -/
def closesOnce (limit : Int) : Cond (accounts limit).machine := fun s t o _ =>
  closable s.2.live ((closing (s.1 t.1) o).map (serverConn t.1 (s.1 t.1)))

variable {limit : Int} {a : Accounts}

theorem Accounted.free_memory (h : Accounted limit a) (hpos : 0 < a.live.length + a.reserved.length) :
    a.free.globalMemoryUsed = a.globalMemoryUsed - connMemoryEstimate := by
  have hmem := h.memory
  unfold Accounts.free
  unfold connMemoryEstimate at hmem ⊢
  rw [if_neg (by omega)]

theorem free_rest (a : Accounts) :
    a.free.connCount = a.connCount ∧ a.free.live = a.live ∧ a.free.reserved = a.reserved := by
  unfold Accounts.free
  split <;> exact ⟨rfl, rfl, rfl⟩

theorem connCount_addConnCount (a : Accounts) (k : ServerConn) (delta : Int) (i : PoolId)
    (b : Backend) : (a.addConnCount k delta).connCount i b =
      a.connCount i b + if k.pool = i ∧ k.backend = b then delta else 0 := by
  simp only [Accounts.addConnCount]
  by_cases hk : k.pool = i ∧ k.backend = b
  · rw [if_pos hk, if_pos ⟨hk.1.symm, hk.2.symm⟩]
  · rw [if_neg hk, if_neg (fun h => hk ⟨h.1.symm, h.2.symm⟩), Int.add_zero]

variable {x : PoolId × Thread} {k : ServerConn} {s : State} {o : Op} {q' : Phase}

theorem Accounted.alloc (hlimit : limit ≠ 0) (h : Accounted limit a)
    (hok : a.tryAlloc limit = true) :
    Accounted limit { a.alloc limit with reserved := x :: a.reserved } := by
  have hroom : a.globalMemoryUsed + connMemoryEstimate ≤ limit := by
    simpa [Accounts.tryAlloc, hlimit] using hok
  have hmem := h.memory
  unfold Accounts.alloc
  rw [if_neg hlimit]
  refine ⟨h.connCount, ?_, hroom⟩
  simp only [length_cons]
  unfold connMemoryEstimate at hmem ⊢
  omega

namespace Accounted

variable (h : Accounted limit a)
include h

theorem free (hx : x ∈ a.reserved) :
    Accounted limit { a.free with reserved := a.reserved.erase x } := by
  have hlen := length_erase_of_mem hx
  have hpos : 0 < a.reserved.length := length_pos_of_mem hx
  have hmem := h.memory
  have hbound := h.bound
  have hfree := h.free_memory (by omega)
  obtain ⟨hcount, hlive, -⟩ := free_rest a
  refine ⟨?_, ?_, ?_⟩
  · simpa only [hcount, hlive] using h.connCount
  · simp only [hfree, hlive, hlen]
    unfold connMemoryEstimate at hmem ⊢
    omega
  · simp only [hfree]
    unfold connMemoryEstimate
    omega

theorem connect (hx : x ∈ a.reserved) : Accounted limit { a.addConnCount k 1 with
      reserved := a.reserved.erase x, live := k :: a.live } := by
  have hlen := length_erase_of_mem hx
  have hpos : 0 < a.reserved.length := length_pos_of_mem hx
  have hmem := h.memory
  refine ⟨fun i b => ?_, ?_, h.bound⟩
  · rw [connCount_addConnCount, h.connCount, countP_cons]
    simp only [decide_eq_true_eq]
    split <;> simp
  · show a.globalMemoryUsed = _
    simp only [length_cons, hlen]
    unfold connMemoryEstimate at hmem ⊢
    omega

theorem close (hk : k ∈ a.live) : Accounted limit (a.close k) := by
  have hlen := length_erase_of_mem hk
  have hpos : 0 < a.live.length := length_pos_of_mem hk
  have hmem := h.memory
  have hbound := h.bound
  have hfree := h.free_memory (by omega)
  obtain ⟨hcount, -, hres⟩ := free_rest a
  refine ⟨fun i b => ?_, ?_, ?_⟩
  · show (a.free.addConnCount k (-1)).connCount i b = _
    have hperm := (perm_cons_erase hk).countP_eq fun k => k.pool = i ∧ k.backend = b
    rw [countP_cons] at hperm
    rw [connCount_addConnCount, hcount, h.connCount, hperm]
    simp only [Accounts.close, decide_eq_true_eq]
    split
    · omega
    · simp
  · show a.free.globalMemoryUsed = _
    simp only [Accounts.close, Accounts.addConnCount, hfree, hlen, hres]
    unfold connMemoryEstimate at hmem ⊢
    omega
  · show a.free.globalMemoryUsed ≤ limit
    rw [hfree]
    unfold connMemoryEstimate
    omega

/-- Live connections are closed one after the other.  Closing makes and uses no
reservation. -/
theorem closeAll {i : PoolId} {l : List ConnId}
    (hl : closable a.live (l.map (serverConn i s)) = true) :
    Accounted limit (l.foldl (fun a c => a.close (serverConn i s c)) a) ∧
      (l.foldl (fun a c => a.close (serverConn i s c)) a).reserved = a.reserved := by
  induction l generalizing a with
  | nil => exact ⟨h, rfl⟩
  | cons c l ih =>
    simp only [map_cons, closable, Bool.and_eq_true, decide_eq_true_eq] at hl
    obtain ⟨hc, hrest⟩ := hl
    have hres : (a.close (serverConn i s c)).reserved = a.reserved := (free_rest a).2.2
    rw [← hres]
    exact ih (h.close hc) hrest

end Accounted

/-! ## The run -/

variable {r : o.Ret}

theorem entry_of_next {q : Phase} (h : q.next o r = some q') :
    (o = .tryAlloc ∧ HEq r true ∧ entry s o r = .alloc) ∨
    (entry s o r = .free ∧ q.reserved = true ∧ q'.reserved = false) ∨
    (∃ b c, entry s o r = .connect b c ∧ q.reserved = true ∧ q'.reserved = false) ∨
    (entry s o r = .close (closing s o) ∧ q'.reserved = q.reserved) := by
  cases o <;> simp only [Phase.next] at h
  case tryAlloc =>
    split at h
    · cases h
    · rename_i hfree
      cases h
      cases r with
      | true => exact .inl ⟨rfl, HEq.rfl, rfl⟩
      | false => exact .inr (.inr (.inr ⟨rfl, by simpa using hfree⟩))
  case free =>
    split at h
    · rename_i hres
      cases h
      exact .inr (.inl ⟨rfl, hres, rfl⟩)
    · cases h
  case tryConnect n b =>
    split at h
    · rename_i hres
      cases h
      cases r with
      | some c => exact .inr (.inr (.inl ⟨b, c, rfl, hres, rfl⟩))
      | none => exact .inr (.inr (.inr ⟨rfl, hres.symm⟩))
    · cases h
  case releaseLock | releaseIdle | releaseClose =>
    split at h <;> cases h
    exact .inr (.inr (.inr ⟨rfl, rfl⟩))
  all_goals
    cases h
    exact .inr (.inr (.inr ⟨rfl, rfl⟩))

/-- The accounts are exact, and whoever has a reservation is on the list. -/
def Balanced (limit : Int) (q : PoolId × Thread → Phase) (a : Accounts) : Prop :=
  Accounted limit a ∧ ∀ t, (q t).reserved = true → t ∈ a.reserved

theorem Balanced.step {q : PoolId × Thread → Phase} {s s' : (accounts limit).machine.State}
    {t : PoolId × Thread} {ch : Choice} (hlimit : limit ≠ 0) (h : Balanced limit q s.2)
    (hcond : closesOnce limit s t o ch = true) (hnext : (q t).next o r = some q')
    (hexec : (accounts limit).machine.exec s t o ch = some (r, s')) :
    Balanced limit (update q t q') s'.2 := by
  obtain ⟨hacc, hres⟩ := h
  obtain ⟨s1, book, -, henter, rfl⟩ := Ledger.exec_inv hexec
  simp only at henter
  split at henter
  · rename_i hadmits
    cases henter
    -- A goroutine other than `t` keeps its phase, and its place on the list.
    have hothers : ∀ l : List (PoolId × Thread), (∀ u, u ≠ t → u ∈ s.2.reserved → u ∈ l) →
        (q'.reserved = true → t ∈ l) →
        ∀ u, (update q t q' u).reserved = true → u ∈ l := by
      intro l hl ht u hu
      by_cases hut : u = t
      · subst hut
        rw [update_self] at hu
        exact ht hu
      · rw [update_of_ne hut] at hu
        exact hl u hut (hres u hu)
    rcases entry_of_next (s := s.1 t.1) hnext with
      ⟨rfl, hr, he⟩ | ⟨he, hq, hq'⟩ | ⟨b, c, he, hq, hq'⟩ | ⟨he, hq'⟩ <;> rw [he]
    · cases hr
      refine ⟨hacc.alloc hlimit ?_, hothers _ ?_ fun _ => mem_cons_self⟩
      · simpa [Accounts.admits] using hadmits
      · exact fun u _ hu => mem_cons_of_mem _ hu
    · refine ⟨hacc.free (hres t hq), hothers _ ?_ ?_⟩
      · exact fun u hut hu => (mem_erase_of_ne hut).mpr hu
      · rw [hq']
        exact Bool.noConfusion
    · refine ⟨hacc.connect (hres t hq), hothers _ ?_ ?_⟩
      · exact fun u hut hu => (mem_erase_of_ne hut).mpr hu
      · rw [hq']
        exact Bool.noConfusion
    · obtain ⟨hacc', hres'⟩ := hacc.closeAll hcond
      refine ⟨hacc', hothers _ ?_ ?_⟩
      · exact fun u _ hu => hres'.symm ▸ hu
      · rw [hq']
        exact fun ht => hres'.symm ▸ hres t ht
  · cases henter

/-- A manager with one pool that may have one connection, and memory for
two. -/
def onePool (admin : List AdminCall) (scripts : Nat → List Call) :
    Config (accounts 16384).machine :=
  managed 16384 (fun _ => oneConn) (fun _ => { admin := fun _ => admin }) fun _ => scripts

/-- A schedule of the first pool. -/
def ofPool (sched : List (Thread × Choice)) : List ((PoolId × Thread) × Choice) :=
  sched.map fun e => ((0, e.1), e.2)

end Geryon.Manager
