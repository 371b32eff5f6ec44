import Geryon.Conc.Events
import Mathlib.Data.List.Rotate
import Mathlib.Data.List.Count
import Mathlib.Data.List.Perm.Basic

/-!
# Routing to replicas

`selectReplica` of `internal/pool/routing.go`, for any number of goroutines.  While
the health of the replicas does not change, `AddInt64` is the only operation of a
call that another call can notice.
-/

namespace Geryon.Routing

open Conc List Function

/-! ## The model -/

variable {Backend : Type}

/-- A `Router`, as `selectReplica` sees it.  Backends have names, and `healthy` is
their `Healthy`. -/
structure Router (Backend : Type) where
  primary : Option Backend
  replicas : List Backend
  healthy : Backend → Bool

/-- What a call ends with.  `none` is a nil pointer. -/
inductive Result (Backend : Type) where
  | returned (backend : Option Backend)
  /-- The index is negative. -/
  | panicked
  deriving DecidableEq

/-- The replicas that are healthy. -/
def Router.pool (r : Router Backend) : List Backend := r.replicas.filter r.healthy

variable (r : Router Backend)

/-- `selectReplica`, with `replicaIndex`, an `int64`, before and after it. -/
def selectReplica (replicaIndex : Int) : Result Backend × Int :=
  if r.replicas = [] then (.returned r.primary, replicaIndex)
  else
    match r.pool with
    | [] => (.returned r.primary, replicaIndex)
    | [b] => (.returned (some b), replicaIndex)
    | healthy =>
      let added := (replicaIndex + 1).bmod 18446744073709551616
      let idx := (added - 1).bmod 18446744073709551616
      let i := idx.tmod healthy.length
      (if i < 0 then .panicked else .returned healthy[i.toNat]?, added)

/-- `replicaIndex`, and the calls with what they have ended with. -/
structure State (Backend : Type) where
  replicaIndex : Int
  calls : List (Option (Result Backend))
  deriving DecidableEq

/-- `m` goroutines call `selectReplica`; one of them takes its step. -/
def selecting (replicaIndex : Int) (m : Nat) : Automaton (State Backend) Nat where
  init := ⟨replicaIndex, replicate m none⟩
  next s i :=
    match s.calls[i]? with
    | some none =>
      let (result, added) := selectReplica r s.replicaIndex
      some ⟨added, s.calls.set i (some result)⟩
    | _ => none

/-! ## Any interleaving of calls -/

variable {r} {s s' : State Backend} {start m i : Nat}

theorem selectReplica_eq (hpool : 2 ≤ r.pool.length) {n : Nat} (hn : n + 1 < 9223372036854775808) :
    selectReplica r n = (.returned r.pool[n % r.pool.length]?, ((n + 1 : Nat) : Int)) := by
  have hadd : ((n : Int) + 1).bmod 18446744073709551616 = ((n + 1 : Nat) : Int) :=
    Int.bmod_eq_of_le (by omega) (by omega)
  have hsub : (((n + 1 : Nat) : Int) - 1).bmod 18446744073709551616 = n :=
    (Int.bmod_eq_of_le (by omega) (by omega)).trans (by omega)
  have hne : r.replicas ≠ [] := by
    intro hnil
    simp [Router.pool, hnil] at hpool
  rw [selectReplica, if_neg hne]
  split
  · rename_i hnil
    simp [hnil] at hpool
  · rename_i hone
    simp [hone] at hpool
  · dsimp only
    rw [hadd, hsub, ← Int.ofNat_tmod, if_neg (by omega), Int.toNat_natCast]

variable (r)

/-- The calls that have ended have got the replicas in turn, from `start` on, in some
order. -/
structure InTurn (start m : Nat) (s : State Backend) (count : Nat) : Prop where
  index : s.replicaIndex = (start + count : Nat)
  total : s.calls.length = m
  results : s.calls.filterMap id ~
    (range count).map fun j => .returned r.pool[(start + j) % r.pool.length]?

variable {r}

theorem InTurn.next {count : Nat} (h : InTurn r start m s count) (hpool : 2 ≤ r.pool.length)
    (hbound : start + m < 9223372036854775808)
    (hnext : (selecting r start m).next s i = some s') : InTurn r start m s' (count + 1) := by
  obtain ⟨hindex, htotal, hresults⟩ := h
  simp only [selecting] at hnext
  split at hnext
  · rename_i hcall
    obtain ⟨hi, hnone⟩ := List.getElem?_eq_some_iff.mp hcall
    have hsplit : s.calls = s.calls.take i ++ none :: s.calls.drop (i + 1) := by
      rw [← hnone]
      simp
    rw [hsplit, filterMap_append, filterMap_cons_none rfl] at hresults
    have hcount : count < m := by
      have hlen := hresults.length_eq
      have h1 := length_filterMap_le id (s.calls.take i)
      have h2 := length_filterMap_le id (s.calls.drop (i + 1))
      simp only [length_append, length_map, length_range, length_take, length_drop] at hlen h1 h2
      omega
    rw [hindex, selectReplica_eq hpool (by omega)] at hnext
    cases hnext
    refine ⟨rfl, (length_set ..).trans htotal, ?_⟩
    rw [set_eq_take_append_cons_drop, if_pos hi, filterMap_append, filterMap_cons_some (f := id) rfl,
      range_succ, map_append]
    exact perm_middle.trans ((hresults.cons _).trans (perm_append_singleton _ _).symm)
  · cases hnext

/-! ## Fairness -/

/-- From any index on, `n` choices are the replicas in some order. -/
theorem perm_rounds {pool : List Backend} (start k : Nat) :
    ((range (pool.length * k)).map fun j => pool[(start + j) % pool.length]?) ~
      (replicate k pool).flatten.map some := by
  induction k with
  | zero => simp
  | succ k ih =>
    have hround : ((range pool.length).map fun j =>
        pool[(start + (pool.length * k + j)) % pool.length]?) = (pool.rotate start).map some := by
      refine ext_getElem (by simp) ?_
      intro j hj hj'
      have hlt : j < pool.length := by simpa using hj
      have hmod : (start + (pool.length * k + j)) % pool.length = (j + start) % pool.length := by
        rw [show start + (pool.length * k + j) = j + start + pool.length * k by omega,
          Nat.add_mul_mod_self_left]
      simp only [getElem_map, getElem_range, getElem_rotate, hmod]
      exact getElem?_eq_getElem (Nat.mod_lt _ (by omega))
    rw [Nat.mul_succ, range_add, map_append, map_map, replicate_succ', flatten_append, map_append,
      flatten_singleton]
    refine ih.append ?_
    rw [comp_def, hround]
    exact (rotate_perm pool start).map some

theorem eq_map_some {α : Type} {l : List (Option α)} (h : none ∉ l) :
    l = (l.filterMap id).map some := by
  induction l with
  | nil => rfl
  | cons a l ih =>
    obtain ⟨ha, hl⟩ := not_or.mp (mt mem_cons.mpr h)
    obtain ⟨a, rfl⟩ := Option.ne_none_iff_exists'.mp (Ne.symm ha)
    rw [filterMap_cons_some (f := id) rfl, map_cons, ← ih hl]

/-- When `n * k` calls have ended, in any interleaving, each of the `n` healthy
replicas has been returned `k` times, and nothing else. -/
theorem selectReplica_fair [DecidableEq Backend] (hnodup : r.pool.Nodup)
    (hpool : 2 ≤ r.pool.length) (start k : Nat)
    (hbound : start + r.pool.length * k < 9223372036854775808)
    (hreach : (selecting r start (r.pool.length * k)).Reach Automaton.anyEvent
      (selecting r start (r.pool.length * k)).init s) (hdone : none ∉ s.calls) :
    (∀ call ∈ s.calls, ∃ b ∈ r.pool, call = some (.returned (some b))) ∧
      ∀ b ∈ r.pool, s.calls.count (some (.returned (some b))) = k := by
  obtain ⟨count, hindex, htotal, hresults⟩ := Automaton.invariant (P := fun s => ∃ count,
    InTurn r start (r.pool.length * k) s count) hreach
    ⟨0, rfl, length_replicate, by simp [selecting]⟩
    fun ⟨count, h⟩ _ hnext => ⟨_, h.next hpool hbound hnext⟩
  have hcalls := eq_map_some hdone
  have hcount : count = r.pool.length * k := by
    rw [← htotal, hcalls, length_map, hresults.length_eq, length_map, length_range]
  have hperm : s.calls ~ (replicate k r.pool).flatten.map fun b => some (.returned (some b)) := by
    rw [hcalls]
    refine (hresults.map some).trans ?_
    rw [hcount]
    simpa [comp_def] using (perm_rounds start k).map fun b => some (Result.returned b)
  constructor
  · intro call hcall
    obtain ⟨b, hb, rfl⟩ := mem_map.mp (hperm.mem_iff.mp hcall)
    obtain ⟨l, hl, hb⟩ := mem_flatten.mp hb
    exact ⟨b, eq_of_mem_replicate hl ▸ hb, rfl⟩
  · intro b hb
    have hinj : Function.Injective fun b : Backend => some (Result.returned (some b)) :=
      fun _ _ h => by simpa using h
    refine (hperm.count_eq _).trans ((count_map_of_injective _ _ hinj b).trans ?_)
    rw [count_flatten, map_replicate, sum_replicate_nat, hnodup.count, if_pos hb, Nat.mul_one]

/-- Two replicas and a third one that is not healthy. -/
def threeReplicas : Router Nat := ⟨none, [1, 2, 3], fun b => decide (b ≠ 2)⟩

theorem selectReplica_fair_two :
    [some (Result.returned (some 3)), some (.returned (some 1))].count
      (some (.returned (some 3))) = 1 :=
  (selectReplica_fair (r := threeReplicas)
    (s := ⟨2, [some (.returned (some 3)), some (.returned (some 1))]⟩) (by decide) (by decide) 0 1
    (by decide) (Automaton.reach_of_follow
      (show Automaton.follow _ _ _ [1, 0] = _ by decide +kernel)) (by decide)).2 3 (by decide)

end Geryon.Routing
