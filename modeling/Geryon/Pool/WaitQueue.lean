import Mathlib.Data.List.Basic
import Mathlib.Data.List.TakeWhile
import Mathlib.Tactic.SplitIfs

/-!
# The wait queue

The slice and the index of `WaitQueue` in `internal/pool/pool.go`, and what its
critical sections do to them.  An entry is a waiter or `nil`; the entries
before `head` are consumed.  A waiter that leaves is set to `nil` where it
stands, and `shrink` drops the consumed entries from time to time.

`pending` is the queue as its users see it, a list of waiters, and the theorems
say what each critical section does to it: enter at the back (`pending_push`),
leave from anywhere (`pending_remove`), be served at the front (`pop_of_nil`,
`pop_of_cons`).
-/

namespace Geryon.Pool

open List Option

/-- A waiter, numbered in the order of entry. -/
abbrev WaiterId := Nat

/-- The slice `waiters` and the index `head` of its first valid entry. -/
structure WaitQueue where
  waiters : List (Option WaiterId)
  head : Nat
  head_le : head ≤ waiters.length

namespace WaitQueue

/-- `NewWaitQueue`. -/
def empty : WaitQueue := ⟨[], 0, le_refl 0⟩

/-- `len`: the number of entries that are not consumed, `nil` or not. -/
def len (q : WaitQueue) : Nat := q.waiters.length - q.head

/-- `shrink`: remove the consumed entries. -/
def shrink (q : WaitQueue) : WaitQueue :=
  if 0 < q.head then ⟨q.waiters.drop q.head, 0, Nat.zero_le _⟩ else q

/-- Compact if more than half of the slice is consumed. -/
def compact (q : WaitQueue) : WaitQueue :=
  if q.waiters.length / 2 < q.head then q.shrink else q

/-- The critical section of `Wait` that enters a waiter. -/
def push (q : WaitQueue) (w : WaiterId) : WaitQueue :=
  ⟨q.shrink.waiters ++ [some w], q.shrink.head, by
    have h := q.shrink.head_le
    simp only [length_append]
    omega⟩

/-- The deferred critical section of `Wait`: the waiter's entry becomes `nil`,
and `head` moves on if it stood there. -/
def remove (q : WaitQueue) (w : WaiterId) : WaitQueue :=
  let i := (q.waiters.drop q.head).idxOf (some w)
  if h : q.head + i < q.waiters.length then
    compact ⟨q.waiters.set (q.head + i) none, if i = 0 then q.head + 1 else q.head, by
      rw [length_set]
      split_ifs <;> omega⟩
  else q.compact

/-- `head` once it is advanced past `nil` entries. -/
def skip (q : WaitQueue) : Nat :=
  q.head + ((q.waiters.drop q.head).takeWhile isNone).length

theorem skip_le (q : WaitQueue) : q.skip ≤ q.waiters.length := by
  have hle := (takeWhile_sublist (l := q.waiters.drop q.head) isNone).length_le
  have hhead := q.head_le
  rw [length_drop] at hle
  unfold skip
  omega

/-- The critical section of `Signal` up to the delivery: the waiter that is
served, if there is one. -/
def pop (q : WaitQueue) : Option WaiterId × WaitQueue :=
  if h : q.skip < q.waiters.length then
    (q.waiters.get ⟨q.skip, h⟩, compact ⟨q.waiters.set q.skip none, q.skip + 1, by
      rw [length_set]
      omega⟩)
  else (none, ⟨q.waiters, q.skip, q.skip_le⟩)

/-! ## The queue as a list of waiters -/

/-- The waiters that wait, the longest-waiting first. -/
def pending (q : WaitQueue) : List WaiterId := (q.waiters.drop q.head).filterMap id

section

variable (q : WaitQueue)

@[simp] theorem pending_shrink : q.shrink.pending = q.pending := by
  unfold shrink
  split_ifs
  · simp [pending]
  · rfl

@[simp] theorem pending_compact : q.compact.pending = q.pending := by
  unfold compact
  split_ifs
  · exact pending_shrink q
  · rfl

@[simp] theorem pending_push (w : WaiterId) : (q.push w).pending = q.pending ++ [w] := by
  have hle := q.shrink.head_le
  rw [← pending_shrink q]
  simp [pending, push, drop_append_of_le_length hle]

end

theorem filterMap_set_idxOf (l : List (Option WaiterId)) (w : WaiterId) :
    (l.set (l.idxOf (some w)) none).filterMap id = (l.filterMap id).erase w := by
  induction l with
  | nil => rfl
  | cons x l ih =>
    cases x with
    | none =>
      rw [idxOf_cons_ne l (by simp)]
      simpa using ih
    | some v =>
      by_cases hv : v = w
      · subst hv
        simp
      · rw [idxOf_cons_ne l (by simpa using hv)]
        show v :: (l.set (l.idxOf (some w)) none).filterMap id = (v :: l.filterMap id).erase w
        rw [erase_cons_tail (by simpa using hv), ih]

section

variable (q : WaitQueue)

/-- A waiter leaves from where it stands; one that is not there changes
nothing. -/
theorem pending_remove (w : WaiterId) : (q.remove w).pending = q.pending.erase w := by
  have hset := filterMap_set_idxOf (q.waiters.drop q.head) w
  have hhead := q.head_le
  simp only [remove]
  split_ifs with h hi
  · -- The waiter stands at `head`, and `head` moves past it.
    have hne : q.waiters.drop q.head ≠ [] := by
      intro hnil
      have := congrArg List.length hnil
      simp only [length_drop, length_nil] at this
      omega
    obtain ⟨x, xs, hx⟩ := exists_cons_of_ne_nil hne
    have hdrop : (q.waiters.set q.head none).drop (q.head + 1) = xs := by
      rw [drop_set_of_lt (by omega), ← drop_drop, hx]
      rfl
    rw [pending_compact, pending, pending, ← hset]
    show ((q.waiters.set _ none).drop (q.head + 1)).filterMap id = _
    rw [hi, Nat.add_zero q.head, hdrop, hx]
    rfl
  · rw [pending_compact, pending, pending, ← hset]
    show ((q.waiters.set _ none).drop q.head).filterMap id = _
    rw [drop_set, if_neg (by omega), Nat.add_sub_cancel_left]
  · -- The waiter was served before, and its entry with it.
    rw [pending_compact, pending, ← hset, set_eq_of_length_le]
    rw [length_drop]
    omega

/-- The entries from `skip` on are those from `head` on without the `nil`
entries in front. -/
theorem drop_skip : q.waiters.drop q.skip = (q.waiters.drop q.head).dropWhile isNone := by
  have hsplit := takeWhile_append_dropWhile (p := isNone) (l := q.waiters.drop q.head)
  calc q.waiters.drop q.skip
      = (q.waiters.drop q.head).drop ((q.waiters.drop q.head).takeWhile isNone).length := by
        rw [skip, drop_drop]
    _ = ((q.waiters.drop q.head).takeWhile isNone ++
          (q.waiters.drop q.head).dropWhile isNone).drop
          ((q.waiters.drop q.head).takeWhile isNone).length := by rw [hsplit]
    _ = (q.waiters.drop q.head).dropWhile isNone := drop_left

theorem filterMap_drop_skip : (q.waiters.drop q.skip).filterMap id = q.pending := by
  have hsplit := takeWhile_append_dropWhile (p := isNone) (l := q.waiters.drop q.head)
  have hnone : ((q.waiters.drop q.head).takeWhile isNone).filterMap id = [] := by
    rw [filterMap_eq_nil_iff]
    intro x hx
    exact isNone_iff_eq_none.mp (mem_takeWhile_imp hx)
  rw [drop_skip, pending]
  conv_rhs => rw [← hsplit]
  rw [filterMap_append, hnone, nil_append]

theorem get_skip (h : q.skip < q.waiters.length) : ∃ w, q.waiters.get ⟨q.skip, h⟩ = some w := by
  have hdrop := drop_skip q
  rw [drop_eq_getElem_cons h] at hdrop
  have hhead : (q.waiters.get ⟨q.skip, h⟩).isNone = false := by
    have hne : (q.waiters.drop q.head).dropWhile isNone ≠ [] := by
      rw [← hdrop]
      exact cons_ne_nil _ _
    have := head_dropWhile_not isNone hne
    simpa [← hdrop] using this
  exact isSome_iff_exists.mp (by simpa using hhead)

end

theorem pop_of_nil {q : WaitQueue} (hq : q.pending = []) :
    q.pop.1 = none ∧ q.pop.2.pending = [] := by
  unfold pop
  split_ifs with h
  · obtain ⟨w, hw⟩ := get_skip q h
    have hdrop := filterMap_drop_skip q
    rw [drop_eq_getElem_cons h, hq] at hdrop
    simp only [get_eq_getElem] at hw
    simp [hw] at hdrop
  · exact ⟨rfl, by simpa [pending] using (filterMap_drop_skip q).trans hq⟩

theorem pop_of_cons {q : WaitQueue} {w : WaiterId} {ws : List WaiterId}
    (hq : q.pending = w :: ws) : q.pop.1 = some w ∧ q.pop.2.pending = ws := by
  have hdrop := filterMap_drop_skip q
  unfold pop
  split_ifs with h
  · obtain ⟨v, hv⟩ := get_skip q h
    rw [drop_eq_getElem_cons h, hq] at hdrop
    simp only [get_eq_getElem] at hv
    rw [filterMap_cons_some (b := v) (by simp [hv])] at hdrop
    injection hdrop with hvw hws
    refine ⟨by simp [hv, hvw], ?_⟩
    rw [pending_compact, pending, drop_set_of_lt (Nat.lt_succ_self _)]
    exact hws
  · rw [drop_of_length_le (by omega), hq] at hdrop
    cases hdrop

/-! ## Capacity -/

/-- `Wait` is refused with the error that the queue is full. -/
def refuses (q : WaitQueue) (maxSize : Nat) : Bool := maxSize ≤ q.len

section

variable (q : WaitQueue)

theorem len_shrink : q.shrink.len = q.len := by
  unfold shrink
  split_ifs
  · simp [len]
  · rfl

theorem len_compact : q.compact.len = q.len := by
  unfold compact
  split_ifs
  · exact len_shrink q
  · rfl

theorem len_push (w : WaiterId) : (q.push w).len = q.len + 1 := by
  have hle := q.shrink.head_le
  rw [← len_shrink q]
  simp only [len, push, length_append, length_singleton]
  omega

theorem len_remove_le (w : WaiterId) : (q.remove w).len ≤ q.len := by
  simp only [remove]
  split_ifs with h hi
  · rw [len_compact]
    simp only [len, length_set]
    omega
  · rw [len_compact]
    simp [len]
  · rw [len_compact]

theorem len_pop_le : q.pop.2.len ≤ q.len := by
  have hskip : q.head ≤ q.skip := Nat.le_add_right _ _
  unfold pop
  split_ifs
  · rw [len_compact]
    simp only [len, length_set]
    omega
  · simp only [len]
    omega

end

/-- A critical section of `Wait` or of `Signal`. -/
inductive Call where
  /-- `Wait` enters its waiter, or is refused. -/
  | wait
  | signal
  /-- The `Wait` call returns: its waiter was served, or it timed out or was
  cancelled. -/
  | leave (w : WaiterId)

/-- The queue, the number of the next waiter, and the `Wait` calls that have
entered and still wait. -/
structure Line where
  queue : WaitQueue := empty
  next : WaiterId := 0
  waiting : List WaiterId := []

def Line.step (maxSize : Nat) (l : Line) : Call → Line
  | .wait =>
    if l.queue.refuses maxSize then l
    else ⟨l.queue.push l.next, l.next + 1, l.waiting ++ [l.next]⟩
  | .signal => { l with queue := l.queue.pop.2, waiting := l.waiting.tail }
  | .leave w => { l with queue := l.queue.remove w, waiting := l.waiting.erase w }

/-- The line after some critical sections, in the order of the mutex. -/
def Line.run (maxSize : Nat) (calls : List Call) : Line := calls.foldl (Line.step maxSize) {}

/-- The waiters in the queue are the calls that wait, and the queue is never
longer than its maximum. -/
structure Line.Sound (maxSize : Nat) (l : Line) : Prop where
  pending : l.queue.pending = l.waiting
  len : l.queue.len ≤ maxSize

theorem Line.Sound.step {maxSize : Nat} {l : Line} (h : l.Sound maxSize) (call : Call) :
    (l.step maxSize call).Sound maxSize := by
  cases call with
  | wait =>
    simp only [Line.step]
    split
    · exact h
    · rename_i hroom
      refine ⟨by simp [h.pending], ?_⟩
      simp only [refuses, decide_eq_true_eq, not_le] at hroom
      rw [len_push]
      omega
  | signal =>
    refine ⟨?_, (len_pop_le _).trans h.len⟩
    show l.queue.pop.2.pending = l.waiting.tail
    rw [← h.pending]
    cases hq : l.queue.pending with
    | nil => exact (pop_of_nil hq).2
    | cons w ws => exact (pop_of_cons hq).2
  | leave w =>
    refine ⟨?_, (len_remove_le _ w).trans h.len⟩
    show (l.queue.remove w).pending = l.waiting.erase w
    rw [← h.pending]
    exact pending_remove _ w

theorem Line.sound_run (maxSize : Nat) (calls : List Call) :
    (Line.run maxSize calls).Sound maxSize := by
  have hrun : ∀ l : Line, l.Sound maxSize → (calls.foldl (Line.step maxSize) l).Sound maxSize := by
    induction calls with
    | nil => exact fun _ h => h
    | cons call calls ih => exact fun l h => ih _ (h.step call)
  exact hrun {} ⟨rfl, Nat.zero_le _⟩

/-- A `Wait` call is refused exactly when `maxSize` calls wait, provided that
the entries of the calls that have gone do not fill the queue. -/
theorem refuses_iff_waiting_iff (maxSize : Nat) (calls : List Call) :
    ((Line.run maxSize calls).queue.refuses maxSize = true ↔
        (Line.run maxSize calls).waiting.length = maxSize) ↔
      (Line.run maxSize calls).queue.len < maxSize ∨
        none ∉ (Line.run maxSize calls).queue.waiters.drop (Line.run maxSize calls).queue.head := by
  obtain ⟨hpending, hlen⟩ := Line.sound_run maxSize calls
  generalize Line.run maxSize calls = l at hpending hlen ⊢
  have hdrop : (l.queue.waiters.drop l.queue.head).length = l.queue.len := length_drop
  have hle : l.waiting.length ≤ l.queue.len := by
    rw [← hpending, ← hdrop]
    exact length_filterMap_le _ _
  have hall : l.waiting.length = l.queue.len ↔
      none ∉ l.queue.waiters.drop l.queue.head := by
    rw [← hpending, ← hdrop, WaitQueue.pending, filterMap_length_eq_length]
    constructor
    · intro hsome hnone
      cases hsome none hnone
    · intro hnone x hx
      cases x with
      | none => exact absurd hx hnone
      | some w => rfl
  rw [← hall, refuses, decide_eq_true_eq]
  omega

/-- Two calls wait, and the second one times out: a third one is refused
although only one call waits. -/
theorem refused_with_room : (Line.run 2 [.wait, .wait, .leave 1]).queue.refuses 2 = true ∧
      (Line.run 2 [.wait, .wait, .leave 1]).waiting = [0] := by
  decide

end WaitQueue

end Geryon.Pool
