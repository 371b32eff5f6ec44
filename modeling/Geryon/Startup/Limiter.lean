import Geryon.Startup.Auth

/-!
# The limiter of failed authentications

`AuthLimiter` of package `internal/auth`.  A session calls it with the address
of its client, `RemoteAddr().String()`, which names the port as well.  The result
is how long a lockout lasts.
-/

namespace Geryon.Startup

open List

/-! ## The limiter -/

/-- `ipAuthAttempts`.  Times are in nanoseconds. -/
structure Attempts where
  count : Int := 0
  firstFail : Int
  locked : Bool := false
  lockUntil : Int := 0
  deriving DecidableEq

/-- The limits of an `AuthLimiter`. -/
structure AuthLimiter where
  maxAttempts : Int
  window : Int
  lockoutPeriod : Int

inductive LimiterCall where
  | recordFailure
  | recordSuccess
  | isLimited
  deriving DecidableEq

namespace AuthLimiter

variable (al : AuthLimiter)

/-- `RecordFailure` on the entry of an address: whether the address is locked
out. -/
def recordFailure (entry : Attempts) (now : Int) : Bool × Attempts :=
  if entry.locked ∧ entry.lockUntil < now then
    (false, { entry with count := 1, firstFail := now, locked := false })
  else if entry.locked then (true, entry)
  else if al.window < now - entry.firstFail then
    (false, { entry with count := 1, firstFail := now })
  else
    let entry := { entry with count := entry.count + 1 }
    if al.maxAttempts ≤ entry.count then
      (true, { entry with locked := true, lockUntil := now + al.lockoutPeriod })
    else (false, entry)

/-- `IsLimited` on the entry of an address. -/
def isLimited (entry : Attempts) (now : Int) : Bool × Option Attempts :=
  if al.window < now - entry.firstFail then (false, none)
  else if entry.locked ∧ entry.lockUntil < now then (false, none)
  else (entry.locked, some entry)

/-- A call at a time, for an address that has this entry or none. -/
def call (entry : Option Attempts) (now : Int) : LimiterCall → Bool × Option Attempts
  | .recordFailure =>
    let r := al.recordFailure (entry.getD { firstFail := now }) now
    (r.1, some r.2)
  | .recordSuccess => (false, none)
  | .isLimited =>
    match entry with
    | none => (false, none)
    | some entry => al.isLimited entry now

/-- The answers of `IsLimited` in a sequence of calls for one address. -/
def answers : Option Attempts → List (LimiterCall × Int) → List Bool
  | _, [] => []
  | entry, (c, now) :: calls =>
    let r := al.call entry now c
    if c = .isLimited then r.1 :: answers r.2 calls else answers r.2 calls

/-! ## How long a lockout lasts -/

variable {al} {entry : Attempts} {t : Int} {calls : List (LimiterCall × Int)}

/-- `IsLimited` looks at the window first, so that a lockout in force ends when
the window of the first failure does. -/
theorem answers_of_locked (hlocked : entry.locked = true)
    (hcalls : ∀ c ∈ calls, c.1 ≠ .recordSuccess ∧ c.2 ≤ entry.lockUntil) :
    (∀ b ∈ al.answers (some entry) calls, b = true) ↔
      ∀ c ∈ calls, c.1 = .isLimited → c.2 ≤ entry.firstFail + al.window := by
  induction calls with
  | nil => simp [answers]
  | cons c calls ih =>
    obtain ⟨⟨hcall, htime⟩, hrest⟩ := forall_mem_cons.mp hcalls
    obtain ⟨c, now⟩ := c
    have hnot : ¬ entry.lockUntil < now := Int.not_lt.mpr htime
    rw [forall_mem_cons, ← ih hrest]
    cases c with
    | recordSuccess => exact absurd rfl hcall
    | recordFailure => simp [answers, call, recordFailure, hlocked, hnot]
    | isLimited =>
      by_cases hwindow : now ≤ entry.firstFail + al.window
      · have hin : ¬ al.window < now - entry.firstFail := by omega
        simp [answers, call, isLimited, hlocked, hnot, hin, hwindow]
      · have hout : al.window < now - entry.firstFail := by omega
        simp [answers, call, isLimited, hout, hwindow]

/-- After a failure that locks the address out, every `IsLimited` up to the end
of the lockout answers true exactly where none comes after the window of the
first failure that was counted. -/
theorem lockout_lasts_iff (hfree : entry.locked = false)
    (hlocks : (al.recordFailure entry t).1 = true)
    (hcalls : ∀ c ∈ calls, c.1 ≠ .recordSuccess ∧ c.2 ≤ t + al.lockoutPeriod) :
    (∀ b ∈ al.answers (some (al.recordFailure entry t).2) calls, b = true) ↔
      ∀ c ∈ calls, c.1 = .isLimited → c.2 ≤ entry.firstFail + al.window := by
  have hstep : (al.recordFailure entry t).2 = { entry with
      count := entry.count + 1, locked := true, lockUntil := t + al.lockoutPeriod } := by
    simp only [recordFailure, hfree, Bool.false_eq_true, false_and, if_false] at hlocks ⊢
    split_ifs at hlocks ⊢
    rfl
  rw [hstep]
  exact answers_of_locked rfl hcalls

/-- The second failure at 9 locks the address out until 19, and the window ends
at 10. -/
theorem lockout_lasts_window : (∀ b ∈ (⟨2, 10, 10⟩ : AuthLimiter).answers
      (some ((⟨2, 10, 10⟩ : AuthLimiter).recordFailure { count := 1, firstFail := 0 } 9).2)
      [(.recordFailure, 9), (.isLimited, 10)], b = true) ↔
    ∀ c ∈ [(LimiterCall.recordFailure, (9 : Int)), (.isLimited, 10)], c.1 = .isLimited →
      c.2 ≤ 0 + 10 :=
  lockout_lasts_iff rfl rfl (by decide)

/-- At 11 it is not locked out any more. -/
theorem lockout_ends_early : (⟨2, 10, 10⟩ : AuthLimiter).answers none
      [(.recordFailure, 0), (.recordFailure, 9), (.isLimited, 9), (.isLimited, 11)] =
      [true, false] := by
  decide

end AuthLimiter

end Geryon.Startup
