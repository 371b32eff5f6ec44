import Mathlib.Data.List.Induction
import Mathlib.Data.List.Perm.Basic

/-!
# The query log

`LogQuery`, `Flush` and `Stop` of `internal/logger/querylog.go`, as far as they write
the JSON log.  Files are not rotated, and no write fails.
-/

namespace Geryon.QueryLog

open List

variable {Entry : Type}

/-- `QueryLogConfig`.  `prepare` redacts the query of an entry, and notes whether it is
slow. -/
structure Config (Entry : Type) where
  enabled : Bool
  logJSON : Bool
  bufferSize : Nat
  prepare : Entry → Entry

/-- `QueryLogger`.  The JSON log is the entries on its lines. -/
structure QueryLogger (Entry : Type) where
  running : Bool := true
  buffer : List Entry := []
  jsonLog : List Entry := []
  deriving DecidableEq

/-- A call before `Stop`.  The ticker calls `Flush` too. -/
inductive Call (Entry : Type) where
  | logQuery (entry : Entry)
  | flush

variable (config : Config Entry) (ql : QueryLogger Entry)

def flush : QueryLogger Entry :=
  if ql.running then
    { ql with buffer := [], jsonLog := ql.jsonLog ++ if config.logJSON then ql.buffer else [] }
  else ql

def logQuery (entry : Entry) : QueryLogger Entry :=
  if !ql.running || !config.enabled then ql
  else if config.bufferSize * 2 ≤ ql.buffer.length then ql
  else
    let ql := { ql with buffer := ql.buffer ++ [config.prepare entry] }
    let ql := if config.bufferSize ≤ ql.buffer.length then flush config ql else ql
    if config.logJSON then { ql with jsonLog := ql.jsonLog ++ [config.prepare entry] } else ql

def stop : QueryLogger Entry :=
  if ql.running then flush config { ql with running := false } else ql

def call : Call Entry → QueryLogger Entry
  | .logQuery entry => logQuery config ql entry
  | .flush => flush config ql

/-- The logger after these calls. -/
def after (calls : List (Call Entry)) : QueryLogger Entry := calls.foldl (call config) {}

/-- The entries that were passed to `LogQuery`. -/
def logged (calls : List (Call Entry)) : List Entry :=
  calls.filterMap fun
    | .logQuery entry => some (config.prepare entry)
    | .flush => none

/-- No query is logged before a flush, and the buffer never fills. -/
def Unflushed (calls : List (Call Entry)) : Prop :=
  (logged config calls).length < config.bufferSize ∧
    calls.Pairwise fun earlier later => later = .flush → earlier = .flush

/-- As many entries as have been flushed are in the log twice. -/
structure Twice (calls : List (Call Entry)) (flushed : Nat) : Prop where
  running : ql.running = true
  room : ql.buffer.length < config.bufferSize
  entries : flushed + ql.buffer.length = (logged config calls).length
  json : ql.jsonLog.length = (logged config calls).length + flushed
  once : flushed = 0 → ql.jsonLog = logged config calls
  unflushed : flushed = 0 ↔ Unflushed config calls

variable {config ql}

section

variable {calls : List (Call Entry)} {flushed : Nat} (h : Twice config ql calls flushed)
  (hjson : config.logJSON = true)
include h hjson

theorem Twice.logQuery (henabled : config.enabled = true) (entry : Entry) :
    ∃ flushed, Twice config (logQuery config ql entry) (calls ++ [.logQuery entry]) flushed := by
  obtain ⟨hrunning, hroom, hentries, hlog, honce, hflushed⟩ := h
  have hlogged : logged config (calls ++ [.logQuery entry]) =
      logged config calls ++ [config.prepare entry] := by simp [logged]
  have hlength := congrArg length hlogged
  rw [length_append, length_singleton] at hlength
  have hcond : Unflushed config (calls ++ [.logQuery entry]) ↔
      (logged config calls).length + 1 < config.bufferSize ∧ flushed = 0 := by
    rw [hflushed, Unflushed, hlength, pairwise_append]
    simp [Unflushed]
    omega
  rw [QueryLog.logQuery, if_neg (by simp [hrunning, henabled]), if_neg (by omega)]
  simp only [length_append, length_singleton, if_pos hjson]
  split_ifs with hfull
  · -- the entry is flushed, and then it is written
    rw [flush, if_pos hrunning, if_pos hjson]
    refine ⟨_, hrunning, Nat.zero_lt_of_lt hroom, rfl, ?_, ?_, ?_⟩
    · simp only [length_append, length_singleton]
      omega
    · omega
    · rw [hcond]
      omega
  · refine ⟨flushed, hrunning, ?_, ?_, ?_, ?_, ?_⟩
    · simpa using hfull
    · simp only [length_append, length_singleton]
      omega
    · simp only [length_append, length_singleton]
      omega
    · intro hzero
      rw [hlogged, honce hzero]
    · rw [hcond]
      omega

theorem Twice.flush :
    Twice config (flush config ql) (calls ++ [.flush]) (logged config calls).length := by
  have hlogged : logged config (calls ++ [.flush]) = logged config calls := by simp [logged]
  have hnil : (logged config calls).length = 0 ↔ ∀ c ∈ calls, c = .flush := by
    rw [length_eq_zero_iff, logged, filterMap_eq_nil_iff]
    refine forall₂_congr fun c _ => ?_
    cases c <;> simp
  have hroom := h.room
  have hentries := h.entries
  rw [QueryLog.flush, if_pos h.running, if_pos hjson]
  refine ⟨h.running, Nat.zero_lt_of_lt hroom, ?_, ?_, ?_, ?_⟩
  · rw [hlogged]
    rfl
  · rw [hlogged, length_append, h.json]
    omega
  · intro hzero
    rw [hlogged, h.once (by omega), length_eq_zero_iff.mp (by omega : ql.buffer.length = 0),
      append_nil]
  · rw [Unflushed, hlogged, pairwise_append]
    constructor
    · intro hzero
      have hall := hnil.mp hzero
      refine ⟨by omega, ?_, pairwise_singleton .., fun c hc _ _ _ => hall c hc⟩
      exact pairwise_of_forall_mem_list fun c hc d _ _ => hall c hc
    · intro hunflushed
      exact hnil.mpr fun c hc => hunflushed.2.2.2 c hc _ (mem_singleton_self _) rfl

end

/-- Each entry is in the log once, exactly if none of them has been flushed. -/
theorem logged_once_iff (henabled : config.enabled = true) (hjson : config.logJSON = true)
    (hsize : 1 ≤ config.bufferSize) (calls : List (Call Entry)) :
    (stop config (after config calls)).jsonLog ~ logged config calls ↔ Unflushed config calls := by
  obtain ⟨flushed, h⟩ : ∃ flushed, Twice config (after config calls) calls flushed := by
    induction calls using List.reverseRec with
    | nil => exact ⟨0, rfl, hsize, rfl, rfl, fun _ => rfl, iff_of_true rfl ⟨hsize, .nil⟩⟩
    | append_singleton calls c ih =>
      obtain ⟨flushed, h⟩ := ih
      rw [after, foldl_append]
      cases c with
      | logQuery entry => exact h.logQuery hjson henabled entry
      | flush => exact ⟨_, h.flush hjson⟩
  rw [stop, if_pos h.running, flush, if_neg Bool.false_ne_true, ← h.unflushed]
  constructor
  · intro hperm
    have hlength := h.json.symm.trans hperm.length_eq
    omega
  · intro hzero
    rw [h.once hzero]

theorem logged_once_iff_one :
    (stop ⟨true, true, 2, id⟩ (after ⟨true, true, 2, id⟩ [.logQuery 7])).jsonLog ~ [7] ↔
      Unflushed ⟨true, true, 2, id⟩ [.logQuery 7] :=
  logged_once_iff rfl rfl (by decide) _

/-- A query is logged, and the ticker flushes. -/
theorem logged_twice :
    ¬(stop ⟨true, true, 2, id⟩ (after ⟨true, true, 2, id⟩ [.logQuery 7, .flush])).jsonLog ~ [7] := by
  decide

end Geryon.QueryLog
