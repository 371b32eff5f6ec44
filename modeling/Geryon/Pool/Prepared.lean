import Geryon.Go.Text
import Mathlib.Data.List.AList

/-!
# Prepared statements

`PreparedStatementCache` and `SessionPreparedStatements` of
`internal/pool/prepared.go`.  The cache is shared by all sessions.  It keeps a
statement under the hash of its query, and in a second map, `byID`, the hash
for an id; a statement has one id, the last one it was added under.

A session looks its statements up by hash, so it gets the query that it
registered, whatever the other sessions do.
-/

namespace Geryon.Prepared

open Go List Function Option

/-- `PreparedStatement`. -/
structure Stmt where
  id : Str
  query : Str
  lastUsed : Nat
  deriving DecidableEq

variable (hash : Str → Str)

/-- `PreparedStatementCache`.  A statement is kept under the hash of its query. -/
structure Cache where
  statements : AList fun h => { stmt : Stmt // hash stmt.query = h } := ∅
  byID : Str → Option Str := fun _ => none

/-- An order in which a `range` visits the keys of a map. -/
def Order : Type := { f : List Str → List Str // ∀ l, (f l).Perm l }

variable {hash} (maxSize ttl : Nat)

namespace Cache

/-- `delete(psc.byID, stmt.ID)` and `delete(psc.statements, hash)`. -/
def delete (c : Cache hash) (h : Str) : Cache hash where
  statements := c.statements.erase h
  byID := (c.statements.lookup h).elim c.byID fun stmt => update c.byID stmt.1.id none

/-- The time at which the statement with a hash was last used. -/
def lastUsed (c : Cache hash) (h : Str) : Nat := (c.statements.lookup h).elim 0 (·.1.lastUsed)

/-- `evictOldest`.  A hash is not empty, so that what is found is deleted. -/
def evictOldest (c : Cache hash) (order : Order) : Cache hash :=
  let oldest := (order.1 c.statements.keys).foldl (fun best h =>
    some (best.elim h fun b => if c.lastUsed h < c.lastUsed b then h else b)) none
  oldest.elim c c.delete

def add (c : Cache hash) (now : Nat) (order : Order) (id query : Str) : Cache hash :=
  match c.statements.lookup (hash query) with
  | some stmt =>
    { statements := c.statements.insert _ ⟨{ stmt.1 with id := id, lastUsed := now }, stmt.2⟩
      byID := update (update c.byID stmt.1.id none) id (some (hash query)) }
  | none =>
    let c := if maxSize ≤ c.statements.keys.length then c.evictOldest order else c
    { statements := c.statements.insert _ ⟨⟨id, query, now⟩, rfl⟩
      byID := update c.byID id (some (hash query)) }

def remove (c : Cache hash) (id : Str) : Cache hash :=
  (c.byID id).elim c fun h =>
    { statements := c.statements.erase h, byID := update c.byID id none }

/-- `UpdateLastUsed` of the statement that `Get` or `GetByID` has found. -/
def touch (c : Cache hash) (now : Nat) (h : Str) : Cache hash :=
  (c.statements.lookup h).elim c fun stmt =>
    { c with statements := c.statements.insert h ⟨{ stmt.1 with lastUsed := now }, stmt.2⟩ }

def cleanup (c : Cache hash) (now : Nat) (order : Order) : Cache hash :=
  (order.1 c.statements.keys).foldl
    (fun c h => if ttl < now - c.lastUsed h then c.delete h else c) c

end Cache

/-- A call, with the time at which it is made. -/
inductive Call where
  | add (now : Nat) (order : Order) (id query : Str)
  | remove (id : Str)
  | get (now : Nat) (query : Str)
  | getByID (now : Nat) (id : Str)
  | cleanup (now : Nat) (order : Order)

def Cache.step (c : Cache hash) : Call → Cache hash
  | .add now order id query => c.add maxSize now order id query
  | .remove id => c.remove id
  | .get now query => c.touch now (hash query)
  | .getByID now id => (c.byID id).elim c (c.touch now)
  | .cleanup now order => c.cleanup ttl now order

/-! ## The sessions -/

variable (hash) in
/-- The cache, and the map of `SessionPreparedStatements` of each session. -/
structure World where
  cache : Cache hash := {}
  statements : Nat → Str → Option Str := fun _ _ => none

/-- A call of the cache, or `Register` of a session. -/
inductive Event where
  | call (call : Call)
  | register (session now : Nat) (order : Order) (name query : Str)

def World.step (w : World hash) : Event → World hash
  | .call call => { w with cache := w.cache.step maxSize ttl call }
  | .register session now order name query =>
    { cache := w.cache.add maxSize now order name query
      statements := update w.statements session
        (update (w.statements session) name (some (hash query))) }

/-- `Get` of a session. -/
def World.get (w : World hash) (session : Nat) (name : Str) : Option Stmt :=
  (w.statements session name).bind fun h => (w.cache.statements.lookup h).map (·.1)

/-- The query that a session has registered last under a name, if `last` is the
one before. -/
def lastRegistered (session : Nat) (name : Str) (last : Option Str) : List Event → Option Str
  | [] => last
  | .register session' _ _ name' query :: events =>
    lastRegistered session name (if session' = session ∧ name' = name then some query else last)
      events
  | .call _ :: events => lastRegistered session name last events

/-- The map of a session has the hash of the query registered last. -/
theorem statements_run (session : Nat) (name : Str) (events : List Event) (w : World hash)
    (last : Option Str) (hw : w.statements session name = last.map hash) :
    (events.foldl (World.step maxSize ttl) w).statements session name =
      (lastRegistered session name last events).map hash := by
  induction events generalizing w last with
  | nil => exact hw
  | cons e events ih =>
    cases e with
    | call call => exact ih _ last hw
    | register session' now order name' query =>
      refine ih _ _ ?_
      show update w.statements session' _ session name = _
      by_cases hs : session = session'
      · subst hs
        by_cases hn : name = name'
        · subst hn
          simp
        · simp [hn, Ne.symm hn, hw]
      · simp [hs, Ne.symm hs, hw]

/-- A session gets no statement under a name, or one with the query that it
registered last under this name, whatever the other sessions do. -/
theorem get_last_registered (hinj : Function.Injective hash) (events : List Event)
    (session : Nat) (name : Str) (stmt : Stmt)
    (hget : (events.foldl (World.step maxSize ttl) ({} : World hash)).get session name =
      some stmt) : lastRegistered session name none events = some stmt.query := by
  obtain ⟨h, hh, hstmt⟩ := bind_eq_some_iff.mp hget
  obtain ⟨⟨stmt', hhash⟩, -, rfl⟩ := map_eq_some_iff.mp hstmt
  rw [statements_run maxSize ttl session name events {} none rfl] at hh
  obtain ⟨query, hquery, rfl⟩ := map_eq_some_iff.mp hh
  rw [hquery, hinj hhash]

/-- The order of the keys themselves. -/
def inOrder : Order := ⟨fun l => l, .refl⟩

/-- Two sessions register different queries under one name. -/
theorem get_last_registered_two :
    lastRegistered 0 (str "s") none [.register 0 0 inOrder (str "s") (str "q"),
      .register 1 1 inOrder (str "s") (str "r")] = some (str "q") :=
  get_last_registered 2 1 (fun _ _ h => h) _ 0 (str "s") ⟨str "s", str "q", 0⟩ (by decide)

end Geryon.Prepared
