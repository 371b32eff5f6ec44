import Geryon.Cache.Replay
import Geryon.Pool.Strategy
import Geryon.Protocol.Queries
import Geryon.Protocol.ReadMessage

/-!
# The transaction flag of a session

`Session.InTransaction` is written in two places.  `ProxySession.OnQuery` sets
it before a query goes to the backend, from the first words of the query, and
`forwardServerToClient` sets it before a message goes to the client, from the
type of the message.  A client that waits for the response to a query before
it sends the next one thus sees the two take turns, and an `Exchange` is one
turn of each.

A backend is anything that executes queries and says of each state whether a
transaction is open in it.
-/

namespace Geryon.Tracking

open Go Wire Pool List PGCodec

/-! ## The two writers -/

section Writers

variable (lib : Unicode) (p : Wire.Protocol) (mode : PoolMode)

/-- The end of `ProxySession.OnQuery`: what the flag is after
`OnTransactionBegin` and `OnTransactionEnd`.  Those of `StatementStrategy` do
not set it. -/
def onRequest (inTxn : Bool) (msg : Message) : Bool :=
  match mode with
  | .session | .transaction =>
    if isTransactionBegin lib p msg then true
    else if isTransactionEnd lib p msg then false
    else inTxn
  | .statement => inTxn

/-- What the loop of `forwardServerToClient` does with a message besides
forwarding it: the flag, and whether `OnQueryComplete` is called. -/
def onReply (inTxn : Bool) (msg : Message) : Bool × Bool :=
  if Cache.isAside msg.msgType then (inTxn, false)
  else if msg.msgType = 0x5a ∧ msg.payload ≠ [] then
    if msg.payload.head? = some 0x49 then (false, true)
    else if msg.payload.head? = some 0x54 ∨ msg.payload.head? = some 0x45 then (true, false)
    else (inTxn, false)
  else if msg.msgType = 0x00 ∨ msg.msgType = 0xfe then (false, true)
  else (inTxn, false)

end Writers

/-- A message of a response.  `captured` says that `forwardAndCapture` has read
it, which does not look at the flag, and not `forwardServerToClient`. -/
structure Reply where
  msg : Message
  captured : Bool := false

/-- A query and the response to it. -/
structure Exchange where
  request : Message
  replies : List Reply

/-- The flag after a message of the response. -/
def Reply.inTxnAfter (inTxn : Bool) (r : Reply) : Bool :=
  if r.captured then inTxn else (onReply inTxn r.msg).1

/-- The flag after an exchange. -/
def Exchange.inTxnAfter (lib : Unicode) (p : Wire.Protocol) (mode : PoolMode) (inTxn : Bool)
    (x : Exchange) : Bool :=
  x.replies.foldl Reply.inTxnAfter (onRequest lib p mode inTxn x.request)

/-! ## The backend -/

/-- A backend, as far as its transactions are concerned. -/
structure Backend where
  State : Type
  init : State
  execute : State → Message → State
  isOpen : State → Bool
  idle : isOpen init = false

/-- A property of every exchange, given whether a transaction is open before
and after it. -/
def Along (B : Backend) (P : Bool → Bool → Exchange → Prop) : B.State → List Exchange → Prop
  | _, [] => True
  | s, x :: xs =>
    P (B.isOpen s) (B.isOpen (B.execute s x.request)) x ∧ Along B P (B.execute s x.request) xs

/-- After every exchange the flag says whether a transaction is open. -/
def Tracks (lib : Unicode) (p : Wire.Protocol) (mode : PoolMode) (B : Backend) :
    Bool → B.State → List Exchange → Prop
  | _, _, [] => True
  | inTxn, s, x :: xs =>
    x.inTxnAfter lib p mode inTxn = B.isOpen (B.execute s x.request) ∧
      Tracks lib p mode B (x.inTxnAfter lib p mode inTxn) (B.execute s x.request) xs

/-- The types that `forwardServerToClient` takes for the end of a response. -/
def endTypes : List UInt8 := [0x5a, 0x00, 0xfe]

/-- A complete and successful response, as the protocol defines it.
PostgreSQL ends it with `ReadyForQuery`, which has the status of the
transaction, MySQL with an OK or an EOF packet, and MSSQL sends packets of one
type only. -/
def Complete (p : Wire.Protocol) (after : Bool) (replies : List Reply) : Prop :=
  match p with
  | .postgreSQL => ∃ init last, replies = init ++ [last] ∧
      (∀ r ∈ init, r.msg.msgType ∉ endTypes) ∧
      last.msg.msgType = 0x5a ∧ last.msg.payload = [if after then 0x54 else 0x49]
  | .mySQL => ∃ init last, replies = init ++ [last] ∧
      (∀ r ∈ replies, r.msg.msgType = r.msg.payload.headD 0) ∧
      (last.msg.msgType = 0x00 ∨ last.msg.msgType = 0xfe)
  | .msSQL => replies ≠ [] ∧ ∀ r ∈ replies, r.msg.msgType = 0x04

/-- A query and its response.  A response is captured for `SELECT` and `WITH`
only, which in PostgreSQL neither begin nor end a transaction. -/
structure Answered (lib : Unicode) (p : Wire.Protocol) (before after : Bool) (x : Exchange) :
    Prop where
  query : isQuery p x.request = true
  complete : Complete p after x.replies
  select : ∀ r ∈ x.replies, r.captured = true →
    Cache.isSelectQuery lib (extractQuery p x.request) = true
  reads : p = .postgreSQL → (∃ r ∈ x.replies, r.captured = true) → after = before

/-- When the flag is right after an exchange before which it was. -/
def Announced (lib : Unicode) (p : Wire.Protocol) (mode : PoolMode) (before after : Bool)
    (x : Exchange) : Prop :=
  match p with
  | .postgreSQL => True
  | .mySQL => after = false
  | .msSQL =>
    if mode ≠ .statement ∧ isTransactionBegin lib .msSQL x.request = true then after = true
    else if mode ≠ .statement ∧ isTransactionEnd lib .msSQL x.request = true then after = false
    else after = before

/-! ## One exchange -/

section Exchanges

variable {lib : Unicode} {p : Wire.Protocol} {mode : PoolMode} {inTxn before after : Bool}
  {x : Exchange}

theorem inTxnAfter_of_not_mem {r : Reply} (h : r.msg.msgType ∉ endTypes) :
    r.inTxnAfter inTxn = inTxn := by
  simp only [endTypes, mem_cons, not_mem_nil, or_false, not_or] at h
  simp [Reply.inTxnAfter, onReply, h]

theorem foldl_of_not_mem {replies : List Reply} (h : ∀ r ∈ replies, r.msg.msgType ∉ endTypes) :
    replies.foldl Reply.inTxnAfter inTxn = inTxn := by
  induction replies with
  | nil => rfl
  | cons r replies ih =>
    rw [foldl_cons, inTxnAfter_of_not_mem (h r mem_cons_self)]
    exact ih fun r' hr' => h r' (mem_cons_of_mem r hr')

/-- A query whose response is captured leaves the flag to the response. -/
theorem onRequest_of_select (hq : isQuery p x.request = true)
    (h : Cache.isSelectQuery lib (extractQuery p x.request) = true) :
    onRequest lib p mode inTxn x.request = inTxn := by
  have hnone : isTransactionBegin lib p x.request = false ∧
      isTransactionEnd lib p x.request = false := by
    rcases Bool.or_eq_true_iff.mp h with hword | hword
    · exact no_boundary_of_startsWith lib (by decide +kernel) (by decide +kernel) hq hword
    · exact no_boundary_of_startsWith lib (by decide +kernel) (by decide +kernel) hq hword
  cases mode with
  | session | transaction => simp [onRequest, hnone]
  | statement => rfl

/-- PostgreSQL: whatever the query has set, `ReadyForQuery` sets it right. -/
theorem inTxnAfter_postgreSQL (h : Answered lib .postgreSQL before after x) :
    x.inTxnAfter lib .postgreSQL mode before = after := by
  obtain ⟨init, last, hreplies, hinit, htype, hpayload⟩ := h.complete
  have hlast : last ∈ x.replies := by simp [hreplies]
  rw [Exchange.inTxnAfter, hreplies, foldl_append, foldl_of_not_mem hinit]
  cases hcap : last.captured with
  | false => cases after <;> simp [Reply.inTxnAfter, onReply, hcap, htype, hpayload, Cache.isAside]
  | true =>
    rw [onRequest_of_select h.query (h.select last hlast hcap), h.reads rfl ⟨last, hlast, hcap⟩]
    simp [Reply.inTxnAfter, hcap]

/-- A message of MySQL clears the flag or leaves it alone: the type is the
first byte of the payload, and `'Z'` is no status. -/
theorem inTxnAfter_mySQL_reply {r : Reply} (h : r.msg.msgType = r.msg.payload.headD 0) :
    r.inTxnAfter false = false := by
  have hstatus : ∀ status : UInt8, status ≠ 0x5a → r.msg.msgType = 0x5a →
      r.msg.payload.head? ≠ some status := by
    intro status hne htype hhead
    rw [headD_eq_head?_getD, hhead, Option.getD_some] at h
    exact hne (h.symm.trans htype)
  rw [Reply.inTxnAfter, onReply]
  split_ifs with hcap haside hready hidle hopen hend
  · rfl
  · rfl
  · rfl
  · rcases hopen with hopen | hopen
    · exact absurd hopen (hstatus 0x54 (by decide) hready.1)
    · exact absurd hopen (hstatus 0x45 (by decide) hready.1)
  · rfl
  · rfl
  · rfl

theorem foldl_mySQL {replies : List Reply}
    (h : ∀ r ∈ replies, r.msg.msgType = r.msg.payload.headD 0) :
    replies.foldl Reply.inTxnAfter false = false := by
  induction replies with
  | nil => rfl
  | cons r replies ih =>
    rw [foldl_cons, inTxnAfter_mySQL_reply (h r mem_cons_self)]
    exact ih fun r' hr' => h r' (mem_cons_of_mem r hr')

/-- MySQL: the flag is cleared with every response. -/
theorem inTxnAfter_mySQL (h : Answered lib .mySQL before after x) :
    x.inTxnAfter lib .mySQL mode false = false := by
  obtain ⟨init, last, hreplies, htypes, hend⟩ := h.complete
  cases hcap : last.captured with
  | true =>
    have hselect := h.select last (by simp [hreplies]) hcap
    rw [Exchange.inTxnAfter, onRequest_of_select h.query hselect]
    exact foldl_mySQL htypes
  | false =>
    rw [Exchange.inTxnAfter, hreplies, foldl_append]
    rcases hend with hend | hend
    · simp [Reply.inTxnAfter, onReply, hcap, hend, Cache.isAside]
    · simp [Reply.inTxnAfter, onReply, hcap, hend, Cache.isAside]

/-- MSSQL: no response changes the flag. -/
theorem inTxnAfter_msSQL (h : Answered lib .msSQL before after x) :
    x.inTxnAfter lib .msSQL mode inTxn = onRequest lib .msSQL mode inTxn x.request := by
  rw [Exchange.inTxnAfter]
  exact foldl_of_not_mem fun r hr => by
    rw [h.complete.2 r hr]
    decide

/-- The flag is right after an exchange if and only if the exchange is one of
those. -/
theorem inTxnAfter_eq_iff (h : Answered lib p before after x)
    (hidle : p = .mySQL → before = false) :
    x.inTxnAfter lib p mode before = after ↔ Announced lib p mode before after x := by
  cases p with
  | postgreSQL => exact iff_of_true (inTxnAfter_postgreSQL h) trivial
  | mySQL =>
    rw [hidle rfl, inTxnAfter_mySQL h, Announced]
    exact eq_comm
  | msSQL =>
    rw [inTxnAfter_msSQL h]
    cases mode with
    | session | transaction =>
      simp only [onRequest, Announced, ne_eq, reduceCtorEq, not_false_eq_true, true_and]
      split_ifs <;> exact eq_comm
    | statement =>
      exact eq_comm

end Exchanges

/-! ## A session -/

theorem tracks_iff_of_eq {lib : Unicode} {p : Wire.Protocol} {mode : PoolMode} {B : Backend}
    {s : B.State} {xs : List Exchange} (h : Along B (Answered lib p) s xs)
    (hidle : p = .mySQL → B.isOpen s = false) :
    Tracks lib p mode B (B.isOpen s) s xs ↔ Along B (Announced lib p mode) s xs := by
  induction xs generalizing s with
  | nil => exact Iff.rfl
  | cons x xs ih =>
    have hstep : x.inTxnAfter lib p mode (B.isOpen s) = B.isOpen (B.execute s x.request) ↔
        Announced lib p mode (B.isOpen s) (B.isOpen (B.execute s x.request)) x :=
      inTxnAfter_eq_iff h.1 hidle
    rw [Tracks, Along, hstep]
    refine and_congr_right fun hann => ?_
    rw [hstep.mpr hann]
    exact ih h.2 fun hp => by
      subst hp
      exact hann

/-- The flag is right after every response if and only if every exchange is
one after which it is: all of PostgreSQL, those of MySQL that leave no
transaction open, and those of MSSQL that begin and end transactions with the
words the codec finds in them. -/
theorem tracks_iff_announced (lib : Unicode) (p : Wire.Protocol) (mode : PoolMode) (B : Backend)
    (xs : List Exchange) (h : Along B (Answered lib p) B.init xs) :
    Tracks lib p mode B false B.init xs ↔ Along B (Announced lib p mode) B.init xs := by
  have hiff : Tracks lib p mode B (B.isOpen B.init) B.init xs ↔
      Along B (Announced lib p mode) B.init xs :=
    tracks_iff_of_eq h fun _ => B.idle
  rwa [B.idle] at hiff

/-- A backend that knows two statements. -/
def switch (opens closes : Message) : Backend where
  State := Bool
  init := false
  execute isOpen msg := if msg = opens then true else if msg = closes then false else isOpen
  isOpen := id
  idle := rfl

def pgQuery (text : String) : Message :=
  build [0x51, 0, 0, 0, .ofNat (text.length + 5)] (str text ++ [0])

/-- The response of PostgreSQL to a statement that returns nothing. -/
def pgDone (status : UInt8) : List Reply :=
  [⟨build [0x43, 0, 0, 0, 6] [0x58, 0], false⟩, ⟨Cache.readyForQuery status, false⟩]

/-- A transaction of PostgreSQL with a query in it whose response is
captured. -/
def pgTransaction : List Exchange :=
  [⟨pgQuery "BEGIN", pgDone 0x54⟩,
    ⟨pgQuery "SELECT 1", [⟨Cache.readyForQuery 0x54, true⟩]⟩,
    ⟨pgQuery "/* 7 */ COMMIT", pgDone 0x49⟩]

theorem tracks_pgTransaction : Along (switch (pgQuery "BEGIN") (pgQuery "/* 7 */ COMMIT"))
        (Answered Cache.asciiOnly .postgreSQL) false pgTransaction ∧
      Tracks Cache.asciiOnly .postgreSQL .session
        (switch (pgQuery "BEGIN") (pgQuery "/* 7 */ COMMIT")) false false pgTransaction := by
  have hdone : ∀ after : Bool,
      Complete .postgreSQL after (pgDone (if after then 0x54 else 0x49)) := by
    intro after
    exact ⟨[_], _, rfl, by decide, rfl, rfl⟩
  have h : Along (switch (pgQuery "BEGIN") (pgQuery "/* 7 */ COMMIT"))
      (Answered Cache.asciiOnly .postgreSQL) false pgTransaction := by
    refine ⟨⟨by decide, hdone true, by decide, by decide⟩,
      ⟨by decide, ⟨[], _, rfl, nofun, rfl, rfl⟩, by decide, by decide⟩,
      ⟨by decide, hdone false, by decide, by decide⟩, trivial⟩
  exact ⟨h, (tracks_iff_announced _ _ _ _ _ h).mpr ⟨trivial, trivial, trivial, trivial⟩⟩

/-- `BEGIN` in MySQL, and the OK packet it is answered with. -/
def mySQLBegin : Exchange where
  request := MySQLCodec.build [6, 0, 0, 0] (0x03 :: str "BEGIN")
  replies := [⟨MySQLCodec.build [7, 0, 0, 1] [0, 0, 0, 3, 0, 0, 0], false⟩]

/-- `BEGIN TRAN` in MSSQL, behind `ALL_HEADERS`, and the packet it is answered
with. -/
def msSQLBegin : Exchange where
  request := TDSCodec.build [0x01, 1, 0, 50, 0, 0, 1, 0]
    ([22, 0, 0, 0, 18, 0, 0, 0, 2, 0, 0, 0, 0, 0, 0, 0, 0, 0, 1, 0, 0, 0] ++
      (str "BEGIN TRAN").flatMap fun b => [b, 0])
  replies := [⟨TDSCodec.build [0x04, 1, 0, 21, 0, 55, 1, 0]
    [0xfd, 0, 0, 0xd4, 0, 0, 0, 0, 0, 0, 0, 0, 0], false⟩]

/-- A transaction that has begun is not tracked, neither in MySQL nor in
MSSQL. -/
theorem begin_not_tracked :
    (Along (switch mySQLBegin.request mySQLBegin.request) (Answered Cache.asciiOnly .mySQL) false
          [mySQLBegin] ∧
        ¬ Tracks Cache.asciiOnly .mySQL .session (switch mySQLBegin.request mySQLBegin.request)
          false false [mySQLBegin]) ∧
      Along (switch msSQLBegin.request msSQLBegin.request) (Answered Cache.asciiOnly .msSQL) false
          [msSQLBegin] ∧
        ¬ Tracks Cache.asciiOnly .msSQL .session (switch msSQLBegin.request msSQLBegin.request)
          false false [msSQLBegin] := by
  refine ⟨⟨⟨⟨by decide, ⟨[], _, rfl, by decide, .inl rfl⟩, by decide, by decide⟩, trivial⟩, ?_⟩,
    ⟨⟨by decide, ⟨by decide, by decide⟩, by decide, by decide⟩, trivial⟩, ?_⟩
  · intro h
    exact absurd h.1 (by decide +kernel)
  · intro h
    exact absurd h.1 (by decide +kernel)

end Geryon.Tracking
