import Geryon.Cache.Machine

/-!
# The relay with a cache

`forwardClientToServer`, `forwardAndCapture` and `forwardServerToClient` of
`internal/proxy/listener.go`, as far as the cache is concerned: which message
is answered from the cache, which one is sent to the backend and captured, and
what is stored.
-/

namespace Geryon.Cache

open Go

/-- What the relay reads of the configuration.  `rounds` bounds the loops that
the program does not bound itself. -/
structure Config where
  lib : Unicode
  rules : RulesEngine := []
  maxMemory : Nat
  defaultTTL : Nat := 0
  queryLogger : Bool := true
  rounds : Nat

variable (cfg : Config) (n : SessionId)

def fiveMinutes : Nat := 300000000000

/-- The type `'Z'`, PostgreSQL's `ReadyForQuery`. -/
def Reply.isReady (r : Reply) : Bool := r.msg.msgType = 0x5a

/-! ## From the client to the server -/

/-- The loop of `forwardAndCapture`: the response and the messages it is made
of, or `none` after an error. -/
def captureLoop (c : ConnId) : Nat → Buffer → List Reply → Prog (Option (Buffer × List Reply))
  | 0, _, _ => do
    act .stuck
    return none
  | rounds + 1, response, replies => do
    match ← act (.readServer n c) with
    | none => return none
    | some reply =>
      let response ← act (.bufferWrite response reply.msg.raw)
      if ← act (.writeClient n reply.msg) then
        if reply.isReady then return some (response, replies ++ [reply])
        else captureLoop c rounds response (replies ++ [reply])
      else return none

/-- The end of `forwardAndCapture`: the response is stored, and the pooled
buffer is returned. -/
def storeResponse (text query : Str) (responseBuf : Slice) :
    Option (Buffer × List Reply) → Prog Bool
  | none => do
    act (.putBuffer responseBuf)
    return false
  | some (response, replies) =>
    match extractTablesFromQuery cfg.lib query with
    | none => do
      act .stuck
      return false
    | some tables => do
      let _ ← act (.set (generateKey cfg.lib text) response.bytes tables
        (cfg.rules.getTTL query fiveMinutes) ⟨n, text, replies⟩)
      act (.putBuffer responseBuf)
      return true

def forwardAndCapture (c : ConnId) (text : Str) : Prog Bool := do
  let query ← act (.getCurrentQuery n)
  if ← act (.writeServer n c (.query text) true) then
    let responseBuf ← act .getBuffer
    let captured ← captureLoop n c cfg.rounds (newBuffer responseBuf) []
    storeResponse cfg n text query responseBuf captured
  else return false

/-- A message goes to the backend, and its response is not captured. -/
def forward (msg : ClientMessage) : Prog Bool := do
  match ← act (.onQuery n) with
  | none => return false
  | some c =>
    if ← act (.writeServer n c msg false) then
      act (.setCurrentQuery n msg.text)
      return true
    else return false

/-- A query that is not in the cache goes to the backend, and its response is
captured, unless its key is empty. -/
def forwardCached (text : Str) : Prog Bool := do
  if generateKey cfg.lib text = [] then forward n (.query text)
  else
    match ← act (.onQuery n) with
    | none => return false
    | some c => forwardAndCapture cfg n c text

def invalidateTables : List Str → Prog Unit
  | [] => return ()
  | table :: tables => do
    act (.invalidateTable table)
    invalidateTables tables

/-- What `forwardClientToServer` does with a query. -/
def handleQuery (text : Str) : Prog Bool := do
  act (.setCurrentQuery n text)
  if text = [] then forward n (.query text)
  else if isModificationQuery cfg.lib text then
    match extractTablesFromQuery cfg.lib text with
    | none =>
      act .stuck
      return false
    | some tables =>
      invalidateTables tables
      forward n (.query text)
  else if cfg.rules.shouldCache text && isSelectQuery cfg.lib text then
    match ← act (.get n text (generateKey cfg.lib text)) with
    | none => forwardCached cfg n text
    | some data => if ← act (.sendCached n data) then return true else forwardCached cfg n text
  else forward n (.query text)

/-- The loop of `forwardClientToServer`, for a client that sends the given
messages and then ends the connection. -/
def forwardClientToServer : List ClientMessage → Prog Unit
  | [] => return ()
  | msg :: msgs => do
    if ← act (.readClient n msg) then
      match msg with
      | .terminate => act (.finish n)
      | .query text =>
        let goesOn ← handleQuery cfg n text
        act (.finish n)
        if goesOn then forwardClientToServer msgs else return ()
      | .other stmt =>
        let goesOn ← forward n (.other stmt)
        act (.finish n)
        if goesOn then forwardClientToServer msgs else return ()
    else return ()

/-! ## From the server to the client -/

/-- The messages after which `forwardServerToClient` continues at once:
notifications, notices and those of a copy. -/
def isAside (msgType : UInt8) : Bool :=
  [0x41, 0x4e, 0x47, 0x48, 0x57, 0x64, 0x63].contains msgType

def serverLoop (c : ConnId) : Nat → Prog Unit
  | 0 => act .stuck
  | rounds + 1 => do
    match ← act (.readServer n c) with
    | none => return ()
    | some reply =>
      if ← act (.writeClient n reply.msg) then
        if !isAside reply.msg.msgType && cfg.queryLogger then
          if (← act (.getCurrentQuery n)) ≠ [] then act (.setCurrentQuery n [])
        serverLoop c rounds
      else return ()

def forwardServerToClient : Prog Unit := do
  match ← act (.psConn n) with
  | none => return ()
  | some c => serverLoop cfg n c cfg.rounds

/-! ## The system -/

def repeatedly (o : Op) : Nat → Prog Unit
  | 0 => act .stuck
  | rounds + 1 => do
    let _ ← act o
    repeatedly o rounds

def system (messages : SessionId → List ClientMessage) : Conc.Config sessions where
  state := { store := { maxMemory := cfg.maxMemory, defaultTTL := cfg.defaultTTL } }
  prog
    | .clientToServer n => forwardClientToServer cfg n (messages n)
    | .serverToClient n => forwardServerToClient cfg n
    | .cleanup => repeatedly .cleanupExpired cfg.rounds
    | .clock => repeatedly .tick cfg.rounds
    | .collector => repeatedly .dropBuffer cfg.rounds
    | .backend => repeatedly .execute cfg.rounds

end Geryon.Cache
