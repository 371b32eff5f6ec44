import Geryon.Conc.Alone
import Geryon.Go.Conn
import Geryon.Pool.Pool

/-!
# The start-up of a session: state and operations

The start-up handlers of `internal/proxy/listener.go` at the level of bytes.
This module has what they work on and the operations they are made of; the
handlers of the three protocols are in modules of their own.

A `Session` is a `ProxySession` during its start-up: the two connections, the
fields that the handlers read or write, and what the world around it answers.
The user database and `userConnCounts` are `Shared` by all sessions.  Strings are
byte lists.

`step` is what an operation does to the shared part and to one session.  A handler
can be run on its own, or together with others over the shared part; `sessions`
is the machine for the latter.

The last fields of `Session` and the operations `note` and `finish` are
bookkeeping, which no modelled function reads.
-/

namespace Geryon.Startup

open List Wire Function

open Pool (AuthMode PoolMode PoolError)

/-- A string or a byte slice. -/
abbrev Bytes := List UInt8

/-- The bytes of a string of ASCII characters. -/
def ascii (s : String) : Bytes := s.toList.map Char.toUInt8

/-- A byte string in the text of an error. -/
def text (b : Bytes) : String := String.ofList (b.map fun x => Char.ofNat x.toNat)

/-- `maxMySQLPayload`, which bounds the messages of all three protocols. -/
def maxMySQLPayload : Nat := 16777216

/-- `auth.User`. -/
structure User where
  username : Bytes
  passwordHash : Bytes := []
  mysqlPasswordHash : Bytes := []
  ntlmPasswordHash : Bytes := []
  maxConnections : Int := 0
  allowedPools : List Bytes := []
  deriving DecidableEq

def User.canAccessPool (u : User) (poolName : Bytes) : Bool :=
  u.allowedPools.any fun allowed => allowed = ascii "*" || allowed = poolName

/-- `TLS.Mode`. -/
inductive TLSMode where
  | disable
  | require
  | verifyCA
  | verifyFull
  | other
  deriving DecidableEq

/-- What the handlers read of the configuration.  `rounds` bounds the loops
that the program does not bound itself. -/
structure Config where
  body : Wire.Protocol
  authMode : AuthMode
  mode : PoolMode := .session
  poolName : Bytes
  tlsMode : TLSMode := .disable
  hasTLS : Bool := false
  /-- `Backend.Auth.Username`. -/
  backendUser : Bytes := []
  /-- `Backend.Auth.PasswordFile` is set. -/
  passwordFile : Bool := false
  rounds : Nat

/-- The client's certificate: the identity that `ExtractIdentity` finds in it,
and `IsCertificateValid`. -/
structure Certificate where
  identity : Option Bytes
  valid : Bool
  deriving DecidableEq

inductive Err where
  | io (e : Go.IOErr)
  | write
  | pool (e : PoolError)
  /-- `os.ReadFile` or `rand.Read` failed, or a TLS handshake. -/
  | system
  | errorf (text : String)
  /-- `fmt.Errorf("text: %w", err)`. -/
  | wrap (text : String) (err : Err)
  deriving DecidableEq

/-- What a handler can end with other than a result. -/
inductive Exc where
  | err (e : Err)
  | panic
  deriving DecidableEq

/-- A message of the client that gives a user name. -/
inductive Heard where
  /-- The data of a `StartupMessage`. -/
  | startup (data : Bytes)
  /-- The data of a `SASLInitialResponse`. -/
  | saslInitial (data : Bytes)
  /-- The payload of a MySQL handshake response. -/
  | handshake (payload : Bytes)
  deriving DecidableEq

/-- What a handler notes for the properties to speak of. -/
inductive Note where
  | heard (msg : Heard)
  /-- This user's pool access and connection limit are checked. -/
  | checked (username : Bytes)
  /-- The client's proof fits the stored hash of this user. -/
  | verified (username : Bytes)
  deriving DecidableEq

/-- A `ProxySession`.  `ps.serverConn`, once it is set, is the connection of
the pool session. -/
structure Session where
  id : Nat
  client : Go.Conn
  server : Option Go.Conn := none
  username : Bytes := []
  database : Bytes := []
  authenticated : Bool := false
  ntlmUser : Option User := none
  ntlmServerChallenge : Bytes := replicate 8 0
  -- What the world around it answers.
  /-- `IsLimited`, call by call. -/
  limited : List Bool := []
  /-- `rand.Read`, call by call. -/
  random : List (Option Bytes) := []
  /-- The order in which a map of two keys is visited. -/
  mapOrder : List Bool := []
  /-- The TLS handshakes with the client. -/
  handshakes : List (Option (Go.Conn × Option Certificate)) := []
  /-- What `Acquire` finds. -/
  backend : Except PoolError Go.Conn
  /-- The contents of the file with the backend's password. -/
  password : Option Bytes := none
  -- Bookkeeping.
  failures : Nat := 0
  successes : Nat := 0
  heard : List Heard := []
  checked : Option Bytes := none
  verified : Option Bytes := none
  /-- The name under which `TryIncrementUserCount` has counted the session. -/
  counted : Option Bytes := none
  live : Bool := true

/-- What the world holds for a session when its client connects. -/
structure Arrival where
  id : Nat
  client : Go.Conn
  limited : List Bool := []
  random : List (Option Bytes) := []
  mapOrder : List Bool := []
  handshakes : List (Option (Go.Conn × Option Certificate)) := []
  backend : Except PoolError Go.Conn
  password : Option Bytes := none

def newSession (a : Arrival) : Session where
  id := a.id
  client := a.client
  limited := a.limited
  random := a.random
  mapOrder := a.mapOrder
  handshakes := a.handshakes
  backend := a.backend
  password := a.password

/-- What all sessions of a pool share.  `loaded` is bookkeeping: the users that
are or were in the database. -/
structure Shared where
  users : List User
  userConnCounts : Bytes → Option Int := fun _ => none
  loaded : List User := users

def Shared.getUser (sh : Shared) (username : Bytes) : Option User :=
  sh.users.find? fun u => u.username = username

inductive Side where
  | client
  | server
  deriving DecidableEq

inductive Op where
  /-- Never enabled: a loop that has used up its rounds. -/
  | stuck
  -- The connections
  /-- `io.ReadFull` through a reader that has `buf` in its buffer. -/
  | readFull (side : Side) (buf : Bytes) (n : Nat)
  /-- `io.ReadFull` on the connection. -/
  | readDirect (side : Side) (n : Nat)
  | write (side : Side) (b : Bytes)
  | startTLS
  -- The user database and the counters
  | getUser (username : Bytes)
  | loadOrStore (username : Bytes)
  | loadCount (username : Bytes)
  | compareAndSwap (username : Bytes) (current : Int)
  | hasCount (username : Bytes)
  | addCount (username : Bytes)
  -- The limiter
  | isLimited
  | recordAuthFailure
  | recordAuthSuccess
  -- The fields of the session
  | getUsername
  | setUsername (username : Bytes)
  | getDatabase
  | setDatabase (database : Bytes)
  | setAuthenticated
  | getNTLMUser
  | setNTLMUser (u : User)
  | getNTLMServerChallenge
  | setNTLMServerChallenge (challenge : Bytes)
  | getId
  -- The pool
  | onClientConnect (mode : PoolMode)
  | hasServerConn
  -- The system
  | random (n : Nat)
  | readFile
  | mapOrder
  | relay
  -- Marks
  | note (n : Note)
  | finish
  /-- The user database is loaded again. -/
  | reload
  deriving DecidableEq

@[reducible] def Op.Ret : Op → Type
  | .readFull .. => Except Go.IOErr Bytes × Bytes
  | .readDirect .. => Except Go.IOErr Bytes
  | .write .. => Bool
  | .startTLS => Option (Option Certificate)
  | .getUser _ => Option User
  | .loadCount _ => Int
  | .compareAndSwap .. => Bool
  | .hasCount _ => Bool
  | .isLimited => Bool
  | .getUsername => Bytes
  | .getDatabase => Bytes
  | .getNTLMUser => Option User
  | .getNTLMServerChallenge => Bytes
  | .getId => Nat
  | .onClientConnect _ => Except PoolError Unit
  | .hasServerConn => Bool
  | .random _ => Option Bytes
  | .readFile => Option Bytes
  | .mapOrder => Bool
  | _ => Unit

structure World where
  shared : Shared
  sess : Session

namespace World

variable (w : World)

def modify (f : Session → Session) : World := { w with sess := f w.sess }

def setCount (username : Bytes) (n : Int) : World :=
  { w with shared := { w.shared with
      userConnCounts := update w.shared.userConnCounts username (some n) } }

def conn : Side → Option Go.Conn
  | .client => some w.sess.client
  | .server => w.sess.server

def setConn (side : Side) (c : Go.Conn) : World :=
  w.modify fun s =>
    match side with
    | .client => { s with client := c }
    | .server => { s with server := some c }

end World

def Session.note (s : Session) : Note → Session
  | .heard msg => { s with heard := s.heard ++ [msg] }
  | .checked username => { s with checked := some username }
  | .verified username => { s with verified := some username }

/-- What an operation of a session does.  A session ends when it takes itself
off a counter, or else with `finish`. -/
def step (w : World) : (o : Op) → Option (o.Ret × World)
  | .stuck => none
  | .readFull side buf n =>
    match w.conn side with
    | none => none
    | some c => (c.readFull buf n).map fun r => (r.1, w.setConn side r.2)
  | .readDirect side n =>
    match w.conn side with
    | none => none
    | some c => (c.readDirect n).map fun r => (r.1, w.setConn side r.2)
  | .write side b =>
    match w.conn side with
    | none => none
    | some c => some ((c.write b).1, w.setConn side (c.write b).2)
  | .startTLS =>
    match w.sess.handshakes with
    | [] => some (none, w)
    | none :: rest => some (none, w.modify fun s => { s with handshakes := rest })
    | some (c, cert) :: rest =>
      some (some cert, w.modify fun s => { s with handshakes := rest, client := c })
  | .getUser username => some (w.shared.getUser username, w)
  | .loadOrStore username =>
    match w.shared.userConnCounts username with
    | none => some ((), w.setCount username 0)
    | some _ => some ((), w)
  | .loadCount username => some ((w.shared.userConnCounts username).getD 0, w)
  | .compareAndSwap username current =>
    if w.shared.userConnCounts username = some current then
      some (true, (w.setCount username (current + 1)).modify fun s =>
        { s with counted := some username })
    else some (false, w)
  | .hasCount username => some ((w.shared.userConnCounts username).isSome, w)
  | .addCount username =>
    some ((), (w.setCount username ((w.shared.userConnCounts username).getD 0 - 1)).modify
      fun s => { s with live := false })
  | .isLimited =>
    match w.sess.limited with
    | [] => some (false, w)
    | b :: rest => some (b, w.modify fun s => { s with limited := rest })
  | .recordAuthFailure => some ((), w.modify fun s => { s with failures := s.failures + 1 })
  | .recordAuthSuccess => some ((), w.modify fun s => { s with successes := s.successes + 1 })
  | .getUsername => some (w.sess.username, w)
  | .setUsername username => some ((), w.modify fun s => { s with username })
  | .getDatabase => some (w.sess.database, w)
  | .setDatabase database => some ((), w.modify fun s => { s with database })
  | .setAuthenticated => some ((), w.modify fun s => { s with authenticated := true })
  | .getNTLMUser => some (w.sess.ntlmUser, w)
  | .setNTLMUser u => some ((), w.modify fun s => { s with ntlmUser := some u })
  | .getNTLMServerChallenge => some (w.sess.ntlmServerChallenge, w)
  | .setNTLMServerChallenge challenge =>
    some ((), w.modify fun s => { s with ntlmServerChallenge := challenge })
  | .getId => some (w.sess.id, w)
  | .onClientConnect .session =>
    match w.sess.backend with
    | .error e => some (.error e, w)
    | .ok c => some (.ok (), w.modify fun s => { s with server := some c })
  | .onClientConnect _ => some (.ok (), w)
  | .hasServerConn => some (w.sess.server.isSome, w)
  | .random n =>
    match w.sess.random with
    | [] => some (some (replicate n 0), w)
    | none :: rest => some (none, w.modify fun s => { s with random := rest })
    | some b :: rest =>
      some (some ((b ++ replicate n 0).take n), w.modify fun s => { s with random := rest })
  | .readFile => some (w.sess.password, w)
  | .mapOrder =>
    match w.sess.mapOrder with
    | [] => some (true, w)
    | b :: rest => some (b, w.modify fun s => { s with mapOrder := rest })
  | .relay => some ((), w)
  | .note n => some ((), w.modify fun s => s.note n)
  | .finish => some ((), w.modify fun s => { s with live := false })
  | .reload => none

/-- What the operations on the connections and the questions to the world leave
alone in a session. -/
structure Core where
  id : Nat
  username : Bytes
  database : Bytes
  authenticated : Bool
  ntlmUser : Option User
  ntlmServerChallenge : Bytes
  failures : Nat
  successes : Nat
  heard : List Heard
  checked : Option Bytes
  verified : Option Bytes
  counted : Option Bytes
  live : Bool

def Session.core (s : Session) : Core where
  id := s.id
  username := s.username
  database := s.database
  authenticated := s.authenticated
  ntlmUser := s.ntlmUser
  ntlmServerChallenge := s.ntlmServerChallenge
  failures := s.failures
  successes := s.successes
  heard := s.heard
  checked := s.checked
  verified := s.verified
  counted := s.counted
  live := s.live

/-- The operations on the connections and the questions to the world. -/
def Outer : Op → Prop
  | .readFull .. | .readDirect .. | .write .. | .startTLS | .isLimited | .random _ | .mapOrder
  | .onClientConnect _ => True
  | _ => False

theorem step_outer {w w' : World} {o : Op} {r : o.Ret} (h : step w o = some (r, w'))
    (ho : Outer o) : w'.shared = w.shared ∧ w'.sess.core = w.sess.core := by
  cases o
  case readFull side buf n | readDirect side n =>
    simp only [step] at h
    split at h
    · cases h
    · obtain ⟨res, -, hres⟩ := Option.map_eq_some_iff.mp h
      cases hres
      cases side <;> exact ⟨rfl, rfl⟩
  case write side b =>
    simp only [step] at h
    split at h
    · cases h
    · cases h
      cases side <;> exact ⟨rfl, rfl⟩
  case startTLS | isLimited | random | mapOrder =>
    simp only [step] at h
    split at h <;> cases h <;> exact ⟨rfl, rfl⟩
  case onClientConnect mode =>
    cases mode with
    | session =>
      simp only [step] at h
      split at h <;> cases h <;> exact ⟨rfl, rfl⟩
    | transaction | statement =>
      cases h
      exact ⟨rfl, rfl⟩
  all_goals exact ho.elim

/-- The goroutines: a session each, and one that loads the users again. -/
inductive Thread where
  | session (i : Nat)
  | admin
  deriving DecidableEq

/-- The state of a pool and of all its sessions; `clients` is the number of
clients that connect. -/
structure State where
  shared : Shared
  clients : Nat
  sess : Nat → Session

/-- The sessions of a pool.  The choice is the list of users that is loaded. -/
def sessions : Conc.Machine where
  State := State
  Thread := Thread
  decEq := inferInstance
  Op := Op
  Ret := Op.Ret
  Choice := List User
  exec s t o users :=
    match t with
    | .session i =>
      if i < s.clients then
        (step ⟨s.shared, s.sess i⟩ o).map fun r =>
          (r.1, { s with shared := r.2.shared, sess := update s.sess i r.2.sess })
      else none
    | .admin =>
      match o with
      | .reload =>
        some ((), { s with shared := { s.shared with
          users
          loaded := s.shared.loaded ++ users } })
      | _ => none

/-- A start-up handler, or a part of one. -/
abbrev Handler := Conc.Fallible sessions Exc

abbrev op (o : Op) : Handler o.Ret := Conc.Fallible.op (M := sessions) o

/-- Run a handler on its own. -/
def eval {α : Type} (p : Handler α) (w : World) : Conc.Outcome Exc α World :=
  p.alone (M := sessions) step w

/-! ## What handlers are made of -/

/-- `return err`. -/
def fail {α : Type} (e : Err) : Handler α := throw (.err e)

/-- Slicing or indexing out of range, and the like. -/
def crash {α : Type} : Handler α := throw .panic

/-- `return fmt.Errorf(text)`. -/
def errorf {α : Type} (text : String) : Handler α := fail (.errorf text)

/-- The error of a call, in `fmt.Errorf("text: %w", err)`; a panic passes
through. -/
def Exc.wrap (text : String) : Exc → Exc
  | .err e => .err (.wrap text e)
  | .panic => .panic

/-- `if err := p; err != nil { return fmt.Errorf("text: %w", err) }`. -/
def wrap {α : Type} (text : String) (p : Handler α) : Handler α := p.mapError (Exc.wrap text)

/-- `if err := p; err != nil { onErr; return err }`. -/
def onError {α : Type} (p : Handler α) (onErr : Handler Unit) : Handler α :=
  p.handle fun
    | .err e => do
      onErr
      fail e
    | .panic => crash

/-- `io.ReadFull` through a reader: the data, and the reader after it. -/
def readFull (side : Side) (reader : Bytes) (n : Nat) : Handler (Bytes × Bytes) := do
  match ← op (.readFull side reader n) with
  | (.ok data, reader) => return (data, reader)
  | (.error e, _) => fail (.io e)

/-- `ReadByte`, which reads like an `io.ReadFull` of one byte. -/
def readByte (side : Side) (reader : Bytes) : Handler (UInt8 × Bytes) := do
  let (data, reader) ← readFull side reader 1
  return (data.headD 0, reader)

/-- `io.ReadFull` on the connection. -/
def readDirect (side : Side) (n : Nat) : Handler Bytes := do
  match ← op (.readDirect side n) with
  | .ok data => return data
  | .error e => fail (.io e)

def write (side : Side) (b : Bytes) : Handler Unit := do
  if ← op (.write side b) then return () else fail .write

section Uses

open Conc.Fallible

variable {A : Op → Prop} {side : Side} {reader : Bytes}

theorem uses_readFull {n : Nat} (h : A (.readFull side reader n)) :
    (readFull side reader n).Uses A := by
  refine uses_bind (uses_op h) fun r => ?_
  split
  · exact uses_pure
  · exact uses_throw

theorem uses_readByte (h : A (.readFull side reader 1)) : (readByte side reader).Uses A :=
  uses_bind (uses_readFull h) fun _ => uses_pure

theorem uses_readDirect {n : Nat} (h : A (.readDirect side n)) : (readDirect side n).Uses A := by
  refine uses_bind (uses_op h) fun r => ?_
  split
  · exact uses_pure
  · exact uses_throw

theorem uses_write {b : Bytes} (h : A (.write side b)) : (write side b).Uses A :=
  uses_bind (uses_op h) fun _ => uses_ite uses_pure uses_throw

end Uses

/-- `data[i:j]`. -/
def slice (data : Bytes) (i j : Nat) : Handler Bytes :=
  if i ≤ j ∧ j ≤ data.length then return (data.drop i).take (j - i) else crash

/-- `make([]byte, n)`: a negative length is a panic. -/
def makeLen (n : Int) : Handler Nat := if n < 0 then crash else return n.toNat

/-- The bytes of `data` before the first `sep`, and those after it. -/
def cut (sep : UInt8) : Bytes → Option (Bytes × Bytes)
  | [] => none
  | b :: data =>
    if b = sep then some ([], data)
    else (cut sep data).map fun r => (b :: r.1, r.2)

/-- The bytes of `data` before its first zero byte, or all of them. -/
def untilNull (data : Bytes) : Bytes := data.takeWhile (· ≠ 0)

/-- The number `n` in `k` bytes, the least significant one first. -/
def putLittleEndian : Nat → Nat → Bytes
  | 0, _ => []
  | k + 1, n => UInt8.ofNat n :: putLittleEndian k (n / 256)

/-- The number `n` in `k` bytes, the most significant one first. -/
def putBigEndian (k n : Nat) : Bytes := (putLittleEndian k n).reverse

@[simp] theorem length_putLittleEndian (k n : Nat) : (putLittleEndian k n).length = k := by
  induction k generalizing n with
  | zero => rfl
  | succ k ih => simp [putLittleEndian, ih]

@[simp] theorem length_putBigEndian (k n : Nat) : (putBigEndian k n).length = k := by
  simp [putBigEndian]

/-- The number of values of `k` bytes. -/
def valuesOf : Nat → Nat
  | 0 => 1
  | k + 1 => 256 * valuesOf k

theorem littleEndian_put {k n : Nat} (h : n < valuesOf k) :
    littleEndian (putLittleEndian k n) = n := by
  induction k generalizing n with
  | zero =>
    have : n = 0 := Nat.lt_one_iff.mp h
    rw [this]
    rfl
  | succ k ih =>
    have hdiv : n / 256 < valuesOf k := by
      rw [valuesOf] at h
      omega
    have hhead : (UInt8.ofNat n).toNat = n % 256 := rfl
    have htail := ih hdiv
    rw [putLittleEndian, littleEndian, foldr_cons, hhead]
    rw [littleEndian] at htail
    rw [htail]
    omega

theorem valuesOf_le {m n : Nat} (h : m ≤ n) : valuesOf m ≤ valuesOf n := by
  induction h with
  | refl => exact Nat.le_refl _
  | step _ ih =>
    rw [valuesOf]
    omega

theorem littleEndian_lt (l : Bytes) : littleEndian l < valuesOf l.length := by
  induction l with
  | nil => exact Nat.one_pos
  | cons b l ih =>
    have hb := b.toNat_lt
    rw [littleEndian] at ih
    rw [littleEndian, foldr_cons, length_cons, valuesOf]
    omega

theorem bigEndian_lt (l : Bytes) : bigEndian l < valuesOf l.length := by
  have h := littleEndian_lt l.reverse
  rwa [littleEndian, foldr_reverse, length_reverse] at h

theorem bigEndian_put {k n : Nat} (h : n < valuesOf k) : bigEndian (putBigEndian k n) = n := by
  rw [putBigEndian, bigEndian, foldl_reverse]
  exact littleEndian_put h

/-! ## The connection limit of a user -/

def tryIncrementLoop (username : Bytes) (max : Int) : Nat → Handler Bool
  | 0 => do
    op .stuck
    return false
  | rounds + 1 => do
    let current ← op (.loadCount username)
    if current ≥ max then return false
    else if ← op (.compareAndSwap username current) then return true
    else tryIncrementLoop username max rounds

def tryIncrementUserCount (rounds : Nat) (username : Bytes) (max : Int) : Handler Bool := do
  if username = [] ∨ max ≤ 0 then return true
  else
    op (.loadOrStore username)
    tryIncrementLoop username max rounds

def decrementUserCount (username : Bytes) : Handler Unit := do
  if username = [] then return ()
  else if ← op (.hasCount username) then op (.addCount username)
  else return ()

/-- The check of a user's limit, if there is one. -/
def checkConnectionLimit (rounds : Nat) (username : Bytes) (user : User)
    (refused : Handler Unit) : Handler Unit := do
  if user.maxConnections > 0 then
    if ← tryIncrementUserCount rounds username user.maxConnections then return () else refused
  else return ()

/-- What all handlers that turn to a backend begin with: `OnClientConnect`,
then `ServerConn`. -/
def takeServerConn (mode : PoolMode) : Handler Unit := do
  match ← op (.onClientConnect mode) with
  | .error e =>
    fail (.wrap "failed to connect to backend"
      (.wrap "failed to acquire server connection" (.pool e)))
  | .ok () =>
    if ← op .hasServerConn then return ()
    else errorf "no server connection available"

end Geryon.Startup
