import Geryon.Go.Text
import Mathlib.Data.List.AList

/-!
# The SWIM protocol

`internal/swim/swim.go`: the table of members and the handlers of the messages.
A handler returns the new state and what it sends, each message with the address
it goes to.

Times are readings of the clock in nanoseconds, and `none` is the zero `Time`.
`net.SplitHostPort` and the decoding of payloads are parameters.  Signatures are
left out: a message reaches the handlers only if its signature is right.
-/

namespace Geryon.Swim

open Go

/-! ## Members and messages -/

inductive MemberState where
  | alive
  | suspect
  | dead
  deriving DecidableEq

structure Member where
  id : Str
  address : Str
  state : MemberState := .alive
  incarnation : Nat := 0
  lastSeen : Option Nat := none
  lastProbe : Option Nat := none
  deriving DecidableEq

inductive MessageType where
  | ping
  | ack
  | pingReq
  | suspect
  | alive
  | dead
  | sync
  deriving DecidableEq

structure MemberInfo where
  id : Str
  address : Str
  state : MemberState
  incarnation : Nat
  deriving DecidableEq

structure Message where
  type : MessageType
  source : Str
  target : Str := []
  incarnation : Nat := 0
  payload : List UInt8 := []
  members : List MemberInfo := []
  deriving DecidableEq

/-- The events that are sent. -/
inductive EventType where
  | memberJoin
  | memberLeave
  deriving DecidableEq

/-- `Event`.  The member is the one in the table. -/
structure Event where
  type : EventType
  member : Str
  deriving DecidableEq

/-- What the protocol uses of `net` and `encoding/json`. -/
structure Net where
  splitHostPort : Str → Option (Str × Str)
  /-- The address in the payload of an Alive message. -/
  payloadAddress : List UInt8 → Option Str
  /-- The target in the payload of a PingReq message. -/
  payloadTarget : List UInt8 → Option Str

def Net.isValidAddress (net : Net) (addr : Str) : Bool := (net.splitHostPort addr).isSome

/-- `Protocol`: the fields that the handlers use.  `eventCh` has all events that
have been sent. -/
structure Protocol where
  id : Str
  addr : Str
  members : AList fun _ : Str => Member := ∅
  eventCh : List Event := []

/-- Messages, each with the address it is sent to. -/
abbrev Sent := List (Str × Message)

namespace Protocol

/-! ## The table -/

def modify (p : Protocol) (id : Str) (f : Member → Member) : Protocol :=
  match p.members.lookup id with
  | none => p
  | some m => { p with members := p.members.insert id (f m) }

def incarnation (p : Protocol) : Nat :=
  match p.members.lookup p.id with
  | none => 0
  | some m => m.incarnation

def getMemberInfos (p : Protocol) : List MemberInfo :=
  ⟨p.id, p.addr, .alive, p.incarnation⟩ ::
    p.members.entries.map fun e => ⟨e.2.id, e.2.address, e.2.state, e.2.incarnation⟩

/-- The first part of `updateMember`: an unknown member is entered.  The lock is
released while the event is sent. -/
def register (p : Protocol) (id addr : Str) : Protocol :=
  match p.members.lookup id with
  | some _ => p
  | none =>
    { p with
      members := p.members.insert id { id := id, address := addr }
      eventCh := p.eventCh ++ [⟨.memberJoin, id⟩] }

/-- The second part of `updateMember`. -/
def refresh (p : Protocol) (now : Nat) (id addr : Str) (state : MemberState)
    (incarnation : Nat) : Protocol :=
  p.modify id fun m =>
    if m.incarnation ≤ incarnation then
      { m with
        incarnation := incarnation
        state := state
        lastSeen := some now
        address := if addr = [] then m.address else addr }
    else m

def updateMember (net : Net) (p : Protocol) (now : Nat) (id addr : Str) (state : MemberState)
    (incarnation : Nat) : Protocol :=
  if addr ≠ [] ∧ net.isValidAddress addr = false then p
  else (p.register id addr).refresh now id addr state incarnation

/-! ## The handlers -/

def handlePing (net : Net) (p : Protocol) (now : Nat) (msg : Message) (sender : Str) :
    Protocol × Sent :=
  let p' := p.updateMember net now msg.source sender .alive msg.incarnation
  (p', [(sender,
    { type := .ack, source := p.id, target := msg.source, incarnation := p'.incarnation })])

def handleAck (p : Protocol) (now : Nat) (msg : Message) : Protocol × Sent :=
  (p.modify msg.source fun m => { m with lastSeen := some now, state := MemberState.alive }, [])

def handlePingReq (net : Net) (p : Protocol) (msg : Message) : Protocol × Sent :=
  match net.payloadTarget msg.payload with
  | none => (p, [])
  | some target => (p, [(target, { type := .ping, source := p.id })])

/-- A message about a member of which nothing newer is known sets the state: the
common part of `handleSuspect` and `handleDead`. -/
def accuse (p : Protocol) (msg : Message) (state : MemberState) : Protocol :=
  p.modify msg.target fun m =>
    if m.incarnation ≤ msg.incarnation then { m with state := state } else m

def handleSuspect (p : Protocol) (msg : Message) : Protocol × Sent := (p.accuse msg .suspect, [])

def handleAlive (net : Net) (p : Protocol) (now : Nat) (msg : Message) : Protocol × Sent :=
  match net.payloadAddress msg.payload with
  | none => (p, [])
  | some address => (p.updateMember net now msg.source address .alive msg.incarnation, [])

def handleDead (p : Protocol) (msg : Message) : Protocol × Sent := (p.accuse msg .dead, [])

/-- The message with all members, of `gossip` and `handleSync`. -/
def syncMessage (p : Protocol) : Message :=
  { type := .sync, source := p.id, members := p.getMemberInfos }

def handleSync (net : Net) (p : Protocol) (now : Nat) (msg : Message) : Protocol × Sent :=
  let p' := p.updateMember net now msg.source msg.payload .alive msg.incarnation
  (p', [(msg.payload, p'.syncMessage)])

def handleMessage (net : Net) (p : Protocol) (now : Nat) (msg : Message) (sender : Str) :
    Protocol × Sent :=
  match msg.type with
  | .ping => p.handlePing net now msg sender
  | .ack => p.handleAck now msg
  | .pingReq => p.handlePingReq net msg
  | .suspect => p.handleSuspect msg
  | .alive => p.handleAlive net now msg
  | .dead => p.handleDead msg
  | .sync => p.handleSync net now msg

/-! ## What the table says afterwards -/

variable {p : Protocol} {id : Str} {m : Member}

theorem lookup_modify_self (f : Member → Member) :
    (p.modify id f).members.lookup id = (p.members.lookup id).map f := by
  rw [modify]
  split
  · rename_i hnone
    rw [hnone]
    rfl
  · rename_i m hsome
    rw [hsome, Option.map_some, AList.lookup_insert]

theorem lookup_modify_ne {id' : Str} (h : id' ≠ id) (f : Member → Member) :
    (p.modify id f).members.lookup id' = p.members.lookup id' := by
  rw [modify]
  split
  · rfl
  · exact AList.lookup_insert_ne h

theorem register_known {addr : Str} (h : p.members.lookup id = some m) :
    p.register id addr = p := by
  rw [register, h]

theorem lookup_register_unknown {addr : Str} (h : p.members.lookup id = none) :
    (p.register id addr).members.lookup id = some { id := id, address := addr } := by
  rw [register, h]
  exact AList.lookup_insert _

theorem lookup_register_ne {id' addr : Str} (h : id' ≠ id) :
    (p.register id addr).members.lookup id' = p.members.lookup id' := by
  rw [register]
  split
  · rfl
  · exact AList.lookup_insert_ne h

end Protocol

/-- Addresses and payloads are taken as they are. -/
def plainNet : Net where
  splitHostPort addr := some (addr, [])
  payloadAddress payload := some payload
  payloadTarget payload := some payload

end Geryon.Swim
