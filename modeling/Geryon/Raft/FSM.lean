import Geryon.Conc.Object
import Geryon.Go.Text
import Mathlib.Data.List.AList
import Mathlib.Logic.Equiv.List

/-!
# The state machine of the cluster

`internal/raft/fsm.go`.  `Apply` counts a version up, decodes the data of the
command and changes one of three maps; `Snapshot` and `Restore` write and read the
whole state as JSON.

`encoding/json` is a parameter.  Of what it does to the state it is only known
that a state whose values have been decoded from JSON is read back, as maps: the
order of the entries of a map means nothing.
-/

namespace Geryon.Raft

open Go Conc List AList UInt8

/-! ## The model -/

inductive CommandType where
  | noOp
  | poolConfigUpdate
  | userCreate
  | userUpdate
  | userDelete
  | cacheInvalidate
  | cacheInvalidatePattern
  | backendDetach
  | backendAttach
  /-- Any other number. -/
  | unknown (n : Int)
  deriving DecidableEq

/-- `Command`. -/
structure FSMCommand where
  type : CommandType
  data : List UInt8

/-- `FSMUser`.  `none` is the nil slice. -/
structure FSMUser where
  username : Str
  passwordHash : Str := []
  maxConnections : Int := 0
  defaultPool : Str := []
  allowedPools : Option (List Str) := none

structure FSMBackend where
  name : Str
  host : Str
  port : Int
  role : Str
  status : Str
  detached : Bool

/-- `map[string]α`. -/
abbrev StrMap (α : Type) := AList fun _ : Str => α

/-- `FSMState`.  `Config` are the values that JSON is decoded to. -/
structure FSMState (Config : Type) where
  version : Nat
  poolConfigs : StrMap Config
  users : StrMap FSMUser
  backends : StrMap FSMBackend

structure PoolConfigUpdateData (Config : Type) where
  name : Str
  config : Config
  delete : Bool

/-- `BackendDetachData` and `BackendAttachData`. -/
structure BackendData where
  name : Str
  poolName : Str

/-- What the state machine uses of `encoding/json`.  An error is its text. -/
structure FSMCodec where
  Config : Type
  poolConfigUpdate : List UInt8 → Except Str (PoolConfigUpdateData Config)
  userUpdate : List UInt8 → Except Str FSMUser
  userDelete : List UInt8 → Except Str Str
  cacheInvalidate : List UInt8 → Except Str (Option (List Str))
  cacheInvalidatePattern : List UInt8 → Except Str Str
  backend : List UInt8 → Except Str BackendData
  marshalState : FSMState Config → Except Str (List UInt8)
  unmarshalState : List UInt8 → Except Str (FSMState Config)

/-- The errors of the state machine: which data could not be decoded, and why. -/
inductive FSMError where
  | poolConfigUpdate (err : Str)
  | userUpdate (err : Str)
  | userDelete (err : Str)
  | cacheInvalidate (err : Str)
  | cacheInvalidatePattern (err : Str)
  | backendDetach (err : Str)
  | backendAttach (err : Str)
  /-- `unknown command type`. -/
  | unknownCommand (n : Int)
  | marshal (err : Str)
  | snapshot (err : Str)
  deriving DecidableEq

/-- A call of one of the functions of `FSMConfig`. -/
inductive Callback (Config : Type) where
  | onPoolConfigUpdate (name : Str) (config : Config)
  | onUserChange (username : Str) (user : Option FSMUser) (deleted : Bool)
  | onBackendChange (name : Str) (backend : FSMBackend)
  | onCacheInvalidate (pattern : Str) (tables : Option (List Str))

/-- `FSMConfig`: which of the functions are there. -/
structure FSMConfig where
  onPoolConfigUpdate : Bool
  onUserChange : Bool
  onBackendChange : Bool
  onCacheInvalidate : Bool

/-- What is seen of an `Apply`: its error, and the calls it makes.  The result is
always nil. -/
structure Applied (Config : Type) where
  err : Option FSMError := none
  calls : List (Callback Config) := []

/-- The state of `NewGeryonFSM`. -/
def FSMState.new (Config : Type) : FSMState Config := ⟨1, ∅, ∅, ∅⟩

section

variable (J : FSMCodec) (config : FSMConfig)

namespace FSMState

variable (s : FSMState J.Config)

/-- The call is made if the function is there. -/
def callback {Config : Type} (present : Bool) (call : Callback Config) : Applied Config :=
  { calls := if present then [call] else [] }

def applyPoolConfigUpdate (data : List UInt8) : Applied J.Config × FSMState J.Config :=
  match J.poolConfigUpdate data with
  | .error err => ({ err := some (.poolConfigUpdate err) }, s)
  | .ok update =>
    (callback config.onPoolConfigUpdate (.onPoolConfigUpdate update.name update.config),
      { s with
        poolConfigs :=
          if update.delete then s.poolConfigs.erase update.name
          else s.poolConfigs.insert update.name update.config })

def applyUserUpdate (data : List UInt8) : Applied J.Config × FSMState J.Config :=
  match J.userUpdate data with
  | .error err => ({ err := some (.userUpdate err) }, s)
  | .ok user =>
    (callback config.onUserChange (.onUserChange user.username (some user) false),
      { s with users := s.users.insert user.username user })

def applyUserDelete (data : List UInt8) : Applied J.Config × FSMState J.Config :=
  match J.userDelete data with
  | .error err => ({ err := some (.userDelete err) }, s)
  | .ok username =>
    (callback config.onUserChange (.onUserChange username none true),
      { s with users := s.users.erase username })

def applyCacheInvalidate (data : List UInt8) : Applied J.Config × FSMState J.Config :=
  match J.cacheInvalidate data with
  | .error err => ({ err := some (.cacheInvalidate err) }, s)
  | .ok tables => (callback config.onCacheInvalidate (.onCacheInvalidate [] tables), s)

def applyCacheInvalidatePattern (data : List UInt8) : Applied J.Config × FSMState J.Config :=
  match J.cacheInvalidatePattern data with
  | .error err => ({ err := some (.cacheInvalidatePattern err) }, s)
  | .ok pattern => (callback config.onCacheInvalidate (.onCacheInvalidate pattern none), s)

/-- The common part of `applyBackendDetach` and `applyBackendAttach`: a backend
that is there is changed. -/
def applyBackend (data : List UInt8) (error : Str → FSMError) (detached : Bool) (status : Str) :
    Applied J.Config × FSMState J.Config :=
  match J.backend data with
  | .error err => ({ err := some (error err) }, s)
  | .ok d =>
    match s.backends.lookup d.name with
    | none => ({}, s)
    | some b =>
      let b' := { b with detached := detached, status := status }
      (callback config.onBackendChange (.onBackendChange d.name b'),
        { s with backends := s.backends.insert d.name b' })

def applyBackendDetach (data : List UInt8) : Applied J.Config × FSMState J.Config :=
  applyBackend J config s data .backendDetach true (str "detached")

def applyBackendAttach (data : List UInt8) : Applied J.Config × FSMState J.Config :=
  applyBackend J config s data .backendAttach false (str "active")

/-- `f.state.Version++`, of a `uint64`. -/
def bump {Config : Type} (s : FSMState Config) : FSMState Config :=
  { s with version := (s.version + 1) % 18446744073709551616 }

def apply (command : FSMCommand) : Applied J.Config × FSMState J.Config :=
  match command.type with
  | .noOp => ({}, s.bump)
  | .poolConfigUpdate => applyPoolConfigUpdate J config s.bump command.data
  | .userCreate | .userUpdate => applyUserUpdate J config s.bump command.data
  | .userDelete => applyUserDelete J config s.bump command.data
  | .cacheInvalidate => applyCacheInvalidate J config s.bump command.data
  | .cacheInvalidatePattern => applyCacheInvalidatePattern J config s.bump command.data
  | .backendDetach => applyBackendDetach J config s.bump command.data
  | .backendAttach => applyBackendAttach J config s.bump command.data
  | .unknown n => ({ err := some (.unknownCommand n) }, s.bump)

def snapshot : Except FSMError (List UInt8) :=
  match J.marshalState s with
  | .error err => .error (.marshal err)
  | .ok data => .ok data

def restore (data : List UInt8) : Option FSMError × FSMState J.Config :=
  match J.unmarshalState data with
  | .error err => (some (.snapshot err), s)
  | .ok s' => (none, s')

end FSMState

def geryonFSM : Object (FSMState J.Config) FSMCommand (Applied J.Config) where
  call s command := FSMState.apply J config s command

end

/-! ## States that are the same -/

/-- The maps have the same entries. -/
def SameMap {α : Type} (m m' : StrMap α) : Prop := ∀ key, m.lookup key = m'.lookup key

namespace SameMap

variable {α : Type} {m m' : StrMap α}

theorem insert (h : SameMap m m') (key : Str) (value : α) :
    SameMap (m.insert key value) (m'.insert key value) := by
  intro key'
  by_cases hkey : key' = key
  · rw [hkey, lookup_insert, lookup_insert]
  · rw [lookup_insert_ne hkey, lookup_insert_ne hkey, h key']

theorem erase (h : SameMap m m') (key : Str) : SameMap (m.erase key) (m'.erase key) := by
  intro key'
  by_cases hkey : key' = key
  · rw [hkey, lookup_erase, lookup_erase]
  · rw [lookup_erase_ne hkey, lookup_erase_ne hkey, h key']

end SameMap

/-- The states are the same but for the order of the entries. -/
structure FSMState.Same {Config : Type} (s t : FSMState Config) : Prop where
  version : s.version = t.version
  poolConfigs : SameMap s.poolConfigs t.poolConfigs
  users : SameMap s.users t.users
  backends : SameMap s.backends t.backends

/-- The answers are equal, and the states the same. -/
abbrev FSMState.Alike {α Config : Type} (x y : α × FSMState Config) : Prop :=
  x.1 = y.1 ∧ x.2.Same y.2

namespace FSMState

variable {J : FSMCodec} {config : FSMConfig} {s t : FSMState J.Config}

namespace Same

variable (h : s.Same t)
include h

theorem bump : s.bump.Same t.bump :=
  { h with version := congrArg (fun v => (v + 1) % 18446744073709551616) h.version }

section

variable (data : List UInt8)

theorem applyPoolConfigUpdate :
    Alike (applyPoolConfigUpdate J config s data) (applyPoolConfigUpdate J config t data) := by
  rw [FSMState.applyPoolConfigUpdate, FSMState.applyPoolConfigUpdate]
  split
  · exact ⟨rfl, h⟩
  · refine ⟨rfl, { h with poolConfigs := ?_ }⟩
    split
    · exact h.poolConfigs.erase _
    · exact h.poolConfigs.insert _ _

theorem applyUserUpdate :
    Alike (applyUserUpdate J config s data) (applyUserUpdate J config t data) := by
  rw [FSMState.applyUserUpdate, FSMState.applyUserUpdate]
  split
  · exact ⟨rfl, h⟩
  · exact ⟨rfl, { h with users := h.users.insert _ _ }⟩

theorem applyUserDelete :
    Alike (applyUserDelete J config s data) (applyUserDelete J config t data) := by
  rw [FSMState.applyUserDelete, FSMState.applyUserDelete]
  split
  · exact ⟨rfl, h⟩
  · exact ⟨rfl, { h with users := h.users.erase _ }⟩

theorem applyBackend (error : Str → FSMError) (detached : Bool) (status : Str) :
    Alike (applyBackend J config s data error detached status)
      (applyBackend J config t data error detached status) := by
  rw [FSMState.applyBackend, FSMState.applyBackend]
  cases J.backend data with
  | error err => exact ⟨rfl, h⟩
  | ok d =>
    dsimp only
    rw [h.backends d.name]
    cases t.backends.lookup d.name with
    | none => exact ⟨rfl, h⟩
    | some b => exact ⟨rfl, { h with backends := h.backends.insert _ _ }⟩

end

/-- A command is answered alike, and leaves states that are the same. -/
theorem apply (command : FSMCommand) :
    Alike (apply J config s command) (apply J config t command) := by
  rw [FSMState.apply, FSMState.apply]
  cases command.type with
  | noOp | unknown => exact ⟨rfl, h.bump⟩
  | poolConfigUpdate => exact h.bump.applyPoolConfigUpdate command.data
  | userCreate | userUpdate => exact h.bump.applyUserUpdate command.data
  | userDelete => exact h.bump.applyUserDelete command.data
  | cacheInvalidate | cacheInvalidatePattern =>
    simp only [applyCacheInvalidate, applyCacheInvalidatePattern]
    split
    · exact ⟨rfl, h.bump⟩
    · exact ⟨rfl, h.bump⟩
  | backendDetach | backendAttach => exact h.bump.applyBackend command.data _ _ _

end Same

/-! ## States that have been decoded -/

/-- All values of the state have been decoded from JSON.  No command adds a
backend. -/
structure Decoded (J : FSMCodec) (s : FSMState J.Config) : Prop where
  poolConfigs : ∀ name value, s.poolConfigs.lookup name = some value →
    ∃ data update, J.poolConfigUpdate data = .ok update ∧ update.name = name ∧
      update.config = value
  users : ∀ name user, s.users.lookup name = some user →
    ∃ data, J.userUpdate data = .ok user ∧ user.username = name
  backends : s.backends = ∅

namespace Decoded

theorem new (J : FSMCodec) : Decoded J (FSMState.new J.Config) where
  poolConfigs := by
    intro name value h
    cases h
  users := by
    intro name user h
    cases h
  backends := rfl

section

variable (h : Decoded J s)
include h

theorem bump : Decoded J s.bump := ⟨h.poolConfigs, h.users, h.backends⟩

section

variable (data : List UInt8)

theorem applyPoolConfigUpdate : Decoded J (FSMState.applyPoolConfigUpdate J config s data).2 := by
  rw [FSMState.applyPoolConfigUpdate]
  split
  · exact h
  · rename_i update hupdate
    refine { h with poolConfigs := ?_ }
    intro name value hlookup
    by_cases hname : name = update.name
    · split at hlookup
      · rw [hname, lookup_erase] at hlookup
        cases hlookup
      · rw [hname, lookup_insert] at hlookup
        exact ⟨data, update, hupdate, hname.symm, Option.some.inj hlookup⟩
    · split at hlookup
      · rw [lookup_erase_ne hname] at hlookup
        exact h.poolConfigs name value hlookup
      · rw [lookup_insert_ne hname] at hlookup
        exact h.poolConfigs name value hlookup

theorem applyUserUpdate : Decoded J (FSMState.applyUserUpdate J config s data).2 := by
  rw [FSMState.applyUserUpdate]
  split
  · exact h
  · rename_i user huser
    refine { h with users := ?_ }
    intro name user' hlookup
    by_cases hname : name = user.username
    · rw [hname, lookup_insert] at hlookup
      cases hlookup
      exact ⟨data, huser, hname.symm⟩
    · rw [lookup_insert_ne hname] at hlookup
      exact h.users name user' hlookup

theorem applyUserDelete : Decoded J (FSMState.applyUserDelete J config s data).2 := by
  rw [FSMState.applyUserDelete]
  split
  · exact h
  · rename_i username _
    refine { h with users := ?_ }
    intro name user hlookup
    by_cases hname : name = username
    · rw [hname, lookup_erase] at hlookup
      cases hlookup
    · rw [lookup_erase_ne hname] at hlookup
      exact h.users name user hlookup

theorem applyBackend (error : Str → FSMError) (detached : Bool) (status : Str) :
    (FSMState.applyBackend J config s data error detached status).2 = s := by
  rw [FSMState.applyBackend]
  cases J.backend data with
  | error err => rfl
  | ok d =>
    dsimp only
    rw [h.backends, lookup_empty]

end

theorem apply (command : FSMCommand) : Decoded J (FSMState.apply J config s command).2 := by
  rw [FSMState.apply]
  cases command.type with
  | noOp | unknown => exact h.bump
  | poolConfigUpdate => exact h.bump.applyPoolConfigUpdate command.data
  | userCreate | userUpdate => exact h.bump.applyUserUpdate command.data
  | userDelete => exact h.bump.applyUserDelete command.data
  | cacheInvalidate | cacheInvalidatePattern =>
    simp only [applyCacheInvalidate, applyCacheInvalidatePattern]
    split
    · exact h.bump
    · exact h.bump
  | backendDetach | backendAttach =>
    simp only [applyBackendDetach, applyBackendAttach, h.bump.applyBackend]
    exact h.bump

end

theorem run (commands : List FSMCommand) :
    Decoded J ((geryonFSM J config).run (FSMState.new J.Config) commands).2 :=
  Object.run_invariant (fun _ command h => h.apply command) (new J) commands

end Decoded

end FSMState

/-! ## Snapshots -/

/-- A state whose values have been decoded from JSON is read back. -/
structure FSMJSON extends FSMCodec where
  unmarshal_marshal : ∀ s, FSMState.Decoded toFSMCodec s →
    ∃ data s', marshalState s = .ok data ∧ unmarshalState data = .ok s' ∧ s'.Same s

/-- After any commands, the state machine has a snapshot, and any one that is restored
from it has the same errors, calls and states on any further commands. -/
theorem restored_fsm_agrees (J : FSMJSON) (config : FSMConfig) (first second : List FSMCommand) :
    ∃ data, FSMState.snapshot J.toFSMCodec
        ((geryonFSM J.toFSMCodec config).run (.new J.Config) first).2 = .ok data ∧
      ∀ other, ∃ restored, FSMState.restore J.toFSMCodec other data = (none, restored) ∧
        ((geryonFSM J.toFSMCodec config).run restored second).1 =
          ((geryonFSM J.toFSMCodec config).run
            ((geryonFSM J.toFSMCodec config).run (.new J.Config) first).2 second).1 ∧
        ((geryonFSM J.toFSMCodec config).run restored second).2.Same
          ((geryonFSM J.toFSMCodec config).run
            ((geryonFSM J.toFSMCodec config).run (.new J.Config) first).2 second).2 := by
  have hdecoded : FSMState.Decoded J.toFSMCodec
      ((geryonFSM J.toFSMCodec config).run (.new J.Config) first).2 := FSMState.Decoded.run first
  obtain ⟨data, restored, hmarshal, hunmarshal, hsame⟩ := J.unmarshal_marshal _ hdecoded
  refine ⟨data, by rw [FSMState.snapshot, hmarshal], ?_⟩
  intro other
  refine ⟨restored, by rw [FSMState.restore, hunmarshal], ?_⟩
  have hall : ∀ command ∈ second, True := fun _ _ => trivial
  exact Object.run_sim (fun _ _ command h _ => h.apply command) hsame hall

/-! ## A codec -/

/-- A map with these keys, and a value for each. -/
def mapOf {α : Type} (value : Str → α) (keys : List Str) : StrMap α :=
  (keys.map fun key => (⟨key, value key⟩ : Sigma fun _ : Str => α)).toAList

theorem lookup_mapOf {α : Type} (value : Str → α) (keys : List Str) (key : Str) :
    (mapOf value keys).lookup key = if key ∈ keys then some (value key) else none := by
  rw [mapOf, lookup_to_alist]
  induction keys with
  | nil => rfl
  | cons k keys ih =>
    rw [map_cons]
    by_cases hk : k = key
    · rw [hk, dlookup_cons_eq, if_pos mem_cons_self]
    · rw [dlookup_cons_ne _ _ (Ne.symm hk), ih]
      simp [Ne.symm hk]

theorem same_mapOf {α : Type} {value : Str → α} {m : StrMap α}
    (h : ∀ key v, m.lookup key = some v → v = value key) : SameMap (mapOf value m.keys) m := by
  intro key
  rw [lookup_mapOf]
  cases hlookup : m.lookup key with
  | none =>
    have hmem : key ∉ m.keys := lookup_eq_none.mp hlookup
    rw [if_neg hmem]
  | some v =>
    have hmem : key ∈ m.keys := lookup_isSome.mp (by rw [hlookup]; rfl)
    rw [if_pos hmem, h key v hlookup]

/-- Data is a name, and a state is the number of its version and its names. -/
def namesCodec : FSMCodec where
  Config := Unit
  poolConfigUpdate data := .ok ⟨data, (), false⟩
  userUpdate data := .ok { username := data }
  userDelete data := .ok data
  cacheInvalidate _ := .ok none
  cacheInvalidatePattern data := .ok data
  backend data := .ok ⟨data, []⟩
  marshalState s := .ok (replicate (Encodable.encode
    (s.version, s.poolConfigs.keys.map (map toNat),
      s.users.keys.map (map toNat))) 0)
  unmarshalState data :=
    match (Encodable.decode data.length : Option (Nat × List (List Nat) × List (List Nat))) with
    | none => .error []
    | some (version, pools, users) =>
      .ok ⟨version, mapOf (fun _ => ()) (pools.map (map ofNat)),
        mapOf (fun name => { username := name }) (users.map (map ofNat)), ∅⟩

theorem map_ofNat_toNat (names : List Str) :
    (names.map (map toNat)).map (map ofNat) = names := by
  rw [map_map]
  have hid : (map ofNat ∘ map toNat) = id := by
    funext name
    rw [Function.comp_apply, map_map]
    have : (UInt8.ofNat ∘ UInt8.toNat) = id := by
      funext b
      exact UInt8.ofNat_toNat
    rw [this, map_id]
    rfl
  rw [hid, map_id]

/-- There are codecs that read back what they have written. -/
instance : Inhabited FSMJSON where
  default :=
    { namesCodec with
      unmarshal_marshal := by
        intro s h
        refine ⟨_, ⟨s.version, mapOf (fun _ => ()) s.poolConfigs.keys,
          mapOf (fun name => { username := name }) s.users.keys, ∅⟩, rfl, ?_, ?_⟩
        · simp only [namesCodec, length_replicate, Encodable.encodek, map_ofNat_toNat]
        · refine ⟨rfl, same_mapOf fun _ _ _ => rfl, same_mapOf ?_, ?_⟩
          · intro name user hlookup
            obtain ⟨data, hdata, hname⟩ := h.users name user hlookup
            cases hdata
            rw [← hname]
          · rw [h.backends]
            exact fun _ => rfl }

/-! ## Maps that are nil -/

/-- `FSMState` as `json.Unmarshal` leaves it.  A map that is missing, or null, is
nil. -/
structure RawState (Config : Type) where
  version : Nat
  poolConfigs : Option (StrMap Config)
  users : Option (StrMap FSMUser)
  backends : Option (StrMap FSMBackend)

/-- A nil map is read as one that is empty. -/
def RawState.state {Config : Type} (r : RawState Config) : FSMState Config :=
  ⟨r.version, r.poolConfigs.getD ∅, r.users.getD ∅, r.backends.getD ∅⟩

/-- `encoding/json` with nil maps.  An object without members is decoded. -/
structure RawJSON extends FSMCodec where
  unmarshalRaw : List UInt8 → Except Str (RawState Config)
  unmarshalState_eq : ∀ data, unmarshalState data = (unmarshalRaw data).map RawState.state
  poolConfigUpdate_empty :
    ∃ update, poolConfigUpdate (str "\x7b\x7d") = .ok update ∧ update.delete = false
  userUpdate_empty : ∃ user, userUpdate (str "\x7b\x7d") = .ok user

namespace RawState

variable (J : RawJSON) (config : FSMConfig) (r : RawState J.Config)

/-- `Apply` assigns to an entry of a nil map. -/
def assignsNil (command : FSMCommand) : Bool :=
  match command.type with
  | .poolConfigUpdate =>
    match J.poolConfigUpdate command.data with
    | .ok update => !update.delete && r.poolConfigs.isNone
    | .error _ => false
  | .userCreate | .userUpdate =>
    match J.userUpdate command.data with
    | .ok _ => r.users.isNone
    | .error _ => false
  | .backendDetach | .backendAttach =>
    match J.backend command.data with
    | .ok d => (r.state.backends.lookup d.name).isSome && r.backends.isNone
    | .error _ => false
  | _ => false

/-- `Apply`: `none` is the panic. -/
def apply (command : FSMCommand) : Option (RawState J.Config) :=
  if r.assignsNil J command then none
  else
    let s := (FSMState.apply J.toFSMCodec config r.state command).2
    some ⟨s.version, r.poolConfigs.map fun _ => s.poolConfigs, r.users.map fun _ => s.users,
      r.backends.map fun _ => s.backends⟩

/-- `Restore`, and `Apply` for one command after the other if it succeeds. -/
def restoreApply (data : List UInt8) (commands : List FSMCommand) :
    Option (Except Str (RawState J.Config)) :=
  match J.unmarshalRaw data with
  | .error err => some (.error err)
  | .ok r => (commands.foldlM (apply J config) r).map .ok

variable {J config r}

theorem assignsNil_eq_false (hpools : r.poolConfigs.isSome) (husers : r.users.isSome)
    (command : FSMCommand) : r.assignsNil J command = false := by
  rw [assignsNil]
  cases command.type with
  | poolConfigUpdate => cases J.poolConfigUpdate command.data <;> simp [hpools]
  | userCreate | userUpdate => cases J.userUpdate command.data <;> simp [husers]
  | backendDetach | backendAttach =>
    cases J.backend command.data with
    | error => rfl
    | ok d => cases hbackends : r.backends <;> simp [state, hbackends]
  | _ => rfl

theorem foldlM_apply (hpools : r.poolConfigs.isSome) (husers : r.users.isSome)
    (commands : List FSMCommand) : (commands.foldlM (apply J config) r).isSome := by
  induction commands generalizing r with
  | nil => rfl
  | cons command commands ih =>
    rw [foldlM_cons, apply, assignsNil_eq_false hpools husers]
    exact ih (by simpa using hpools) (by simpa using husers)

/-- After a document has been restored no command panics, exactly if the document
has an object for the pool configurations and one for the users. -/
theorem restored_applies_iff (J : RawJSON) (config : FSMConfig) (data : List UInt8) :
    (∀ commands, (restoreApply J config data commands).isSome) ↔
      ∀ r, J.unmarshalRaw data = .ok r → r.poolConfigs.isSome ∧ r.users.isSome := by
  constructor
  · intro h r hr
    have hassigns : ∀ command, r.assignsNil J command = false := by
      intro command
      have hsome := h [command]
      rw [restoreApply, hr] at hsome
      by_contra hnil
      simp [apply, hnil] at hsome
    obtain ⟨update, hupdate, hdelete⟩ := J.poolConfigUpdate_empty
    obtain ⟨user, huser⟩ := J.userUpdate_empty
    have hpools := hassigns ⟨.poolConfigUpdate, str "\x7b\x7d"⟩
    have husers := hassigns ⟨.userUpdate, str "\x7b\x7d"⟩
    simp only [assignsNil, hupdate, hdelete, Bool.not_false, Bool.true_and] at hpools
    simp only [assignsNil, huser] at husers
    exact ⟨by simpa using hpools, by simpa using husers⟩
  · intro h commands
    rw [restoreApply]
    cases hr : J.unmarshalRaw data with
    | error err => rfl
    | ok r =>
      obtain ⟨hpools, husers⟩ := h r hr
      rw [Option.isSome_map]
      exact foldlM_apply hpools husers commands

/-- A codec that finds nothing in any document. -/
def nothing : RawJSON :=
  { namesCodec with
    unmarshalState := fun _ => .ok ⟨0, ∅, ∅, ∅⟩
    unmarshalRaw := fun _ => .ok ⟨0, none, none, none⟩
    unmarshalState_eq := fun _ => rfl
    poolConfigUpdate_empty := ⟨_, rfl, rfl⟩
    userUpdate_empty := ⟨_, rfl⟩ }

/-- An object without members is restored, and the first user is written to a nil
map. -/
theorem restored_panics : restoreApply nothing ⟨true, true, true, true⟩ (str "\x7b\x7d")
    [⟨.userCreate, str "\x7b\x7d"⟩] = none :=
  rfl

end RawState

end Geryon.Raft
