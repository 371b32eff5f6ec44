import Geryon.Go.Text
import Mathlib.Data.List.AList

/-!
# The health of backends

`internal/pool/health.go`, and the parts of `internal/pool/pool.go` that select a
backend, connect to it and drain it.

What is known of a backend is in three places.  `Backend.Healthy` is written by
connection attempts, health checks and draining; the `Status` in its
`BackendHealth` decides whether a successful check writes `Healthy`; and the
circuit in its `BackendHealth` is opened and closed by connection attempts only.
`AllowProbe`, which would let a request through an open circuit, is not called,
and so the times it looks at are left out.
-/

namespace Geryon.Health

open Go List Option

/-! ## The model -/

inductive HealthStatus where
  | unknown
  | healthy
  | degraded
  | unhealthy
  deriving DecidableEq

inductive CircuitState where
  | closed
  | opened
  | halfOpen
  deriving DecidableEq

/-- `BackendHealth`.  `backend` is the index of the backend in the pool. -/
structure BackendHealth where
  backend : Nat
  status : HealthStatus := .unknown
  consecutiveFailures : Nat := 0
  circuitState : CircuitState := .closed
  deriving DecidableEq

namespace BackendHealth

def isCircuitOpen (bh : BackendHealth) : Bool := decide (bh.circuitState = .opened)

def recordSuccess (bh : BackendHealth) : BackendHealth :=
  { bh with consecutiveFailures := 0, status := .healthy, circuitState := .closed }

def recordFailure (bh : BackendHealth) : BackendHealth :=
  let failures := bh.consecutiveFailures + 1
  if bh.circuitState = .halfOpen then
    { bh with consecutiveFailures := failures, circuitState := .opened }
  else if 5 ≤ failures then
    { bh with consecutiveFailures := failures, circuitState := .opened, status := .unhealthy }
  else { bh with consecutiveFailures := failures }

end BackendHealth

structure Backend where
  address : Str
  healthy : Bool := true
  draining : Bool := false
  deriving DecidableEq

/-- `Pool`, with the `backends` of its health checker in `health`.  Backends are
named by their index. -/
structure Pool where
  backends : List Backend := []
  primary : Option Nat := none
  replicas : List Nat := []
  health : AList (fun _ : Str => BackendHealth) := ∅
  maxFailures : Int

structure Host where
  address : Str
  role : Str

namespace Pool

/-- One round of the loop of `NewPool` over the hosts, with `AddBackend` of the
health checker. -/
def addHost (p : Pool) (host : Host) : Pool :=
  let i := p.backends.length
  { p with
    backends := p.backends ++ [{ address := host.address }]
    health :=
      if (p.health.lookup host.address).isSome then p.health
      else p.health.insert host.address { backend := i }
    primary := if host.role = str "primary" then some i else p.primary
    replicas := if host.role = str "primary" then p.replicas else p.replicas ++ [i] }

/-- `NewPool`, with `MaxFailures` as `NewHealthChecker` takes it. -/
def newPool (maxFailures : Int) (hosts : List Host) : Pool :=
  hosts.foldl addHost { maxFailures := if maxFailures = 0 then 3 else maxFailures }

/-! ### Selecting a backend -/

def isCircuitOpen (p : Pool) (b : Backend) : Bool :=
  (p.health.lookup b.address).any BackendHealth.isCircuitOpen

/-- The condition of all selections. -/
def mayChoose (p : Pool) (i : Nat) : Bool :=
  (p.backends[i]?).any fun b => b.healthy && !b.draining && !p.isCircuitOpen b

/-- The last resort of all selections. -/
def selectAny (p : Pool) : Option Nat := (List.range p.backends.length).find? p.mayChoose

def selectBackendWithFallback (p : Pool) : Option Nat :=
  p.primary.filter p.mayChoose <|> p.replicas.find? p.mayChoose <|> p.selectAny

def selectBackendByRole (p : Pool) (role : Str) : Option Nat :=
  if role = str "replica" then
    p.replicas.find? p.mayChoose <|> p.primary.filter p.mayChoose <|> p.selectAny
  else if role = str "primary" then p.primary.filter p.mayChoose <|> p.selectAny
  else p.selectAny

/-! ### Connecting to a backend -/

def modifyBackend (p : Pool) (i : Nat) (f : Backend → Backend) : Pool :=
  { p with backends := p.backends.modify i f }

def modifyHealth (p : Pool) (address : Str) (f : BackendHealth → BackendHealth) : Pool :=
  match p.health.lookup address with
  | none => p
  | some bh => { p with health := p.health.insert address (f bh) }

/-- `tryConnect` with `recordBackendSuccess`. -/
def connected (p : Pool) (i : Nat) (address : Str) : Pool :=
  (p.modifyBackend i fun b => { b with healthy := true }).modifyHealth address
    BackendHealth.recordSuccess

/-- `tryConnect` fails: `recordBackendFailure`, and the backend is marked. -/
def connectFailed (p : Pool) (i : Nat) (address : Str) : Pool :=
  (p.modifyHealth address BackendHealth.recordFailure).modifyBackend i fun b =>
    { b with healthy := false }

/-- The loop of `createServerConn` and `createServerConnToRole`: the addresses it
has tried to connect to, and the pool afterwards.  `ok` says which attempts
succeed. -/
def attempts (select : Pool → Option Nat) (ok : Nat → Bool) : Nat → Pool → List Str × Pool
  | 0, p => ([], p)
  | left + 1, p =>
    match select p with
    | none => ([], p)
    | some i =>
      match p.backends[i]? with
      | none => ([], p)
      | some b =>
        if p.isCircuitOpen b then attempts select ok left p
        else if ok left then ([b.address], p.connected i b.address)
        else
          let r := attempts select ok left (p.connectFailed i b.address)
          (b.address :: r.1, r.2)

/-! ### Checks and draining -/

/-- `checkBackend`, after `performCheck`. -/
def checkBackend (p : Pool) (address : Str) (ok : Bool) : Pool :=
  match p.health.lookup address with
  | none => p
  | some bh =>
    if ok then
      if bh.status ≠ .healthy then
        (p.modifyHealth address fun bh =>
          { bh with consecutiveFailures := 0, status := .healthy }).modifyBackend bh.backend
            fun b => { b with healthy := true }
      else p.modifyHealth address fun bh => { bh with consecutiveFailures := 0 }
    else
      let failures := bh.consecutiveFailures + 1
      if p.maxFailures ≤ failures then
        if bh.status ≠ .unhealthy then
          (p.modifyHealth address fun bh =>
            { bh with consecutiveFailures := failures, status := .unhealthy }).modifyBackend
              bh.backend fun b => { b with healthy := false }
        else p.modifyHealth address fun bh => { bh with consecutiveFailures := failures }
      else
        p.modifyHealth address fun bh =>
          { bh with consecutiveFailures := failures, status := .degraded }

/-- `DrainBackend` and `CancelDrain`: the first backend with the address changes,
unless it is so already. -/
def setDraining (p : Pool) (address : Str) (draining : Bool) : Pool :=
  match p.backends.findIdx? fun b => decide (b.address = address) with
  | none => p
  | some i =>
    p.modifyBackend i fun b =>
      if b.draining = draining then b else { b with draining := draining, healthy := !draining }

/-! ### Events -/

inductive Event where
  /-- `createServerConn`, or `createServerConnToRole` with a role. -/
  | connect (role : Option Str) (ok : Nat → Bool)
  | checkBackend (address : Str) (ok : Bool)
  | drainBackend (address : Str)
  | cancelDrain (address : Str)

/-- The addresses of the backends that an event concerns, and the pool after it. -/
def step (p : Pool) : Event → List Str × Pool
  | .connect none ok => attempts selectBackendWithFallback ok 3 p
  | .connect (some role) ok => attempts (selectBackendByRole · role) ok 3 p
  | .checkBackend address ok => ([address], p.checkBackend address ok)
  | .drainBackend address => ([address], p.setDraining address true)
  | .cancelDrain address => ([address], p.setDraining address false)

def run (p : Pool) (events : List Event) : Pool := events.foldl (fun p e => (p.step e).2) p

/-- None of the events concerns the address. -/
def Quiet (address : Str) : Pool → List Event → Prop
  | _, [] => True
  | p, e :: events => address ∉ (p.step e).1 ∧ Quiet address (p.step e).2 events

variable {p p' : Pool} {i : Nat} {address : Str}

/-! ## What an event leaves alone -/

/-- Nothing has changed that concerns the address. -/
structure Kept (address : Str) (p p' : Pool) : Prop where
  health : p'.health.lookup address = p.health.lookup address
  backends : ∀ (i : Nat) (b : Backend), p.backends[i]? = some b → b.address = address →
    p'.backends[i]? = some b

theorem Kept.refl (p : Pool) : Kept address p p := ⟨rfl, fun _ _ h _ => h⟩

theorem Kept.trans {p'' : Pool} (h : Kept address p p') (h' : Kept address p' p'') :
    Kept address p p'' :=
  ⟨h'.health.trans h.health, fun i b hb haddr => h'.backends i b (h.backends i b hb haddr) haddr⟩

variable {b : Backend} {address' : Str}

theorem kept_modifyBackend (hb : p.backends[i]? = some b) (hne : b.address ≠ address)
    (f : Backend → Backend) : Kept address p (p.modifyBackend i f) := by
  refine ⟨rfl, ?_⟩
  intro j b' hb' haddr
  have hij : i ≠ j := by
    rintro rfl
    rw [hb] at hb'
    cases hb'
    exact hne haddr
  rw [modifyBackend, getElem?_modify, hb']
  simp only [if_neg hij]
  rfl

theorem kept_modifyHealth (hne : address' ≠ address) (f : BackendHealth → BackendHealth) :
    Kept address p (p.modifyHealth address' f) := by
  rw [modifyHealth]
  split
  · exact .refl p
  · exact ⟨AList.lookup_insert_ne hne.symm, fun _ _ h _ => h⟩

theorem kept_connected (hb : p.backends[i]? = some b) (hne : b.address ≠ address) :
    Kept address p (p.connected i b.address) :=
  (kept_modifyBackend hb hne _).trans (kept_modifyHealth hne _)

theorem backends_modifyHealth (f : BackendHealth → BackendHealth) :
    (p.modifyHealth address f).backends = p.backends := by
  rw [modifyHealth]
  split
  · rfl
  · rfl

theorem kept_connectFailed (hb : p.backends[i]? = some b) (hne : b.address ≠ address) :
    Kept address p (p.connectFailed i b.address) := by
  refine (kept_modifyHealth hne BackendHealth.recordFailure).trans ?_
  exact kept_modifyBackend (by rw [backends_modifyHealth]; exact hb) hne _

theorem kept_attempts {select : Pool → Option Nat} {ok : Nat → Bool} {left : Nat}
    (h : address ∉ (attempts select ok left p).1) :
    Kept address p (attempts select ok left p).2 := by
  induction left generalizing p with
  | zero => exact .refl p
  | succ left ih =>
    rw [attempts] at h ⊢
    cases hselect : select p with
    | none => exact .refl p
    | some i =>
      rw [hselect] at h
      dsimp only at h ⊢
      cases hb : p.backends[i]? with
      | none => exact .refl p
      | some b =>
        rw [hb] at h
        dsimp only at h ⊢
        by_cases hopen : p.isCircuitOpen b = true
        · rw [if_pos hopen] at h ⊢
          exact ih h
        · rw [if_neg hopen] at h ⊢
          by_cases hok : ok left = true
          · rw [if_pos hok] at h ⊢
            have hne : b.address ≠ address := fun heq => h (heq ▸ mem_cons_self)
            exact kept_connected hb hne
          · rw [if_neg hok] at h ⊢
            have hne : b.address ≠ address := fun heq => h (heq ▸ mem_cons_self)
            exact (kept_connectFailed hb hne).trans (ih fun hmem => h (mem_cons_of_mem _ hmem))

theorem kept_of_findIdx? (hne : address' ≠ address) {f : Backend → Backend}
    (hfind : p.backends.findIdx? (fun b => decide (b.address = address')) = some i) :
    Kept address p (p.modifyBackend i f) := by
  obtain ⟨hlt, haddr, -⟩ := findIdx?_eq_some_iff_getElem.mp hfind
  have hb : p.backends[i]? = some p.backends[i] := getElem?_eq_getElem hlt
  exact kept_modifyBackend hb (of_decide_eq_true haddr ▸ hne) f

theorem kept_setDraining (hne : address' ≠ address) (draining : Bool) :
    Kept address p (p.setDraining address' draining) := by
  rw [setDraining]
  split
  · exact .refl p
  · rename_i hfind
    exact kept_of_findIdx? hne hfind

/-! ## Records and their backends -/

/-- Every backend has a record, and every record belongs to a backend with its
address. -/
structure Tracked (p : Pool) : Prop where
  record : ∀ (i : Nat) (b : Backend), p.backends[i]? = some b →
    ∃ bh, p.health.lookup b.address = some bh
  owner : ∀ (address : Str) (bh : BackendHealth), p.health.lookup address = some bh →
    ∃ b, p.backends[bh.backend]? = some b ∧ b.address = address

/-- The same addresses, and the same backends in the records. -/
structure SameShape (p p' : Pool) : Prop where
  backends : ∀ i : Nat, (p'.backends[i]?).map Backend.address =
    (p.backends[i]?).map Backend.address
  health : ∀ address, (p'.health.lookup address).map BackendHealth.backend =
    (p.health.lookup address).map BackendHealth.backend

namespace SameShape

theorem refl (p : Pool) : SameShape p p := ⟨fun _ => rfl, fun _ => rfl⟩

theorem trans {p'' : Pool} (h : SameShape p p') (h' : SameShape p' p'') : SameShape p p'' :=
  ⟨fun i => (h'.backends i).trans (h.backends i),
    fun address => (h'.health address).trans (h.health address)⟩

theorem tracked (h : SameShape p p') (ht : p.Tracked) : p'.Tracked where
  record := by
    intro i b' hb'
    have hmap := h.backends i
    rw [hb', map_some] at hmap
    obtain ⟨b, hb, haddr⟩ := map_eq_some_iff.mp hmap.symm
    obtain ⟨bh, hbh⟩ := ht.record i b hb
    have hhealth := h.health b'.address
    rw [← haddr, hbh, map_some] at hhealth
    obtain ⟨bh', hbh', -⟩ := map_eq_some_iff.mp hhealth
    exact ⟨bh', haddr ▸ hbh'⟩
  owner := by
    intro address bh' hbh'
    have hhealth := h.health address
    rw [hbh', map_some] at hhealth
    obtain ⟨bh, hbh, hbackend⟩ := map_eq_some_iff.mp hhealth.symm
    obtain ⟨b, hb, haddr⟩ := ht.owner address bh hbh
    have hmap := h.backends bh.backend
    rw [hb, map_some] at hmap
    obtain ⟨b', hb', haddr'⟩ := map_eq_some_iff.mp hmap
    exact ⟨b', hbackend ▸ hb', haddr'.trans haddr⟩

variable {f : Backend → Backend} {g : BackendHealth → BackendHealth}

theorem modifyBackend (hf : ∀ b, (f b).address = b.address) :
    SameShape p (p.modifyBackend i f) := by
  refine ⟨?_, fun _ => rfl⟩
  intro j
  rw [Pool.modifyBackend, getElem?_modify]
  cases p.backends[j]? with
  | none => rfl
  | some b =>
    refine congrArg some ?_
    split
    · exact hf b
    · rfl

section

variable (hg : ∀ bh, (g bh).backend = bh.backend)
include hg

theorem modifyHealth : SameShape p (p.modifyHealth address g) := by
  rw [Pool.modifyHealth]
  split
  · exact refl p
  · rename_i bh hbh
    refine ⟨fun _ => rfl, ?_⟩
    intro address'
    by_cases haddr : address' = address
    · rw [haddr, AList.lookup_insert, hbh, map_some, map_some, hg]
    · rw [AList.lookup_insert_ne haddr]

theorem modifyBoth (hf : ∀ b, (f b).address = b.address) :
    SameShape p ((p.modifyHealth address g).modifyBackend i f) :=
  (modifyHealth hg).trans (modifyBackend hf)

end

theorem connected : SameShape p (p.connected i address) :=
  (modifyBackend (f := fun b => { b with healthy := true }) fun _ => rfl).trans
    (modifyHealth fun _ => rfl)

theorem connectFailed : SameShape p (p.connectFailed i address) := by
  refine modifyBoth (fun bh => ?_) fun _ => rfl
  simp only [BackendHealth.recordFailure]
  split
  · rfl
  · split
    · rfl
    · rfl

end SameShape

theorem sameShape_attempts (select : Pool → Option Nat) (ok : Nat → Bool) (left : Nat) (p : Pool) :
    SameShape p (attempts select ok left p).2 := by
  induction left generalizing p with
  | zero => exact .refl p
  | succ left ih =>
    rw [attempts]
    split
    · exact .refl p
    · split
      · exact .refl p
      · split
        · exact ih p
        · split
          · exact .connected
          · exact SameShape.connectFailed.trans (ih _)

theorem sameShape_checkBackend (p : Pool) (address : Str) (ok : Bool) :
    SameShape p (p.checkBackend address ok) := by
  rw [checkBackend]
  split
  · exact .refl p
  · split
    · split
      · exact .modifyBoth (fun _ => rfl) fun _ => rfl
      · exact .modifyHealth fun _ => rfl
    · dsimp only
      split
      · split
        · exact .modifyBoth (fun _ => rfl) fun _ => rfl
        · exact .modifyHealth fun _ => rfl
      · exact .modifyHealth fun _ => rfl

theorem sameShape_setDraining (p : Pool) (address : Str) (draining : Bool) :
    SameShape p (p.setDraining address draining) := by
  rw [setDraining]
  split
  · exact .refl p
  · refine .modifyBackend fun b => ?_
    split
    · rfl
    · rfl

theorem sameShape_step (p : Pool) (e : Event) : SameShape p (p.step e).2 := by
  cases e with
  | connect role ok =>
    cases role with
    | none | some => exact sameShape_attempts _ ok 3 p
  | checkBackend address ok => exact sameShape_checkBackend p address ok
  | drainBackend address => exact sameShape_setDraining p address true
  | cancelDrain address => exact sameShape_setDraining p address false

theorem Tracked.run (h : p.Tracked) (events : List Event) : (p.run events).Tracked := by
  induction events generalizing p with
  | nil => exact h
  | cons e events ih => exact ih ((sameShape_step p e).tracked h)

theorem Tracked.addHost (h : p.Tracked) (host : Host) : (p.addHost host).Tracked := by
  have hbackends : (p.addHost host).backends = p.backends ++ [{ address := host.address }] := rfl
  have hold : ∀ {j : Nat} {b : Backend}, p.backends[j]? = some b →
      (p.addHost host).backends[j]? = some b := by
    intro j b hb
    rw [hbackends, getElem?_append_left (List.getElem?_eq_some_iff.mp hb).1, hb]
  -- The records are those from before, and one for an address that had none.
  have hhealth : ∀ address, (p.addHost host).health.lookup address =
      if address = host.address ∧ p.health.lookup address = none then
        some { backend := p.backends.length }
      else p.health.lookup address := by
    intro address
    simp only [Pool.addHost]
    by_cases haddr : address = host.address
    · rw [haddr]
      cases hlookup : p.health.lookup host.address with
      | none => simp
      | some bh => simp [hlookup]
    · rw [if_neg (c := address = host.address ∧ _) fun hand => haddr hand.1]
      split
      · rfl
      · exact AList.lookup_insert_ne haddr
  constructor
  · intro j b hb
    rw [hhealth]
    split
    · exact ⟨_, rfl⟩
    · rename_i hnot
      rw [hbackends, getElem?_append] at hb
      split at hb
      · exact h.record j b hb
      · have hnew : b.address = host.address := by
          rw [List.getElem?_eq_some_iff] at hb
          obtain ⟨_, hget⟩ := hb
          rw [← hget]
          simp
        refine ne_none_iff_exists'.mp fun hnone => hnot ⟨hnew, hnone⟩
  · intro address bh hbh
    rw [hhealth] at hbh
    split at hbh
    · rename_i hand
      cases hbh
      refine ⟨{ address := host.address }, ?_, hand.1.symm⟩
      rw [hbackends, getElem?_append_right le_rfl, Nat.sub_self]
      rfl
    · obtain ⟨b, hb, haddr⟩ := h.owner address bh hbh
      exact ⟨b, hold hb, haddr⟩

theorem tracked_newPool (maxFailures : Int) (hosts : List Host) :
    (newPool maxFailures hosts).Tracked := by
  have hfold : ∀ {p : Pool}, p.Tracked → (hosts.foldl Pool.addHost p).Tracked := by
    induction hosts with
    | nil => exact fun h => h
    | cons host hosts ih => exact fun h => ih (h.addHost host)
  refine hfold ⟨?_, ?_⟩
  · intro i b hb
    cases hb
  · intro address bh hbh
    cases hbh

/-! ## Recovery -/

theorem kept_checkBackend {address' : Str} (hne : address' ≠ address)
    (htracked : ∀ bh, p.health.lookup address' = some bh →
      ∃ b, p.backends[bh.backend]? = some b ∧ b.address = address') (ok : Bool) :
    Kept address p (p.checkBackend address' ok) := by
  rw [checkBackend]
  cases hlookup : p.health.lookup address' with
  | none => exact .refl p
  | some bh =>
    obtain ⟨b, hb, haddr⟩ := htracked bh hlookup
    have hboth : ∀ (g : BackendHealth → BackendHealth) (f : Backend → Backend),
        Kept address p ((p.modifyHealth address' g).modifyBackend bh.backend f) := by
      intro g f
      refine (kept_modifyHealth hne g).trans (kept_modifyBackend ?_ (haddr ▸ hne) f)
      rw [backends_modifyHealth]
      exact hb
    dsimp only
    cases ok with
    | true =>
      by_cases hstatus : bh.status ≠ .healthy
      · rw [if_pos rfl, if_pos hstatus]
        exact hboth _ _
      · rw [if_pos rfl, if_neg hstatus]
        exact kept_modifyHealth hne _
    | false =>
      rw [if_neg Bool.false_ne_true]
      by_cases hmax : p.maxFailures ≤ (bh.consecutiveFailures + 1 : Nat)
      · rw [if_pos hmax]
        by_cases hstatus : bh.status ≠ .unhealthy
        · rw [if_pos hstatus]
          exact hboth _ _
        · rw [if_neg hstatus]
          exact kept_modifyHealth hne _
      · rw [if_neg hmax]
        exact kept_modifyHealth hne _

theorem kept_step (ht : p.Tracked) {e : Event} (h : address ∉ (p.step e).1) :
    Kept address p (p.step e).2 := by
  cases e with
  | connect role ok =>
    cases role with
    | none | some => exact kept_attempts h
  | checkBackend address' ok =>
    exact kept_checkBackend (Ne.symm (ne_of_not_mem_cons h)) (ht.owner address') ok
  | drainBackend address' =>
    exact kept_setDraining (Ne.symm (ne_of_not_mem_cons h)) true
  | cancelDrain address' =>
    exact kept_setDraining (Ne.symm (ne_of_not_mem_cons h)) false

theorem kept_run (ht : p.Tracked) {events : List Event} (h : Quiet address p events) :
    Kept address p (p.run events) := by
  induction events generalizing p with
  | nil => exact .refl p
  | cons e events ih =>
    exact (kept_step ht h.1).trans (ih ((sameShape_step p e).tracked ht) h.2)

theorem isCircuitOpen_kept {b' : Backend} (h : Kept address p p') (hb : b.address = address)
    (hb' : b'.address = address) : p'.isCircuitOpen b' = p.isCircuitOpen b := by
  rw [isCircuitOpen, isCircuitOpen, hb, hb', h.health]

theorem checkBackend_true {bh : BackendHealth} (hb : p.backends[i]? = some b)
    (haddr : b.address = address) (hbh : p.health.lookup address = some bh) :
    ∃ b', (p.checkBackend address true).backends[i]? = some b' ∧ b'.address = address ∧
      b'.draining = b.draining ∧
      (b'.healthy = true ↔ b.healthy = true ∨ bh.backend = i ∧ bh.status ≠ .healthy) ∧
      (p.checkBackend address true).isCircuitOpen b' = p.isCircuitOpen b := by
  have hopen : ∀ {p' : Pool} {b' : Backend} {bh' : BackendHealth}, b'.address = address →
      p'.health.lookup address = some bh' → bh'.circuitState = bh.circuitState →
      p'.isCircuitOpen b' = p.isCircuitOpen b := by
    intro p' b' bh' hb' hlookup hcircuit
    rw [isCircuitOpen, isCircuitOpen, hb', haddr, hlookup, hbh, any_some, any_some,
      BackendHealth.isCircuitOpen, BackendHealth.isCircuitOpen, hcircuit]
  have hhealth : ∀ f, (p.modifyHealth address f).health.lookup address = some (f bh) := by
    intro f
    rw [modifyHealth, hbh]
    exact AList.lookup_insert _
  rw [checkBackend, hbh]
  dsimp only
  rw [if_pos rfl]
  by_cases hstatus : bh.status ≠ .healthy
  · rw [if_pos hstatus]
    by_cases hi : bh.backend = i
    · refine ⟨{ b with healthy := true }, ?_, haddr, rfl, ?_, hopen haddr (hhealth _) rfl⟩
      · rw [modifyBackend, backends_modifyHealth, getElem?_modify, hb]
        simp only [hi, if_true]
        rfl
      · exact ⟨fun _ => .inr ⟨hi, hstatus⟩, fun _ => rfl⟩
    · refine ⟨b, ?_, haddr, rfl, ?_, hopen haddr (hhealth _) rfl⟩
      · rw [modifyBackend, backends_modifyHealth, getElem?_modify, hb]
        simp only [hi, if_false]
        rfl
      · exact ⟨.inl, fun h => h.elim id fun hand => absurd hand.1 hi⟩
  · rw [if_neg hstatus]
    refine ⟨b, ?_, haddr, rfl, ?_, hopen haddr (hhealth _) rfl⟩
    · rw [backends_modifyHealth, hb]
    · exact ⟨.inl, fun h => h.elim id fun hand => absurd hand.2 hstatus⟩

/-! ## Draining -/

/-- Every backend with the address is draining. -/
def Drained (address : Str) (p : Pool) : Prop :=
  ∀ (i : Nat) (b : Backend), p.backends[i]? = some b → b.address = address → b.draining = true

variable {o o' : Option Nat} {q : Nat → Bool}

theorem orElse_satisfies (h : ∀ i ∈ o, q i = true) (h' : ∀ i ∈ o', q i = true) :
    ∀ i ∈ (o <|> o'), q i = true := by
  cases o with
  | none => exact h'
  | some i => exact h

theorem filter_satisfies : ∀ i ∈ o.filter q, q i = true :=
  fun _ hi => (filter_eq_some_iff.mp hi).2

theorem mayChoose_withFallback (p : Pool) :
    ∀ i ∈ p.selectBackendWithFallback, p.mayChoose i = true :=
  orElse_satisfies filter_satisfies (orElse_satisfies (fun _ => find?_some) fun _ => find?_some)

theorem mayChoose_byRole (role : Str) (p : Pool) :
    ∀ i ∈ p.selectBackendByRole role, p.mayChoose i = true := by
  have hany : ∀ i ∈ p.selectAny, p.mayChoose i = true := fun _ => find?_some
  rw [selectBackendByRole]
  split
  · exact orElse_satisfies (fun _ => find?_some) (orElse_satisfies filter_satisfies hany)
  · split
    · exact orElse_satisfies filter_satisfies hany
    · exact hany

theorem map_address_run (p : Pool) (events : List Event) :
    (p.run events).backends.map Backend.address = p.backends.map Backend.address := by
  induction events generalizing p with
  | nil => rfl
  | cons e events ih =>
    refine (ih (p.step e).2).trans (ext_getElem? fun i => ?_)
    rw [getElem?_map, getElem?_map]
    exact (sameShape_step p e).backends i

theorem map_address_newPool (maxFailures : Int) (hosts : List Host) :
    (newPool maxFailures hosts).backends.map Backend.address = hosts.map Host.address := by
  have hfold : ∀ p : Pool, (hosts.foldl addHost p).backends.map Backend.address =
      p.backends.map Backend.address ++ hosts.map Host.address := by
    induction hosts with
    | nil => simp
    | cons host hosts ih =>
      intro p
      rw [foldl_cons, ih]
      simp [addHost]
  exact hfold _

theorem drained_setDraining (hnodup : (p.backends.map Backend.address).Nodup) :
    (p.setDraining address true).Drained address := by
  intro j b' hb' haddr
  rw [setDraining] at hb'
  split at hb'
  · rename_i hnone
    have hno := findIdx?_eq_none_iff.mp hnone b' (mem_of_getElem? hb')
    exact absurd haddr (of_decide_eq_false hno)
  · rename_i i hfind
    obtain ⟨hlt, hi, -⟩ := findIdx?_eq_some_iff_getElem.mp hfind
    rw [modifyBackend, getElem?_modify] at hb'
    obtain ⟨b, hb, rfl⟩ := map_eq_some_iff.mp hb'
    by_cases hij : i = j
    · rw [if_pos hij]
      split
      · assumption
      · rfl
    · -- No other backend has the address.
      rw [if_neg hij] at haddr
      refine absurd ((getElem?_inj (by simpa using hlt) hnodup).mp ?_) hij
      rw [getElem?_map, getElem?_map, hb, List.getElem?_eq_getElem hlt, map_some, map_some,
        of_decide_eq_true hi, haddr]

section

variable (h : p.Drained address)
include h

theorem Drained.modifyBackend {f : Backend → Backend}
    (hf : ∀ b, p.backends[i]? = some b → (b.address = address → b.draining = true) →
      (f b).address = address → (f b).draining = true) :
    (p.modifyBackend i f).Drained address := by
  intro j b' hb' haddr
  rw [Pool.modifyBackend, getElem?_modify] at hb'
  obtain ⟨b, hb, rfl⟩ := map_eq_some_iff.mp hb'
  by_cases hij : i = j
  · rw [if_pos hij] at haddr ⊢
    exact hf b (hij ▸ hb) (h j b hb) haddr
  · rw [if_neg hij] at haddr ⊢
    exact h j b hb haddr

theorem Drained.setHealthy (i : Nat) (healthy : Bool) :
    (p.modifyBackend i fun b => { b with healthy := healthy }).Drained address :=
  h.modifyBackend fun _ _ h => h

theorem Drained.modifyHealth (f : BackendHealth → BackendHealth) (address' : Str) :
    (p.modifyHealth address' f).Drained address := by
  rw [Drained, backends_modifyHealth]
  exact h

theorem Drained.setDraining {draining : Bool}
    (hother : address' = address → draining = true) :
    (p.setDraining address' draining).Drained address := by
  rw [Pool.setDraining]
  split
  · exact h
  · rename_i hfind
    obtain ⟨hlt, haddr', -⟩ := findIdx?_eq_some_iff_getElem.mp hfind
    refine h.modifyBackend fun b hb hb' => ?_
    split
    · exact hb'
    · rw [List.getElem?_eq_getElem hlt] at hb
      cases hb
      exact fun haddr => hother ((of_decide_eq_true haddr').symm.trans haddr)

theorem Drained.checkBackend (address' : Str) (ok : Bool) :
    (p.checkBackend address' ok).Drained address := by
  rw [Pool.checkBackend]
  split
  · exact h
  · split
    · split
      · exact (h.modifyHealth _ _).setHealthy _ _
      · exact h.modifyHealth _ _
    · dsimp only
      split
      · split
        · exact (h.modifyHealth _ _).setHealthy _ _
        · exact h.modifyHealth _ _
      · exact h.modifyHealth _ _

theorem Drained.attempts {select : Pool → Option Nat}
    (hselect : ∀ p, ∀ i ∈ select p, p.mayChoose i = true) (ok : Nat → Bool) (left : Nat) :
    address ∉ (attempts select ok left p).1 ∧ (attempts select ok left p).2.Drained address := by
  induction left generalizing p with
  | zero => exact ⟨not_mem_nil, h⟩
  | succ left ih =>
    rw [Pool.attempts]
    split
    · exact ⟨not_mem_nil, h⟩
    · rename_i i hi
      split
      · exact ⟨not_mem_nil, h⟩
      · rename_i b hb
        have hne : address ≠ b.address := by
          intro haddr
          have hchoose := hselect p i hi
          rw [mayChoose, hb, any_some, h i b hb haddr.symm] at hchoose
          simp at hchoose
        split
        · exact ih h
        · split
          · exact ⟨not_mem_cons_of_ne_of_not_mem hne not_mem_nil,
              (h.setHealthy i true).modifyHealth _ _⟩
          · have h' := (h.modifyHealth BackendHealth.recordFailure b.address).setHealthy i false
            obtain ⟨hnot, hdrained⟩ := ih h'
            exact ⟨not_mem_cons_of_ne_of_not_mem hne hnot, hdrained⟩

theorem Drained.connect (role : Option Str) (ok : Nat → Bool) :
    address ∉ (p.step (.connect role ok)).1 ∧
      (p.step (.connect role ok)).2.Drained address := by
  cases role with
  | none => exact h.attempts mayChoose_withFallback ok 3
  | some role => exact h.attempts (mayChoose_byRole role) ok 3

theorem Drained.run {events : List Event} (hevents : .cancelDrain address ∉ events) :
    (p.run events).Drained address := by
  induction events generalizing p with
  | nil => exact h
  | cons e events ih =>
    rw [mem_cons, not_or] at hevents
    refine ih ?_ hevents.2
    cases e with
    | connect role ok => exact (h.connect role ok).2
    | checkBackend address' ok => exact h.checkBackend address' ok
    | drainBackend address' => exact h.setDraining fun _ => rfl
    | cancelDrain address' => exact h.setDraining fun haddr => absurd (haddr ▸ rfl) hevents.1

end

end Pool

def onePrimary (maxFailures : Int) : Pool := .newPool maxFailures [⟨str "a", str "primary"⟩]

/-- If no two hosts have the same address, then after `DrainBackend` no connection
to the address is attempted before `CancelDrain`, whatever happens in between. -/
theorem drained_not_connected (maxFailures : Int) (hosts : List Host)
    (hhosts : (hosts.map Host.address).Nodup) (before after : List Pool.Event) (address : Str)
    (hafter : .cancelDrain address ∉ after) (role : Option Str) (ok : Nat → Bool) :
    address ∉ (((Pool.newPool maxFailures hosts).run
      (before ++ .drainBackend address :: after)).step (.connect role ok)).1 := by
  rw [Pool.run, foldl_append, foldl_cons, ← Pool.run, ← Pool.run]
  rw [← Pool.map_address_newPool maxFailures, ← Pool.map_address_run _ before] at hhosts
  exact (((Pool.drained_setDraining hhosts).run hafter).connect role ok).1

/-- The primary is drained and found healthy, and the replica is selected. -/
theorem primary_drained : ∃ p : Pool,
    p = (Pool.newPool 3 [⟨str "a", str "primary"⟩, ⟨str "b", str "replica"⟩]).run
      ([] ++ .drainBackend (str "a") :: [.checkBackend (str "a") true]) ∧
    p.selectBackendWithFallback = some 1 ∧
    str "a" ∉ (p.step (.connect none fun _ => true)).1 :=
  ⟨_, rfl, by decide, drained_not_connected 3 _ (by decide) [] _ (str "a") (by simp) none _⟩

end Geryon.Health
