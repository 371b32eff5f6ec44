import Geryon.Startup.Quiet

/-!
# When a session is counted

The operations on `userConnCounts` that a session performs, in their order.

A session is counted by the start-up, under the name in `ps.username` at that
time, and taken off by the deferred function of `Handle`, under the name in
`ps.username` at the end.  `counting` says what the handlers do keep to: at
most one successful `CompareAndSwap`, for the user that was looked up last and
below that user's limit, and at most one `Add(-1)`, at the end.
-/

namespace Geryon.Startup

open Conc Conc.Fallible Protocol
open Pool (AuthMode)

variable {α β : Type} {lib : Lib} {cfg : Config}

/-! ## Parts that do not touch the counters -/

variable {p : Handler α} {rounds : Nat} {username : Bytes} {user : User}

theorem uncounted_of_quiet (hp : p.Uses Quiet) : p.Uses Uncounted :=
  Prog.uses_mono hp Quiet.uncounted

theorem uncounted_of_checks {T : Bytes → Prop} (hp : p.Uses (Checks T)) : p.Uses Uncounted :=
  Prog.uses_mono hp fun o h => by cases o <;> trivial

theorem uncounted_onError {q : Handler Unit} (hp : p.Uses Uncounted) (hq : q.Uses Uncounted) :
    (onError p q).Uses Uncounted := by
  refine uses_handle hp fun e => ?_
  cases e with
  | err e => exact uses_bind hq fun _ => trivial
  | panic => trivial

theorem uncounted_refuse {code message : String} {e e' : Err} :
    (refuse code message e e' : Handler α).Uses Uncounted :=
  uncounted_of_quiet quiet_refuse

theorem uncounted_handlePostgreSQLAuth : (handlePostgreSQLAuth lib cfg).Uses Uncounted :=
  uses_bind (uses_op trivial) fun _ => uses_ite uncounted_refuse
    (uses_bind (uncounted_of_checks checks_scramExchange) fun _ =>
      uses_bind (uncounted_of_quiet quiet_sendAuthenticated) fun _ =>
      uses_step trivial fun _ => uses_step trivial fun _ =>
      uncounted_of_quiet quiet_connectToBackend)

theorem uncounted_handleMySQLPassthrough : (handleMySQLPassthrough lib cfg).Uses Uncounted := by
  obtain ⟨f, hf, hserves⟩ := serves_handleMySQLPassthrough lib cfg
  rw [hf]
  exact uses_bind (uncounted_of_quiet quiet_takeServerConn) fun _ =>
    Prog.uses_mono hserves fun o h => by cases o <;> trivial

theorem uncounted_readMySQLClientHandshake : readMySQLClientHandshake.Uses Uncounted := by
  refine uses_bind (uncounted_of_quiet (quiet_wrap quiet_readFull)) fun _ => uses_ite trivial
    (uses_bind (uncounted_of_quiet (quiet_wrap quiet_readFull)) fun data =>
      uses_step trivial fun _ => ?_)
  obtain ⟨handshakeData, _⟩ := data
  cases parseMySQLHandshakeResponse handshakeData with
  | error err => trivial
  | ok names => exact uses_pure

theorem uncounted_orRecordFailure (hp : p.Uses Quiet) : (orRecordFailure p).Uses Uncounted :=
  uncounted_onError (uncounted_of_quiet hp) (uses_op trivial)

theorem uncounted_extractLogin7Credentials {data : Bytes} :
    (extractLogin7Credentials data).Uses Uncounted :=
  uses_ite uses_pure (uses_ite uses_pure (uses_step trivial fun _ =>
    uses_bind (uncounted_of_quiet quiet_slice) fun _ =>
    uses_bind (uncounted_of_quiet quiet_slice) fun _ => uses_ite (uses_op trivial) uses_pure))

/-! ## The order of the operations -/

/-- How far a session is: its user name, the user it looked up last with that
user's limit, and whether it has been counted and has ended. -/
structure Progress where
  username : Bytes := []
  user : Option (Bytes × Int) := none
  counted : Bool := false
  ended : Bool := false

/-- How far a session is after an operation.  It is `some none` where the
answer cannot occur, and `none` where the operation is not allowed. -/
def Progress.next (q : Progress) : (o : Op) → o.Ret → Option (Option Progress)
  | .setUsername username, _ => some (some { q with username })
  | .getUsername, r => some (if r = q.username then some q else none)
  | .getUser username, r =>
    some (some { q with user := r.map fun u => (username, u.maxConnections) })
  | .compareAndSwap username current, swapped =>
    if swapped then
      match q.user with
      | none => none
      | some (name, max) =>
        if q.counted = false ∧ q.ended = false ∧ name = username ∧ current < max then
          some (some { q with counted := true })
        else none
    else some (some q)
  | .addCount _, _ => if q.ended then none else some (some { q with ended := true })
  | .finish, _ => some (some { q with ended := true })
  | _, _ => some (some q)

/-- The order in which a session performs its operations. -/
def counting : Protocol sessions where
  Phase := Option Progress
  next q o r :=
    match q with
    | none => some none
    | some q => q.next o r

/-- Where an answer cannot occur, nothing has to be shown of the rest. -/
theorem obeys_none (p : Conc.Prog sessions α) (Q : α → Option Progress → Prop)
    (hQ : ∀ a, Q a none) : counting.Obeys p Q none := by
  induction p with
  | pure a => exact hQ a
  | op o k ih => exact fun r => ⟨none, rfl, ih r⟩

/-- A session that has not ended. -/
def Open (q : Option Progress) : Prop := ∀ p, q = some p → p.ended = false

/-- A session that has neither been counted nor ended. -/
def Fresh (q : Option Progress) : Prop := ∀ p, q = some p → p.counted = false ∧ p.ended = false

variable {q : Option Progress}

theorem Fresh.open (h : Fresh q) : Open q := fun p hp => (h p hp).2

theorem open_some {q : Progress} (h : q.ended = false) : Open (some q) := by
  rintro _ ⟨⟩
  exact h

theorem next_of_uncounted {o : Op} {r : o.Ret} (ho : Uncounted o) :
    ∃ q', counting.next q o r = some q' ∧
      ∀ p', q' = some p' → ∃ p, q = some p ∧ p'.counted = p.counted ∧ p'.ended = p.ended := by
  cases q with
  | none => exact ⟨none, rfl, fun p' hp' => by cases hp'⟩
  | some q =>
    cases o
    case compareAndSwap | addCount | finish | reload => exact ho.elim
    case getUsername =>
      refine ⟨_, rfl, fun p' hp' => ?_⟩
      split at hp'
      · cases hp'
        exact ⟨q, rfl, rfl, rfl⟩
      · cases hp'
    all_goals
      refine ⟨_, rfl, fun p' hp' => ?_⟩
      cases hp'
      exact ⟨q, rfl, rfl, rfl⟩

/-- A part that does not touch the counters keeps what is known of `counted`
and `ended`. -/
theorem obeys_of_uncounted {K : Option Progress → Prop} {p : Conc.Prog sessions α}
    {q : Option Progress} (hp : p.Uses Uncounted)
    (hK : ∀ q q', K q → (∀ p', q' = some p' → ∃ p, q = some p ∧ p'.counted = p.counted ∧
      p'.ended = p.ended) → K q') (hq : K q) : counting.Obeys p (fun _ => K) q := by
  induction p generalizing q with
  | pure a => exact hq
  | op o k ih =>
    intro r
    obtain ⟨q', hnext, hlike⟩ := next_of_uncounted hp.1
    exact ⟨q', hnext, ih r (hp.2 r) (hK q q' hq hlike)⟩

theorem obeys_fresh (hp : p.Uses Uncounted) (hq : Fresh q) :
    counting.Obeys p.run (fun _ => Fresh) q := by
  refine obeys_of_uncounted hp (fun q q' hq hlike p' hp' => ?_) hq
  obtain ⟨p, hp, hcounted, hended⟩ := hlike p' hp'
  rw [hcounted, hended]
  exact hq p hp

theorem obeys_open (hp : p.Uses Uncounted) (hq : Open q) :
    counting.Obeys p.run (fun _ => Open) q := by
  refine obeys_of_uncounted hp (fun q q' hq hlike p' hp' => ?_) hq
  obtain ⟨p, hp, hcounted, hended⟩ := hlike p' hp'
  rw [hended]
  exact hq p hp

theorem obeys_bind {f : α → Handler β} {K L : Option Progress → Prop}
    (hp : counting.Obeys p.run (fun _ => K) q) (hKL : ∀ q, K q → L q)
    (hf : ∀ a q', K q' → counting.Obeys (f a).run (fun _ => L) q') :
    counting.Obeys (p >>= f).run (fun _ => L) q := by
  refine obeys_seq hp fun r q' hq' => ?_
  cases r with
  | error e => exact hKL q' hq'
  | ok a => exact hf a q' hq'

theorem obeys_ite {c : Prop} [Decidable c] {p' : Handler α}
    {Q : Except Exc α → Option Progress → Prop} (hp : counting.Obeys p.run Q q)
    (hp' : counting.Obeys p'.run Q q) : counting.Obeys (if c then p else p').run Q q := by
  split
  · exact hp
  · exact hp'

theorem obeys_op_bind {o : Op} {f : o.Ret → Handler β} {Q : Except Exc β → Option Progress → Prop}
    (h : ∀ r, ∃ q', counting.next q o r = some q' ∧ counting.Obeys (f r).run Q q') :
    counting.Obeys (op o >>= f).run Q q := h

section

variable {q : Progress} (hfresh : q.counted = false ∧ q.ended = false)
include hfresh

/-- `TryIncrementUserCount` for the user that was looked up, with that user's
limit. -/
theorem obeys_tryIncrementUserCount {max : Int} (huser : q.user = some (username, max)) :
    counting.Obeys (tryIncrementUserCount rounds username max).run (fun _ => Open) (some q) := by
  have hopen : Open (some q) := fun p hp => by
    cases hp
    exact hfresh.2
  have hloop : counting.Obeys (tryIncrementLoop username max rounds).run (fun _ => Open)
      (some q) := by
    induction rounds with
    | zero => exact fun _ => ⟨_, rfl, hopen⟩
    | succ rounds ih =>
      intro (current : Int)
      refine ⟨_, rfl, ?_⟩
      show counting.Obeys (ite (current ≥ max) (pure false : Handler Bool) _).run _ _
      split
      · exact hopen
      · rename_i hbelow
        intro swapped
        cases swapped with
        | false => exact ⟨_, rfl, ih⟩
        | true =>
          refine ⟨some { q with counted := true }, ?_, fun p hp => ?_⟩
          · have hlt : current < max := by omega
            simp [counting, Progress.next, huser, hfresh, hlt]
          · cases hp
            exact hfresh.2
  unfold tryIncrementUserCount
  split
  · exact hopen
  · exact fun _ => ⟨_, rfl, hloop⟩

theorem obeys_checkConnectionLimit {refused : Handler Unit}
    (huser : q.user = some (username, user.maxConnections)) (hrefused : refused.Uses Uncounted) :
    counting.Obeys (checkConnectionLimit rounds username user refused).run (fun _ => Open)
      (some q) := by
  unfold checkConnectionLimit
  split
  · refine obeys_bind (obeys_tryIncrementUserCount hfresh huser) (fun _ h => h)
      fun accepted q' hq' => ?_
    cases accepted with
    | true => exact hq'
    | false => exact obeys_open hrefused hq'
  · exact open_some hfresh.2

theorem obeys_checkPostgreSQLUser (huser : q.user = some (username, user.maxConnections)) :
    counting.Obeys (checkPostgreSQLUser cfg username user).run (fun _ => Open) (some q) :=
  obeys_bind (obeys_checkConnectionLimit hfresh huser uncounted_refuse) (fun _ h => h)
    fun _ _ hq' => obeys_open (uses_ite (uses_op trivial) uncounted_refuse) hq'

/-- The session's user was looked up under the session's user name. -/
theorem obeys_checkInterceptedUser (huser : q.user = some (q.username, user.maxConnections)) :
    counting.Obeys (checkInterceptedUser cfg user).run (fun _ => Open) (some q) := by
  intro (username : Bytes)
  by_cases hname : username = q.username
  · subst hname
    refine ⟨some q, by simp [counting, Progress.next], ?_⟩
    refine obeys_bind (obeys_checkConnectionLimit hfresh huser ?_) (fun _ h => h)
      fun _ _ hq' => obeys_open ?_ hq'
    · exact uses_step trivial fun _ => trivial
    · exact uses_ite (uses_op trivial) (uses_step trivial fun _ => trivial)
  · exact ⟨none, by simp [counting, Progress.next, hname], obeys_none _ _ nofun⟩

end

/-! ## The handlers keep to the order -/

theorem obeys_handleStartupMessage {startupData : Bytes} (hq : Fresh q) :
    counting.Obeys (handleStartupMessage lib cfg startupData).run (fun _ => Open) q := by
  cases q with
  | none => exact obeys_none _ _ nofun
  | some q =>
    have hfresh := hq q rfl
    unfold handleStartupMessage
    dsimp only
    split
    · exact hq.open
    · refine obeys_op_bind fun _ => ⟨some q, rfl, ?_⟩
      cases startupParams startupData with
      | error err => exact hq.open
      | ok params =>
        refine obeys_op_bind fun _ => ⟨_, rfl, obeys_op_bind fun _ => ⟨_, rfl, ?_⟩⟩
        split
        · exact open_some hfresh.2
        · split
          · exact open_some hfresh.2
          · refine obeys_op_bind fun user => ⟨_, rfl, ?_⟩
            cases user with
            | none => exact obeys_open uncounted_refuse (open_some hfresh.2)
            | some user =>
              refine obeys_bind (obeys_checkPostgreSQLUser hfresh rfl) (fun _ h => h)
                fun _ q' hq' => obeys_open ?_ hq'
              exact uses_ite (uncounted_of_quiet quiet_connectToBackend)
                uncounted_handlePostgreSQLAuth

theorem obeys_handlePostgreSQLStartup (hq : Fresh q) :
    counting.Obeys (handlePostgreSQLStartup lib cfg rounds).run (fun _ => Open) q := by
  induction rounds generalizing q with
  | zero => exact obeys_open (uses_op trivial) hq.open
  | succ rounds ih =>
    refine obeys_bind (obeys_fresh (uncounted_of_quiet (quiet_wrap quiet_readFull)) hq)
      (fun _ h => h.open) fun _ q hq => ?_
    dsimp only
    split
    · exact hq.open
    · refine obeys_bind (obeys_fresh (uncounted_of_quiet (quiet_wrap quiet_readFull)) hq)
        (fun _ h => h.open) fun _ q hq => ?_
      split
      · exact obeys_bind (obeys_fresh (uncounted_of_checks checks_handleSSLRequest) hq)
          (fun _ h => h.open) fun _ q hq => ih hq
      · exact obeys_handleStartupMessage hq

theorem obeys_handleMySQLInterception {q : Progress} {user : Option User}
    (hfresh : q.counted = false ∧ q.ended = false)
    (huser : q.user = user.map fun u => (q.username, u.maxConnections)) :
    counting.Obeys (handleMySQLInterception lib cfg user).run (fun _ => Open) (some q) := by
  cases user with
  | none =>
    exact obeys_open (uses_step trivial fun _ => uses_bind (uses_op trivial) fun _ => trivial)
      (open_some hfresh.2)
  | some user =>
    refine obeys_bind (obeys_checkInterceptedUser hfresh huser) (fun _ h => h)
      fun _ q' hq' => obeys_open ?_ hq'
    refine uses_step trivial fun scramble => ?_
    cases scramble with
    | none => exact uses_step trivial fun _ => trivial
    | some scramble =>
      refine uses_step trivial fun _ =>
        uses_bind (uncounted_orRecordFailure (quiet_wrap quiet_write)) fun _ =>
        uses_bind (uncounted_of_checks checks_readInterceptedResponse) fun payload => ?_
      cases parseMySQLHandshakeResponseWithAuth payload with
      | error err => exact uses_step trivial fun _ => trivial
      | ok names =>
        exact uses_bind (uses_ite (uses_op trivial) uses_pure) fun _ =>
          uses_bind (uncounted_of_checks checks_verifyIntercepted) fun _ =>
          uses_bind (uncounted_orRecordFailure (quiet_wrap quiet_write)) fun _ =>
          uses_bind (uncounted_orRecordFailure quiet_takeServerConn) fun _ =>
          uses_step trivial fun _ => uses_op trivial

theorem obeys_handleMySQLStartup (hq : Fresh q) :
    counting.Obeys (handleMySQLStartup lib cfg).run (fun _ => Open) q := by
  refine obeys_bind (obeys_fresh (uses_op trivial) hq)
    (fun _ h => h.open) fun _ q hq => obeys_ite hq.open (obeys_ite ?_ ?_)
  · refine obeys_bind (obeys_fresh (uses_mapError uncounted_readMySQLClientHandshake) hq)
      (fun _ h => h.open) fun username q hq => ?_
    cases q with
    | none => exact obeys_none _ _ nofun
    | some q =>
      refine obeys_op_bind fun _ => ⟨_, rfl, obeys_op_bind fun user => ⟨_, rfl, ?_⟩⟩
      exact obeys_handleMySQLInterception (hq q rfl) rfl
  · exact obeys_open uncounted_handleMySQLPassthrough hq.open

theorem obeys_handleMSSQLInterception {q : Progress} {user : Option User}
    {preLoginData login7Data : Bytes} (hfresh : q.counted = false ∧ q.ended = false)
    (huser : q.user = user.map fun u => (q.username, u.maxConnections)) :
    counting.Obeys (handleMSSQLInterception cfg user preLoginData login7Data).run
      (fun _ => Open) (some q) := by
  have hopen : Open (some q) := open_some hfresh.2
  refine obeys_bind ?_ (fun _ h => h) fun _ q' hq' =>
    obeys_open (uncounted_of_quiet (quiet_of_relays relays_completeMSSQLLogin)) hq'
  cases user with
  | none =>
    exact obeys_open (uses_step trivial fun _ => uses_bind (uses_op trivial) fun _ => trivial) hopen
  | some user =>
    refine obeys_bind (K := fun q' => q' = some q) ?_ (fun _ h => h ▸ hopen) fun _ q' hq' => ?_
    · unfold storeNTLMUser
      split
      · exact fun _ => ⟨some q, rfl, rfl⟩
      · rfl
    · subst hq'
      refine obeys_bind (obeys_checkInterceptedUser hfresh huser) (fun _ h => h)
        fun _ q' hq' => obeys_open ?_ hq'
      exact uses_bind (uncounted_orRecordFailure quiet_takeServerConn) fun _ =>
        uncounted_of_quiet (uses_bind (quiet_wrap quiet_write) fun _ =>
          uses_bind (quiet_wrap (quiet_of_relays relays_forwardMSSQLPreLoginResponse)) fun _ =>
            quiet_wrap quiet_write)

variable (hq : Fresh q)
include hq

theorem obeys_handleMSSQLStartup :
    counting.Obeys (handleMSSQLStartup cfg).run (fun _ => Open) q := by
  refine obeys_bind (obeys_fresh (uses_op trivial) hq)
    (fun _ h => h.open) fun _ q hq => obeys_ite hq.open (obeys_ite ?_ ?_)
  · refine obeys_bind (obeys_fresh (uncounted_of_quiet
      (quiet_wrap quiet_readMSSQLClientHandshake)) hq) (fun _ h => h.open)
      fun packets q hq => ?_
    obtain ⟨preLoginData, login7Data⟩ := packets
    refine obeys_bind (obeys_fresh uncounted_extractLogin7Credentials hq)
      (fun _ h => h.open) fun _ q hq => ?_
    cases q with
    | none => exact obeys_none _ _ nofun
    | some q =>
      refine obeys_op_bind fun (username : Bytes) => ?_
      by_cases hname : username = q.username
      · subst hname
        refine ⟨some q, by simp [counting, Progress.next], ?_⟩
        refine obeys_op_bind fun user => ⟨_, rfl, ?_⟩
        exact obeys_handleMSSQLInterception (hq q rfl) rfl
      · exact ⟨none, by simp [counting, Progress.next, hname],
          obeys_none _ _ nofun⟩
  · exact obeys_open (uses_bind (uncounted_of_quiet quiet_passMSSQLLogin) fun _ =>
      uncounted_of_quiet (quiet_of_relays relays_completeMSSQLLogin)) hq.open

theorem obeys_serve : counting.Obeys (serve lib cfg).run (fun _ => Open) q := by
  refine obeys_bind ?_ (fun _ h => h) fun _ q' hq' => obeys_open ?_ hq'
  · unfold handleStartup
    cases cfg.body with
    | postgreSQL => exact obeys_handlePostgreSQLStartup hq
    | mySQL => exact obeys_handleMySQLStartup hq
    | msSQL => exact obeys_handleMSSQLStartup hq
  · refine uses_step trivial fun r => ?_
    cases r with
    | error e => trivial
    | ok _ => exact uses_op trivial

theorem obeys_handle : counting.Obeys (handle lib cfg) (fun _ _ => True) q := by
  refine obeys_seq (obeys_serve hq) fun _ q hq => ?_
  refine obeys_seq (R := fun _ _ => True) ?_ fun _ _ _ => trivial
  cases q with
  | none => exact obeys_none _ _ fun _ => trivial
  | some q =>
    have hended := hq q rfl
    refine obeys_op_bind fun (username : Bytes) => ?_
    by_cases hname : username = q.username
    · refine ⟨some q, by simp [counting, Progress.next, hname], ?_⟩
      refine obeys_seq (R := fun _ _ => True) ?_ fun r q' _ => ?_
      · unfold decrementUserCount
        split
        · trivial
        · refine obeys_op_bind fun (found : Bool) => ⟨some q, rfl, ?_⟩
          cases found with
          | false => trivial
          | true =>
            exact fun _ => ⟨some { q with ended := true },
              by simp [counting, Progress.next, hended], trivial⟩
      · cases r with
        | error e => trivial
        | ok _ =>
          intro _
          cases q' with
          | none => exact ⟨none, rfl, trivial⟩
          | some q' => exact ⟨_, rfl, trivial⟩
    · exact ⟨none, by simp [counting, Progress.next, hname], obeys_none _ _ fun _ => trivial⟩

end Geryon.Startup
