import Geryon.Conc.Calculus
import Geryon.Proxy.Proxy

/-!
# The start-up, the relay and the monitor, in any logic

`forwardClientToServer` with the callbacks that it runs, `handleStartup` and
other functions of the proxy, verified in an arbitrary calculus.  A `Handling`
is what the calculus has to say of the calls that concern the connection of a
session; all the rest is the control flow of the source, and is gone through
here once.
-/

namespace Geryon.Proxy

open Conc Pool

/-- Operations that have nothing to do with the connection of a session. -/
def minor : Op → Bool
  | .getTargetRole _ | .setTargetRole _ _ | .roleOf _ | .getInTxn _ | .setInTxn _ _
  | .getAutoRelease _ | .setAutoRelease _ _ | .getPsConn _ | .setStatus _ _ | .unregister _
  | .writeEmpty _ | .sendCached _ | .ctxDone | .readClient _ | .authenticate _ | .isDone _
  | .awaitErrOrTimer _ => true
  | _ => false

/-- In the calculus these operations do nothing. -/
def Passes (L : Calculus proxy) : Prop :=
  ∀ (o : Op) (κ : L.Know), minor o = true → L.wp (act o) (fun _ κ' => κ' = κ) κ

section

variable {L : Calculus proxy} {cfg : PoolConfig} {n : SessionId} {κ : L.Know} {k : Nat}

theorem Passes.skip (hL : Passes L) {α : Type} {o : Op} {f : o.Ret → Prog α}
    {Q : α → L.Know → Prop} (ho : minor o = true) (hf : ∀ r, L.wp (f r) Q κ) :
    L.wp (act o >>= f) Q κ :=
  L.andThen (hL o κ ho) hf

theorem wp_awaitGoroutines (hL : Passes L) : L.wp (awaitGoroutines n k) (fun _ κ' => κ' = κ) κ := by
  induction k with
  | zero => exact L.pure rfl
  | succ k ih =>
    exact hL.skip rfl fun done => L.ite (L.pure rfl) (hL.skip rfl fun _ => ih)

/-- A connection is acquired for a query, from what is known when `Acquire`
returns. -/
theorem wp_acquireForQuery {targetRole : Option Role}
    {out Q : Except PoolError ConnId → L.Know → Prop}
    (hacquire : ∀ role, L.wp (acquireWith cfg n (createWith (some n) role)) out κ)
    (herror : ∀ err κ', out (.error err) κ' →
      L.wp (act (.acquireFailed n)) (fun _ => Q (.error err)) κ') (hok : ∀ c κ', out (.ok c) κ' →
      L.wp (act (.setServerConn n (some c))) (fun _ => Q (.ok c)) κ') :
    L.wp (acquireForQuery cfg n targetRole) Q κ := by
  cases targetRole with
  | none | some =>
    refine L.seq (hacquire _) fun result κ' hκ' => ?_
    cases result with
    | error err => exact L.seq (herror err κ' hκ') fun _ _ => L.pure
    | ok c => exact L.seq (hok c κ' hκ') fun _ _ => L.pure

theorem wp_handleStartup {Failed Started : L.Know → Prop} {Taken : ConnId → L.Know → Prop}
    (hL : Passes L) (hκ : Failed κ) (htake : L.wp (takeServerConn cfg n) (fun r κ' => match r with
        | .ok c => Taken c κ'
        | .error _ => Failed κ') κ)
    (hexchange : ∀ c κ', Taken c κ' → L.wp (act (.exchange n c)) (fun _ => Started) κ')
    (htaken : ∀ c κ', Taken c κ' → Started κ') :
    L.wp (handleStartup cfg n) (fun r κ' => r ≠ .ok () ∧ Failed κ' ∨ Started κ') κ := by
  have hconnect : L.wp (connectToBackend cfg n)
      (fun r κ' => r ≠ .ok () ∧ Failed κ' ∨ Started κ') κ := by
    refine L.seq htake fun result κ' hκ' => ?_
    cases result with
    | error err => exact L.pure (.inl ⟨nofun, hκ'⟩)
    | ok c =>
      exact L.seq (hexchange c κ' hκ') fun ok _ h => L.ite (L.pure (.inr h)) (L.pure (.inr h))
  have hintercept : L.wp (handleMySQLInterception cfg n)
      (fun r κ' => r ≠ .ok () ∧ Failed κ' ∨ Started κ') κ := by
    refine L.seq htake fun result κ' hκ' => ?_
    cases result with
    | error err => exact L.pure (.inl ⟨nofun, hκ'⟩)
    | ok c => exact L.pure (.inr (htaken c κ' hκ'))
  refine hL.skip rfl fun ok => L.ite ?_ (L.pure (.inl ⟨nofun, hκ⟩))
  cases cfg.body <;> cases cfg.authMode
  case mySQL.interception => exact hintercept
  all_goals exact hconnect

/-- What is known survives the loops of `checkTimeouts` if it survives every
single rollback. -/
theorem wp_abortAll {status : TxnStatus} {l : List (Option SessionId × TxnId)} (hL : Passes L)
    (hl : ∀ m x, (some m, x) ∈ l → L.wp (sendRollbackToBackend cfg m) (fun _ κ' => κ' = κ) κ) :
    L.wp (abortAll cfg status l) (fun _ κ' => κ' = κ) κ := by
  induction l with
  | nil => exact L.pure rfl
  | cons e l ih =>
    rcases e with ⟨session, x⟩
    have hrest := ih fun m y hm => hl m y (List.mem_cons_of_mem _ hm)
    refine hL.skip rfl fun _ => ?_
    cases session with
    | none => exact hrest
    | some m => exact L.andThen (hl m x List.mem_cons_self) fun _ => hrest

end

/-- What is known of session `n` while its messages are handled, and how the
calls that concern its connection change it. -/
structure Handling (L : Calculus proxy) (cfg : PoolConfig) (n : SessionId) (out : L.Know) where
  /-- Between two calls; to this connection, if any, a message may be written. -/
  Ready : Option ConnId → L.Know → Prop
  /-- Between two calls, and the session refers to this connection. -/
  Holds : ConnId → L.Know → Prop
  ready : ∀ {v κ}, Ready v κ → Ready none κ
  sends : ∀ {c κ}, Holds c κ → Ready (some c) κ
  passes : Passes L
  enter : L.wp (act (.enter n .message)) (fun _ => Ready none) out
  leave : ∀ {κ}, Ready none κ → L.wp (act (.leave n)) (fun _ κ' => κ' = out) κ
  register : ∀ {b κ}, Ready none κ → L.wp (act (.register n b)) (fun _ κ' => κ' = κ) κ
  getServerConn : ∀ {v κ}, Ready v κ →
    L.wp (act (.getServerConn n)) (fun r κ' => Ready v κ' ∧ ∀ c, r = some c → Holds c κ') κ
  acquire : ∀ {role κ}, Ready none κ → L.wp (acquireForQuery cfg n role)
    (fun r κ' => Ready none κ' ∧ ∀ c, r = .ok c → Holds c κ') κ
  /-- On a role change. -/
  swap : ∀ {c role κ}, Holds c κ → L.wp (do
      giveBack cfg n c .roleChange
      acquireForQuery cfg n role)
    (fun r κ' => Ready none κ' ∧ ∀ c, r = .ok c → Holds c κ') κ
  /-- The connection is given back.  At the end of a transaction the message
  that ends it is still to be written. -/
  clear : ∀ {v c why κ} {f : Unit → Prog Unit}, Ready v κ → Holds c κ →
    why = .transactionEnd ∨ v = none → (∀ κ', Ready v κ' → L.wp (f ()) (fun _ => Ready v) κ') →
    L.wp (do
      giveBack cfg n c why
      let r ← act (.setServerConn n none)
      f r) (fun _ => Ready v) κ
  forward : ∀ {c msg captured κ}, Ready (some c) κ →
    L.wp (forward cfg n c msg captured) (fun _ => Ready none) κ

namespace Handling

variable {L : Calculus proxy} {cfg : PoolConfig} {n : SessionId} {out κ : L.Know}
  (H : Handling L cfg n out) {msg : ClientMessage} {v : Option ConnId}

/-- What `OnQuery` leaves: the session refers to the connection that is
returned. -/
def Queried (r : Except PoolError ConnId) (κ : L.Know) : Prop :=
  H.Ready none κ ∧ ∀ c, r = .ok c → H.Holds c κ

variable {H}

theorem queried {c : ConnId} (h : H.Holds c κ) : H.Queried (.ok c) κ := by
  refine ⟨H.ready (H.sends h), fun d hd => ?_⟩
  cases hd
  exact h

section

variable (h : H.Ready none κ)
include h

theorem wp_sessionOnQuery : L.wp (sessionOnQuery cfg n) H.Queried κ := by
  refine L.seq (H.getServerConn h) ?_
  rintro held κ ⟨h, hheld⟩
  refine H.passes.skip rfl fun targetRole => ?_
  cases held with
  | none => exact H.acquire h
  | some c =>
    have hc := hheld c rfl
    cases targetRole with
    | none => exact L.pure (queried hc)
    | some role => exact H.passes.skip rfl fun current => L.ite (L.pure (queried hc)) (H.swap hc)

theorem wp_transactionOnQuery {begins : Bool} :
    L.wp (transactionOnQuery cfg n begins) H.Queried κ := by
  refine L.seq (H.getServerConn h) ?_
  rintro held κ ⟨h, hheld⟩
  cases held with
  | some c => exact L.pure (queried (hheld c rfl))
  | none =>
    refine H.passes.skip rfl fun targetRole => L.seq (H.acquire h) fun result κ hκ => ?_
    cases result with
    | error err => exact L.pure hκ
    | ok c =>
      refine H.passes.skip rfl fun inTxn => L.ite ?_ (L.pure hκ)
      exact H.passes.skip rfl fun _ => L.pure hκ

theorem wp_strategyOnQuery {begins : Bool} : L.wp (Pool.onQuery cfg n begins) H.Queried κ := by
  unfold Pool.onQuery
  cases cfg.mode with
  | session => exact wp_sessionOnQuery h
  | transaction => exact wp_transactionOnQuery h
  | statement => exact H.passes.skip rfl fun _ => H.acquire h

theorem wp_onQueryComplete : L.wp (onQueryComplete cfg n) (fun _ => H.Ready none) κ := by
  unfold onQueryComplete
  cases cfg.mode with
  | session => exact L.pure h
  | transaction =>
    refine H.passes.skip rfl fun inTxn => L.ite ?_ (L.pure h)
    refine H.passes.skip rfl fun autoRelease => L.ite ?_ (L.pure h)
    refine L.seq (H.getServerConn h) ?_
    rintro held κ ⟨h, hheld⟩
    cases held with
    | none => exact L.pure h
    | some c =>
      refine H.clear h (hheld c rfl) (.inr rfl) fun κ h => ?_
      exact H.passes.skip rfl fun _ => L.pure h
  | statement =>
    refine L.seq (H.getServerConn h) ?_
    rintro held κ ⟨h, hheld⟩
    cases held with
    | none => exact L.pure h
    | some c => exact H.clear h (hheld c rfl) (.inr rfl) fun _ h => L.pure h

end

theorem wp_onTransactionBegin (h : H.Ready v κ) :
    L.wp (onTransactionBegin cfg n) (fun _ => H.Ready v) κ := by
  unfold onTransactionBegin
  cases cfg.mode with
  | session | transaction => exact H.passes.skip rfl fun _ => L.pure h
  | statement => exact L.pure h

theorem wp_onTransactionEnd (h : H.Ready v κ) :
    L.wp (onTransactionEnd cfg n) (fun _ => H.Ready v) κ := by
  unfold onTransactionEnd
  cases cfg.mode with
  | session => exact H.passes.skip rfl fun _ => L.pure h
  | transaction =>
    refine H.passes.skip rfl fun _ => L.seq (H.getServerConn h) ?_
    rintro held κ ⟨h, hheld⟩
    cases held with
    | none => exact L.pure h
    | some c => exact H.clear h (hheld c rfl) (.inl rfl) fun _ h => L.pure h
  | statement => exact L.pure h

/-- After `ProxySession.OnQuery` the message may be written to the connection
that is returned. -/
theorem wp_onQuery (h : H.Ready none κ) : L.wp (Proxy.onQuery cfg n msg)
      (fun r κ' => H.Ready none κ' ∧ ∀ c, r = .ok c → H.Ready (some c) κ') κ := by
  have hsent : ∀ {c : ConnId} {κ}, H.Ready (some c) κ →
      H.Ready none κ ∧ ∀ d, (.ok c : Except PoolError ConnId) = .ok d → H.Ready (some d) κ := by
    intro c κ h
    refine ⟨H.ready h, fun d hd => ?_⟩
    cases hd
    exact h
  have hrest : ∀ f : Except PoolError ConnId → Prog (Except PoolError ConnId),
      (∀ err, f (.error err) = pure (.error err)) →
      (∀ conn, f (.ok conn) = do
        if msg.begins then onTransactionBegin cfg n
        else if msg.ends then onTransactionEnd cfg n
        return .ok conn) →
      L.wp (Pool.onQuery cfg n msg.begins >>= f)
        (fun r κ' => H.Ready none κ' ∧ ∀ c, r = .ok c → H.Ready (some c) κ') κ := by
    intro f herror hok
    refine L.seq (wp_strategyOnQuery h) ?_
    rintro result κ ⟨h, hholds⟩
    cases result with
    | error err =>
      rw [herror]
      exact L.pure ⟨h, nofun⟩
    | ok c =>
      rw [hok]
      have h := H.sends (hholds c rfl)
      refine L.ite (L.seq (wp_onTransactionBegin h) fun _ _ h => L.pure (hsent h)) ?_
      exact L.ite (L.seq (wp_onTransactionEnd h) fun _ _ h => L.pure (hsent h)) (L.pure (hsent h))
  unfold Proxy.onQuery
  cases msg.route with
  | none => exact hrest _ (fun _ => rfl) fun _ => rfl
  | some role => exact H.passes.skip rfl fun _ => hrest _ (fun _ => rfl) fun _ => rfl

theorem wp_trackTransaction {info : Option TxnId} (h : H.Ready none κ) :
    L.wp (trackTransaction n info msg) (fun _ => H.Ready none) κ := by
  refine L.ite (H.passes.skip rfl fun _ => L.andThen (H.register h) fun _ => L.pure h) ?_
  refine L.ite ?_ (L.pure h)
  cases info with
  | none => exact L.pure h
  | some x => exact H.passes.skip rfl fun _ => H.passes.skip rfl fun _ => L.pure h

/-- Where reading from the backend and writing to the client change nothing,
the loop of `forwardServerToClient` keeps the session ready. -/
theorem wp_serverLoop {c : ConnId} {k : Nat}
    (hio : ∀ {o : Op} {κ}, o = .stuck ∨ o = .read n c ∨ (∃ reply, o = .writeClient n reply) →
      L.wp (act o) (fun _ κ' => κ' = κ) κ) (h : H.Ready none κ) :
    L.wp (serverLoop cfg n c k) (fun _ => H.Ready none) κ := by
  induction k generalizing κ with
  | zero => exact L.andThen (hio (.inl rfl)) fun _ => L.pure h
  | succ k ih =>
    refine H.passes.skip rfl fun done => L.ite (L.pure h) ?_
    refine L.andThen (hio (.inr (.inl rfl))) fun reply => ?_
    cases reply with
    | none => exact L.pure h
    | some reply =>
      have hsend : ∀ {κ}, H.Ready none κ → L.wp (do
          if ← act (.writeClient n reply) then serverLoop cfg n c k else return ())
          (fun _ => H.Ready none) κ :=
        fun h => L.andThen (hio (.inr (.inr ⟨reply, rfl⟩))) fun sent => L.ite (ih h) (L.pure h)
      dsimp only
      rcases reply.status with _ | _ | _
      · exact hsend h
      · exact H.passes.skip rfl fun _ => L.seq (wp_onQueryComplete h) fun _ _ h => hsend h
      · exact H.passes.skip rfl fun _ => hsend h

theorem wp_handleMessage (h : H.Ready none κ) :
    L.wp (handleMessage cfg n msg) (fun _ => H.Ready none) κ := by
  refine L.seq (wp_onQuery h) ?_
  rintro result κ ⟨h, hsends⟩
  cases result with
  | error err => exact L.pure h
  | ok c =>
    have hforward : L.wp (do
        if ← Proxy.forward cfg n c msg (msg.cache ≠ .bypass) then
          if msg.sync then onQueryComplete cfg n
          return true
        else return false) (fun _ => H.Ready none) κ := by
      refine L.seq (H.forward (hsends c rfl)) fun sent κ h => L.ite ?_ (L.pure h)
      exact L.ite (L.seq (wp_onQueryComplete h) fun _ _ h => L.pure h) (L.pure h)
    exact L.ite (H.passes.skip rfl fun _ => hforward) hforward

theorem wp_answerOrHandle (h : H.Ready none κ) :
    L.wp (answerOrHandle cfg n msg) (fun _ => H.Ready none) κ := by
  unfold answerOrHandle
  cases msg.cache with
  | hit => exact H.passes.skip rfl fun sent => L.ite (L.pure h) (wp_handleMessage h)
  | bypass | miss => exact wp_handleMessage h

/-- Between two messages all is as it was before the first. -/
theorem wp_forwardClientToServer (H : Handling L cfg n out) {info : Option TxnId}
    {msgs : List ClientMessage} :
    L.wp (forwardClientToServer cfg n info msgs) (fun _ κ => κ = out) out := by
  induction msgs generalizing info with
  | nil => exact L.pure rfl
  | cons msg msgs ih =>
    refine H.passes.skip rfl fun done => L.ite (L.pure rfl) ?_
    refine H.passes.skip rfl fun received => L.ite (L.ite (L.pure rfl) ?_) (L.pure rfl)
    refine L.seq H.enter fun _ κ h => L.seq (wp_trackTransaction h) fun info' κ h => ?_
    refine L.seq (wp_answerOrHandle h) fun goesOn κ h => L.andThen (H.leave h) fun _ => ?_
    exact L.ite ih (L.pure rfl)

end Handling

end Geryon.Proxy
