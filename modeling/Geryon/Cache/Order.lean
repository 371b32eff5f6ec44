import Geryon.Cache.Relay

/-!
# The order of the relay's operations

`Moves` is the order in which `forwardClientToServer` performs its operations,
with what it carries from one to the next: the message that it handles, the
tables that it has still to invalidate, the buffer that it fills and the
messages that are in it.  `relaying` is that of all goroutines.

`follows_relaying` says that the goroutines keep to it.  The properties of the
cache are proved from the order, and do not look at the programs again.
-/

namespace Geryon.Cache

open Go Conc List Function

/-- A capture under way: the text of the query, the connection that it runs on,
and what `ps.currentQuery` was when it began. -/
structure Call where
  text : Str
  conn : ConnId
  current : Str

/-- Where `forwardClientToServer` is. -/
inductive Stage where
  | idle
  /-- The message has been read. -/
  | handling (msg : ClientMessage)
  /-- `ps.currentQuery` has been set. -/
  | checking (text : Str)
  /-- The query modifies data, and these tables are still to be invalidated. -/
  | invalidating (text : Str) (tables : List Str)
  /-- The query is cacheable, and the response is not in the cache. -/
  | missed (text : Str)
  | hit (text : Str) (data : Slice)
  /-- The message is about to be written, and its response is not captured. -/
  | routed (msg : ClientMessage) (c : ConnId)
  | written (msg : ClientMessage)
  /-- The stages of a capture. -/
  | called (text : Str) (c : ConnId)
  | named (k : Call)
  | asked (k : Call)
  | capturing (k : Call) (buf : Slice) (b : Buffer) (replies : List Reply)
  | reading (k : Call) (buf : Slice) (b : Buffer) (replies : List Reply) (reply : Reply)
  | buffered (k : Call) (buf : Slice) (b : Buffer) (replies : List Reply) (reply : Reply)
  | complete (k : Call) (buf : Slice) (b : Buffer) (replies : List Reply)
  /-- The pooled buffer is about to be returned. -/
  | leaving (buf : Slice)
  | over

variable (cfg : Config) (n : SessionId)

/-- The queries whose responses are cached. -/
def Cacheable (text : Str) : Prop :=
  text ≠ [] ∧ isModificationQuery cfg.lib text = false ∧
    (cfg.rules.shouldCache text && isSelectQuery cfg.lib text) = true

/-- The stages from which a message goes to the backend without a capture. -/
inductive Forwards : Stage → ClientMessage → Prop
  | other (stmt : Option Str) : Forwards (.handling (.other stmt)) (.other stmt)
  | empty : Forwards (.checking []) (.query [])
  | read {text : Str} (h : isModificationQuery cfg.lib text = false) :
      Forwards (.checking text) (.query text)
  | invalidated (text : Str) : Forwards (.invalidating text []) (.query text)
  | unkeyed {text : Str} (h : generateKey cfg.lib text = []) : Forwards (.missed text) (.query text)

/-- One operation of `forwardClientToServer`.  After `stuck` there is nothing,
so every stage will do. -/
inductive Moves : Stage → (o : Op) → o.Ret → Stage → Prop
  | stuck (st st' : Stage) : Moves st .stuck () st'
  | read (msg : ClientMessage) : Moves .idle (.readClient n msg) true (.handling msg)
  | unread (msg : ClientMessage) : Moves .idle (.readClient n msg) false .idle
  | note (text : Str) :
      Moves (.handling (.query text)) (.setCurrentQuery n text) () (.checking text)
  | noteWrite {text : Str} {tables : List Str} (hmod : isModificationQuery cfg.lib text = true)
      (htables : extractTablesFromQuery cfg.lib text = some tables) :
      Moves (.handling (.query text)) (.setCurrentQuery n text) () (.invalidating text tables)
  | invalidate (text table : Str) (tables : List Str) :
      Moves (.invalidating text (table :: tables)) (.invalidateTable table) ()
        (.invalidating text tables)
  | miss {text : Str} (h : Cacheable cfg text) :
      Moves (.checking text) (.get n text (generateKey cfg.lib text)) none (.missed text)
  | hit {text : Str} (h : Cacheable cfg text) (data : Slice) :
      Moves (.checking text) (.get n text (generateKey cfg.lib text)) (some data) (.hit text data)
  | send (text : Str) (data : Slice) : Moves (.hit text data) (.sendCached n data) true .over
  | unsent (text : Str) (data : Slice) :
      Moves (.hit text data) (.sendCached n data) false (.missed text)
  | route {st : Stage} {msg : ClientMessage} (h : Forwards cfg st msg) (c : ConnId) :
      Moves st (.onQuery n) (some c) (.routed msg c)
  | unrouted {st : Stage} {msg : ClientMessage} (h : Forwards cfg st msg) :
      Moves st (.onQuery n) none .over
  | write (msg : ClientMessage) (c : ConnId) :
      Moves (.routed msg c) (.writeServer n c msg false) true (.written msg)
  | unwritten (msg : ClientMessage) (c : ConnId) :
      Moves (.routed msg c) (.writeServer n c msg false) false .over
  | noteAgain (msg : ClientMessage) :
      Moves (.written msg) (.setCurrentQuery n msg.text) () .over
  | call (text : Str) (c : ConnId) : Moves (.missed text) (.onQuery n) (some c) (.called text c)
  | uncalled (text : Str) : Moves (.missed text) (.onQuery n) none .over
  | name (text : Str) (c : ConnId) (current : Str) :
      Moves (.called text c) (.getCurrentQuery n) current (.named ⟨text, c, current⟩)
  | ask (k : Call) : Moves (.named k) (.writeServer n k.conn (.query k.text) true) true (.asked k)
  | unasked (k : Call) : Moves (.named k) (.writeServer n k.conn (.query k.text) true) false .over
  | buffer (k : Call) (buf : Slice) :
      Moves (.asked k) .getBuffer buf (.capturing k buf (newBuffer buf) [])
  | receive (k : Call) (buf : Slice) (b : Buffer) (replies : List Reply) (reply : Reply) :
      Moves (.capturing k buf b replies) (.readServer n k.conn) (some reply)
        (.reading k buf b replies reply)
  | lost (k : Call) (buf : Slice) (b : Buffer) (replies : List Reply) :
      Moves (.capturing k buf b replies) (.readServer n k.conn) none (.leaving buf)
  | append (k : Call) (buf : Slice) (b b' : Buffer) (replies : List Reply) (reply : Reply) :
      Moves (.reading k buf b replies reply) (.bufferWrite b reply.msg.raw) b'
        (.buffered k buf b' replies reply)
  | more (k : Call) (buf : Slice) (b : Buffer) (replies : List Reply) {reply : Reply}
      (h : reply.isReady = false) :
      Moves (.buffered k buf b replies reply) (.writeClient n reply.msg) true
        (.capturing k buf b (replies ++ [reply]))
  | last (k : Call) (buf : Slice) (b : Buffer) (replies : List Reply) {reply : Reply}
      (h : reply.isReady = true) :
      Moves (.buffered k buf b replies reply) (.writeClient n reply.msg) true
        (.complete k buf b (replies ++ [reply]))
  | refused (k : Call) (buf : Slice) (b : Buffer) (replies : List Reply) (reply : Reply) :
      Moves (.buffered k buf b replies reply) (.writeClient n reply.msg) false (.leaving buf)
  | store (k : Call) (buf : Slice) (b : Buffer) (replies : List Reply) {tables : List Str}
      (h : extractTablesFromQuery cfg.lib k.current = some tables) (ttl : Nat) (ok : Bool) :
      Moves (.complete k buf b replies)
        (.set (generateKey cfg.lib k.text) b.bytes tables ttl ⟨n, k.text, replies⟩) ok
        (.leaving buf)
  | put (buf : Slice) : Moves (.leaving buf) (.putBuffer buf) () .over
  | finish : Moves .over (.finish n) () .idle
  | terminate : Moves (.handling .terminate) (.finish n) () .idle

/-- One operation of `forwardServerToClient`. -/
inductive Passes : Stage → (o : Op) → o.Ret → Stage → Prop
  | stuck (st : Stage) : Passes st .stuck () st
  | conn (st : Stage) (c : Option ConnId) : Passes st (.psConn n) c st
  | receive (st : Stage) (c : ConnId) (reply : Option Reply) :
      Passes st (.readServer n c) reply st
  | relay (st : Stage) (msg : Wire.Message) (ok : Bool) : Passes st (.writeClient n msg) ok st
  | look (st : Stage) (query : Str) : Passes st (.getCurrentQuery n) query st
  | reset (st : Stage) : Passes st (.setCurrentQuery n []) () st

/-- A goroutine that has one operation. -/
inductive Repeats (o : Op) : Stage → (o : Op) → o.Ret → Stage → Prop
  | stuck (st : Stage) : Repeats o st .stuck () st
  | once (st : Stage) (r : o.Ret) : Repeats o st o r st

def relaying : Thread → Stage → (o : Op) → o.Ret → Stage → Prop
  | .clientToServer n => Moves cfg n
  | .serverToClient n => Passes n
  | .cleanup => Repeats .cleanupExpired
  | .clock => Repeats .tick
  | .collector => Repeats .dropBuffer
  | .backend => Repeats .execute

/-! ## The programs keep to the order -/

variable {cfg n}

/-- A stage that is reached, whatever the result. -/
abbrev Ends (st : Stage) {α : Type} : α → Stage → Prop := fun _ st' => st' = st

variable {k : Call} {buf : Slice} {b : Buffer} {replies : List Reply} {rounds : Nat} {c : ConnId}
  {o : Op} {C : Cond sessions} {messages : SessionId → List ClientMessage}
  {cfg' : Conc.Config sessions} {s s' : State} {t : Thread} {ch : Choice}

theorem follows_captureLoop : Follows (Moves cfg n) (captureLoop n k.conn rounds b replies)
      (fun r st => (r = none ∧ st = .leaving buf) ∨
        ∃ b' replies', r = some (b', replies') ∧ st = .complete k buf b' replies')
      (.capturing k buf b replies) := by
  induction rounds generalizing b replies with
  | zero => exact fun _ => ⟨_, .stuck _ _, .inl ⟨rfl, rfl⟩⟩
  | succ rounds ih =>
    refine follows_act_bind fun r => ?_
    cases r with
    | none => exact ⟨_, .lost k buf b replies, .inl ⟨rfl, rfl⟩⟩
    | some reply =>
      refine ⟨_, .receive k buf b replies reply, follows_act_bind fun b' => ?_⟩
      refine ⟨_, .append k buf b b' replies reply, follows_act_bind fun ok => ?_⟩
      cases ok with
      | false => exact ⟨_, .refused k buf b' replies reply, .inl ⟨rfl, rfl⟩⟩
      | true =>
        cases hready : reply.isReady with
        | true =>
          refine ⟨_, .last k buf b' replies hready, ?_⟩
          exact .inr ⟨b', replies ++ [reply], rfl, rfl⟩
        | false =>
          refine ⟨_, .more k buf b' replies hready, ?_⟩
          exact ih

theorem follows_storeResponse :
    Follows (Moves cfg n) (storeResponse cfg n k.text k.current buf (some (b, replies)))
      (Ends .over) (.complete k buf b replies) := by
  unfold storeResponse
  cases htables : extractTablesFromQuery cfg.lib k.current with
  | none => exact follows_act_bind fun _ => ⟨_, .stuck _ .over, rfl⟩
  | some tables =>
    refine follows_act_bind fun ok => ⟨_, .store k buf b replies htables _ ok, ?_⟩
    exact follows_act_bind fun _ => ⟨_, .put buf, rfl⟩

variable {text : Str} {st : Stage}

theorem follows_forwardAndCapture :
    Follows (Moves cfg n) (forwardAndCapture cfg n c text) (Ends .over) (.called text c) := by
  refine follows_act_bind fun current => ⟨_, .name text c current, ?_⟩
  refine follows_act_bind fun ok => ?_
  cases ok with
  | false => exact ⟨_, .unasked ⟨text, c, current⟩, rfl⟩
  | true =>
    refine ⟨_, .ask ⟨text, c, current⟩, follows_act_bind fun buf => ?_⟩
    refine ⟨_, .buffer ⟨text, c, current⟩ buf, follows_seq
      (follows_captureLoop (k := ⟨text, c, current⟩)) ?_⟩
    rintro r st (⟨rfl, rfl⟩ | ⟨b, replies, rfl, rfl⟩)
    · exact follows_act_bind fun _ => ⟨_, .put buf, rfl⟩
    · exact follows_storeResponse (k := ⟨text, c, current⟩)

theorem follows_forward {msg : ClientMessage} (h : Forwards cfg st msg) :
    Follows (Moves cfg n) (forward n msg) (Ends .over) st := by
  refine follows_act_bind fun r => ?_
  cases r with
  | none => exact ⟨_, .unrouted h, rfl⟩
  | some c =>
    refine ⟨_, .route h c, follows_act_bind fun ok => ?_⟩
    cases ok with
    | false => exact ⟨_, .unwritten msg c, rfl⟩
    | true =>
      refine ⟨_, .write msg c, ?_⟩
      exact follows_act_bind fun _ => ⟨_, .noteAgain msg, rfl⟩

theorem follows_forwardCached :
    Follows (Moves cfg n) (forwardCached cfg n text) (Ends .over) (.missed text) := by
  unfold forwardCached
  by_cases hkey : generateKey cfg.lib text = []
  · rw [if_pos hkey]
    exact follows_forward (.unkeyed hkey)
  · rw [if_neg hkey]
    refine follows_act_bind fun r => ?_
    cases r with
    | none => exact ⟨_, .uncalled text, rfl⟩
    | some c => exact ⟨_, .call text c, follows_forwardAndCapture⟩

theorem follows_invalidateTables {tables : List Str} :
    Follows (Moves cfg n) (invalidateTables tables) (Ends (.invalidating text []))
      (.invalidating text tables) := by
  induction tables with
  | nil => exact rfl
  | cons table tables ih =>
    exact follows_act_bind fun _ => ⟨_, .invalidate text table tables, ih⟩

theorem follows_handleQuery :
    Follows (Moves cfg n) (handleQuery cfg n text) (Ends .over) (.handling (.query text)) := by
  refine follows_act_bind fun _ => ?_
  by_cases hempty : text = []
  · subst hempty
    exact ⟨_, .note [], follows_forward .empty⟩
  cases hmod : isModificationQuery cfg.lib text with
  | true =>
    cases htables : extractTablesFromQuery cfg.lib text with
    | none =>
      refine ⟨_, .note text, ?_⟩
      rw [if_neg hempty, if_pos rfl]
      exact follows_act_bind fun _ => ⟨_, .stuck _ .over, rfl⟩
    | some tables =>
      refine ⟨_, .noteWrite hmod htables, ?_⟩
      rw [if_neg hempty, if_pos rfl]
      refine follows_seq follows_invalidateTables ?_
      rintro _ _ rfl
      exact follows_forward (.invalidated text)
  | false =>
    refine ⟨_, .note text, ?_⟩
    rw [if_neg hempty, if_neg Bool.false_ne_true]
    by_cases hcache : (cfg.rules.shouldCache text && isSelectQuery cfg.lib text) = true
    · rw [if_pos hcache]
      refine follows_act_bind fun r => ?_
      cases r with
      | none => exact ⟨_, .miss ⟨hempty, hmod, hcache⟩, follows_forwardCached⟩
      | some data =>
        refine ⟨_, .hit ⟨hempty, hmod, hcache⟩ data, follows_act_bind fun ok => ?_⟩
        cases ok with
        | true => exact ⟨_, .send text data, rfl⟩
        | false => exact ⟨_, .unsent text data, follows_forwardCached⟩
    · rw [if_neg hcache]
      exact follows_forward (.read hmod)

theorem follows_forwardClientToServer {msgs : List ClientMessage} :
    Follows (Moves cfg n) (forwardClientToServer cfg n msgs) (fun _ _ => True) .idle := by
  induction msgs with
  | nil => trivial
  | cons msg msgs ih =>
    refine follows_act_bind fun ok => ?_
    cases ok with
    | false => exact ⟨_, .unread msg, trivial⟩
    | true =>
      refine ⟨_, .read msg, ?_⟩
      -- After the message the loop goes on or ends.
      have hrest : ∀ (goesOn : Bool) (st : Stage), st = .over →
          Follows (Moves cfg n) (do
            act (.finish n)
            if goesOn then forwardClientToServer cfg n msgs else return ())
            (fun _ _ => True) st := by
        rintro goesOn _ rfl
        refine follows_act_bind fun _ => ⟨_, .finish, ?_⟩
        cases goesOn with
        | true => exact ih
        | false => trivial
      cases msg with
      | terminate => exact fun _ => ⟨_, .terminate, trivial⟩
      | query text => exact follows_seq follows_handleQuery hrest
      | other stmt => exact follows_seq (follows_forward (.other stmt)) hrest

theorem follows_serverLoop :
    Follows (Passes n) (serverLoop cfg n c rounds) (fun _ _ => True) st := by
  induction rounds with
  | zero => exact fun _ => ⟨_, .stuck st, trivial⟩
  | succ rounds ih =>
    refine follows_act_bind fun r => ⟨_, .receive st c r, ?_⟩
    cases r with
    | none => trivial
    | some reply =>
      refine follows_act_bind fun ok => ⟨_, .relay st reply.msg ok, ?_⟩
      cases ok with
      | false => trivial
      | true =>
        rw [if_pos rfl]
        by_cases hlog : (!isAside reply.msg.msgType && cfg.queryLogger) = true
        · rw [if_pos hlog]
          refine follows_act_bind fun query => ⟨_, .look st query, ?_⟩
          by_cases hquery : query = []
          · simp only [hquery, ne_eq, not_true_eq_false, if_false]
            exact ih
          · simp only [hquery, ne_eq, not_false_eq_true, if_true]
            exact follows_act_bind fun _ => ⟨_, .reset st, ih⟩
        · rw [if_neg hlog]
          exact ih

theorem follows_forwardServerToClient :
    Follows (Passes n) (forwardServerToClient cfg n) (fun _ _ => True) st := by
  refine follows_act_bind fun r => ⟨_, .conn st r, ?_⟩
  cases r with
  | none => trivial
  | some c => exact follows_serverLoop

theorem follows_repeatedly : Follows (Repeats o) (repeatedly o rounds) (fun _ _ => True) st := by
  induction rounds with
  | zero => exact fun _ => ⟨_, .stuck st, trivial⟩
  | succ rounds ih => exact follows_act_bind fun r => ⟨_, .once st r, ih⟩

theorem follows_relaying (messages : SessionId → List ClientMessage) (t : Thread) :
    Follows (relaying cfg t) ((system cfg messages).prog t) (fun _ _ => True) .idle := by
  cases t with
  | clientToServer n => exact follows_forwardClientToServer
  | serverToClient n => exact follows_forwardServerToClient
  | cleanup | clock | collector | backend => exact follows_repeatedly

variable {messages : SessionId → List ClientMessage} {cfg' : Conc.Config sessions}
  {C : Cond sessions}

/-- An invariant of the state and the stages holds along every run. -/
theorem run_invariant {J : (Thread → Stage) → State → Prop}
    (hinit : J (fun _ => .idle) (system cfg messages).state)
    (hstep : ∀ {q s t} {o : Op} {ch r s' st}, J q s → C s t o ch = true →
      relaying cfg t (q t) o r st → exec s t o ch = some (r, s') → J (update q t st) s')
    (hrun : Run C (system cfg messages) cfg') : ∃ q, J q cfg'.state := by
  obtain ⟨q, hJ, -⟩ := follows_invariant (follows_relaying messages) hinit hstep hrun
  exact ⟨q, hJ⟩

/-! ## Frames -/

/-- The heap, the buffers, the entries and the bookkeeping of hits are as they
were, or buffers and entries have gone. -/
structure Same (s s' : State) : Prop where
  heap : s'.heap = s.heap
  pool : ∀ p ∈ s'.bufferPool, p ∈ s.bufferPool
  entries : ∀ e ∈ s'.store.entries, e ∈ s.store.entries
  found : s'.found = s.found
  hits : s'.hits = s.hits
  replays : s'.replays = s.replays

theorem Same.refl (s : State) : Same s s := ⟨rfl, fun _ h => h, fun _ h => h, rfl, rfl, rfl⟩

/-- The operations that do not concern the buffers and hits. -/
def Quiet : Op → Prop
  | .get _ _ _ | .set _ _ _ _ _ | .getBuffer | .bufferWrite _ _ | .putBuffer _
  | .sendCached _ _ => False
  | _ => True

variable {r : o.Ret}

theorem same_of_exec (ho : Quiet o) (h : exec s t o ch = some (r, s')) : Same s s' := by
  cases o with simp only [exec] at h
  | stuck => cases h
  | readClient | writeServer | onQuery | psConn =>
    split at h <;> cases h <;> exact { Same.refl s with }
  | invalidateTable table =>
    cases h
    exact ⟨rfl, fun _ h => h, fun _ h => (Store.mem_entries_invalidateTable h).1, rfl, rfl, rfl⟩
  | cleanupExpired =>
    cases h
    exact ⟨rfl, fun _ h => h, fun _ h => Store.mem_entries_cleanupExpired h, rfl, rfl, rfl⟩
  | dropBuffer =>
    split at h
    · cases h
      exact ⟨rfl, fun _ h => mem_of_mem_eraseIdx h, fun _ h => h, rfl, rfl, rfl⟩
    · cases h
  | readServer n c =>
    split at h
    · simp only [State.readServer] at h
      split at h
      · cases h
      · cases h
        exact { Same.refl s with }
    · cases h
      exact { Same.refl s with }
  | execute =>
    split at h
    · simp only [State.execute] at h
      split at h
      · cases h
      · cases h
        exact { Same.refl s with }
    · cases h
  | finish n | getCurrentQuery n | setCurrentQuery n query | writeClient n msg | tick =>
    cases h
    exact { Same.refl s with }
  | get n query key | set key value tables ttl capture | getBuffer | bufferWrite b p
  | putBuffer buf | sendCached n data => exact ho.elim

/-- The operations on the response buffer, and the replay. -/
def Buffering : Op → Prop
  | .getBuffer | .bufferWrite _ _ | .putBuffer _ | .sendCached _ _ => True
  | _ => False

theorem store_of_buffering (ho : Buffering o) (h : exec s t o ch = some (r, s')) :
    s'.store = s.store ∧ s'.hits = s.hits := by
  cases o with
  | getBuffer =>
    simp only [exec, State.getBuffer] at h
    split at h
    · split at h
      · cases h
      · cases h
        exact ⟨rfl, rfl⟩
    · cases h
      exact ⟨rfl, rfl⟩
  | bufferWrite b p | putBuffer buf =>
    cases h
    exact ⟨rfl, rfl⟩
  | sendCached n data =>
    simp only [exec] at h
    split at h <;> cases h <;> exact ⟨rfl, rfl⟩
  | _ => exact ho.elim

theorem of_exec_get {n : SessionId} {key : Str} {r : Option Slice}
    (h : exec s t (.get n text key) ch = some (r, s')) :
    (∀ e ∈ s'.store.entries, e ∈ s.store.entries) ∧
      (r = none ∧ s'.hits = s.hits ∨ ∃ e ∈ s.store.entries, e.key = key ∧ r = some e.value ∧
        s'.hits = s.hits ++ [⟨n, text, e.capture, s.executed⟩]) := by
  simp only [exec, State.get] at h
  split at h
  · cases h
    exact ⟨fun e he => Store.mem_entries_get he, .inl ⟨rfl, rfl⟩⟩
  · rename_i e hfound
    cases h
    obtain ⟨he, hkey, -⟩ := Store.of_get_some hfound
    exact ⟨fun e he => Store.mem_entries_get he, .inr ⟨e, he, hkey, rfl, rfl⟩⟩

/-! ## What is served -/

/-- What holds of every entry when it is made, and then of every hit on it.
`S` is what a session knows on its way to making one. -/
theorem served_invariant {E : CacheEntry → Prop} {H : SessionId → Str → Capture → Prop}
    {S : SessionId → Stage → Prop} (hidle : ∀ n, S n .idle)
    (hmoves : ∀ {s s' : State} {n : SessionId} {st st' : Stage} {o : Op} {ch : Choice} {r : o.Ret},
      S n st → C s (.clientToServer n) o ch = true → Moves cfg n st o r st' →
      exec s (.clientToServer n) o ch = some (r, s') → S n st')
    (hget : ∀ {s : State} {n : SessionId} {text : Str} {e : CacheEntry} {ch : Choice},
      C s (.clientToServer n) (.get n text (generateKey cfg.lib text)) ch = true → E e →
      e.key = generateKey cfg.lib text → H n text e.capture)
    (hset : ∀ {n : SessionId} {k : Call} {buf : Slice} {b : Buffer} {replies : List Reply}
      {e : CacheEntry}, S n (.complete k buf b replies) → e.key = generateKey cfg.lib k.text →
      e.capture = ⟨n, k.text, replies⟩ → E e) (hrun : Run C (system cfg messages) cfg') :
    (∀ e ∈ cfg'.state.store.entries, E e) ∧
      ∀ h ∈ cfg'.state.hits, H h.session h.query h.capture := by
  let Served (s : State) : Prop :=
    (∀ e ∈ s.store.entries, E e) ∧ ∀ h ∈ s.hits, H h.session h.query h.capture
  have hstep : ∀ {s s' : State} {t : Thread} {o : Op} {ch : Choice} {r : o.Ret} {st st' : Stage},
      Served s → (∀ n, t = .clientToServer n → S n st) → C s t o ch = true →
      relaying cfg t st o r st' → exec s t o ch = some (r, s') → Served s' := by
    intro s s' t o ch r st st' hs hst hcond hmove hexec
    have hquiet : Quiet o → Served s' := fun ho =>
      ⟨fun e he => hs.1 e ((same_of_exec ho hexec).entries e he),
        fun h hh => hs.2 h ((same_of_exec ho hexec).hits ▸ hh)⟩
    have hbuffering : Buffering o → Served s' := by
      intro ho
      obtain ⟨hstore, hhits⟩ := store_of_buffering ho hexec
      exact ⟨fun e he => hs.1 e (hstore ▸ he), fun h hh => hs.2 h (hhits ▸ hh)⟩
    cases t with
    | serverToClient n => cases hmove <;> exact hquiet trivial
    | cleanup | clock | collector | backend => cases hmove <;> exact hquiet trivial
    | clientToServer n =>
      -- Only `Get` makes hits, and only `Set` makes entries.
      cases hmove with
      | miss hc | hit hc data =>
        obtain ⟨hentries, hhits⟩ := of_exec_get hexec
        refine ⟨fun e he => hs.1 e (hentries e he), ?_⟩
        rcases hhits with ⟨-, hhits⟩ | ⟨e, he, hkey, -, hhits⟩
        · rw [hhits]
          exact hs.2
        · intro h hh
          rw [hhits] at hh
          rcases mem_append.mp hh with hh | hh
          · exact hs.2 h hh
          · obtain rfl := mem_singleton.mp hh
            exact hget hcond (hs.1 e he) hkey
      | store k buf b replies htables ttl ok =>
        cases hexec
        refine ⟨fun e he => ?_, hs.2⟩
        rcases Store.mem_entries_set he with he | ⟨hkey, -, -, hcapture⟩
        · exact hs.1 e he
        · exact hset (hst n rfl) hkey hcapture
      | buffer | append | put => exact hbuffering trivial
      | send text data | unsent text data => exact hbuffering trivial
      | _ => exact hquiet trivial
  obtain ⟨q, hserved, -⟩ := run_invariant
    (J := fun q s => Served s ∧ ∀ n, S n (q (.clientToServer n)))
    ⟨⟨by simp [system], by simp [system]⟩, hidle⟩ (fun {q s t o ch r s' st} hinv hcond hmove hexec =>
      ⟨hstep hinv.1 (fun n hn => by subst hn; exact hinv.2 n) hcond hmove hexec, fun n => by
        by_cases ht : Thread.clientToServer n = t
        · subst ht
          rw [update_self]
          exact hmoves (hinv.2 n) hcond hmove hexec
        · rw [update_of_ne ht]
          exact hinv.2 n⟩) hrun
  exact hserved

end Geryon.Cache
