import Geryon.Cache.Keys
import Geryon.Conc.Alone

/-!
# Which responses are stored

`forwardAndCapture` stores what it has read up to the first `ReadyForQuery`.
It does not look at the other messages, and not at the transaction status in
`ReadyForQuery`.

`response` is what it reads from a stream.  `capture_clean_iff` follows one
call on its own: from a store of clean responses it leads to one exactly if the
response is clean, or is not stored because it is too big or because
`extractTablesFromQuery` panics.  `hits_clean` is about whole runs, and
`captures_and_hits_clean` has both.
-/

namespace Geryon.Cache

open Go Conc List Prog

/-- `ErrorResponse`. -/
def Reply.isError (r : Reply) : Bool := r.msg.msgType = 0x45

/-- `ReadyForQuery` with the status `'I'`: no transaction is open. -/
def Reply.isIdle (r : Reply) : Bool := r.isReady && r.msg.payload.head? = some 0x49

/-- There is no error in the response, and no transaction is open after it. -/
def clean (replies : List Reply) : Bool :=
  replies.all (fun r => !r.isError) && replies.getLast?.any Reply.isIdle

/-- A stream up to the first `ReadyForQuery`. -/
def response : List Reply → Option (List Reply)
  | [] => none
  | r :: rs => if r.isReady then some [r] else (response rs).map (r :: ·)

/-! ## One call -/

/-- What `forwardClientToServer` of a session does when nothing fails and nobody
else does anything. -/
def solo (n : SessionId) : Step sessions State := fun s o => exec s (.clientToServer n) o .ok

section Solo

variable {cfg : Config} {n : SessionId} {c : ConnId} {s : State}

variable {r : Reply} {rs replies : List Reply} {b : Buffer} {rounds : Nat} {text : Str}
  {tables : List Str}

theorem solo_readServer (h : (s.conn c).replies = r :: rs) :
    solo n s (.readServer n c) = some (some r, s.setConn c ⟨(s.conn c).requests, rs⟩) := by
  simp [solo, exec, State.readServer, h]

/-- The state after the oldest reply on a connection has been read and written
to the buffer. -/
def received (s : State) (c : ConnId) (b : Buffer) (r : Reply) (rs : List Reply) : State :=
  { s.setConn c ⟨(s.conn c).requests, rs⟩ with heap := (b.write s.heap r.msg.raw).2 }

theorem replies_received : ((received s c b r rs).conn c).replies = rs := by
  simp [received]

theorem alone_captureLoop_succ (hconn : (s.conn c).replies = r :: rs) :
    (captureLoop n c (rounds + 1) b replies).alone (solo n) s = if r.isReady then
        (some (some ((b.write s.heap r.msg.raw).1, replies ++ [r])), received s c b r rs)
      else (captureLoop n c rounds (b.write s.heap r.msg.raw).1 (replies ++ [r])).alone (solo n)
        (received s c b r rs) := by
  refine (alone_act_bind (solo_readServer hconn)).trans ?_
  refine (alone_act_bind rfl).trans ?_
  refine (alone_act_bind rfl).trans ?_
  cases r.isReady <;> rfl

theorem alone_captureLoop_blocked {l : List Reply} (hconn : (s.conn c).replies = l)
    (hl : response l = none) :
    ∃ s', (captureLoop n c rounds b replies).alone (solo n) s = (none, s') ∧
      s'.store = s.store := by
  induction l generalizing s rounds b replies with
  | nil =>
    refine ⟨s, ?_, rfl⟩
    cases rounds with
    | zero => rfl
    | succ rounds =>
      refine alone_act_bind_of_none ?_
      simp [solo, exec, State.readServer, hconn]
  | cons r rs ih =>
    cases rounds with
    | zero => exact ⟨s, rfl, rfl⟩
    | succ rounds =>
      rw [response] at hl
      split at hl
      · cases hl
      · rename_i hready
        rw [alone_captureLoop_succ hconn, if_neg hready]
        exact ih replies_received (Option.map_eq_none_iff.mp hl)

/-- The loop collects the messages up to the first `ReadyForQuery`. -/
theorem alone_captureLoop {rounds : Nat} {b : Buffer} {replies l a : List Reply}
    (hconn : (s.conn c).replies = l) (hl : response l = some a) (hrounds : l.length ≤ rounds)
    (hoff : b.off = 0) (hv : s.heap.Valid b.buf) :
    ∃ s' b', (captureLoop n c rounds b replies).alone (solo n) s =
        (some (some (b', replies ++ a)), s') ∧
      s'.store = s.store ∧ s'.now = s.now ∧ b'.bytes.len = b.buf.len + (rawOf a).length := by
  induction l generalizing s rounds b replies a with
  | nil => cases hl
  | cons r rs ih =>
    obtain ⟨rounds, rfl⟩ : ∃ k, rounds = k + 1 := ⟨rounds - 1, by simp at hrounds; omega⟩
    have hwrote := Buffer.write_spec (p := r.msg.raw) hoff hv
    have hlen : (b.write s.heap r.msg.raw).1.buf.len = b.buf.len + r.msg.raw.length := by
      rw [← hwrote.valid.length_bytes, hwrote.bytes, length_append, hv.length_bytes]
    rw [alone_captureLoop_succ hconn]
    rw [response] at hl
    split at hl
    · rename_i hready
      cases hl
      refine ⟨_, _, if_pos hready, rfl, rfl, ?_⟩
      rw [Buffer.bytes, hwrote.off, Nat.sub_zero, hlen]
      simp [rawOf]
    · rename_i hready
      obtain ⟨a', ha', rfl⟩ := Option.map_eq_some_iff.mp hl
      obtain ⟨s', b', hrun, hstore, hnow, hb'⟩ := @ih (received s c b r rs) rounds _
        (replies ++ [r]) a' replies_received ha' (by simpa using hrounds) hwrote.off hwrote.valid
      refine ⟨s', b', ?_, hstore, hnow, ?_⟩
      · rw [if_neg hready, hrun, append_assoc]
        rfl
      · rw [hb', hlen]
        simp [rawOf]
        omega

theorem valid_make (h : Heap) (k : Nat) : (h.make k).2.Valid (h.make k).1 where
  array_lt := by
    show h.arrays.length < _
    rw [Heap.make, Heap.length_arrays_alloc]
    omega
  cap_le := by
    show 0 + k ≤ ((h.alloc (List.replicate k 0)).array h.arrays.length).length
    rw [Heap.array_alloc_self, length_replicate]
    omega
  len_le := Nat.le_refl k

/-- The state in which the loop begins. -/
def asked (s : State) (c : ConnId) (text : Str) : State :=
  { s.setConn c ⟨(s.conn c).requests ++ [.query text], (s.conn c).replies⟩ with
    heap := (s.heap.make 4096).2 }

theorem replies_asked (text : Str) : ((asked s c text).conn c).replies = (s.conn c).replies := by
  simp [asked]

theorem alone_forwardAndCapture : (forwardAndCapture cfg n c text).alone (solo n) s =
      ((captureLoop n c cfg.rounds (newBuffer (s.heap.make 4096).1) []).bind
        (storeResponse cfg n text (s.currentQuery n) (s.heap.make 4096).1)).alone (solo n)
          (asked s c text) := by
  refine (alone_act_bind rfl).trans ?_
  refine (alone_act_bind rfl).trans ?_
  exact alone_act_bind rfl

theorem store_of_captured (text : Str) {a : List Reply}
    (ha : response (s.conn c).replies = some a) (hrounds : (s.conn c).replies.length ≤ cfg.rounds)
    (htables : extractTablesFromQuery cfg.lib (s.currentQuery n) = some tables) :
    ∃ value ttl, value.len = 4096 + (rawOf a).length ∧
      ((forwardAndCapture cfg n c text).alone (solo n) s).2.store =
        (s.store.set s.now (generateKey cfg.lib text) value tables ttl ⟨n, text, a⟩).2 := by
  obtain ⟨s', b', hloop, hstore, hnow, hlen⟩ := alone_captureLoop
    (b := newBuffer (s.heap.make 4096).1) (replies_asked text) ha hrounds rfl
    (valid_make s.heap 4096)
  refine ⟨b'.bytes, cfg.rules.getTTL (s.currentQuery n) fiveMinutes, hlen, ?_⟩
  rw [alone_forwardAndCapture, alone_bind_of_some hloop, storeResponse]
  simp only [htables]
  show (s'.store.set s'.now _ _ _ _ _).2 = _
  rw [hstore, hnow]
  rfl

theorem store_of_uncaptured {text : Str} (hrounds : (s.conn c).replies.length ≤ cfg.rounds)
    (h : response (s.conn c).replies = none ∨
      extractTablesFromQuery cfg.lib (s.currentQuery n) = none) :
    ((forwardAndCapture cfg n c text).alone (solo n) s).2.store = s.store := by
  rw [alone_forwardAndCapture]
  cases ha : response (s.conn c).replies with
  | none =>
    obtain ⟨s', hloop, hstore⟩ := alone_captureLoop_blocked (replies_asked text) ha
    rw [alone_bind_of_none hloop]
    exact hstore
  | some a =>
    have htables := h.resolve_left (by simp [ha])
    obtain ⟨s', b', hloop, hstore, -⟩ := alone_captureLoop
      (b := newBuffer (s.heap.make 4096).1) (replies_asked text) ha hrounds rfl
      (valid_make s.heap 4096)
    rw [alone_bind_of_some hloop, storeResponse]
    simp only [htables]
    exact hstore

theorem mem_entries_set_self {st : Store} {now ttl : Nat} {key : Str} {value : Slice}
    {capture : Capture} (h : value.len ≤ st.maxMemory) :
    ∃ e ∈ (st.set now key value tables ttl capture).2.entries, e.capture = capture := by
  rw [Store.set, dif_pos h]
  exact ⟨_, mem_cons_self, rfl⟩

end Solo

variable {cfg : Config} {n : SessionId} {s : State}

/-- If one call begins with a store of clean responses, it ends with one exactly
if the response is clean or is not stored. -/
theorem capture_clean_iff {c : ConnId} {text : Str}
    (hstore : ∀ e ∈ s.store.entries, clean e.capture.replies = true)
    (hrounds : (s.conn c).replies.length ≤ cfg.rounds) :
    (∀ e ∈ ((forwardAndCapture cfg n c text).alone (solo n) s).2.store.entries,
      clean e.capture.replies = true) ↔ ∀ a tables, response (s.conn c).replies = some a →
      extractTablesFromQuery cfg.lib (s.currentQuery n) = some tables →
      4096 + (rawOf a).length ≤ s.store.maxMemory → clean a = true := by
  constructor
  · intro h a tables ha htables hfits
    obtain ⟨value, ttl, hlen, hset⟩ := store_of_captured text ha hrounds htables
    rw [hset] at h
    obtain ⟨e, he, hcapture⟩ := mem_entries_set_self (by omega : value.len ≤ s.store.maxMemory)
    simpa [hcapture] using h e he
  · intro h e he
    by_cases hnone : response (s.conn c).replies = none ∨
        extractTablesFromQuery cfg.lib (s.currentQuery n) = none
    · rw [store_of_uncaptured hrounds hnone] at he
      exact hstore e he
    · obtain ⟨⟨a, ha⟩, tables, htables⟩ := by
        simpa only [not_or, ← ne_eq, Option.ne_none_iff_exists'] using hnone
      obtain ⟨value, ttl, hlen, hset⟩ := store_of_captured text ha hrounds htables
      rw [hset] at he
      by_cases hfits : value.len ≤ s.store.maxMemory
      · rcases Store.mem_entries_set he with he | ⟨-, -, -, hcapture⟩
        · exact hstore e he
        · rw [hcapture]
          exact h a tables ha htables (by omega)
      · rw [Store.set, dif_neg hfits] at he
        exact hstore e he

/-! ## Runs -/

/-- No response that is captured has an error in it, or is the last one of a
statement that leaves a transaction open. -/
def cleanAnswers : Cond sessions := fun s t o _ =>
  match t, o with
  | .clientToServer _, .readServer _ c =>
    (s.conn c).replies.head?.all fun r => !r.isError && (!r.isReady || r.isIdle)
  | _, _ => true

/-- What is known of the messages that a session has captured. -/
def Stage.Cleanly : Stage → Prop
  | .capturing _ _ _ replies => ∀ r ∈ replies, r.isError = false
  | .reading _ _ _ replies reply | .buffered _ _ _ replies reply =>
    (∀ r ∈ replies ++ [reply], r.isError = false) ∧ (reply.isReady = true → reply.isIdle = true)
  | .complete _ _ _ replies => clean replies = true
  | _ => True

theorem cleanly_of_moves {s' : State} {st st' : Stage} {o : Op} {ch : Choice} {r : o.Ret}
    (hst : st.Cleanly) (hcond : cleanAnswers s (.clientToServer n) o ch = true)
    (hmove : Moves cfg n st o r st') (hexec : exec s (.clientToServer n) o ch = some (r, s')) :
    st'.Cleanly := by
  cases hmove with
  | stuck => cases hexec
  | buffer k buf => exact fun r hr => absurd hr not_mem_nil
  | receive k buf b replies reply =>
    simp only [exec, State.readServer] at hexec
    split at hexec
    · split at hexec
      · cases hexec
      · rename_i rs hconn
        cases hexec
        simp only [cleanAnswers, hconn, head?_cons, Option.all_some, Bool.and_eq_true,
          Bool.not_eq_true', Bool.or_eq_true] at hcond
        refine ⟨?_, fun hready => hcond.2.resolve_left (by simp [hready])⟩
        intro r hr
        rcases mem_append.mp hr with hr | hr
        · exact hst r hr
        · rw [mem_singleton.mp hr]
          exact hcond.1
    · cases hexec
  | append => exact hst
  | more => exact hst.1
  | last k buf b replies hready =>
    simp only [Stage.Cleanly, clean, Bool.and_eq_true, all_eq_true, Bool.not_eq_true',
      getLast?_append, getLast?_singleton]
    exact ⟨hst.1, hst.2 hready⟩
  | _ => trivial

/-- If what is captured is clean, so is all that is served. -/
theorem hits_clean {messages : SessionId → List ClientMessage} {cfg' : Conc.Config sessions}
    (hrun : Run cleanAnswers (system cfg messages) cfg') :
    ∀ h ∈ cfg'.state.hits, clean h.capture.replies = true := by
  refine (served_invariant
    (E := fun e => clean e.capture.replies = true) (H := fun _ _ c => clean c.replies = true)
    (S := fun _ st => st.Cleanly) ?_ ?_ ?_ ?_ hrun).2
  · exact fun n => trivial
  · exact cleanly_of_moves
  · exact fun _ he _ => he
  · intro n k buf b replies e hst hkey hcapture
    rw [hcapture]
    exact hst

/-- What one call stores is clean exactly if what it reads is clean or is not
stored, and in runs that read clean responses only, only those are served. -/
theorem captures_and_hits_clean {cfg : Config} :
    (∀ (n : SessionId) (c : ConnId) (s : State) (text : Str),
      (∀ e ∈ s.store.entries, clean e.capture.replies = true) →
      (s.conn c).replies.length ≤ cfg.rounds →
      ((∀ e ∈ ((forwardAndCapture cfg n c text).alone (solo n) s).2.store.entries,
        clean e.capture.replies = true) ↔ ∀ a tables, response (s.conn c).replies = some a →
        extractTablesFromQuery cfg.lib (s.currentQuery n) = some tables →
        4096 + (rawOf a).length ≤ s.store.maxMemory → clean a = true)) ∧
    ∀ (messages : SessionId → List ClientMessage) (cfg' : Conc.Config sessions),
      Run cleanAnswers (system cfg messages) cfg' →
      ∀ h ∈ cfg'.state.hits, clean h.capture.replies = true :=
  ⟨fun _ _ _ _ hstore hrounds => capture_clean_iff hstore hrounds, fun _ _ hrun => hits_clean hrun⟩

/-- A state in which all connections have the same messages to be read. -/
def answered (messages : List Wire.Message) : State where
  store := (system listener fun _ => []).state.store
  conn _ := ⟨[], messages.map (⟨·, 0⟩)⟩

theorem captures_and_hits_clean_idle :
    (∀ e ∈ ((forwardAndCapture listener 0 0 (str "SELECT 1")).alone (solo 0)
        (answered [readyForQuery 0x49])).2.store.entries, clean e.capture.replies = true) ∧
      ∃ cfg', Run cleanAnswers (system listener (twice (str "SELECT 1"))) cfg' ∧
        cfg'.state.hits ≠ [] ∧ ∀ h ∈ cfg'.state.hits, clean h.capture.replies = true := by
  constructor
  · refine (captures_and_hits_clean.1 0 0 (answered [readyForQuery 0x49]) (str "SELECT 1")
      (by simp [answered, system]) (by decide)).mpr ?_
    intro a tables ha _ _
    have ha' : response ((answered [readyForQuery 0x49]).conn 0).replies =
        some [⟨readyForQuery 0x49, 0⟩] := by decide
    rw [ha'] at ha
    cases ha
    decide
  · obtain ⟨cfg', hrun, hhits⟩ := exists_run_of_follow cleanAnswers
      (system listener (twice (str "SELECT 1"))) (fun cfg' => cfg'.state.hits ≠ []) captureAndHit
      (by decide +kernel)
    exact ⟨cfg', hrun, hhits, captures_and_hits_clean.2 _ _ hrun⟩

/-- An `ErrorResponse` without fields. -/
def errorResponse : Wire.Message := ⟨0x45, 5, [0], [0x45, 0, 0, 0, 5, 0], .backend⟩

/-- Another session is served a response that was computed in an open
transaction, and another one an error. -/
theorem hits_unclean :
    (∃ cfg', Run anyStep (system listener (oneEach (str "SELECT 1") (str "SELECT 1"))) cfg' ∧
      ∃ h ∈ cfg'.state.hits, h.session ≠ h.capture.session ∧
        h.capture.replies.getLast?.any (·.isIdle) = false) ∧
    ∃ cfg', Run anyStep (system listener (oneEach (str "SELECT 1") (str "SELECT 1"))) cfg' ∧
      ∃ h ∈ cfg'.state.hits, h.session ≠ h.capture.session ∧
        h.capture.replies.any (·.isError) = true := by
  constructor
  · exact exists_run_of_follow _ _ _ (captureFirst [readyForQuery 0x54] ++ hitNext 1)
      (by decide +kernel)
  · exact exists_run_of_follow _ _ _
      (captureFirst [errorResponse, readyForQuery 0x49] ++ hitNext 1) (by decide +kernel)

end Geryon.Cache
