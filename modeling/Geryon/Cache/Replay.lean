import Geryon.Cache.Order

/-!
# What is replayed on a hit

`forwardAndCapture` collects the response in a `bytes.Buffer` on a slice from
`bufferPool`, and stores its bytes.  The slice has the length 4096, so the buffer
starts with these 4096 bytes, and the response comes behind them.

`Blank`, `Frozen` and `Fills` say who may write to which array: to those of the
pool and of the store nobody, and to the one of a buffer only its session.
`replayInv_step` keeps this, so that what was stored is replayed
(`replay_bytes`): 4096 zero bytes, and then the response.
-/

namespace Geryon.Cache

open Go Conc List Function Option

/-- The bytes of a new pooled buffer. -/
def blank : List UInt8 := replicate 4096 0

def rawOf (replies : List Reply) : List UInt8 := (replies.map (·.msg.raw)).flatten

/-- Which session's buffer is in an array. -/
abbrev Writer := Nat → Option SessionId

structure Blank (h : Heap) (w : Writer) (p : Slice) : Prop where
  full : p.off = 0 ∧ p.len = 4096 ∧ p.cap = 4096
  array_lt : p.array < h.arrays.length
  zero : h.array p.array = blank
  free : w p.array = none

/-- A slice that shows a response behind the bytes of a pooled buffer, and that
nobody writes to. -/
structure Frozen (h : Heap) (w : Writer) (v : Slice) (raw : List UInt8) : Prop where
  array_lt : v.array < h.arrays.length
  bytes : h.bytes v = blank ++ raw
  free : w v.array = none

/-- The buffer of a session that has `raw` written to it.  It stays on the
pooled slice until the first byte is written. -/
structure Fills (h : Heap) (w : Writer) (n : SessionId) (buf : Slice) (b : Buffer)
    (raw : List UInt8) : Prop where
  off : b.off = 0
  place : b.buf = buf ∧ raw = [] ∨
    h.Valid b.buf ∧ h.bytes b.buf = blank ++ raw ∧ w b.buf.array = some n

variable {h : Heap} {w : Writer} {st : Stage} {t : Thread} {ch : Choice}

variable {p buf : Slice} {n : SessionId} {b : Buffer} {raw : List UInt8} {o : Op}

theorem Blank.bytes (hp : Blank h w p) : h.bytes p = blank := by
  obtain ⟨hoff, hlen, -⟩ := hp.full
  rw [Heap.bytes, hp.zero, hoff, hlen, drop_zero, blank,
    take_of_length_le (le_of_eq length_replicate)]

theorem Blank.valid (hp : Blank h w p) : h.Valid p where
  array_lt := hp.array_lt
  cap_le := by
    obtain ⟨hoff, -, hcap⟩ := hp.full
    rw [hp.zero, hoff, hcap, blank, length_replicate]
  len_le := by
    obtain ⟨-, hlen, hcap⟩ := hp.full
    omega

/-! ## Steps that only one session may see -/

/-- Between the two heaps only arrays have changed that the session writes to,
and new ones. -/
structure Steady (n : SessionId) (h : Heap) (w : Writer) (h' : Heap) (w' : Writer) : Prop where
  arrays : h.arrays.length ≤ h'.arrays.length
  array : ∀ a < h.arrays.length, w a ≠ some n → h'.array a = h.array a
  writer : ∀ a < h.arrays.length, w a ≠ some n → w' a = w a

section Steady

variable {m n : SessionId} {h h' : Heap} {w w' : Writer}

theorem Steady.blank (hst : Steady n h w h' w') {p : Slice} (hp : Blank h w p) : Blank h' w' p := by
  have hfree : w p.array ≠ some n := by simp [hp.free]
  exact ⟨hp.full, lt_of_lt_of_le hp.array_lt hst.arrays,
    (hst.array _ hp.array_lt hfree).trans hp.zero,
    (hst.writer _ hp.array_lt hfree).trans hp.free⟩

variable {raw : List UInt8}

variable (hst : Steady n h w h' w')
include hst

theorem Steady.frozen {v : Slice} (hv : Frozen h w v raw) : Frozen h' w' v raw := by
  have hfree : w v.array ≠ some n := by simp [hv.free]
  exact ⟨lt_of_lt_of_le hv.array_lt hst.arrays,
    (Heap.bytes_congr (hst.array _ hv.array_lt hfree)).trans hv.bytes,
    (hst.writer _ hv.array_lt hfree).trans hv.free⟩

theorem Steady.fills (hne : m ≠ n) {buf : Slice} {b : Buffer}
    (hb : Fills h w m buf b raw) : Fills h' w' m buf b raw := by
  refine ⟨hb.off, ?_⟩
  rcases hb.place with hon | ⟨hv, hbytes, hown⟩
  · exact .inl hon
  · have hother : w b.buf.array ≠ some n := by
      rw [hown]
      exact fun heq => hne (some.inj heq)
    have harray := hst.array _ hv.array_lt hother
    exact .inr ⟨hv.congr hst.arrays harray, (Heap.bytes_congr harray).trans hbytes,
      (hst.writer _ hv.array_lt hother).trans hown⟩

end Steady

/-! ## Filling a buffer -/

theorem Fills.write (hbuf : Blank h w buf) (hb : Fills h w n buf b raw) (p : List UInt8) :
    ∃ w', Steady n h w (b.write h p).2 w' ∧ Fills (b.write h p).2 w' n buf (b.write h p).1
      (raw ++ p) := by
  rcases hb.place with ⟨hon, rfl⟩ | ⟨hv, hbytes, hown⟩
  · by_cases hp : p = []
    · subst hp
      rw [Buffer.write_nil]
      exact ⟨w, ⟨le_refl _, fun _ _ _ => rfl, fun _ _ _ => rfl⟩, hb.off, .inl ⟨hon, rfl⟩⟩
    · -- The pooled slice is full, so the first byte makes the buffer move.
      have hfull : ¬ p.length ≤ b.buf.cap - b.buf.len := by
        obtain ⟨-, hlen, hcap⟩ := hbuf.full
        have hpos := length_pos_iff.mpr hp
        rw [hon, hlen, hcap]
        omega
      obtain ⟨hwrote, hnew⟩ := Buffer.wrote_of_grows hb.off (hon ▸ hbuf.valid) hfull
      have hkept : ∀ a < h.arrays.length, (b.write h p).2.array a = h.array a := by
        rcases hwrote.moves with hsame | ⟨-, hkept⟩
        · have hlt := hbuf.array_lt
          rw [hnew, hon] at hsame
          omega
        · exact hkept
      refine ⟨update w h.arrays.length (some n), ⟨hwrote.arrays, fun a ha _ => hkept a ha,
        fun a ha _ => update_of_ne (ne_of_lt ha) _ _⟩, hwrote.off,
        .inr ⟨hwrote.valid, ?_, ?_⟩⟩
      · rw [hwrote.bytes, hon, hbuf.bytes]
        rfl
      · rw [hnew, update_self]
  · have hwrote := Buffer.write_spec (p := p) hb.off hv
    have hother : ∀ a, w a ≠ some n → a ≠ b.buf.array := by
      rintro a hne rfl
      exact hne hown
    refine ⟨update w (b.write h p).1.buf.array (some n),
      ⟨hwrote.arrays, fun a ha hne => hwrote.others a ha (hother a hne), ?_⟩, hwrote.off,
      .inr ⟨hwrote.valid, ?_, update_self _ _ _⟩⟩
    · intro a ha hne
      refine update_of_ne ?_ _ _
      rcases hwrote.moves with hsame | ⟨hnew, -⟩
      · rw [hsame]
        exact hother a hne
      · omega
    · rw [hwrote.bytes, hbytes, append_assoc]

/-- What `Bytes` returns is not written to any more. -/
theorem Fills.freeze (hbuf : Blank h w buf) (hb : Fills h w n buf b raw) :
    ∃ w', Steady n h w h w' ∧ Frozen h w' b.bytes raw := by
  have hbytes : h.bytes b.bytes = h.bytes b.buf := by
    rw [Buffer.bytes, Heap.bytes, Heap.bytes, hb.off]
    rfl
  rcases hb.place with ⟨hon, rfl⟩ | ⟨hv, hraw, hown⟩
  · refine ⟨w, ⟨le_refl _, fun _ _ _ => rfl, fun _ _ _ => rfl⟩, ?_, ?_, ?_⟩
    · show b.buf.array < _
      rw [hon]
      exact hbuf.array_lt
    · rw [hbytes, hon, hbuf.bytes, append_nil]
    · show w b.buf.array = none
      rw [hon]
      exact hbuf.free
  · refine ⟨update w b.buf.array none, ⟨le_refl _, fun _ _ _ => rfl, ?_⟩,
      hv.array_lt, hbytes.trans hraw, update_self _ _ _⟩
    rintro a - hne
    refine update_of_ne ?_ _ _
    rintro rfl
    exact hne hown

/-! ## The invariant -/

/-- What a session relies on. -/
def Holds (s : State) (w : Writer) (n : SessionId) : Stage → Prop
  | .hit _ data => ∃ c, s.found n = some c ∧ Frozen s.heap w data c.raw
  | .capturing _ buf b replies | .complete _ buf b replies | .reading _ buf b replies _ =>
    Blank s.heap w buf ∧ Fills s.heap w n buf b (rawOf replies)
  | .buffered _ buf b replies reply =>
    Blank s.heap w buf ∧ Fills s.heap w n buf b (rawOf (replies ++ [reply]))
  | .leaving buf => Blank s.heap w buf
  | _ => True

/-- The buffers and the entries of the store, and what has been replayed. -/
structure ReplayInv (w : Writer) (q : Thread → Stage) (s : State) : Prop where
  pool : ∀ p ∈ s.bufferPool, Blank s.heap w p
  entries : ∀ e ∈ s.store.entries, Frozen s.heap w e.value e.capture.raw
  replays : ∀ r ∈ s.replays, r.bytes = blank ++ r.capture.raw
  stages : ∀ n, Holds s w n (q (.clientToServer n))

theorem Same.holds {s s' : State} (h : Same s s') : Holds s' w n st ↔ Holds s w n st := by
  cases st <;> simp only [Holds, h.heap, h.found]

theorem rawOf_append (replies : List Reply) (reply : Reply) :
    rawOf (replies ++ [reply]) = rawOf replies ++ reply.msg.raw := by
  simp [rawOf]

variable {cfg : Config} {q : Thread → Stage} {s s' : State} {w w' : Writer} {n : SessionId}

theorem ReplayInv.same (hinv : ReplayInv w q s) (h : Same s s')
    (hst : ∀ n, t = .clientToServer n → Holds s w n st) : ReplayInv w (update q t st) s' where
  pool p hp := by rw [h.heap]; exact hinv.pool p (h.pool p hp)
  entries e he := by rw [h.heap]; exact hinv.entries e (h.entries e he)
  replays r hr := hinv.replays r (h.replays ▸ hr)
  stages n := by
    rw [h.holds]
    by_cases ht : Thread.clientToServer n = t
    · rw [ht, update_self]
      exact hst n ht.symm
    · rw [update_of_ne ht]
      exact hinv.stages n

theorem ReplayInv.steady {st : Stage} (hinv : ReplayInv w q s) (hst : Steady n s.heap w s'.heap w')
    (hpool : ∀ p ∈ s'.bufferPool, p ∈ s.bufferPool)
    (hentries : ∀ e ∈ s'.store.entries, e ∈ s.store.entries ∨
      Frozen s'.heap w' e.value e.capture.raw)
    (hfound : ∀ m ≠ n, s'.found m = s.found m) (hreplays : s'.replays = s.replays)
    (hn : Holds s' w' n st) : ReplayInv w' (update q (.clientToServer n) st) s' where
  pool p hp := hst.blank (hinv.pool p (hpool p hp))
  entries e he := (hentries e he).elim (fun h => hst.frozen (hinv.entries e h)) id
  replays r hr := hinv.replays r (hreplays ▸ hr)
  stages m := by
    by_cases hm : m = n
    · subst hm
      rw [update_self]
      exact hn
    · rw [update_of_ne (fun h => hm (Thread.clientToServer.inj h))]
      have hold := hinv.stages m
      cases hq : q (.clientToServer m) with
      | hit text data =>
        rw [hq] at hold
        obtain ⟨c, hc, hdata⟩ := hold
        exact ⟨c, (hfound m hm).trans hc, hst.frozen hdata⟩
      | capturing k buf b replies | complete k buf b replies | reading k buf b replies reply
      | buffered k buf b replies reply =>
        rw [hq] at hold
        exact ⟨hst.blank hold.1, hst.fills hm hold.2⟩
      | leaving buf =>
        rw [hq] at hold
        exact hst.blank hold
      | _ => trivial

theorem steady_refl (n : SessionId) (h : Heap) (w : Writer) : Steady n h w h w :=
  ⟨le_refl _, fun _ _ _ => rfl, fun _ _ _ => rfl⟩

theorem replayInv_getBuffer {k : Call} (hinv : ReplayInv w q s)
    (h : exec s t .getBuffer ch = some (buf, s')) : ∃ w', ReplayInv w'
      (update q (.clientToServer n) (.capturing k buf (newBuffer buf) [])) s' := by
  have hfresh : ∀ {s' : State} {w' : Writer}, Steady n s.heap w s'.heap w' →
      (∀ p ∈ s'.bufferPool, p ∈ s.bufferPool) → s'.store = s.store → s'.found = s.found →
      s'.replays = s.replays → Blank s'.heap w' buf →
      ReplayInv w' (update q (.clientToServer n) (.capturing k buf (newBuffer buf) [])) s' :=
    fun hst hpool hstore hfound hreplays hbuf =>
      hinv.steady hst hpool (fun e he => .inl (hstore ▸ he)) (fun m _ => congrFun hfound m) hreplays
        ⟨hbuf, rfl, .inl ⟨rfl, rfl⟩⟩
  simp only [exec, State.getBuffer] at h
  split at h
  · split at h
    · cases h
    · rename_i i buf' hget
      cases h
      exact ⟨w, hfresh (steady_refl n _ w) (fun p hp => mem_of_mem_eraseIdx hp) rfl rfl rfl
        (hinv.pool _ (mem_of_getElem? hget))⟩
  · cases h
    have hlen := Heap.length_arrays_alloc (h := s.heap) (replicate 4096 0)
    refine ⟨update w s.heap.arrays.length none, hfresh ⟨?_, ?_, ?_⟩ (fun p hp => hp) rfl
      rfl rfl ⟨⟨rfl, rfl, rfl⟩, ?_, Heap.array_alloc_self _, update_self _ _ _⟩⟩
    · exact le_of_lt (Nat.lt_of_lt_of_eq (Nat.lt_succ_self _) hlen.symm)
    · exact fun a ha _ => Heap.array_alloc_of_lt _ ha
    · exact fun a ha _ => update_of_ne (ne_of_lt ha) _ _
    · exact Nat.lt_of_lt_of_eq (Nat.lt_succ_self _) hlen.symm

theorem replayInv_get {text key : Str} {r : Option Slice} (hinv : ReplayInv w q s)
    (h : exec s t (.get n text key) ch = some (r, s'))
    (hst : ∀ data, r = some data → st = .hit text data) (hnone : r = none → st = .missed text) :
    ReplayInv w (update q (.clientToServer n) st) s' := by
  simp only [exec, State.get] at h
  split at h
  · cases h
    rw [hnone rfl]
    exact hinv.steady (steady_refl n _ w) (fun _ h => h)
      (fun e he => .inl (Store.mem_entries_get he)) (fun _ _ => rfl) rfl trivial
  · rename_i e hget
    cases h
    rw [hst _ rfl]
    refine hinv.steady (steady_refl n _ w) (fun _ h => h)
      (fun e he => .inl (Store.mem_entries_get he)) (fun m hm => update_of_ne hm _ _) rfl ?_
    exact ⟨e.capture, update_self _ _ _, hinv.entries e (Store.of_get_some hget).1⟩

variable {r : o.Ret}

theorem replayInv_moves (hinv : ReplayInv w q s)
    (hmove : Moves cfg n (q (.clientToServer n)) o r st)
    (h : exec s (.clientToServer n) o ch = some (r, s')) :
    ∃ w', ReplayInv w' (update q (.clientToServer n) st) s' := by
  have hold := hinv.stages n
  -- A step to a stage in which the session relies on the same or on nothing.
  have hsame : Quiet o → (Holds s w n (q (.clientToServer n)) → Holds s w n st) →
      ∃ w', ReplayInv w' (update q (.clientToServer n) st) s' :=
    fun ho hst => ⟨w, hinv.same (same_of_exec ho h) fun m hm => by
      cases hm
      exact hst hold⟩
  generalize hq : q (.clientToServer n) = st0 at hmove hold hsame
  cases hmove with
  | miss hc => exact ⟨w, replayInv_get hinv h (by simp) (fun _ => rfl)⟩
  | hit hc data =>
    exact ⟨w, replayInv_get hinv h (fun data' hd => by rw [some.inj hd]) (by simp)⟩
  | buffer k buf => exact replayInv_getBuffer hinv h
  | append k buf b b' replies reply =>
    obtain ⟨hbuf, hb⟩ := hold
    cases h
    obtain ⟨w', hst, hb'⟩ := hb.write hbuf reply.msg.raw
    rw [← rawOf_append] at hb'
    exact ⟨w', hinv.steady hst (fun _ h => h) (fun e he => .inl he) (fun _ _ => rfl) rfl
      ⟨hst.blank hbuf, hb'⟩⟩
  | store k buf b replies htables ttl ok =>
    obtain ⟨hbuf, hb⟩ := hold
    obtain ⟨w', hst, hfrozen⟩ := hb.freeze hbuf
    cases h
    refine ⟨w', hinv.steady hst (fun _ h => h) ?_ (fun _ _ => rfl) rfl (hst.blank hbuf)⟩
    intro e he
    rcases Store.mem_entries_set he with he | ⟨-, hvalue, -, hcapture⟩
    · exact .inl he
    · rw [hvalue, hcapture]
      exact .inr hfrozen
  | put buf =>
    cases h
    have hcap : ¬ 8192 < buf.cap := by
      rw [hold.full.2.2]
      decide
    have hrest : ReplayInv w (update q (.clientToServer n) .over) s :=
      hinv.same (Same.refl s) fun _ _ => trivial
    refine ⟨w, { hrest with pool := ?_ }⟩
    intro p hp
    simp only [State.putBuffer, if_neg hcap] at hp
    rcases mem_cons.mp hp with rfl | hp
    · exact hold
    · exact hinv.pool p hp
  | send text data =>
    simp only [exec] at h
    split at h
    · cases h
      obtain ⟨c, hc, hdata⟩ := hold
      have hrest : ReplayInv w (update q (.clientToServer n) .over) s :=
        hinv.same (Same.refl s) fun _ _ => trivial
      refine ⟨w, { hrest with replays := ?_ }⟩
      intro r hr
      simp only [State.sendCached, hc, toList_some, map_cons, map_nil,
        mem_append, mem_singleton] at hr
      rcases hr with hr | rfl
      · exact hinv.replays r hr
      · exact hdata.bytes
    · cases h
  | unsent text data =>
    simp only [exec] at h
    split at h
    · cases h
    · cases h
      exact ⟨w, hinv.same (Same.refl s) fun _ _ => trivial⟩
  | stuck => cases h
  | receive | more | last => exact hsame trivial id
  | lost | refused => exact hsame trivial And.left
  | _ => exact hsame trivial fun _ => trivial

theorem replayInv_step (hinv : ∃ w, ReplayInv w q s) (hmove : relaying cfg t (q t) o r st)
    (h : exec s t o ch = some (r, s')) : ∃ w, ReplayInv w (update q t st) s' := by
  obtain ⟨w, hinv⟩ := hinv
  have hquiet : Quiet o → (∀ n, t ≠ .clientToServer n) →
      ∃ w, ReplayInv w (update q t st) s' :=
    fun ho ht => ⟨w, hinv.same (same_of_exec ho h) fun n hn => absurd hn (ht n)⟩
  cases t with
  | clientToServer n => exact replayInv_moves hinv hmove h
  | serverToClient n => cases hmove <;> exact hquiet trivial (by simp)
  | cleanup | clock | collector | backend => cases hmove <;> exact hquiet trivial (by simp)

/-! ## Replays -/

/-- What is written to a client on a hit is what the pooled buffer had in it,
and then the response. -/
theorem replay_bytes {messages : SessionId → List ClientMessage} {cfg' : Conc.Config sessions}
    (hrun : Run anyStep (system cfg messages) cfg') :
    ∀ r ∈ cfg'.state.replays, r.bytes = blank ++ r.capture.raw := by
  obtain ⟨q, w, hinv⟩ := run_invariant
    ⟨fun _ => none, by simp [system], by simp [system], by simp [system], fun _ => trivial⟩
    (fun hinv _ hmove hexec => replayInv_step hinv hmove hexec) hrun
  exact hinv.replays

/-- No hit ever replays the response that it found. -/
theorem replay_never_faithful {messages : SessionId → List ClientMessage}
    {cfg' : Conc.Config sessions} (hrun : Run anyStep (system cfg messages) cfg') :
    ∀ r ∈ cfg'.state.replays,
      r.bytes = replicate 4096 0 ++ r.capture.raw ∧ r.bytes ≠ r.capture.raw := by
  intro r hr
  have hbytes := replay_bytes hrun r hr
  refine ⟨hbytes, ?_⟩
  intro heq
  have hlen := congrArg length hbytes
  rw [heq, length_append, blank, length_replicate] at hlen
  omega

/-- A library for texts that are ASCII. -/
def asciiOnly : Unicode := ⟨id, id, id, fun s => [s]⟩

/-- A listener with room for a few responses. -/
def listener : Config := { lib := asciiOnly, maxMemory := 1000000, rounds := 9 }

/-- `ReadyForQuery` with a status. -/
def readyForQuery (status : UInt8) : Wire.Message :=
  ⟨0x5a, 5, [status], [0x5a, 0, 0, 0, 5, status], .backend⟩

def twice (text : Str) : SessionId → List ClientMessage
  | 0 => [.query text, .query text]
  | _ => []

/-- The first query of a session is sent, and its response is captured and
stored. -/
def captureFirst (messages : List Wire.Message) : List (Thread × Choice) :=
  let client := Thread.clientToServer 0
  [(client, .ok), (client, .ok), (client, .ok), (client, .conn 0), (client, .ok), (client, .ok),
    (.backend, .answer 0 messages), (client, .ok)] ++
    messages.flatMap (fun _ => [(client, .ok), (client, .ok), (client, .ok)]) ++
    [(client, .ok), (client, .ok), (client, .ok)]

/-- A query of a session is answered from the cache. -/
def hitNext (n : SessionId) : List (Thread × Choice) :=
  let client := Thread.clientToServer n
  [(client, .ok), (client, .ok), (client, .ok), (client, .ok)]

/-- A query is captured, and found when it is sent again. -/
def captureAndHit : List (Thread × Choice) := captureFirst [readyForQuery 0x49] ++ hitNext 0

theorem replay_never_faithful_twice :
    ∃ cfg', Run anyStep (system listener (twice (str "SELECT 1"))) cfg' ∧ cfg'.state.replays ≠ [] ∧
      ∀ r ∈ cfg'.state.replays,
        r.bytes = replicate 4096 0 ++ r.capture.raw ∧ r.bytes ≠ r.capture.raw := by
  obtain ⟨cfg', hrun, hreplays⟩ := exists_run_of_follow anyStep
    (system listener (twice (str "SELECT 1"))) (fun cfg' => cfg'.state.replays ≠ []) captureAndHit
    (by decide +kernel)
  exact ⟨cfg', hrun, hreplays, replay_never_faithful hrun⟩

/-- The second of two equal queries is answered with the first response, behind
4096 zero bytes. -/
theorem replay_shifted :
    ¬ ∀ (messages : SessionId → List ClientMessage) (cfg' : Conc.Config sessions),
      Run anyStep (system listener messages) cfg' →
      ∀ r ∈ cfg'.state.replays, r.bytes = r.capture.raw := by
  intro h
  obtain ⟨cfg', hrun, r, hr, hne⟩ := exists_run_of_follow anyStep
    (system listener (twice (str "SELECT 1")))
    (fun cfg' => ∃ r ∈ cfg'.state.replays, r.bytes ≠ r.capture.raw) captureAndHit
    (by decide +kernel)
  exact hne (h _ cfg' hrun r hr)

end Geryon.Cache
