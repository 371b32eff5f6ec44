import Geryon.Cache.Tables

/-!
# Hits after a write

A session that is about to send a statement that modifies data first removes
the entries of the tables that `extractTablesFromQuery` finds in it.  The
statement is executed some time later.

A hit should be `Fresh`: no table that the query reads has been written since
the response was produced.  `orderly` is when it is.  The tables are named as the
extraction expects it; a write and a capture of one table do not overlap, from
the reading of the message to its execution; the connection of a capture has no
old replies on it; and `forwardServerToClient` does not reset `ps.currentQuery`,
from which the tables of an entry are taken, in the meantime.

`Sound` and `Knows` are the invariant, and `hits_fresh` is the result.
-/

namespace Geryon.Cache

open Go Conc List Function Bool

/-! ## What a hit should be -/

/-- The messages were sent after every write of the table. -/
def Fresh (executed : List Str) (table : Str) (replies : List Reply) : Prop :=
  ∀ i query, executed[i]? = some query → tableWritten query = some table →
    ∀ r ∈ replies, i < r.time

/-- The table that a message makes the backend write. -/
def ClientMessage.writes (msg : ClientMessage) : Option Str := msg.stmt.bind tableWritten

/-- The tables that a query reads, if its response may be cached. -/
def cachedReads (cfg : Config) (query : Str) : List Str :=
  if cfg.rules.shouldCache query then tablesRead query else []

/-! ## When it is -/

structure Scope where
  sessions : List SessionId
  conns : List ConnId

namespace State

variable (s : State) (scope : Scope) (table : Str)

/-- A session is handling a write of the table. -/
def isWriting : Bool :=
  scope.sessions.any fun n => (s.handling n).any fun msg => msg.writes = some table

/-- A session is handling a query that reads the table. -/
def isReading (cfg : Config) : Bool :=
  scope.sessions.any fun n => (s.handling n).any fun msg => (cachedReads cfg msg.text).contains table

/-- A write of the table has been sent and not been executed. -/
def isPending : Bool :=
  scope.conns.any fun c => (s.conn c).requests.any fun msg => msg.writes = some table

end State

/-- A message may be handled in this state. -/
def admits (cfg : Config) (scope : Scope) (s : State) (msg : ClientMessage) : Bool :=
  (msg.writes.all fun table => Named msg.text table && !s.isReading scope table cfg) &&
    (cachedReads cfg msg.text).all fun table =>
      Named msg.text table && !s.isWriting scope table && !s.isPending scope table

/-- The tables are named as `extractTablesFromQuery` expects it, writes and
captures of a table do not overlap, a query is captured on a connection without
old replies, and `forwardServerToClient` does not reset the text of a query that
is being handled. -/
def orderly (cfg : Config) (scope : Scope) : Cond sessions := fun s t o ch =>
  match t, o, ch with
  | .clientToServer _, .readClient n msg, _ => scope.sessions.contains n && admits cfg scope s msg
  | .clientToServer _, .onQuery _, .conn c => scope.conns.contains c
  | .clientToServer _, .writeServer _ c msg true, _ =>
    (cachedReads cfg msg.text).isEmpty || (s.conn c).replies.isEmpty
  | .serverToClient _, .setCurrentQuery n _, _ =>
    (s.handling n).all fun msg => (cachedReads cfg msg.text).isEmpty
  | _, _, _ => true

/-! ## What an operation leaves as it is -/

/-- The operations that change what a session is handling. -/
def Op.Marks (n : SessionId) : Op → Prop
  | .readClient m _ | .finish m => m = n
  | _ => False

/-- The operations that change `ps.currentQuery`. -/
def Op.Renames (n : SessionId) : Op → Prop
  | .setCurrentQuery m _ => m = n
  | _ => False

/-- What an operation leaves as it is, as far as writes and captures are
concerned. -/
structure Frame (o : Op) (s s' : State) : Prop where
  handling : ∀ n, ¬ o.Marks n → s'.handling n = s.handling n
  current : ∀ n, ¬ o.Renames n → s'.currentQuery n = s.currentQuery n
  executed : o ≠ .execute → s'.executed = s.executed
  replies : o ≠ .execute → ∀ c, ∀ r ∈ (s'.conn c).replies, r ∈ (s.conn c).replies
  requests : o ≠ .execute → (∀ n c msg b, o ≠ .writeServer n c msg b) →
    ∀ c, (s'.conn c).requests = (s.conn c).requests
  entries : (∀ key value tables ttl capture, o ≠ .set key value tables ttl capture) →
    ∀ e ∈ s'.store.entries, e ∈ s.store.entries
  hits : (∀ n text key, o ≠ .get n text key) → s'.hits = s.hits

theorem Frame.refl (o : Op) (s : State) : Frame o s s :=
  ⟨fun _ _ => rfl, fun _ _ => rfl, fun _ => rfl, fun _ _ _ h => h, fun _ _ _ => rfl,
    fun _ _ h => h, fun _ => rfl⟩

theorem frame_of_exec {s s' : State} {t : Thread} {o : Op} {ch : Choice} {r : o.Ret}
    (h : exec s t o ch = some (r, s')) : Frame o s s' := by
  cases o with
  | stuck => cases h
  | readClient n msg =>
    simp only [exec] at h
    split at h <;> cases h
    · refine { Frame.refl (.readClient n msg) s with handling := ?_ }
      intro m hm
      exact update_of_ne (fun he => hm he.symm) _ _
    · exact Frame.refl _ s
  | finish n =>
    cases h
    refine { Frame.refl (.finish n) s with handling := ?_ }
    intro m hm
    exact update_of_ne (fun he => hm he.symm) _ _
  | setCurrentQuery n query =>
    cases h
    refine { Frame.refl (.setCurrentQuery n query) s with current := ?_ }
    intro m hm
    exact update_of_ne (fun he => hm he.symm) _ _
  | get n text key =>
    obtain ⟨hentries, -⟩ := of_exec_get h
    simp only [exec, State.get] at h
    split at h <;> cases h
    · exact { Frame.refl (.get n text key) s with entries := fun _ => hentries }
    · exact { Frame.refl (.get n text key) s with
        entries := fun _ => hentries, hits := fun hn => absurd rfl (hn n text key) }
  | set key value tables ttl capture =>
    cases h
    exact { Frame.refl (.set key value tables ttl capture) s with
      entries := fun hn => absurd rfl (hn key value tables ttl capture) }
  | invalidateTable | cleanupExpired =>
    have hsame := same_of_exec (by trivial) h
    cases h
    exact { Frame.refl _ s with entries := fun _ => hsame.entries }
  | getCurrentQuery | writeClient | tick | bufferWrite | putBuffer =>
    cases h
    exact { Frame.refl _ s with }
  | getBuffer =>
    simp only [exec, State.getBuffer] at h
    split at h
    · split at h
      · cases h
      · cases h
        exact { Frame.refl .getBuffer s with }
    · cases h
      exact { Frame.refl .getBuffer s with }
  | dropBuffer =>
    simp only [exec] at h
    split at h
    · cases h
      exact { Frame.refl .dropBuffer s with }
    · cases h
  | onQuery n | psConn n =>
    simp only [exec] at h
    split at h <;> cases h <;> exact Frame.refl _ s
  | writeServer n c msg captured =>
    simp only [exec] at h
    split at h <;> cases h
    · refine { Frame.refl (.writeServer n c msg captured) s with
        replies := ?_, requests := fun _ hn => absurd rfl (hn n c msg captured) }
      intro _ c' r hr
      by_cases hc : c' = c
      · subst hc
        simpa using hr
      · simpa [hc] using hr
    · exact Frame.refl _ s
  | readServer n c =>
    simp only [exec] at h
    split at h
    · simp only [State.readServer] at h
      split at h
      · cases h
      · rename_i r rs hconn
        cases h
        refine { Frame.refl (.readServer n c) s with replies := ?_, requests := ?_ }
        · intro _ c' r' hr
          by_cases hc : c' = c
          · subst hc
            rw [hconn]
            exact mem_cons_of_mem r (by simpa using hr)
          · simpa [hc] using hr
        · intro _ _ c'
          by_cases hc : c' = c
          · subst hc
            simp
          · simp [hc]
    · cases h
      exact Frame.refl _ s
  | sendCached n data =>
    simp only [exec] at h
    split at h <;> cases h
    · exact { Frame.refl (.sendCached n data) s with }
    · exact Frame.refl _ s
  | execute =>
    simp only [exec] at h
    split at h
    · simp only [State.execute] at h
      split at h
      · cases h
      · cases h
        exact { Frame.refl .execute s with
          executed := fun hn => absurd rfl hn, replies := fun hn => absurd rfl hn
          requests := fun hn => absurd rfl hn }
    · cases h

/-! ## The invariant -/

/-- No entry is about the table. -/
def Gone (s : State) (table : Str) : Prop :=
  ∀ e ∈ s.store.entries, table ∉ tablesRead e.capture.query

/-- What holds of the state. -/
structure Sound (cfg : Config) (scope : Scope) (s : State) : Prop where
  handling : ∀ n msg, s.handling n = some msg → n ∈ scope.sessions ∧
    (∀ table, msg.writes = some table → Named msg.text table = true) ∧
    ∀ table ∈ cachedReads cfg msg.text, Named msg.text table = true
  /-- Writes and captures of a table do not overlap. -/
  apart : ∀ n m msg msg' table, s.handling n = some msg → s.handling m = some msg' →
    table ∈ cachedReads cfg msg.text → msg'.writes ≠ some table
  pending : ∀ n c msg msg' table, s.handling n = some msg → msg' ∈ (s.conn c).requests →
    table ∈ cachedReads cfg msg.text → msg'.writes ≠ some table
  conns : ∀ c, (s.conn c).requests ≠ [] → c ∈ scope.conns
  entries : ∀ e ∈ s.store.entries, ∀ table ∈ tablesRead e.capture.query,
    table ∈ e.tables ∧ Fresh s.executed table e.capture.replies
  /-- The entries go before the write is executed. -/
  gone : ∀ c msg table, msg ∈ (s.conn c).requests → msg.writes = some table → Gone s table

/-- The hits so far were fresh. -/
def FreshHits (s : State) : Prop :=
  ∀ h ∈ s.hits, ∀ table ∈ tablesRead h.capture.query, Fresh h.executed table h.capture.replies

namespace Stage

def message : Stage → Option ClientMessage
  | .handling msg | .routed msg _ => some msg
  | .checking text | .invalidating text _ | .missed text | .hit text _ | .called text _ =>
    some (.query text)
  | .named k | .asked k | .capturing k _ _ _ | .reading k _ _ _ _ | .buffered k _ _ _ _
  | .complete k _ _ _ => some (.query k.text)
  | _ => none

def current : Stage → Option Str
  | .checking text | .missed text | .hit text _ | .called text _ => some text
  | _ => none

def call : Stage → Option Call
  | .named k | .asked k | .capturing k _ _ _ | .reading k _ _ _ _ | .buffered k _ _ _ _
  | .complete k _ _ _ => some k
  | _ => none

def route : Stage → Option ConnId
  | .routed _ c | .called _ c => some c
  | .named k => some k.conn
  | _ => none

def captured : Stage → Option (Call × List Reply)
  | .asked k => some (k, [])
  | .capturing k _ _ replies | .complete k _ _ replies => some (k, replies)
  | .reading k _ _ replies reply | .buffered k _ _ replies reply => some (k, replies ++ [reply])
  | _ => none

/-- The entries of the table have been removed. -/
def Cleared (table : Str) : Stage → Prop
  | .invalidating text tables => tableWritten text = some table ∧ table ∉ tables
  | .routed msg _ => msg.writes = some table
  | _ => False

end Stage

/-- What `forwardClientToServer` of a session relies on. -/
structure Knows (cfg : Config) (scope : Scope) (s : State) (n : SessionId) (st : Stage) : Prop where
  message : ∀ msg, st.message = some msg → s.handling n = some msg
  current : ∀ text, st.current = some text → cachedReads cfg text ≠ [] → s.currentQuery n = text
  cacheable : ∀ text, st.lookedUp = some text →
    isModificationQuery cfg.lib text = false ∧ cfg.rules.shouldCache text = true
  call : ∀ k, st.call = some k → cachedReads cfg k.text ≠ [] → k.current = k.text
  route : ∀ c, st.route = some c → c ∈ scope.conns
  cleared : ∀ table, st.Cleared table → Gone s table
  captured : ∀ k replies, st.captured = some (k, replies) → ∀ table ∈ cachedReads cfg k.text,
    Fresh s.executed table (replies ++ (s.conn k.conn).replies)

section Invariant

variable {cfg : Config} {scope : Scope} {s s' : State} {n : SessionId} {t : Thread} {o : Op}
  {ch : Choice} {r : o.Ret} {st st' : Stage}

theorem of_none {α : Type} {o : Option α} {P : α → Prop} (h : o = none) (a : α)
    (ha : o = some a) : P a := by
  rw [h] at ha
  cases ha

variable {executed tables : List Str} {table query : Str} {replies : List Reply}
  {msg : ClientMessage} {m : SessionId} {k : Call} {buf : Slice} {b : Buffer} {ttl : Nat}
  {ok : Bool} {c : ConnId} {msgs : List Wire.Message} {q : Thread → Stage}

theorem Fresh.mono {replies' : List Reply} (h : Fresh executed table replies)
    (hsub : ∀ r ∈ replies', r ∈ replies) : Fresh executed table replies' :=
  fun i query hi hw r hr => h i query hi hw r (hsub r hr)

theorem Gone.mono (h : Gone s table) (hsub : ∀ e ∈ s'.store.entries, e ∈ s.store.entries) :
    Gone s' table :=
  fun e he => h e (hsub e he)

theorem tablesRead_of_written (h : tableWritten query = some table) : tablesRead query = [] := by
  have hhead : (tokens [] query).head? ≠ some (str "select") ∧
      (tokens [] query).head? ≠ some (str "with") := by
    simp only [tableWritten] at h
    split at h
    · rename_i hwords
      rcases hwords with hwords | hwords <;> rw [head?_of_take hwords] <;> decide
    · split at h
      · rename_i hwords
        rw [head?_of_take hwords]
        decide
      · cases h
  simp [tablesRead, hhead]

theorem knows_of_none (hmessage : st.message = none) (hcurrent : st.current = none)
    (hlookedUp : st.lookedUp = none) (hcall : st.call = none) (hroute : st.route = none)
    (hcaptured : st.captured = none) (hcleared : ∀ table, ¬ st.Cleared table) :
    Knows cfg scope s n st where
  message _ h := by simp [hmessage] at h
  current _ h := by simp [hcurrent] at h
  cacheable _ h := by simp [hlookedUp] at h
  call _ h := by simp [hcall] at h
  route _ h := by simp [hroute] at h
  cleared table h := absurd h (hcleared table)
  captured _ _ h := by simp [hcaptured] at h

/-! ## Steps of the state -/

theorem of_writes {msg : ClientMessage} {table : Str} (h : msg.writes = some table)
    (hnamed : Named msg.text table = true) :
    isModificationQuery cfg.lib msg.text = true ∧ cachedReads cfg msg.text = [] := by
  cases msg with
  | query q =>
    have hascii : isASCII q = true := by
      simp only [Named, and_eq_true] at hnamed
      exact hnamed.1
    refine ⟨isModificationQuery_of_written hascii h, ?_⟩
    rw [cachedReads, ClientMessage.text, tablesRead_of_written h, ite_self]
  | other | terminate => cases hnamed

theorem Sound.frame (hs : Sound cfg scope s) (hf : Frame o s s') (hmarks : ∀ n, ¬ o.Marks n)
    (hexecute : o ≠ .execute) (hwrite : ∀ n c msg b, o ≠ .writeServer n c msg b)
    (hset : ∀ key value tables ttl capture, o ≠ .set key value tables ttl capture) :
    Sound cfg scope s' := by
  have hhandling : s'.handling = s.handling := funext fun n => hf.handling n (hmarks n)
  have hrequests := hf.requests hexecute hwrite
  have hentries := hf.entries hset
  refine ⟨?_, ?_, ?_, ?_, ?_, ?_⟩
  · rw [hhandling]
    exact hs.handling
  · rw [hhandling]
    exact hs.apart
  · intro m c msg msg' table hm hmem
    rw [hhandling] at hm
    rw [hrequests] at hmem
    exact hs.pending m c msg msg' table hm hmem
  · intro c hc
    rw [hrequests] at hc
    exact hs.conns c hc
  · rw [hf.executed hexecute]
    exact fun e he => hs.entries e (hentries e he)
  · intro c msg table hmem hw
    rw [hrequests] at hmem
    exact (hs.gone c msg table hmem hw).mono hentries

theorem of_admits (h : admits cfg scope s msg = true) : (∀ table, msg.writes = some table →
      Named msg.text table = true ∧ s.isReading scope table cfg = false) ∧
    ∀ table ∈ cachedReads cfg msg.text, Named msg.text table = true ∧
      s.isWriting scope table = false ∧ s.isPending scope table = false := by
  simp only [admits, and_eq_true, all_eq_true, not_eq_true'] at h
  refine ⟨?_, fun table htable => ⟨(h.2 table htable).1.1, (h.2 table htable).1.2,
    (h.2 table htable).2⟩⟩
  intro table hw
  simpa [hw] using h.1

theorem of_update_handling {handling : SessionId → Option ClientMessage}
    {v : Option ClientMessage} (h : update handling n v m = some msg) :
    m = n ∧ v = some msg ∨ handling m = some msg := by
  by_cases hmn : m = n
  · subst hmn
    exact .inl ⟨rfl, by simpa using h⟩
  · exact .inr (by simpa [hmn] using h)

theorem Sound.readClient {r : Bool} (hs : Sound cfg scope s)
    (hcond : orderly cfg scope s (.clientToServer n) (.readClient n msg) ch = true)
    (h : exec s t (.readClient n msg) ch = some (r, s')) : Sound cfg scope s' := by
  simp only [orderly, and_eq_true, contains_iff_mem] at hcond
  obtain ⟨hscope, hadmits⟩ := hcond
  obtain ⟨hwrites, hreads⟩ := of_admits hadmits
  -- Whoever reads or writes one of the tables of the message is in its way.
  have hwriting : ∀ m msg' table, s.handling m = some msg' → table ∈ cachedReads cfg msg.text →
      msg'.writes ≠ some table := by
    intro m msg' table hm htable hw
    have hnot := (hreads table htable).2.1
    rw [State.isWriting, any_eq_false] at hnot
    exact hnot m (hs.handling m msg' hm).1 (by simp [hm, hw])
  have hreading : ∀ m msg' table, s.handling m = some msg' → table ∈ cachedReads cfg msg'.text →
      msg.writes ≠ some table := by
    intro m msg' table hm htable hw
    have hnot := (hwrites table hw).2
    rw [State.isReading, any_eq_false] at hnot
    exact hnot m (hs.handling m msg' hm).1 (by simpa [hm] using htable)
  simp only [exec] at h
  split at h <;> cases h
  · refine { hs with handling := ?_, apart := ?_, pending := ?_ }
    · intro m msg' hm
      rcases of_update_handling hm with ⟨rfl, hmsg⟩ | hm
      · cases hmsg
        exact ⟨hscope, fun table hw => (hwrites table hw).1,
          fun table htable => (hreads table htable).1⟩
      · exact hs.handling m msg' hm
    · intro m m' a b table hm hm' htable
      rcases of_update_handling hm with ⟨rfl, ha⟩ | hold
      · cases ha
        rcases of_update_handling hm' with ⟨rfl, hb⟩ | hold'
        · cases hb
          intro hw
          rw [(of_writes hw (hwrites table hw).1).2] at htable
          cases htable
        · exact hwriting m' b table hold' htable
      · rcases of_update_handling hm' with ⟨rfl, hb⟩ | hold'
        · cases hb
          exact hreading m a table hold htable
        · exact hs.apart m m' a b table hold hold' htable
    · intro m c a b table hm hmem htable
      rcases of_update_handling hm with ⟨rfl, ha⟩ | hm
      · cases ha
        intro hw
        have hnot := (hreads table htable).2.2
        rw [State.isPending, any_eq_false] at hnot
        refine hnot c (hs.conns c (ne_nil_of_mem hmem)) ?_
        exact any_eq_true.mpr ⟨b, hmem, by simpa using hw⟩
      · exact hs.pending m c a b table hm hmem htable
  · exact hs

theorem Sound.finish (hs : Sound cfg scope s) :
    Sound cfg scope { s with handling := update s.handling n none } := by
  have hold : ∀ m msg, update s.handling n none m = some msg →
      s.handling m = some msg := by
    intro m msg hm
    rcases of_update_handling hm with ⟨-, hnone⟩ | hm
    · cases hnone
    · exact hm
  exact { hs with
    handling := fun m msg hm => hs.handling m msg (hold m msg hm)
    apart := fun m m' a b table hm hm' => hs.apart m m' a b table (hold m a hm) (hold m' b hm')
    pending := fun m c a b table hm => hs.pending m c a b table (hold m a hm) }

theorem Knows.tablesRead (hk : Knows cfg scope s n st) (hcall : st.call = some k)
    (hlooked : st.lookedUp = some k.text) (hmessage : st.message = some (.query k.text))
    (hs : Sound cfg scope s) (htable : table ∈ Cache.tablesRead k.text) :
    table ∈ cachedReads cfg k.text ∧ extractTablesFromQuery cfg.lib k.current = some [table] := by
  have hreads : table ∈ cachedReads cfg k.text := by
    rw [cachedReads, if_pos (hk.cacheable _ hlooked).2]
    exact htable
  have hnamed := (hs.handling n _ (hk.message _ hmessage)).2.2 table hreads
  refine ⟨hreads, ?_⟩
  rw [hk.call k hcall (ne_nil_of_mem hreads)]
  exact extractTablesFromQuery_of_named hnamed

theorem Sound.set {k : Call} {buf : Slice} {b : Buffer} {replies : List Reply} {tables : List Str}
    {ttl : Nat} {ok : Bool} (hs : Sound cfg scope s)
    (hk : Knows cfg scope s n (.complete k buf b replies))
    (htables : extractTablesFromQuery cfg.lib k.current = some tables)
    (h : exec s t (.set (generateKey cfg.lib k.text) b.bytes tables ttl ⟨n, k.text, replies⟩) ch =
      some (ok, s')) : Sound cfg scope s' := by
  have hnew : ∀ table ∈ Cache.tablesRead k.text, table ∈ cachedReads cfg k.text ∧ table ∈ tables ∧
      Fresh s.executed table replies := by
    intro table htable
    obtain ⟨hreads, hextract⟩ := hk.tablesRead rfl rfl rfl hs htable
    rw [htables] at hextract
    cases hextract
    exact ⟨hreads, mem_singleton_self _, (hk.captured k replies rfl table hreads).mono
      fun r hr => mem_append_left _ hr⟩
  cases h
  refine { hs with entries := ?_, gone := ?_ }
  · intro e he table htable
    rcases Store.mem_entries_set he with he | ⟨-, -, htab, hcapture⟩
    · exact hs.entries e he table htable
    · rw [hcapture] at htable
      rw [htab, hcapture]
      exact (hnew table htable).2
  · intro c msg table hmem hw e he htable
    rcases Store.mem_entries_set he with he | ⟨-, -, -, hcapture⟩
    · exact hs.gone c msg table hmem hw e he htable
    · rw [hcapture] at htable
      exact hs.pending n c _ msg table (hk.message _ rfl) hmem (hnew table htable).1 hw

theorem Sound.writeServer {captured r : Bool} (hs : Sound cfg scope s)
    (hmessage : s.handling n = some msg) (hroute : c ∈ scope.conns)
    (hgone : ∀ table, msg.writes = some table → Gone s table)
    (h : exec s t (.writeServer n c msg captured) ch = some (r, s')) : Sound cfg scope s' := by
  simp only [exec] at h
  split at h <;> cases h
  · have hmem : ∀ {c' msg'}, msg' ∈ ((s.setConn c ⟨(s.conn c).requests ++ [msg],
        (s.conn c).replies⟩).conn c').requests → msg' = msg ∨ msg' ∈ (s.conn c').requests := by
      intro c' msg' hmsg'
      by_cases hc : c' = c
      · subst hc
        rw [State.conn_setConn_self, mem_append, mem_singleton] at hmsg'
        exact hmsg'.symm
      · rw [State.conn_setConn_of_ne s _ hc] at hmsg'
        exact .inr hmsg'
    refine ⟨hs.handling, hs.apart, ?_, ?_, hs.entries, ?_⟩
    · intro m c' a msg' table hm hmsg' htable
      rcases hmem hmsg' with rfl | hmsg'
      · exact hs.apart m n a msg' table hm hmessage htable
      · exact hs.pending m c' a msg' table hm hmsg' htable
    · intro c' hc'
      by_cases hc : c' = c
      · exact hc ▸ hroute
      · rw [State.conn_setConn_of_ne s _ hc] at hc'
        exact hs.conns c' hc'
    · intro c' msg' table hmsg' hw
      rcases hmem hmsg' with rfl | hmsg'
      · exact hgone table hw
      · exact hs.gone c' msg' table hmsg' hw
  · exact hs

theorem of_getElem?_append {i : Nat} (h : (executed ++ msg.stmt.toList)[i]? = some query)
    (hw : tableWritten query = some table) :
    executed[i]? = some query ∨ msg.writes = some table := by
  by_cases hi : i < executed.length
  · rw [getElem?_append_left hi] at h
    exact .inl h
  · rw [getElem?_append_right (by omega)] at h
    right
    cases hstmt : msg.stmt with
    | none => simp [hstmt] at h
    | some stmt =>
      have hmem := mem_of_getElem? h
      simp only [hstmt, Option.toList_some, mem_singleton] at hmem
      subst hmem
      rw [ClientMessage.writes, hstmt]
      exact hw

/-- The messages on a connection after the backend has executed one. -/
structure Executed (s s' : State) (c : ConnId) (msg : ClientMessage) (msgs : List Wire.Message) :
    Prop where
  requests : (s.conn c).requests = msg :: (s'.conn c).requests
  executed : s'.executed = s.executed ++ msg.stmt.toList
  replies : (s'.conn c).replies = (s.conn c).replies ++ msgs.map (⟨·, s'.executed.length⟩)
  others : ∀ c', c' ≠ c → s'.conn c' = s.conn c'
  handling : s'.handling = s.handling
  current : s'.currentQuery = s.currentQuery
  store : s'.store = s.store
  hits : s'.hits = s.hits

theorem of_exec_execute {r : Unit} (h : exec s t .execute ch = some (r, s')) :
    ∃ c msg msgs, Executed s s' c msg msgs := by
  simp only [exec] at h
  split at h
  · rename_i c msgs
    simp only [State.execute] at h
    split at h
    · cases h
    · rename_i msg rest hconn
      cases h
      refine ⟨c, msg, msgs, ?_, rfl, ?_, ?_, rfl, rfl, rfl, rfl⟩
      · simp [hconn]
      · simp
      · intro c' hc
        simp [hc]
  · cases h

theorem Executed.mem_requests {c' : ConnId} {msg' : ClientMessage} (hx : Executed s s' c msg msgs)
    (h : msg' ∈ (s'.conn c').requests) : msg' ∈ (s.conn c').requests := by
  by_cases hc : c' = c
  · subst hc
    rw [hx.requests]
    exact mem_cons_of_mem msg h
  · rwa [hx.others c' hc] at h

theorem Sound.execute (hs : Sound cfg scope s) (hx : Executed s s' c msg msgs) :
    Sound cfg scope s' := by
  refine ⟨?_, ?_, ?_, ?_, ?_, ?_⟩
  · rw [hx.handling]
    exact hs.handling
  · rw [hx.handling]
    exact hs.apart
  · intro m c' a msg' table hm hmem
    rw [hx.handling] at hm
    exact hs.pending m c' a msg' table hm (hx.mem_requests hmem)
  · intro c' hc'
    obtain ⟨msg', hmsg'⟩ := exists_mem_of_ne_nil _ hc'
    exact hs.conns c' (ne_nil_of_mem (hx.mem_requests hmsg'))
  · rw [hx.store, hx.executed]
    intro e he table htable
    obtain ⟨htables, hfresh⟩ := hs.entries e he table htable
    refine ⟨htables, ?_⟩
    intro i query hi hw
    rcases of_getElem?_append hi hw with hi | hmsg
    · exact hfresh i query hi hw
    · have hmem : msg ∈ (s.conn c).requests := hx.requests ▸ mem_cons_self
      exact absurd htable (hs.gone c msg table hmem hmsg e he)
  · intro c' msg' table hmem hw
    rw [Gone, hx.store]
    exact hs.gone c' msg' table (hx.mem_requests hmem) hw

/-! ## Steps of the sessions -/

theorem Stage.Cleared.message (h : st.Cleared table) :
    ∃ msg, st.message = some msg ∧ msg.writes = some table := by
  cases st with
  | invalidating text tables => exact ⟨.query text, rfl, h.1⟩
  | routed msg c => exact ⟨msg, rfl, h⟩
  | _ => exact h.elim

theorem Stage.message_of_captured (h : st.captured = some (k, replies)) :
    st.message = some (.query k.text) := by
  cases st <;> cases h <;> rfl

namespace Knows

variable (hk : Knows cfg scope s n st)
include hk

theorem frame (hf : Frame o s s') (hmarks : ¬ o.Marks n)
    (hnames : o.Renames n → ∀ text, st.current = some text → cachedReads cfg text = [])
    (hexecute : o ≠ .execute)
    (hset : ∀ key value tables ttl capture, o ≠ .set key value tables ttl capture) :
    Knows cfg scope s' n st where
  message msg h := (hf.handling n hmarks).trans (hk.message msg h)
  current text h hreads :=
    (hf.current n fun hr => hreads (hnames hr text h)).trans (hk.current text h hreads)
  cacheable := hk.cacheable
  call := hk.call
  route := hk.route
  cleared table h := (hk.cleared table h).mono (hf.entries hset)
  captured k replies h table htable := by
    rw [hf.executed hexecute]
    refine (hk.captured k replies h table htable).mono ?_
    intro r hr
    rcases mem_append.mp hr with hr | hr
    · exact mem_append_left _ hr
    · exact mem_append_right _ (hf.replies hexecute k.conn r hr)

variable (hs : Sound cfg scope s)
include hs

theorem set {m : SessionId} {k : Call} {buf : Slice} {b : Buffer} {replies : List Reply}
    {tables : List Str} {ttl : Nat} {ok : Bool}
    (hm : Knows cfg scope s m (.complete k buf b replies))
    (h : exec s t (.set (generateKey cfg.lib k.text) b.bytes tables ttl ⟨m, k.text, replies⟩) ch =
      some (ok, s')) : Knows cfg scope s' n st := by
  cases h
  refine { hk with cleared := ?_ }
  intro table hcleared e he htable
  rcases Store.mem_entries_set he with he | ⟨-, -, -, hcapture⟩
  · exact hk.cleared table hcleared e he htable
  · rw [hcapture] at htable
    obtain ⟨hreads, -⟩ := hm.tablesRead rfl rfl rfl hs htable
    obtain ⟨msg, hmsg, hw⟩ := hcleared.message
    exact hs.apart m n _ msg table (hm.message _ rfl) (hk.message msg hmsg) hreads hw

theorem execute (hx : Executed s s' c msg msgs) : Knows cfg scope s' n st where
  message msg' h := by
    rw [hx.handling]
    exact hk.message msg' h
  current text h hreads := by
    rw [hx.current]
    exact hk.current text h hreads
  cacheable := hk.cacheable
  call := hk.call
  route := hk.route
  cleared table h := by
    rw [Gone, hx.store]
    exact hk.cleared table h
  captured k replies h table htable := by
    intro i query hi hw r hr
    have hold : r ∈ replies ++ (s.conn k.conn).replies ∨ r.time = s'.executed.length := by
      rcases mem_append.mp hr with hr | hr
      · exact .inl (mem_append_left _ hr)
      · by_cases hc : k.conn = c
        · rw [hc, hx.replies] at hr
          rcases mem_append.mp hr with hr | hr
          · exact .inl (mem_append_right _ (hc ▸ hr))
          · obtain ⟨_, -, rfl⟩ := mem_map.mp hr
            exact .inr rfl
        · rw [hx.others _ hc] at hr
          exact .inl (mem_append_right _ hr)
    rcases hold with hold | htime
    · rw [hx.executed] at hi
      rcases of_getElem?_append hi hw with hi | hmsg
      · exact hk.captured k replies h table htable i query hi hw r hold
      · -- A write of the table is not pending while it is being read.
        have hmem : msg ∈ (s.conn c).requests := hx.requests ▸ mem_cons_self
        exact absurd hmsg (hs.pending n c _ msg table
          (hk.message _ (Stage.message_of_captured h)) hmem htable)
    · rw [htime]
      exact (List.getElem?_eq_some_iff.mp hi).1

/-- A message that goes to the backend without a capture. -/
theorem forwards (h : Forwards cfg st msg) :
    st.message = some msg ∧ ∀ table, msg.writes = some table → Gone s table := by
  have hnamed : ∀ {table}, st.message = some msg → msg.writes = some table →
      isModificationQuery cfg.lib msg.text = true := fun hmsg hw =>
    (of_writes hw ((hs.handling n msg (hk.message msg hmsg)).2.1 _ hw)).1
  cases h with
  | other | empty =>
    refine ⟨rfl, fun table hw => ?_⟩
    cases (hs.handling n _ (hk.message _ rfl)).2.1 table hw
  | read hmod =>
    refine ⟨rfl, fun table hw => ?_⟩
    have hmod' := hnamed rfl hw
    rw [ClientMessage.text, hmod] at hmod'
    cases hmod'
  | invalidated text => exact ⟨rfl, fun table hw => hk.cleared table ⟨hw, not_mem_nil⟩⟩
  | unkeyed hkey =>
    refine ⟨rfl, fun table hw => ?_⟩
    have hmod' := hnamed rfl hw
    rw [ClientMessage.text, (hk.cacheable _ rfl).1] at hmod'
    cases hmod'

end Knows

theorem Knows.asks (hk : Knows cfg scope s n (.named k)) (hs : Sound cfg scope s) (table : Str) :
    (ClientMessage.query k.text).writes ≠ some table := by
  intro hw
  have hmod := (@of_writes cfg _ table hw
    ((hs.handling n _ (hk.message _ rfl)).2.1 table hw)).1
  rw [ClientMessage.text, (hk.cacheable _ rfl).1] at hmod
  cases hmod

theorem onQuery_conn (hcond : orderly cfg scope s (.clientToServer n) (.onQuery n) ch = true)
    (h : exec s (.clientToServer n) (.onQuery n) ch = some (some c, s')) : c ∈ scope.conns := by
  simp only [exec] at h
  split at h
  · cases h
    simpa [orderly] using hcond
  · cases h

theorem knows_moves (hk : Knows cfg scope s n st) (hs : Sound cfg scope s)
    (hcond : orderly cfg scope s (.clientToServer n) o ch = true) (hmove : Moves cfg n st o r st')
    (hexec : exec s (.clientToServer n) o ch = some (r, s')) : Knows cfg scope s' n st' := by
  have hf := frame_of_exec hexec
  have hnone : ∀ {st : Stage}, (st = .idle ∨ st = .over ∨ (∃ buf, st = .leaving buf) ∨
      ∃ msg, st = .written msg) → Knows cfg scope s' n st := by
    rintro st (rfl | rfl | ⟨buf, rfl⟩ | ⟨msg, rfl⟩) <;>
      exact knows_of_none rfl rfl rfl rfl rfl rfl fun _ h => h
  cases hmove with
  | stuck => cases hexec
  | read msg =>
    simp only [exec] at hexec
    split at hexec <;> cases hexec
    exact ⟨fun _ h => Option.some.inj h ▸ update_self _ _ _, of_none rfl, of_none rfl,
      of_none rfl, of_none rfl, fun _ => False.elim, fun _ _ h => by cases h⟩
  | note text =>
    cases hexec
    exact ⟨fun _ h => Option.some.inj h ▸ hk.message _ rfl,
      fun _ h _ => Option.some.inj h ▸ update_self _ _ _, of_none rfl, of_none rfl,
      of_none rfl, fun _ => False.elim, fun _ _ h => by cases h⟩
  | noteWrite hmod htables =>
    cases hexec
    refine ⟨fun _ h => Option.some.inj h ▸ hk.message _ rfl, of_none rfl, of_none rfl,
      of_none rfl, of_none rfl, ?_, fun _ _ h => by cases h⟩
    rintro table ⟨hw, hnot⟩
    have hnamed := (hs.handling n _ (hk.message _ rfl)).2.1 table hw
    cases htables.symm.trans (extractTablesFromQuery_of_named hnamed)
    exact absurd (mem_singleton_self table) hnot
  | invalidate text table tables =>
    have hk' := hk.frame hf (fun h => h) False.elim (by simp) (by simp)
    refine ⟨hk'.message, of_none rfl, of_none rfl, of_none rfl, of_none rfl, ?_,
      fun _ _ h => by cases h⟩
    rintro table' ⟨hw, hnot⟩
    by_cases heq : table' = table
    · subst heq
      cases hexec
      intro e he htable
      obtain ⟨he, hnot⟩ := Store.mem_entries_invalidateTable he
      exact hnot (hs.entries e he table' htable).1
    · exact hk'.cleared table' ⟨hw, by simp [heq, hnot]⟩
  | miss hc | hit hc data =>
    have hk' := hk.frame hf (fun h => h) False.elim (by simp) (by simp)
    have hcache : cfg.rules.shouldCache _ = true := (and_eq_true _ _ ▸ hc.2.2).1
    exact ⟨hk'.message, hk'.current, fun _ h => Option.some.inj h ▸ ⟨hc.2.1, hcache⟩,
      of_none rfl, of_none rfl, fun _ => False.elim, fun _ _ h => by cases h⟩
  | unsent text data =>
    have hk' := hk.frame hf (fun h => h) False.elim (by simp) (by simp)
    exact ⟨hk'.message, hk'.current, hk'.cacheable, hk'.call, of_none rfl, fun _ => False.elim,
      fun _ _ h => by cases h⟩
  | route hfwd c =>
    obtain ⟨hmessage, hgone⟩ := hk.forwards hs hfwd
    have hk' := hk.frame hf (fun h => h) False.elim (by simp) (by simp)
    refine ⟨fun _ h => Option.some.inj h ▸ hk'.message _ hmessage, of_none rfl, of_none rfl,
      of_none rfl, fun c' h => ?_, fun table hw => ?_, fun _ _ h => by cases h⟩
    · cases h
      exact onQuery_conn hcond hexec
    · exact (hgone table hw).mono (hf.entries (by simp))
  | call text c =>
    have hk' := hk.frame hf (fun h => h) False.elim (by simp) (by simp)
    refine ⟨hk'.message, hk'.current, hk'.cacheable, of_none rfl, fun c' h => ?_,
      fun _ => False.elim, fun _ _ h => by cases h⟩
    cases h
    exact onQuery_conn hcond hexec
  | name text c current =>
    have hk' := hk.frame hf (fun h => h) False.elim (by simp) (by simp)
    refine ⟨hk'.message, of_none rfl, hk'.cacheable, fun k h hreads => ?_, hk'.route,
      fun _ => False.elim, fun _ _ h => by cases h⟩
    cases h
    cases hexec
    exact hk.current text rfl hreads
  | ask k =>
    have hk' := hk.frame hf (fun h => h) False.elim (by simp) (by simp)
    refine ⟨hk'.message, of_none rfl, hk'.cacheable, hk'.call, of_none rfl, fun _ => False.elim,
      fun k' replies h table htable => ?_⟩
    cases h
    simp only [orderly, or_eq_true, List.isEmpty_iff] at hcond
    have hnil := hcond.resolve_left (ne_nil_of_mem htable)
    intro i query _ _ r hr
    have hr' := hf.replies (by simp) k.conn r (by simpa using hr)
    rw [hnil] at hr'
    cases hr'
  | buffer | append | more | last =>
    have hk' := hk.frame hf (fun h => h) False.elim (by simp) (by simp)
    exact ⟨hk'.message, hk'.current, hk'.cacheable, hk'.call, hk'.route, fun _ => False.elim,
      hk'.captured⟩
  | receive k buf b replies reply =>
    have hk' := hk.frame hf (fun h => h) False.elim (by simp) (by simp)
    refine ⟨hk'.message, hk'.current, hk'.cacheable, hk'.call, hk'.route, fun _ => False.elim, ?_⟩
    intro k' replies' h table htable
    cases h
    rw [hf.executed (by simp)]
    refine (hk.captured k replies rfl table htable).mono ?_
    simp only [exec, State.readServer] at hexec
    split at hexec
    · split at hexec
      · cases hexec
      · rename_i rs hconn
        cases hexec
        rw [hconn, State.conn_setConn_self]
        intro r hr
        simpa using hr
    · cases hexec
  | unread | finish | terminate => exact hnone (.inl rfl)
  | lost k buf | refused k buf | store k buf => exact hnone (.inr (.inr (.inl ⟨buf, rfl⟩)))
  | write msg c => exact hnone (.inr (.inr (.inr ⟨msg, rfl⟩)))
  | _ => exact hnone (.inr (.inl rfl))

section

variable (hk : ∀ n, Knows cfg scope s n (q (.clientToServer n)))
include hk

variable (hs : Sound cfg scope s) (hcond : orderly cfg scope s t o ch = true)
  (hmove : relaying cfg t (q t) o r st) (hexec : exec s t o ch = some (r, s'))
include hs hcond hmove hexec

theorem knows_other
    (hne : Thread.clientToServer n ≠ t) : Knows cfg scope s' n (q (.clientToServer n)) := by
  have hf := frame_of_exec hexec
  have hframe : ¬ o.Marks n → ¬ o.Renames n → o ≠ .execute →
      (∀ key value tables ttl capture, o ≠ .set key value tables ttl capture) →
      Knows cfg scope s' n (q (.clientToServer n)) := fun hmarks hnames hexecute hset =>
    (hk n).frame hf hmarks (fun h => absurd h hnames) hexecute hset
  cases t with
  | clientToServer m =>
    have hmn : m ≠ n := fun h => hne (h ▸ rfl)
    generalize hst0 : q (.clientToServer m) = st0 at hmove
    cases hmove with
    | store k buf b replies htables ttl ok => exact (hk n).set hs (hst0 ▸ hk m) hexec
    | _ => exact hframe (by simp [Op.Marks, hmn]) (by simp [Op.Renames, hmn]) (by simp) (by simp)
  | serverToClient m =>
    cases hmove with
    | reset =>
      refine (hk n).frame hf id ?_ (by simp) (by simp)
      rintro rfl text htext
      -- The text is that of the message that is being handled.
      have hmsg : (q (.clientToServer m)).message = some (.query text) := by
        generalize q (.clientToServer m) = st at htext
        cases st <;> cases htext <;> rfl
      simpa [orderly, (hk m).message _ hmsg, ClientMessage.text] using hcond
    | _ => exact hframe id id (by simp) (by simp)
  | backend =>
    cases hmove with
    | stuck => cases hexec
    | once =>
      obtain ⟨c, msg, msgs, hx⟩ := of_exec_execute hexec
      exact (hk n).execute hs hx
  | cleanup | clock | collector =>
    cases hmove <;> exact hframe id id (by simp) (by simp)

theorem sound_step : Sound cfg scope s' := by
  have hf := frame_of_exec hexec
  cases t with
  | clientToServer n =>
    have hk := hk n
    generalize q (.clientToServer n) = st0 at hmove hk
    cases hmove with
    | stuck => cases hexec
    | read msg | unread msg => exact hs.readClient hcond hexec
    | finish | terminate =>
      cases hexec
      exact hs.finish
    | write msg c | unwritten msg c =>
      exact hs.writeServer (hk.message _ rfl) (hk.route _ rfl) hk.cleared hexec
    | ask k | unasked k =>
      exact hs.writeServer (hk.message _ rfl) (hk.route _ rfl)
        (fun table hw => absurd hw (hk.asks hs table)) hexec
    | store k buf b replies htables ttl ok => exact hs.set hk htables hexec
    | _ => exact hs.frame hf (fun _ h => h) (by simp) (by simp) (by simp)
  | backend =>
    cases hmove with
    | stuck => cases hexec
    | once =>
      obtain ⟨c, msg, msgs, hx⟩ := of_exec_execute hexec
      exact hs.execute hx
  | serverToClient | cleanup | clock | collector =>
    cases hmove <;> exact hs.frame hf (fun _ h => h) (by simp) (by simp) (by simp)

end

theorem freshHits_step (hs : Sound cfg scope s) (hh : FreshHits s)
    (hexec : exec s t o ch = some (r, s')) : FreshHits s' := by
  by_cases hget : ∃ n text key, o = .get n text key
  · obtain ⟨n, text, key, rfl⟩ := hget
    rcases (of_exec_get hexec).2 with ⟨-, hhits⟩ | ⟨e, he, -, -, hhits⟩
    · rw [FreshHits, hhits]
      exact hh
    · intro h hmem
      rw [hhits] at hmem
      rcases mem_append.mp hmem with hmem | hmem
      · exact hh h hmem
      · obtain rfl := mem_singleton.mp hmem
        exact fun table htable => (hs.entries e he table htable).2
  · rw [FreshHits, (frame_of_exec hexec).hits fun n text key ho => hget ⟨n, text, key, ho⟩]
    exact hh

end Invariant

/-- In orderly runs no hit is older than a write of a table that it reads. -/
theorem hits_fresh {cfg : Config} {scope : Scope} {messages : SessionId → List ClientMessage}
    {cfg' : Conc.Config sessions} (hrun : Run (orderly cfg scope) (system cfg messages) cfg') :
    ∀ h ∈ cfg'.state.hits, ∀ table ∈ tablesRead h.capture.query,
      Fresh h.executed table h.capture.replies := by
  have hinit : Sound cfg scope (system cfg messages).state := by
    constructor <;> simp [system]
  obtain ⟨q, -, hhits, -⟩ := run_invariant
    (J := fun q s => Sound cfg scope s ∧ FreshHits s ∧
      ∀ n, Knows cfg scope s n (q (.clientToServer n)))
    ⟨hinit, by simp [FreshHits, system], fun n => knows_of_none rfl rfl rfl rfl rfl rfl fun _ h => h⟩
    (fun {q s t o ch r s' st} hJ hcond hmove hexec => by
      obtain ⟨hs, hh, hk⟩ := hJ
      refine ⟨sound_step hk hs hcond hmove hexec, freshHits_step hs hh hexec, fun n => ?_⟩
      by_cases ht : Thread.clientToServer n = t
      · subst ht
        rw [update_self]
        exact knows_moves (hk n) hs hcond hmove hexec
      · rw [update_of_ne ht]
        exact knows_other hk hs hcond hmove hexec ht) hrun
  exact hhits

/-- A client that sends a query again and again, and one that sends a
statement. -/
def readersAndWriter (query stmt : Str) : SessionId → List ClientMessage
  | 0 => [.query query, .query query, .query query]
  | 1 => [.query stmt]
  | _ => []

/-- The second session reads its statement, and removes entries if it finds a
table in it. -/
def prepareWrite (invalidates : Bool) : List (Thread × Choice) :=
  replicate (if invalidates then 3 else 2) (.clientToServer 1, .ok)

/-- The statement of the second session is sent and executed. -/
def finishWrite : List (Thread × Choice) :=
  let client := Thread.clientToServer 1
  [(client, .conn 1), (client, .ok), (client, .ok), (client, .ok),
    (.backend, .answer 1 [readyForQuery 0x49])]

theorem hits_fresh_delete : ∃ cfg', Run (orderly listener ⟨[0, 1], [0, 1]⟩)
        (system listener (readersAndWriter (str "SELECT * FROM t") (str "DELETE FROM t"))) cfg' ∧
      (cfg'.state.hits.any fun h => h.executed.contains (str "DELETE FROM t")) = true ∧
      ∀ h ∈ cfg'.state.hits, ∀ table ∈ tablesRead h.capture.query,
        Fresh h.executed table h.capture.replies := by
  obtain ⟨cfg', hrun, hhits⟩ := exists_run_of_follow (orderly listener ⟨[0, 1], [0, 1]⟩)
    (system listener (readersAndWriter (str "SELECT * FROM t") (str "DELETE FROM t")))
    (fun cfg' => cfg'.state.hits.any fun h => h.executed.contains (str "DELETE FROM t"))
    (captureFirst [readyForQuery 0x49] ++ prepareWrite true ++ finishWrite ++
      captureFirst [readyForQuery 0x49] ++ hitNext 0) (by decide +kernel)
  exact ⟨cfg', hrun, hhits, hits_fresh hrun⟩

def Hit.isStale (h : Hit) : Bool :=
  (tablesRead h.capture.query).any fun table => (range h.executed.length).any fun i =>
    decide (h.executed[i]?.bind tableWritten = some table) && h.capture.replies.any (·.time ≤ i)

theorem Hit.not_fresh_of_isStale {h : Hit} (hstale : h.isStale = true) :
    ¬ ∀ table ∈ tablesRead h.capture.query, Fresh h.executed table h.capture.replies := by
  intro hfresh
  simp only [isStale, any_eq_true, and_eq_true, decide_eq_true_eq] at hstale
  obtain ⟨table, htable, i, -, hwritten, r, hr, hle⟩ := hstale
  obtain ⟨query, hquery, hw⟩ := Option.bind_eq_some_iff.mp hwritten
  have hlt := hfresh table htable i query hquery hw r hr
  omega

/-- An insertion leaves the responses in the cache, and so does a deletion while
a query is being captured. -/
theorem hits_stale : (∃ cfg', Run anyStep
        (system listener (readersAndWriter (str "SELECT * FROM t") (str "INSERT INTO t VALUES (1)")))
        cfg' ∧ ∃ h ∈ cfg'.state.hits,
        ¬ ∀ table ∈ tablesRead h.capture.query, Fresh h.executed table h.capture.replies) ∧
    ∃ cfg', Run anyStep
        (system listener (readersAndWriter (str "SELECT * FROM t") (str "DELETE FROM t"))) cfg' ∧
      ∃ h ∈ cfg'.state.hits,
        ¬ ∀ table ∈ tablesRead h.capture.query, Fresh h.executed table h.capture.replies := by
  constructor
  · obtain ⟨cfg', hrun, hhits⟩ := exists_run_of_follow anyStep
      (system listener (readersAndWriter (str "SELECT * FROM t") (str "INSERT INTO t VALUES (1)")))
      (fun cfg' => cfg'.state.hits.any Hit.isStale)
      (captureFirst [readyForQuery 0x49] ++ prepareWrite false ++ finishWrite ++ hitNext 0)
      (by decide +kernel)
    obtain ⟨h, hmem, hstale⟩ := any_eq_true.mp hhits
    exact ⟨cfg', hrun, h, hmem, Hit.not_fresh_of_isStale hstale⟩
  · obtain ⟨cfg', hrun, hhits⟩ := exists_run_of_follow anyStep
      (system listener (readersAndWriter (str "SELECT * FROM t") (str "DELETE FROM t")))
      (fun cfg' => cfg'.state.hits.any Hit.isStale)
      (prepareWrite true ++ captureFirst [readyForQuery 0x49] ++ finishWrite ++ hitNext 0)
      (by decide +kernel)
    obtain ⟨h, hmem, hstale⟩ := any_eq_true.mp hhits
    exact ⟨cfg', hrun, h, hmem, Hit.not_fresh_of_isStale hstale⟩

end Geryon.Cache
