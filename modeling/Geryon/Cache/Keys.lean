import Geryon.Cache.Replay

/-!
# Which queries share a key

The key of a query is its normalised text, and nothing else: neither the user nor
the database of the session, and quotes do not keep a text from being normalised.

`canon` is what a query means up to letter case and whitespace outside quotes.
Normalising a `Tame` text changes nothing else (`canon_normalizeQuery`), so tame
texts with one key have one meaning.  `hits_isolated` is the result for whole
runs: if all cacheable queries are tame and no two users send the same one, every
hit is for the query that was captured, in a session of its user.
-/

namespace Geryon.Cache

open Go Conc List Bool

/-! ## Texts up to case and whitespace outside quotes -/

/-- The marks of literals and of quoted identifiers. -/
def isQuote (b : UInt8) : Bool := b = 0x27 || b = 0x22 || b = 0x60

/-- The quote that is open after a byte. -/
def quoteAfter : Option UInt8 → UInt8 → Option UInt8
  | none, b => if isQuote b then some b else none
  | some q, b => if b = q then none else some q

/-- The text in small letters and without whitespace outside quotes, and the
quote that is open at its end. -/
def scan : Option UInt8 → Str → Str × Option UInt8
  | st, [] => ([], st)
  | none, b :: s =>
    if isSpace b then scan none s
    else (lowerByte b :: (scan (quoteAfter none b) s).1, (scan (quoteAfter none b) s).2)
  | some q, b :: s => (b :: (scan (quoteAfter (some q) b) s).1, (scan (quoteAfter (some q) b) s).2)

/-- What a query text means up to letter case and whitespace outside quotes. -/
def canon (query : Str) : Str := (scan none query).1

/-- No `$` is followed by a digit. -/
def noParameter : Str → Bool
  | [] => true
  | b :: s => !(b = 0x24 && s.head?.any isDigit) && noParameter s

/-- The quotes are closed, and inside them there are no capital letters and no
whitespace but single blanks. -/
def quotesTame : Option UInt8 → Str → Bool
  | st, [] => st.isNone
  | none, b :: s => quotesTame (quoteAfter none b) s
  | some q, b :: s =>
    decide (lowerByte b = b) && (!isBlank b || b = 0x20 && !s.head?.any isBlank) &&
      quotesTame (quoteAfter (some q) b) s

/-- A text that normalising changes in letter case and whitespace outside
quotes only. -/
def Tame (query : Str) : Bool := isASCII query && noParameter query && quotesTame none query

/-! ## Single bytes -/

section

variable (b : UInt8)

theorem lowerByte_lowerByte : lowerByte (lowerByte b) = lowerByte b := by
  unfold lowerByte
  grind

theorem isSpace_lowerByte : isSpace (lowerByte b) = isSpace b := by
  unfold lowerByte isSpace
  grind

theorem isBlank_lowerByte : isBlank (lowerByte b) = isBlank b := by
  unfold lowerByte isBlank
  grind

theorem isDigit_lowerByte : isDigit (lowerByte b) = isDigit b := by
  unfold lowerByte isDigit
  grind

theorem lowerByte_eq_dollar : lowerByte b = 0x24 ↔ b = 0x24 := by
  unfold lowerByte
  grind

theorem lowerByte_lt (h : b < 0x80) : lowerByte b < 0x80 := by
  unfold lowerByte
  grind

end

variable {b : UInt8} {s : Str} {inWhitespace : Bool} {st : Option UInt8}

theorem isSpace_of_isBlank (h : isBlank b = true) : isSpace b = true := by
  simp only [isBlank, or_eq_true, decide_eq_true_eq] at h
  rcases h with ((rfl | rfl) | rfl) | rfl <;> rfl

theorem not_isQuote_of_isSpace (h : isSpace b = true) : isQuote b = false := by
  unfold isSpace at h
  unfold isQuote
  grind

theorem quoteAfter_none_lowerByte (b : UInt8) : quoteAfter none (lowerByte b) = quoteAfter none b := by
  unfold quoteAfter isQuote lowerByte
  grind

theorem quoteAfter_none_of_isSpace (h : isSpace b = true) : quoteAfter none b = none := by
  simp [quoteAfter, not_isQuote_of_isSpace h]

/-! ## Small letters -/

theorem isASCII_map_lowerByte (h : isASCII s = true) : isASCII (s.map lowerByte) = true := by
  simp only [isASCII, all_eq_true, mem_map, decide_eq_true_eq] at h ⊢
  rintro _ ⟨b, hb, rfl⟩
  exact lowerByte_lt b (h b hb)

theorem noParameter_map_lowerByte (s : Str) : noParameter (s.map lowerByte) = noParameter s := by
  induction s with
  | nil => rfl
  | cons b s ih =>
    have hhead : (s.map lowerByte).head?.any isDigit = s.head?.any isDigit := by
      cases s with
      | nil => rfl
      | cons c s => exact isDigit_lowerByte c
    simp only [map_cons, noParameter, hhead, ih, lowerByte_eq_dollar]

theorem scan_map_lowerByte {st : Option UInt8} {s : Str} (h : quotesTame st s = true) :
    scan st (s.map lowerByte) = scan st s ∧ quotesTame st (s.map lowerByte) = true := by
  induction s generalizing st with
  | nil => exact ⟨rfl, h⟩
  | cons b s ih =>
    cases st with
    | none =>
      obtain ⟨hscan, htame⟩ := @ih (quoteAfter none b) h
      rw [map_cons]
      constructor
      · rw [scan, scan, isSpace_lowerByte, quoteAfter_none_lowerByte, hscan, lowerByte_lowerByte]
        split
        · rename_i hsp
          rw [quoteAfter_none_of_isSpace hsp] at hscan
          exact hscan
        · rfl
      · rw [quotesTame, quoteAfter_none_lowerByte]
        exact htame
    | some q =>
      simp only [quotesTame, and_eq_true, decide_eq_true_eq] at h
      obtain ⟨⟨hlower, hblank⟩, hrest⟩ := h
      obtain ⟨hscan, htame⟩ := ih hrest
      have hhead : (s.map lowerByte).head?.any isBlank = s.head?.any isBlank := by
        cases s with
        | nil => rfl
        | cons c s => exact isBlank_lowerByte c
      rw [map_cons, hlower]
      refine ⟨by rw [scan, scan, hscan], ?_⟩
      simp only [quotesTame, hhead, and_eq_true, decide_eq_true_eq]
      exact ⟨⟨hlower, hblank⟩, htame⟩

/-! ## Single blanks -/

theorem isASCII_collapse (h : isASCII s = true) : isASCII (collapse inWhitespace s) = true := by
  induction s generalizing inWhitespace with
  | nil => rfl
  | cons b s ih =>
    simp only [isASCII, all_cons, and_eq_true] at h ih ⊢
    rw [collapse]
    split
    · split
      · exact ih h.2
      · simpa using ih h.2
    · simpa using ⟨of_decide_eq_true h.1, by simpa using ih h.2⟩

theorem noParameter_collapse (h : noParameter s = true) :
    noParameter (collapse inWhitespace s) = true := by
  induction s generalizing inWhitespace with
  | nil => rfl
  | cons b s ih =>
    simp only [noParameter, and_eq_true] at h
    obtain ⟨hb, hs⟩ := h
    -- What follows a byte is what followed it, or a blank.
    have hhead : (collapse false s).head?.any isDigit = s.head?.any isDigit := by
      cases s with
      | nil => rfl
      | cons c s =>
        by_cases hc : isBlank c = true
        · have hdigit : isDigit c = false := by
            unfold isBlank at hc
            unfold isDigit
            grind
          simp [collapse, hc, hdigit]
          decide
        · simp [collapse, hc]
    rw [collapse]
    split
    · split
      · exact ih hs
      · simpa [noParameter] using ih hs
    · rw [noParameter, hhead, and_eq_true]
      exact ⟨hb, ih hs⟩

/-- Collapsing blanks does not touch tame quotes.  Inside them the byte before
a blank is not one. -/
theorem scan_collapse {st : Option UInt8} {s : Str} {inWhitespace : Bool}
    (h : quotesTame st s = true)
    (hin : st ≠ none → inWhitespace = true → s.head?.any isBlank = false) :
    scan st (collapse inWhitespace s) = scan st s := by
  induction s generalizing st inWhitespace with
  | nil => rfl
  | cons b s ih =>
    cases st with
    | none =>
      rw [collapse]
      have hrest := @ih (quoteAfter none b) false h (by simp)
      by_cases hb : isBlank b = true
      · have hsp := isSpace_of_isBlank hb
        rw [quotesTame, quoteAfter_none_of_isSpace hsp] at h
        have hdrop := @ih none true h (by simp)
        rw [if_pos hb, scan.eq_2 b, if_pos hsp]
        split
        · exact hdrop
        · rw [scan, if_pos (by decide)]
          exact hdrop
      · rw [if_neg hb, scan, scan, hrest]
        split
        · rename_i hsp
          rw [quoteAfter_none_of_isSpace hsp] at hrest
          exact hrest
        · rfl
    | some q =>
      simp only [quotesTame, and_eq_true, decide_eq_true_eq] at h
      obtain ⟨⟨-, hblank⟩, hrest⟩ := h
      rw [collapse]
      by_cases hb : isBlank b = true
      · have hw : inWhitespace = false := by
          by_contra hw
          have hhead := hin (by simp) (by simpa using hw)
          simp [hb] at hhead
        simp only [hb, Bool.not_true, Bool.false_or, Bool.and_eq_true, decide_eq_true_eq,
          Bool.not_eq_true'] at hblank
        obtain ⟨rfl, hnext⟩ := hblank
        rw [if_pos hb, if_neg (by simp [hw]), scan, scan, ih hrest (fun _ _ => hnext)]
      · rw [if_neg hb, scan, scan, ih hrest (by simp)]

/-! ## Trimming -/

theorem scan_append (st : Option UInt8) (s t : Str) : scan st (s ++ t) =
      ((scan st s).1 ++ (scan (scan st s).2 t).1, (scan (scan st s).2 t).2) := by
  induction s generalizing st with
  | nil => rfl
  | cons b s ih =>
    cases st with
    | none =>
      rw [cons_append, scan, scan]
      split
      · exact ih none
      · rw [ih]
        rfl
    | some q =>
      rw [cons_append, scan, scan, ih]
      rfl

theorem scan_dropWhile_isSpace (s : Str) : scan none (s.dropWhile isSpace) = scan none s := by
  induction s with
  | nil => rfl
  | cons b s ih =>
    by_cases hb : isSpace b = true
    · rw [dropWhile_cons_of_pos hb, ih, scan.eq_2, if_pos hb]
    · rw [dropWhile_cons_of_neg hb]

theorem isQuote_of_scan {q : UInt8} (hst : ∀ q, st = some q → isQuote q = true)
    (h : (scan st s).2 = some q) : isQuote q = true := by
  induction s generalizing st with
  | nil => exact hst q h
  | cons b s ih =>
    have hnext : ∀ q, quoteAfter st b = some q → isQuote q = true := by
      intro q hq
      cases st with
      | none =>
        simp only [quoteAfter] at hq
        split at hq
        · cases hq
          assumption
        · cases hq
      | some q' =>
        simp only [quoteAfter] at hq
        split at hq
        · cases hq
        · cases hq
          exact hst _ rfl
    cases st with
    | none =>
      rw [scan] at h
      split at h
      · exact ih hst h
      · exact ih hnext h
    | some q' => exact ih hnext h

theorem scan_of_isSpace (hs : ∀ b ∈ s, isSpace b = true)
    (hst : ∀ q, st = some q → isQuote q = true) (hnone : (scan st s).2 = none) :
    st = none ∧ (scan st s).1 = [] := by
  induction s generalizing st with
  | nil => exact ⟨hnone, rfl⟩
  | cons b s ih =>
    have hb := hs b mem_cons_self
    have hs' : ∀ b ∈ s, isSpace b = true := fun c hc => hs c (mem_cons_of_mem b hc)
    cases st with
    | none =>
      rw [scan, if_pos hb] at hnone ⊢
      exact ih hs' hst hnone
    | some q =>
      have hne : b ≠ q := by
        rintro rfl
        have hquote := not_isQuote_of_isSpace hb
        rw [hst b rfl] at hquote
        cases hquote
      have hkeep : quoteAfter (some q) b = some q := by simp [quoteAfter, hne]
      rw [scan, hkeep] at hnone
      cases (ih hs' hst hnone).1

theorem trimFunc_append (p : UInt8 → Bool) (s : Str) :
    ∃ t, s.dropWhile p = trimFunc p s ++ t ∧ ∀ b ∈ t, p b = true := by
  refine ⟨((s.dropWhile p).reverse.takeWhile p).reverse, ?_, ?_⟩
  · rw [trimFunc, ← reverse_append, takeWhile_append_dropWhile, reverse_reverse]
  · intro b hb
    exact mem_takeWhile_imp (mem_reverse.mp hb)

theorem scan_trimFunc (h : (scan none s).2 = none) :
    (scan none (trimFunc isSpace s)).1 = (scan none s).1 := by
  obtain ⟨t, ht, hspace⟩ := trimFunc_append isSpace s
  have hscan := scan_dropWhile_isSpace s
  rw [ht, scan_append] at hscan
  have hnone : (scan (scan none (trimFunc isSpace s)).2 t).2 = none :=
    (congrArg Prod.snd hscan).trans h
  have hrest := (scan_of_isSpace hspace (fun q hq => isQuote_of_scan (by simp) hq) hnone).2
  rw [← hscan, hrest, append_nil]

theorem noParameter_append {t : Str} (h : noParameter (s ++ t) = true) :
    noParameter s = true ∧ noParameter t = true := by
  induction s with
  | nil => exact ⟨rfl, h⟩
  | cons b s ih =>
    rw [cons_append, noParameter, and_eq_true] at h
    obtain ⟨hs, ht⟩ := ih h.2
    refine ⟨?_, ht⟩
    rw [noParameter, and_eq_true]
    refine ⟨?_, hs⟩
    cases s with
    | nil => simp
    | cons c s => exact h.1

theorem noParameter_trimFunc (h : noParameter s = true) :
    noParameter (trimFunc isSpace s) = true := by
  obtain ⟨t, ht, -⟩ := trimFunc_append isSpace s
  have hdrop : noParameter (s.dropWhile isSpace) = true := by
    rw [← takeWhile_append_dropWhile (l := s)] at h
    exact (noParameter_append h).2
  rw [ht] at hdrop
  exact (noParameter_append hdrop).1

theorem replaceParameters_of_none (h : noParameter s = true) : replaceParameters false s = s := by
  induction s with
  | nil => rfl
  | cons b s ih =>
    rw [noParameter, and_eq_true, not_eq_true'] at h
    rw [replaceParameters, h.1, ih h.2]
    simp

/-! ## Keys -/

theorem snd_scan_of_quotesTame (h : quotesTame st s = true) : (scan st s).2 = none := by
  induction s generalizing st with
  | nil => exact Option.isNone_iff_eq_none.mp h
  | cons b s ih =>
    cases st with
    | none =>
      rw [scan]
      split
      · rename_i hsp
        rw [quotesTame, quoteAfter_none_of_isSpace hsp] at h
        exact ih h
      · exact ih h
    | some q =>
      rw [quotesTame, and_eq_true] at h
      exact ih h.2

/-- Normalising a tame text does not change its meaning. -/
theorem canon_normalizeQuery {lib : Unicode} {query : Str} (h : Tame query = true) :
    canon (normalizeQuery lib query) = canon query := by
  simp only [Tame, and_eq_true] at h
  obtain ⟨⟨hascii, hparam⟩, hquotes⟩ := h
  obtain ⟨hlower, htame⟩ := scan_map_lowerByte hquotes
  have hcollapse := @scan_collapse none _ false htame (by simp)
  have hnone : (scan none (collapse false (query.map lowerByte))).2 = none := by
    rw [hcollapse]
    exact snd_scan_of_quotesTame htame
  have hclean : noParameter (collapse false (query.map lowerByte)) = true :=
    noParameter_collapse (by rw [noParameter_map_lowerByte]; exact hparam)
  rw [normalizeQuery, toLower, if_pos hascii, trimSpace,
    if_pos (isASCII_collapse (isASCII_map_lowerByte hascii)), normalizeParameters,
    replaceParameters_of_none (noParameter_trimFunc hclean), canon, scan_trimFunc hnone, hcollapse,
    hlower, canon]

/-! ## Hits -/

/-- `ps.username` and `ps.database`. -/
structure User where
  username : Str
  database : Str
  deriving DecidableEq

/-- Every query that is looked up is tame, and every user has queries of their
own: `owner` is the user whose sessions may send a query. -/
def isolated (who : SessionId → User) (owner : Str → User) : Cond sessions := fun _ _ o _ =>
  match o with
  | .get n text _ => Tame text && decide (who n = owner (canon text))
  | _ => true

/-- The text is one that the session may look up. -/
def Admitted (who : SessionId → User) (owner : Str → User) (n : SessionId) (text : Str) : Prop :=
  Tame text = true ∧ who n = owner (canon text)

/-- The query that a stage is about, once it has been looked up. -/
def Stage.lookedUp : Stage → Option Str
  | .missed text | .hit text _ | .called text _ => some text
  | .named k | .asked k | .capturing k _ _ _ | .reading k _ _ _ _ | .buffered k _ _ _ _
  | .complete k _ _ _ => some k.text
  | _ => none

section Hits

variable {cfg : Config} {who : SessionId → User} {owner : Str → User}

variable {s : State} {n : SessionId} {text : Str} {ch : Choice}

theorem admitted_of_isolated {t : Thread} {key : Str}
    (h : isolated who owner s t (.get n text key) ch = true) : Admitted who owner n text := by
  simpa [isolated, Admitted] using h

theorem admitted_of_moves {st st' : Stage} {o : Op} {r : o.Ret}
    (hst : ∀ text, st.lookedUp = some text → Admitted who owner n text)
    (hcond : isolated who owner s (.clientToServer n) o ch = true)
    (hmove : Moves cfg n st o r st') (hexec : exec s (.clientToServer n) o ch ≠ none) :
    ∀ text, st'.lookedUp = some text → Admitted who owner n text := by
  intro text htext
  cases hmove with
  | stuck => exact absurd rfl hexec
  | miss hc | hit hc data =>
    cases htext
    exact admitted_of_isolated hcond
  | unsent | call | name | ask | buffer | receive | append | more | last => exact hst text htext
  | _ => cases htext

/-- Queries of one meaning are those of one user. -/
theorem eq_of_admitted {m : SessionId} {text' : Str} (h : Admitted who owner n text)
    (h' : Admitted who owner m text')
    (hkey : generateKey cfg.lib text = generateKey cfg.lib text') :
    canon text = canon text' ∧ who n = who m := by
  have hcanon : canon text = canon text' := by
    calc canon text = canon (normalizeQuery cfg.lib text) := (canon_normalizeQuery h.1).symm
      _ = canon (normalizeQuery cfg.lib text') := congrArg canon hkey
      _ = canon text' := canon_normalizeQuery h'.1
  exact ⟨hcanon, by rw [h.2, h'.2, hcanon]⟩

/-- If all queries that are looked up are tame and every user has their own,
a hit is for the query that was captured and in a session of the same user. -/
theorem hits_isolated {messages : SessionId → List ClientMessage} {cfg' : Conc.Config sessions}
    (hrun : Run (isolated who owner) (system cfg messages) cfg') : ∀ h ∈ cfg'.state.hits,
      canon h.capture.query = canon h.query ∧ who h.capture.session = who h.session := by
  refine (served_invariant
    (E := fun e => e.key = generateKey cfg.lib e.capture.query ∧
      Admitted who owner e.capture.session e.capture.query)
    (H := fun n text c => canon c.query = canon text ∧ who c.session = who n)
    (S := fun n st => ∀ text, st.lookedUp = some text → Admitted who owner n text)
    ?_ ?_ ?_ ?_ hrun).2
  · intro n text htext
    cases htext
  · intro s s' n st st' o ch r hst hcond hmove hexec
    exact admitted_of_moves hst hcond hmove (by simp [hexec])
  · intro s n text e ch hcond he hkey
    exact eq_of_admitted he.2 (admitted_of_isolated hcond) (he.1.symm.trans hkey)
  · intro n k buf b replies e hst hkey hcapture
    rw [hcapture]
    exact ⟨hkey, hst k.text rfl⟩

end Hits

/-- The first session is of one user, the others of another. -/
def staff (n : SessionId) : User :=
  ⟨if n = 0 then str "alice" else str "bob", str "shop"⟩

/-- Who asks for the articles of the shop. -/
def asks (query : Str) : User := staff (if query = str "select'a'fromt" then 0 else 1)

/-- A client that sends a query in two spellings. -/
def respelled : SessionId → List ClientMessage
  | 0 => [.query (str "SELECT 'a' FROM T"), .query (str "select  'a' from t")]
  | _ => []

theorem hits_isolated_respelled :
    ∃ cfg', Run (isolated staff asks) (system listener respelled) cfg' ∧ cfg'.state.hits ≠ [] ∧
      ∀ h ∈ cfg'.state.hits,
        canon h.capture.query = canon h.query ∧ staff h.capture.session = staff h.session := by
  obtain ⟨cfg', hrun, hhits⟩ := exists_run_of_follow (isolated staff asks)
    (system listener respelled) (fun cfg' => cfg'.state.hits ≠ []) captureAndHit (by decide +kernel)
  exact ⟨cfg', hrun, hhits, hits_isolated hrun⟩

def oneEach (text text' : Str) : SessionId → List ClientMessage
  | 0 => [.query text]
  | 1 => [.query text']
  | _ => []

/-- The query of the first session is captured, and that of the second is
answered from the cache. -/
def hitOther : List (Thread × Choice) := captureFirst [readyForQuery 0x49] ++ hitNext 1

/-- One session is answered with the response to another literal, and a
session of one user with the response that another user was given. -/
theorem hits_mixed : (¬ ∀ (messages : SessionId → List ClientMessage) (cfg' : Conc.Config sessions),
      Run anyStep (system listener messages) cfg' →
      ∀ h ∈ cfg'.state.hits, canon h.capture.query = canon h.query) ∧
    ¬ ∀ (who : SessionId → User) (messages : SessionId → List ClientMessage)
      (cfg' : Conc.Config sessions), Run anyStep (system listener messages) cfg' →
      ∀ h ∈ cfg'.state.hits, who h.capture.session = who h.session := by
  constructor
  · intro h
    obtain ⟨cfg', hrun, hit, hmem, hne⟩ := exists_run_of_follow anyStep
      (system listener (oneEach (str "SELECT 'A'") (str "SELECT 'a'")))
      (fun cfg' => ∃ h ∈ cfg'.state.hits, canon h.capture.query ≠ canon h.query) hitOther
      (by decide +kernel)
    exact hne (h _ cfg' hrun hit hmem)
  · intro h
    obtain ⟨cfg', hrun, hit, hmem, hne⟩ := exists_run_of_follow anyStep
      (system listener (oneEach (str "SELECT 1") (str "SELECT 1")))
      (fun cfg' => ∃ h ∈ cfg'.state.hits, staff h.capture.session ≠ staff h.session)
      hitOther (by decide +kernel)
    exact hne (h staff _ cfg' hrun hit hmem)

end Geryon.Cache
