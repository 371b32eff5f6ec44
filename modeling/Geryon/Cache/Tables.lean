import Geryon.Cache.Keys

/-!
# The tables of a statement

`extractTablesFromQuery` takes the word behind the first `FROM ` of a text for
the only table that the statement is about.  This module says what a statement
is really about, as far as its words show it: `tableWritten` is the table of an
`INSERT INTO`, `UPDATE` or `DELETE FROM`, and `tablesRead` are those that a
`SELECT` names in its `FROM` and `JOIN` clauses.

`Named` is when the two agree: the table stands behind the first `FROM`, in
small letters and after one blank (`extractTablesFromQuery_of_named`).
-/

namespace Geryon.Cache

open Go List

/-! ## Words -/

/-- The bytes that are tokens of their own. -/
def isMark (b : UInt8) : Bool := (str ",;()").contains b

/-- The word that has been begun, the last byte first. -/
def flush (word : Str) : List Str := if word = [] then [] else [word.reverse]

/-- The words and marks of a text, in small letters. -/
def tokens : Str → Str → List Str
  | word, [] => flush word
  | word, b :: s =>
    if isSpace b then flush word ++ tokens [] s
    else if isMark b then flush word ++ [b] :: tokens [] s
    else tokens (lowerByte b :: word) s

/-- The table that a statement inserts into, updates or deletes from. -/
def tableWritten (query : Str) : Option Str :=
  let words := tokens [] query
  if words.take 2 = [str "insert", str "into"] ∨ words.take 2 = [str "delete", str "from"] then
    words[2]?
  else if words.take 1 = [str "update"] then words[1]?
  else none

/-- The clauses that end a list of tables. -/
def endsList (word : Str) : Bool :=
  [str "where", str "group", str "having", str "order", str "limit", str "union"].contains word

/-- The words behind `from` and `join`, and behind the commas of a list of tables.
`next` says that a table comes next, and `list` that the list has not ended. -/
def tablesOf : Bool → Bool → List Str → List Str
  | _, _, [] => []
  | next, list, word :: words =>
    if word = str "from" ∨ word = str "join" ∨ list ∧ word = str "," then tablesOf true true words
    else if word = str "(" ∨ word = str ")" then tablesOf next list words
    else if next then word :: tablesOf false list words
    else tablesOf false (list && !endsList word) words

/-- The tables that a `SELECT` reads. -/
def tablesRead (query : Str) : List Str :=
  let words := tokens [] query
  if words.head? = some (str "select") ∨ words.head? = some (str "with") then
    tablesOf false false words
  else []

example : tablesRead (str "SELECT a, b FROM T x, u\n  JOIN v ON x.a = v.a WHERE a IN (1, 2)") =
    [str "t", str "u", str "v"] := by decide

example : tableWritten (str "Delete  from\tT;") = some (str "t") := by decide

/-! ## Statements that modify data -/

theorem upperByte_lowerByte (b : UInt8) : upperByte (lowerByte b) = upperByte b := by
  unfold upperByte lowerByte
  grind

def isWordByte (b : UInt8) : Bool := !isSpace b && !isMark b

variable {word s query table : Str} {lib : Unicode}

theorem head?_tokens_of_ne (hword : word ≠ []) (s : Str) :
    (tokens word s).head? = some (word.reverse ++ (s.takeWhile isWordByte).map lowerByte) := by
  induction s generalizing word with
  | nil => simp [tokens, flush, hword]
  | cons b s ih =>
    rw [tokens]
    by_cases hspace : isSpace b = true
    · simp [isWordByte, hspace, flush, hword]
    · rw [if_neg hspace]
      by_cases hmark : isMark b = true
      · simp [isWordByte, hmark, flush, hword]
      · rw [if_neg hmark, ih (by simp), takeWhile_cons_of_pos (by simp [isWordByte, hspace, hmark])]
        simp

theorem head?_tokens (hlen : 2 ≤ word.length) (h : (tokens [] s).head? = some word) :
    word = ((s.dropWhile isSpace).takeWhile isWordByte).map lowerByte := by
  induction s with
  | nil => cases h
  | cons b s ih =>
    rw [tokens] at h
    by_cases hspace : isSpace b = true
    · rw [if_pos hspace] at h
      rw [dropWhile_cons_of_pos hspace]
      exact ih h
    · rw [if_neg hspace] at h
      rw [dropWhile_cons_of_neg hspace]
      by_cases hmark : isMark b = true
      · rw [if_pos hmark] at h
        cases h
        simp at hlen
      · rw [if_neg hmark, head?_tokens_of_ne (by simp)] at h
        cases h
        rw [takeWhile_cons_of_pos (by simp [isWordByte, hspace, hmark])]
        rfl

theorem takeWhile_trimFunc (s : Str) :
    (trimFunc isSpace s).takeWhile isWordByte = (s.dropWhile isSpace).takeWhile isWordByte := by
  obtain ⟨t, ht, hspace⟩ := trimFunc_append isSpace s
  have hnone : t.takeWhile isWordByte = [] := by
    cases t with
    | nil => rfl
    | cons b t =>
      exact takeWhile_cons_of_neg (by simp [isWordByte, hspace b mem_cons_self])
  rw [ht, takeWhile_append, hnone]
  split
  · rename_i hall
    rw [append_nil]
    refine IsPrefix.eq_of_length ?_ hall
    exact takeWhile_prefix isWordByte
  · rfl

theorem startsWith_of_head? {small : Str} {word : String} (hascii : isASCII s = true)
    (h : (tokens [] s).head? = some small) (hlen : 2 ≤ small.length)
    (hupper : small.map upperByte = str word) : startsWith lib s word = true := by
  have hascii' : isASCII (trimFunc isSpace s) = true := by
    obtain ⟨t, ht, -⟩ := trimFunc_append isSpace s
    rw [isASCII, all_eq_true] at hascii ⊢
    intro b hb
    exact hascii b ((dropWhile_suffix isSpace).subset (ht ▸ mem_append_left t hb))
  have hword : str word = ((trimFunc isSpace s).takeWhile isWordByte).map upperByte := by
    rw [← hupper, head?_tokens hlen h, ← takeWhile_trimFunc, map_map]
    exact map_congr_left fun b _ => upperByte_lowerByte b
  rw [startsWith, trimSpace, if_pos hascii, toUpper, if_pos hascii', isPrefixOf_iff_prefix, hword]
  exact IsPrefix.map upperByte <| takeWhile_prefix isWordByte

theorem head?_of_take {α : Type} {l rest : List α} {k : Nat} {a : α}
    (h : l.take (k + 1) = a :: rest) : l.head? = some a := by
  cases l with
  | nil => cases h
  | cons b l =>
    cases h
    rfl

theorem isModificationQuery_of_written (hascii : isASCII query = true)
    (h : tableWritten query = some table) : isModificationQuery lib query = true := by
  have hword : ∀ {small : Str} {word : String}, (tokens [] query).head? = some small →
      2 ≤ small.length → small.map upperByte = str word →
      word ∈ ["INSERT", "UPDATE", "DELETE", "TRUNCATE", "DROP", "ALTER", "CREATE", "REPLACE"] →
      isModificationQuery lib query = true :=
    fun hhead hlen hupper hmem =>
      any_eq_true.mpr ⟨_, hmem, startsWith_of_head? hascii hhead hlen hupper⟩
  simp only [tableWritten] at h
  split at h
  · rename_i hwords
    rcases hwords with hwords | hwords
    · exact hword (head?_of_take hwords) (by decide) (by decide) (by decide : "INSERT" ∈ _)
    · exact hword (head?_of_take hwords) (by decide) (by decide) (by decide : "DELETE" ∈ _)
  · split at h
    · rename_i hwords
      exact hword (head?_of_take hwords) (by decide) (by decide) (by decide : "UPDATE" ∈ _)
    · cases h

/-! ## Tables -/

/-- What follows the first `FROM ` of a text. -/
def afterFrom : Str → Option Str
  | [] => none
  | b :: s =>
    if ((b :: s).take 5).map upperByte = str "FROM " then some ((b :: s).drop 5) else afterFrom s

/-- The text is ASCII, and what stands behind its first `FROM ` is the table,
in this spelling. -/
def Named (query table : Str) : Bool :=
  isASCII query && (afterFrom query).any fun rest =>
    (splitWords isSpace [] rest).head?.map (trimRight · (str ",;")) = some table

theorem index_of_afterFrom {rest : Str} (h : afterFrom query = some rest) :
    ∃ i, index (str "FROM ") (query.map upperByte) = some i ∧ i + 5 ≤ query.length ∧
      query.drop (i + 5) = rest := by
  induction query with
  | nil => cases h
  | cons b s ih =>
    have hpre : (str "FROM ").isPrefixOf ((b :: s).map upperByte) = true ↔
        ((b :: s).take 5).map upperByte = str "FROM " := by
      refine isPrefixOf_iff_prefix.trans ?_
      rw [prefix_iff_eq_take, map_take]
      exact eq_comm
    rw [afterFrom] at h
    rw [map_cons, index, ← map_cons]
    split at h
    · rename_i hfrom
      cases h
      refine ⟨0, if_pos (hpre.mpr hfrom), ?_, rfl⟩
      have hlen := congrArg List.length hfrom
      rw [length_map, length_take] at hlen
      have hfive : (str "FROM ").length = 5 := rfl
      omega
    · rename_i hfrom
      obtain ⟨i, hi, hle, hdrop⟩ := ih h
      refine ⟨i + 1, ?_, ?_, ?_⟩
      · rw [if_neg (fun hc => hfrom (hpre.mp hc)), hi]
        rfl
      · rw [length_cons]
        omega
      · rw [show i + 1 + 5 = (i + 5) + 1 by omega, drop_succ_cons, hdrop]

theorem extractTablesFromQuery_of_named (h : Named query table = true) :
    extractTablesFromQuery lib query = some [table] := by
  simp only [Named, Bool.and_eq_true, Option.any_eq_true, decide_eq_true_eq] at h
  obtain ⟨hascii, rest, hrest, hname⟩ := h
  obtain ⟨i, hi, hle, hdrop⟩ := index_of_afterFrom hrest
  obtain ⟨word, hword, htrim⟩ := Option.map_eq_some_iff.mp hname
  have hascii' : isASCII rest = true := by
    rw [isASCII, all_eq_true] at hascii ⊢
    exact fun b hb => hascii b (mem_of_mem_drop (hdrop ▸ hb))
  obtain ⟨words, hwords⟩ := head?_eq_some_iff.mp hword
  rw [extractTablesFromQuery, toUpper, if_pos hascii, hi]
  simp only
  rw [if_pos hle, hdrop, fields, if_pos hascii', hwords]
  simp only
  rw [htrim]

end Geryon.Cache
