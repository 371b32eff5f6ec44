import Geryon.Go.Text
import Geryon.Protocol.Message

/-!
# Queries and transaction boundaries

The methods of the three codecs that look into a message of the client:
`IsQuery`, `ExtractQuery` for a query message, `IsTransactionBegin` and
`IsTransactionEnd`, from `internal/protocol/*/codec.go`.
-/

namespace Geryon.Wire

open Go List

variable (lib : Unicode)

/-! ## PostgreSQL -/

namespace PGCodec

def isQuery (msg : Message) : Bool := msg.msgType = 0x51

def extractSimpleQuery (msg : Message) : Str := msg.payload.takeWhile (· ≠ 0)

/-- The first loop of `stripSQLComments`.  The argument says whether the byte is in a
comment.  `string(query[i])` is the rune with the number of the byte, so a byte that is
not ASCII becomes two. -/
def stripLineComments : Bool → Str → Str
  | _, [] => []
  | true, b :: s => if b = 0x0a then stripLineComments false s else stripLineComments true s
  | false, b :: s =>
    if b = 0x2d ∧ s.head? = some 0x2d ∧ 2 ≤ s.length then stripLineComments true s
    else encodeRune b.toNat ++ stripLineComments false s

/-- The second loop of `stripSQLComments`. -/
def stripBlockComments : Bool → Str → Str
  | _, [] => []
  | true, [_] => []
  | false, [b] => encodeRune b.toNat
  | true, b :: c :: s =>
    if b = 0x2a ∧ c = 0x2f then stripBlockComments false s else stripBlockComments true (c :: s)
  | false, b :: c :: s =>
    if b = 0x2f ∧ c = 0x2a then stripBlockComments true s
    else encodeRune b.toNat ++ stripBlockComments false (c :: s)

def stripSQLComments (query : Str) : Str := stripBlockComments false (stripLineComments false query)

/-- The text that the transaction boundaries are looked for in. -/
def boundaryText (msg : Message) : Str :=
  stripSQLComments (toUpper lib (trimSpace lib (extractSimpleQuery msg)))

def isTransactionBegin (msg : Message) : Bool :=
  isQuery msg && ((str "BEGIN").isPrefixOf (boundaryText lib msg) ||
    (str "START TRANSACTION").isPrefixOf (boundaryText lib msg))

def isTransactionEnd (msg : Message) : Bool :=
  if isQuery msg then
    (str "COMMIT").isPrefixOf (boundaryText lib msg) ||
      (str "ROLLBACK").isPrefixOf (boundaryText lib msg) ||
      (str "END").isPrefixOf (boundaryText lib msg)
  else msg.msgType = 0x5a && msg.direction = .backend && msg.payload.head? = some 0x49

end PGCodec

/-! ## MySQL -/

namespace MySQLCodec

/-- `IsQuery`: the message is a `ComQuery`. -/
def isQuery (msg : Message) : Bool := msg.msgType = 0x03

def extractQuery (msg : Message) : Str :=
  let query := msg.payload.drop 1
  if msg.payload.length < 2 then []
  else if query.getLast? = some 0 then query.dropLast
  else query

def isTransactionBegin (msg : Message) : Bool :=
  isQuery msg && (startsWith lib (extractQuery msg) "BEGIN" ||
    startsWith lib (extractQuery msg) "START TRANSACTION")

def isTransactionEnd (msg : Message) : Bool :=
  isQuery msg && (startsWith lib (extractQuery msg) "COMMIT" ||
    startsWith lib (extractQuery msg) "ROLLBACK")

end MySQLCodec

/-! ## MSSQL -/

namespace TDSCodec

/-- `IsQuery`: the message is a `PacketTypeSQLBatch`. -/
def isQuery (msg : Message) : Bool := msg.msgType = 0x01

/-- The loop of `decodeUnicode`. -/
def decodeUnits : List UInt8 → Str
  | lo :: hi :: data =>
    if lo = 0 ∧ hi = 0 then [] else encodeRune (littleEndian [lo, hi]) ++ decodeUnits data
  | _ => []

def decodeUnicode (data : List UInt8) : Str :=
  if data.length % 2 ≠ 0 then data else decodeUnits data

/-- `extractSQLBatchQuery`.  `TokenTypeSQLText` is zero: the text is what follows the
first zero byte, if one of the first twenty bytes is zero and not the last of all. -/
def extractSQLBatchQuery (msg : Message) : Str :=
  let data := msg.payload
  if data.length < 8 then []
  else
    match (data.dropLast.take 20).findIdx? (· = 0) with
    | some i => decodeUnicode (data.drop (i + 1))
    | none => data

def isTransactionBegin (msg : Message) : Bool :=
  isQuery msg && (startsWith lib (extractSQLBatchQuery msg) "BEGIN" ||
    startsWith lib (extractSQLBatchQuery msg) "BEGIN TRANSACTION" ||
    startsWith lib (extractSQLBatchQuery msg) "BEGIN TRAN")

def isTransactionEnd (msg : Message) : Bool :=
  isQuery msg && (startsWith lib (extractSQLBatchQuery msg) "COMMIT" ||
    startsWith lib (extractSQLBatchQuery msg) "ROLLBACK" ||
    startsWith lib (extractSQLBatchQuery msg) "COMMIT TRANSACTION" ||
    startsWith lib (extractSQLBatchQuery msg) "ROLLBACK TRANSACTION" ||
    startsWith lib (extractSQLBatchQuery msg) "COMMIT TRAN" ||
    startsWith lib (extractSQLBatchQuery msg) "ROLLBACK TRAN")

end TDSCodec

/-! ## The interface -/

def isQuery : Protocol → Message → Bool
  | .postgreSQL => PGCodec.isQuery
  | .mySQL => MySQLCodec.isQuery
  | .msSQL => TDSCodec.isQuery

/-- `codec.ExtractQuery` for a query message. -/
def extractQuery : Protocol → Message → Str
  | .postgreSQL => PGCodec.extractSimpleQuery
  | .mySQL => MySQLCodec.extractQuery
  | .msSQL => TDSCodec.extractSQLBatchQuery

def isTransactionBegin : Protocol → Message → Bool
  | .postgreSQL => PGCodec.isTransactionBegin lib
  | .mySQL => MySQLCodec.isTransactionBegin lib
  | .msSQL => TDSCodec.isTransactionBegin lib

def isTransactionEnd : Protocol → Message → Bool
  | .postgreSQL => PGCodec.isTransactionEnd lib
  | .mySQL => MySQLCodec.isTransactionEnd lib
  | .msSQL => TDSCodec.isTransactionEnd lib

/-! ## Queries that are no boundary -/

/-- Of two words that do not begin with each other, a text begins with one at
most. -/
theorem not_isPrefixOf_of_isPrefixOf {word other s : Str} (h : word.isPrefixOf s = true)
    (hword : ¬ word <+: other) (hother : ¬ other <+: word) : other.isPrefixOf s = false := by
  rw [Bool.eq_false_iff]
  intro h'
  have hpre := isPrefixOf_iff_prefix.mp h
  have hpre' := isPrefixOf_iff_prefix.mp h'
  rcases prefix_or_prefix_of_prefix hpre hpre' with hle | hle
  · exact hword hle
  · exact hother hle

/-- A byte that starts no comment and is copied as it is. -/
def isPlain (b : UInt8) : Bool := b < 0x80 && b ≠ 0x2d && b ≠ 0x2f

theorem encodeRune_of_isPlain {b : UInt8} (h : isPlain b = true) : encodeRune b.toNat = [b] := by
  have hlt : b.toNat < 0x80 := by
    simp only [isPlain, Bool.and_eq_true, decide_eq_true_eq] at h
    exact h.1.1
  simp [encodeRune, hlt]

theorem stripLineComments_append {word : Str} (hword : ∀ b ∈ word, isPlain b = true) (s : Str) :
    PGCodec.stripLineComments false (word ++ s) = word ++ PGCodec.stripLineComments false s := by
  induction word with
  | nil => rfl
  | cons b word ih =>
    have hb := hword b mem_cons_self
    have hne : b ≠ 0x2d := by
      rintro rfl
      exact absurd hb (by decide)
    rw [cons_append, PGCodec.stripLineComments, if_neg (fun h => hne h.1),
      encodeRune_of_isPlain hb, ih fun c hc => hword c (mem_cons_of_mem b hc)]
    rfl

theorem stripBlockComments_append {word : Str} (hword : ∀ b ∈ word, isPlain b = true) (s : Str) :
    PGCodec.stripBlockComments false (word ++ s) = word ++ PGCodec.stripBlockComments false s := by
  induction word with
  | nil => rfl
  | cons b word ih =>
    have hb := hword b mem_cons_self
    have hne : b ≠ 0x2f := by
      rintro rfl
      exact absurd hb (by decide)
    rw [cons_append, cons_append, ← ih fun c hc => hword c (mem_cons_of_mem b hc)]
    cases word ++ s with
    | nil => simp [PGCodec.stripBlockComments, encodeRune_of_isPlain hb]
    | cons c rest =>
      rw [PGCodec.stripBlockComments, if_neg (fun h => hne h.1), encodeRune_of_isPlain hb]
      rfl

/-- Comments are looked for behind the first word only. -/
theorem isPrefixOf_stripSQLComments {word s : Str} (hword : ∀ b ∈ word, isPlain b = true)
    (h : word.isPrefixOf s = true) : word.isPrefixOf (PGCodec.stripSQLComments s) = true := by
  obtain ⟨rest, rfl⟩ := isPrefixOf_iff_prefix.mp h
  rw [PGCodec.stripSQLComments, stripLineComments_append hword, stripBlockComments_append hword]
  exact isPrefixOf_iff_prefix.mpr (prefix_append _ _)

/-- The words that a transaction begins or ends with. -/
def boundaryWords : List String :=
  ["BEGIN", "START TRANSACTION", "BEGIN TRANSACTION", "BEGIN TRAN", "COMMIT", "ROLLBACK", "END",
    "COMMIT TRANSACTION", "ROLLBACK TRANSACTION", "COMMIT TRAN", "ROLLBACK TRAN"]

/-- A query that starts with some other word begins and ends no transaction. -/
theorem no_boundary_of_startsWith {p : Protocol} {msg : Message} {word : String}
    (hplain : ∀ b ∈ str word, isPlain b = true)
    (hword : ∀ other ∈ boundaryWords, ¬ str word <+: str other ∧ ¬ str other <+: str word)
    (hq : isQuery p msg = true) (h : startsWith lib (extractQuery p msg) word = true) :
    isTransactionBegin lib p msg = false ∧ isTransactionEnd lib p msg = false := by
  have hnot : ∀ other ∈ boundaryWords, startsWith lib (extractQuery p msg) other = false :=
    fun other hmem => not_isPrefixOf_of_isPrefixOf h (hword other hmem).1 (hword other hmem).2
  cases p with
  | postgreSQL =>
    have hstrip := isPrefixOf_stripSQLComments hplain h
    have hnone : ∀ other ∈ boundaryWords,
        (str other).isPrefixOf (PGCodec.boundaryText lib msg) = false :=
      fun other hmem =>
        not_isPrefixOf_of_isPrefixOf hstrip (hword other hmem).1 (hword other hmem).2
    have hquery : PGCodec.isQuery msg = true := hq
    simp only [boundaryWords, forall_mem_cons] at hnone
    simp [isTransactionBegin, isTransactionEnd, PGCodec.isTransactionBegin,
      PGCodec.isTransactionEnd, hquery, hnone]
  | mySQL =>
    simp only [boundaryWords, forall_mem_cons, extractQuery] at hnot
    simp [isTransactionBegin, isTransactionEnd, MySQLCodec.isTransactionBegin,
      MySQLCodec.isTransactionEnd, hnot]
  | msSQL =>
    simp only [boundaryWords, forall_mem_cons, extractQuery] at hnot
    simp [isTransactionBegin, isTransactionEnd, TDSCodec.isTransactionBegin,
      TDSCodec.isTransactionEnd, hnot]

end Geryon.Wire
