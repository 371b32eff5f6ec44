import Geryon.Go.Text

/-!
# What the cache makes of a query text

The functions that decide which queries are cached, under which key, and which
tables they are about: `isSelectQuery`, `isModificationQuery` and
`extractTablesFromQuery` of `internal/proxy/listener.go`, `NormalizeQuery` of
`internal/tokenizer/tokenizer.go`, and `GenerateKey` and `RulesEngine` of
`internal/cache/store.go`.
-/

namespace Geryon.Cache

open Go

variable (lib : Unicode)

def isSelectQuery (query : Str) : Bool :=
  startsWith lib query "SELECT" || startsWith lib query "WITH"

def isModificationQuery (query : Str) : Bool :=
  ["INSERT", "UPDATE", "DELETE", "TRUNCATE", "DROP", "ALTER", "CREATE", "REPLACE"].any
    (startsWith lib query)

/-- `extractTablesFromQuery`.  The index is one of the text in capital letters, which
may have another length than the query; `none` is the panic of a slice out of range. -/
def extractTablesFromQuery (query : Str) : Option (List Str) :=
  match index (str "FROM ") (toUpper lib query) with
  | none => some []
  | some i =>
    if i + 5 ≤ query.length then
      match fields lib (query.drop (i + 5)) with
      | [] => some []
      | table :: _ => some [trimRight table (str ",;")]
    else none

/-! ## Keys -/

/-- The blanks of `NormalizeQuery`. -/
def isBlank (b : UInt8) : Bool := b = 0x20 || b = 0x09 || b = 0x0a || b = 0x0d

/-- The loop of `NormalizeQuery`.  It goes over the runes of what `ToLower`
returns, which is valid UTF-8; the bytes it looks for are runes of one byte. -/
def collapse : Bool → Str → Str
  | _, [] => []
  | inWhitespace, b :: s =>
    if isBlank b then
      if inWhitespace then collapse true s else 0x20 :: collapse true s
    else b :: collapse false s

def isDigit (b : UInt8) : Bool := 0x30 ≤ b && b ≤ 0x39

/-- Replace what matches `\$\d+` by a question mark.  The first argument says
that the digits of a match are being read. -/
def replaceParameters : Bool → Str → Str
  | _, [] => []
  | inDigits, b :: s =>
    if inDigits && isDigit b then replaceParameters true s
    else if b = 0x24 && s.head?.any isDigit then 0x3f :: replaceParameters true s
    else b :: replaceParameters false s

def normalizeParameters (query : Str) : Str := replaceParameters false query

def normalizeQuery (query : Str) : Str :=
  normalizeParameters (trimSpace lib (collapse false (toLower lib query)))

/-- `GenerateKey(query).String()`. -/
def generateKey (query : Str) : Str := normalizeQuery lib query

/-! ## Rules -/

/-- `Rule`.  The pattern is what its regular expression matches. -/
structure Rule where
  pattern : Str → Bool
  ttl : Nat
  cache : Bool

abbrev RulesEngine := List Rule

namespace RulesEngine

/-- `Match`: the last rule that matches. -/
def matched (rules : RulesEngine) (query : Str) : Option Rule :=
  rules.foldl (fun found rule => if rule.pattern query then some rule else found) none

def shouldCache (rules : RulesEngine) (query : Str) : Bool :=
  match rules.matched query with
  | none => true
  | some rule => rule.cache

def getTTL (rules : RulesEngine) (query : Str) (defaultTTL : Nat) : Nat :=
  match rules.matched query with
  | none => defaultTTL
  | some rule => if rule.ttl = 0 then defaultTTL else rule.ttl

end RulesEngine

end Geryon.Cache
