import Mathlib.Data.List.Basic

/-!
# Package `strings`

A string is its bytes.  The functions of package `strings` treat a string of
ASCII bytes byte by byte, and hand all others to package `unicode`.  The first
part is defined here; the second one is a parameter, `Unicode`.
-/

namespace Go

/-- A `string`. -/
abbrev Str := List UInt8

/-- The bytes of a string of ASCII characters. -/
def str (s : String) : Str := s.toList.map Char.toUInt8

/-- What package `strings` does to strings that are not ASCII. -/
structure Unicode where
  toUpper : Str → Str
  toLower : Str → Str
  trimSpace : Str → Str
  fields : Str → List Str

/-- All bytes are below `utf8.RuneSelf`. -/
def isASCII (s : Str) : Bool := s.all (· < 0x80)

def upperByte (b : UInt8) : UInt8 := if 0x61 ≤ b ∧ b ≤ 0x7a then b - 0x20 else b

def lowerByte (b : UInt8) : UInt8 := if 0x41 ≤ b ∧ b ≤ 0x5a then b + 0x20 else b

/-- `asciiSpace`. -/
def isSpace (b : UInt8) : Bool := b = 0x20 || 0x09 ≤ b && b ≤ 0x0d

/-- Drop the bytes at both ends that satisfy `p`. -/
def trimFunc (p : UInt8 → Bool) (s : Str) : Str := (s.dropWhile p).reverse.dropWhile p |>.reverse

/-- The words of a string whose separators satisfy `p`.  `word` is the word
that has been begun, the last byte first. -/
def splitWords (p : UInt8 → Bool) : Str → Str → List Str
  | word, [] => if word = [] then [] else [word.reverse]
  | word, b :: s =>
    if p b then
      if word = [] then splitWords p [] s else word.reverse :: splitWords p [] s
    else splitWords p (b :: word) s

/-- `strings.Index`. -/
def index (sub : Str) : Str → Option Nat
  | [] => if sub = [] then some 0 else none
  | b :: s => if sub.isPrefixOf (b :: s) then some 0 else (index sub s).map (· + 1)

def trimRight (s cutset : Str) : Str := (s.reverse.dropWhile fun b => cutset.contains b).reverse

/-- The bytes of a rune in UTF-8.  A number that is no character is written as
`utf8.RuneError`. -/
def encodeRune (r : Nat) : Str :=
  let tail (n : Nat) : UInt8 := .ofNat (0x80 + n % 64)
  if r < 0x80 then [.ofNat r]
  else if r < 0x800 then [.ofNat (0xc0 + r / 64), tail r]
  else if 0xd800 ≤ r ∧ r < 0xe000 ∨ 0x110000 ≤ r then [0xef, 0xbf, 0xbd]
  else if r < 0x10000 then [.ofNat (0xe0 + r / 4096), tail (r / 64), tail r]
  else [.ofNat (0xf0 + r / 262144), tail (r / 4096), tail (r / 64), tail r]

variable (lib : Unicode)

def toUpper (s : Str) : Str := if isASCII s then s.map upperByte else lib.toUpper s

def toLower (s : Str) : Str := if isASCII s then s.map lowerByte else lib.toLower s

def trimSpace (s : Str) : Str := if isASCII s then trimFunc isSpace s else lib.trimSpace s

def fields (s : Str) : List Str := if isASCII s then splitWords isSpace [] s else lib.fields s

/-- `strings.HasPrefix(strings.ToUpper(strings.TrimSpace(s)), word)`. -/
def startsWith (s : Str) (word : String) : Bool := (str word).isPrefixOf (toUpper lib (trimSpace lib s))

end Go
