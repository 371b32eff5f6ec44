import Geryon.Go.Reader

/-!
# Wire messages

`common.Message` and the constants around it, from
`internal/protocol/common/message.go`.
-/

namespace Geryon.Wire

inductive Direction where
  | frontend
  | backend
  deriving DecidableEq

inductive Protocol where
  | postgreSQL
  | mySQL
  | msSQL
  deriving DecidableEq

/-- `common.Message`.  `raw` is the complete message, header and payload. -/
structure Message where
  msgType : UInt8
  length : Int
  payload : List UInt8
  raw : List UInt8
  direction : Direction := .frontend
  deriving DecidableEq

/-- The errors of a codec: those of package `io`, and the texts it formats
itself. -/
inductive ReadError where
  | io (e : Go.IOErr)
  | errorf (text : String)
  deriving DecidableEq

/-- `binary.BigEndian`: the number that the bytes are, the first one being the
most significant. -/
def bigEndian (bytes : List UInt8) : Nat :=
  bytes.foldl (fun n b => 256 * n + b.toNat) 0

/-- The number that the bytes are, the first one being the least
significant. -/
def littleEndian (bytes : List UInt8) : Nat :=
  bytes.foldr (fun b n => 256 * n + b.toNat) 0

end Geryon.Wire
