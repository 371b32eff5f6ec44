import Mathlib.Data.List.Basic

/-!
# Fixed-width numbers in bytes

`binary.BigEndian` of Go's `encoding/binary`, for a `uint32`.
-/

namespace Go

open UInt8

/-- `binary.Write` of a `uint32`: the most significant byte first. -/
def putUint32 (v : UInt32) : List UInt8 :=
  [ofNat (v.toNat / 16777216), ofNat (v.toNat / 65536), ofNat (v.toNat / 256),
    ofNat v.toNat]

/-- `binary.Read` of a `uint32` from four bytes. -/
def uint32 (bytes : List UInt8) : UInt32 :=
  UInt32.ofNat (bytes.foldl (fun n b => 256 * n + b.toNat) 0)

@[simp] theorem length_putUint32 (v : UInt32) : (putUint32 v).length = 4 := rfl

@[simp] theorem uint32_putUint32 (v : UInt32) : uint32 (putUint32 v) = v := by
  have hv := v.toNat_lt
  apply UInt32.toNat_inj.mp
  simp only [uint32, putUint32, List.foldl_cons, List.foldl_nil, toNat_ofNat',
    UInt32.toNat_ofNat']
  omega

end Go
