import Geryon.Startup.Auth
import Mathlib.Algebra.Order.Floor.Div

/-!
# PBKDF2

`pbkdf2Key` of `internal/auth/scram.go` for any pseudo-random function in place of
HMAC, and the key that RFC 8018 defines.  `Startup.pbkdf2Key` has only what it
returns for SHA-256.
-/

namespace Geryon.Startup.PBKDF2

open List

section

variable (prf : Bytes → Bytes)

/-- The loop over `u`, with `dk` from `start` on as `t`. -/
def xorInto : Nat → Bytes → Bytes → Bytes
  | _, dk, [] => dk
  | start, dk, b :: u => xorInto (start + 1) (dk.modify start (· ^^^ b)) u

/-- `n` more rounds of the loop over the iterations. -/
def rounds (start : Nat) : Nat → Bytes → Bytes → Bytes
  | 0, dk, _ => dk
  | n + 1, dk, u =>
    let u := prf u
    rounds start n (xorInto start dk u) u

/-- The body of the loop over the blocks. -/
def addBlock (hashLen : Nat) (salt : Bytes) (iter : Nat) (dk : Bytes) (block : Nat) : Bytes :=
  let dk := dk ++ prf (salt ++ [24, 16, 8, 0].map fun shift => UInt8.ofNat (block >>> shift))
  let start := dk.length - hashLen
  rounds prf start (iter - 1) dk (dk.drop start)

/-- `U_j` of block `i`. -/
def U (salt : Bytes) (i j : Nat) : Bytes := prf^[j] (salt ++ putBigEndian 4 i)

/-- `T_i`. -/
def T (salt : Bytes) (iter i : Nat) : Bytes :=
  ((range' 2 (iter - 1)).map (U prf salt i)).foldl xor (U prf salt i 1)

end

/-- `pbkdf2Key`.  It panics if there are fewer bytes than it returns. -/
def pbkdf2Key (prf : Bytes → Bytes → Bytes) (hashLen : Nat) (password salt : Bytes)
    (iter keyLen : Nat) : Option Bytes :=
  let numBlocks := (keyLen + hashLen - 1) / hashLen
  let dk := (range' 1 numBlocks).foldl (addBlock (prf password) hashLen salt iter) []
  if keyLen ≤ dk.length then some (dk.take keyLen) else none

theorem xorInto_append (dk : Bytes) {t u : Bytes} (h : t.length = u.length) :
    xorInto dk.length (dk ++ t) u = dk ++ xor t u := by
  induction u generalizing dk t with
  | nil => simp_all [xorInto, xor]
  | cons b u ih =>
    obtain ⟨a, t, rfl⟩ := exists_cons_of_length_eq_add_one h
    have := ih (dk ++ [a ^^^ b]) (t := t) (by simpa using h)
    simpa [xorInto, xor, modify_eq_take_drop] using this

section

variable {prf : Bytes → Bytes} {hashLen : Nat} (hlen : ∀ data, (prf data).length = hashLen)
include hlen

/-- What is added to `dk` is the xor of the next `U_j`. -/
theorem rounds_append {salt : Bytes} {i : Nat} (n j : Nat) (dk : Bytes) {t : Bytes}
    (ht : t.length = hashLen) : rounds prf dk.length n (dk ++ t) (U prf salt i j) =
      dk ++ ((range' (j + 1) n).map (U prf salt i)).foldl xor t ∧
    (((range' (j + 1) n).map (U prf salt i)).foldl xor t).length = hashLen := by
  induction n generalizing j t with
  | zero => exact ⟨rfl, ht⟩
  | succ n ih =>
    have hnext : prf (U prf salt i j) = U prf salt i (j + 1) :=
      (Function.iterate_succ_apply' ..).symm
    have hu : t.length = (U prf salt i (j + 1)).length := by rw [ht, ← hnext, hlen]
    rw [rounds, hnext, xorInto_append dk hu]
    exact ih (j + 1) (by simp [xor, ← hu, ht])

theorem addBlock_eq (salt : Bytes) (iter : Nat) (dk : Bytes) (i : Nat) :
    addBlock prf hashLen salt iter dk i = dk ++ T prf salt iter i := by
  have hblock : ([24, 16, 8, 0].map fun shift => UInt8.ofNat (i >>> shift)) = putBigEndian 4 i := by
    simp [putBigEndian, putLittleEndian, Nat.shiftRight_eq_div_pow, Nat.div_div_eq_div_mul]
  rw [addBlock, hblock, length_append, hlen, Nat.add_sub_cancel, drop_left]
  exact (rounds_append hlen (iter - 1) 1 dk (hlen _)).1

theorem foldl_addBlock (salt : Bytes) (iter : Nat) (blocks : List Nat) (dk : Bytes) :
    blocks.foldl (addBlock prf hashLen salt iter) dk = dk ++ blocks.flatMap (T prf salt iter) ∧
      (blocks.flatMap (T prf salt iter)).length = blocks.length * hashLen := by
  induction blocks generalizing dk with
  | nil => simp
  | cons i blocks ih =>
    have hT : (T prf salt iter i).length = hashLen :=
      (rounds_append hlen (iter - 1) 1 [] (hlen _)).2
    rw [foldl_cons, addBlock_eq hlen, (ih _).1, flatMap_cons, length_append, (ih dk).2, hT,
      length_cons, append_assoc, Nat.add_mul, Nat.one_mul, Nat.add_comm]
    exact ⟨rfl, rfl⟩

end

section

variable {prf : Bytes → Bytes → Bytes} {hashLen : Nat} (hpos : 0 < hashLen)
  (hlen : ∀ password data, (prf password data).length = hashLen) (password salt : Bytes)
  (iter keyLen : Nat)
include hpos hlen

theorem pbkdf2Key_eq_take : pbkdf2Key prf hashLen password salt iter keyLen =
    some (((range' 1 ((keyLen + hashLen - 1) / hashLen)).flatMap
      (T (prf password) salt iter)).take keyLen) := by
  have hblocks := Nat.lt_div_mul_add hpos (a := keyLen + hashLen - 1)
  obtain ⟨hdk, hlength⟩ := foldl_addBlock (hlen password) salt iter
    (range' 1 ((keyLen + hashLen - 1) / hashLen)) []
  rw [length_range'] at hlength
  rw [pbkdf2Key, hdk, nil_append, if_pos (by omega)]

/-- `pbkdf2Key` returns the first `keyLen` bytes of the blocks. -/
theorem pbkdf2Key_eq : pbkdf2Key prf hashLen password salt iter keyLen =
    some (((range' 1 (keyLen ⌈/⌉ hashLen)).flatMap (T (prf password) salt iter)).take keyLen) := by
  rw [Nat.ceilDiv_eq_add_pred_div]
  exact pbkdf2Key_eq_take hpos hlen password salt iter keyLen

end

theorem pbkdf2Key_eq_xor :
    pbkdf2Key (fun key data => [(key ++ data).foldl (· ^^^ ·) 7]) 1 [1] [2] 2 3 = some
      (((range' 1 (3 ⌈/⌉ 1)).flatMap
        (T (fun data => [([1] ++ data).foldl (· ^^^ ·) 7]) [2] 2)).take 3) :=
  pbkdf2Key_eq Nat.one_pos (fun _ _ => rfl) [1] [2] 2 3

theorem pbkdf2Rounds_eq (lib : Lib) (password salt : Bytes) (i n j : Nat) (t : Bytes) :
    pbkdf2Rounds lib password n (U (lib.hmacSHA256 password) salt i j) t =
      ((range' (j + 1) n).map (U (lib.hmacSHA256 password) salt i)).foldl xor t := by
  induction n generalizing j t with
  | zero => rfl
  | succ n ih =>
    rw [pbkdf2Rounds, U, ← Function.iterate_succ_apply' (lib.hmacSHA256 password)]
    exact ih (j + 1) _

/-- For HMAC with SHA-256 it returns `Startup.pbkdf2Key`. -/
theorem pbkdf2Key_sha256 {lib : Lib}
    (hlen : ∀ password data, (lib.hmacSHA256 password data).length = 32) (password salt : Bytes)
    (iter keyLen : Nat) : pbkdf2Key lib.hmacSHA256 32 password salt iter keyLen =
      some (Startup.pbkdf2Key lib password salt iter keyLen) := by
  rw [pbkdf2Key_eq_take (by decide) hlen, range'_eq_map_range, flatMap_map, Startup.pbkdf2Key]
  congr 3
  funext i
  rw [Nat.add_comm]
  exact (pbkdf2Rounds_eq lib password salt (i + 1) (iter - 1) 1 _).symm

end Geryon.Startup.PBKDF2
