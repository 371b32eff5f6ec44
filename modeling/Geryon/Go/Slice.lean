import Mathlib.Data.List.Basic

/-!
# Byte slices and `bytes.Buffer`

A slice is a window on a backing array, so a write through one slice can be seen
through another.  `Heap` has the arrays and `Slice` the window.

`Buffer` is `bytes.Buffer`, with `Write` and the growing it does, as far as a
buffer made by `NewBuffer` on a slice goes.  `Buffer.write_spec` says what one
`Write` does to a buffer from which nothing has been read: the bytes come behind
those that are there, and only the array of the buffer may change.  A buffer
without room moves to a new array and leaves the old one alone.

The capacity of a new array is the one that `growSlice` asks for; no operation
here shows whether the allocator rounds it up.
-/

namespace Go

open List

/-- The backing arrays of all slices, by number. -/
structure Heap where
  arrays : List (List UInt8) := []
  deriving DecidableEq

/-- A `[]byte`. -/
structure Slice where
  array : Nat
  off : Nat
  len : Nat
  cap : Nat
  deriving DecidableEq

namespace Heap

def array (h : Heap) (a : Nat) : List UInt8 := h.arrays.getD a []

/-- The bytes that a slice shows. -/
def bytes (h : Heap) (s : Slice) : List UInt8 := ((h.array s.array).drop s.off).take s.len

def alloc (h : Heap) (data : List UInt8) : Heap := ⟨h.arrays ++ [data]⟩

def make (h : Heap) (n : Nat) : Slice × Heap :=
  (⟨h.arrays.length, 0, n, n⟩, h.alloc (replicate n 0))

/-- `copy(s[i:], p)`, where `p` fits. -/
def copyTo (h : Heap) (s : Slice) (i : Nat) (p : List UInt8) : Heap :=
  ⟨h.arrays.modify s.array fun d =>
    d.take (s.off + i) ++ p ++ d.drop (s.off + i + p.length)⟩

/-- The slice is a window on an array of the heap. -/
structure Valid (h : Heap) (s : Slice) : Prop where
  array_lt : s.array < h.arrays.length
  cap_le : s.off + s.cap ≤ (h.array s.array).length
  len_le : s.len ≤ s.cap

variable {h : Heap} {s : Slice}

section

variable (data : List UInt8)

theorem array_alloc_of_lt {a : Nat} (ha : a < h.arrays.length) :
    (h.alloc data).array a = h.array a := by
  simp [alloc, array, getElem?_append_left ha]

theorem array_alloc_self : (h.alloc data).array h.arrays.length = data := by
  simp [alloc, array]

theorem length_arrays_alloc : (h.alloc data).arrays.length = h.arrays.length + 1 := by
  simp [alloc]

end

theorem length_arrays_copyTo (i : Nat) (p : List UInt8) :
    (h.copyTo s i p).arrays.length = h.arrays.length := by
  simp [copyTo]

theorem array_copyTo_of_ne {a : Nat} (i : Nat) (p : List UInt8) (ha : a ≠ s.array) :
    (h.copyTo s i p).array a = h.array a := by
  simp [copyTo, array, Ne.symm ha]

theorem array_copyTo_self {i : Nat} {p : List UInt8} (hs : s.array < h.arrays.length) :
    (h.copyTo s i p).array s.array =
      (h.array s.array).take (s.off + i) ++ p ++ (h.array s.array).drop (s.off + i + p.length) := by
  simp [copyTo, array, hs]

theorem bytes_congr {h' : Heap} (ha : h'.array s.array = h.array s.array) :
    h'.bytes s = h.bytes s := by
  rw [bytes, bytes, ha]

theorem Valid.congr {h' : Heap} (hs : h.Valid s) (hlen : h.arrays.length ≤ h'.arrays.length)
    (ha : h'.array s.array = h.array s.array) : h'.Valid s where
  array_lt := Nat.lt_of_lt_of_le hs.array_lt hlen
  cap_le := by rw [ha]; exact hs.cap_le
  len_le := hs.len_le

theorem Valid.length_bytes (hs : h.Valid s) : (h.bytes s).length = s.len := by
  have hcap := hs.cap_le
  have hlen := hs.len_le
  rw [bytes, length_take, length_drop]
  omega

end Heap

structure Buffer where
  buf : Slice
  /-- Where the next read starts. -/
  off : Nat := 0
  deriving DecidableEq

/-- `bytes.NewBuffer`: the bytes of the slice are the first ones of the
buffer. -/
def newBuffer (s : Slice) : Buffer := ⟨s, 0⟩

namespace Buffer

def len (b : Buffer) : Nat := b.buf.len - b.off

def bytes (b : Buffer) : Slice :=
  ⟨b.buf.array, b.buf.off + b.off, b.buf.len - b.off, b.buf.cap - b.off⟩

def tryGrowByReslice (b : Buffer) (n : Nat) : Option (Nat × Buffer) :=
  if n ≤ b.buf.cap - b.buf.len then
    some (b.buf.len, { b with buf := { b.buf with len := b.buf.len + n } })
  else none

def reset (b : Buffer) : Buffer := ⟨{ b.buf with len := 0 }, 0⟩

/-- `growSlice`: a copy of the slice in a new array that has room for `n`
more bytes. -/
def growSlice (h : Heap) (s : Slice) (n : Nat) : Slice × Heap :=
  let c := if s.len + n < 2 * s.cap then 2 * s.cap else s.len + n
  (⟨h.arrays.length, 0, s.len, c⟩, h.alloc (h.bytes s ++ replicate (c - s.len) 0))

/-- `grow`: where to write the next `n` bytes. -/
def grow (b : Buffer) (h : Heap) (n : Nat) : Nat × Buffer × Heap :=
  let m := b.len
  let b := if m = 0 ∧ b.off ≠ 0 then b.reset else b
  match b.tryGrowByReslice n with
  | some (i, b') => (i, b', h)
  | none =>
    if n + m ≤ b.buf.cap / 2 then
      (m, ⟨{ b.buf with len := m + n }, 0⟩, h.copyTo b.buf 0 (h.bytes b.bytes))
    else
      let r := growSlice h b.bytes (b.off + n)
      (m, ⟨{ r.1 with len := m + n }, 0⟩, r.2)

def write (b : Buffer) (h : Heap) (p : List UInt8) : Buffer × Heap :=
  match b.tryGrowByReslice p.length with
  | some (m, b') => (b', h.copyTo b'.buf m p)
  | none =>
    let r := b.grow h p.length
    (r.2.1, r.2.2.copyTo r.2.1.buf r.1 p)

/-! ## What a `Write` does -/

variable {b : Buffer} {h : Heap} {p : List UInt8}

/-- The heap and the buffer after a `Write`. -/
structure Wrote (b : Buffer) (h : Heap) (p : List UInt8) (b' : Buffer) (h' : Heap) : Prop where
  off : b'.off = 0
  valid : h'.Valid b'.buf
  bytes : h'.bytes b'.buf = h.bytes b.buf ++ p
  /-- The other arrays are as they were. -/
  others : ∀ a < h.arrays.length, a ≠ b.buf.array → h'.array a = h.array a
  arrays : h.arrays.length ≤ h'.arrays.length
  /-- The buffer stays where it is, or moves to a new array. -/
  moves : b'.buf.array = b.buf.array ∨
    h.arrays.length ≤ b'.buf.array ∧ ∀ a < h.arrays.length, h'.array a = h.array a

theorem wrote_of_fits (hoff : b.off = 0) (hv : h.Valid b.buf)
    (hfits : p.length ≤ b.buf.cap - b.buf.len) : b.Wrote h p (b.write h p).1 (b.write h p).2 := by
  have hlen := hv.len_le
  have hcap := hv.cap_le
  simp only [write, tryGrowByReslice, if_pos hfits]
  have harray := Heap.array_copyTo_self (i := b.buf.len) (p := p)
    (s := { b.buf with len := b.buf.len + p.length }) hv.array_lt
  simp only at harray
  refine ⟨hoff, ⟨?_, ?_, ?_⟩, ?_, ?_, ?_, .inl rfl⟩
  · rw [Heap.length_arrays_copyTo]
    exact hv.array_lt
  · show b.buf.off + b.buf.cap ≤ _
    rw [harray]
    simp only [length_append, length_take, length_drop]
    omega
  · show b.buf.len + p.length ≤ b.buf.cap
    omega
  · -- The window grows by what has been copied behind it.
    show take (b.buf.len + p.length) (drop b.buf.off _) = _
    rw [harray, Heap.bytes, append_assoc,
      drop_append_of_le_length (by rw [length_take]; omega), drop_take,
      show b.buf.off + b.buf.len - b.buf.off = b.buf.len by omega,
      take_append, length_take, length_drop,
      Nat.min_eq_left (by omega), take_of_length_le (by rw [length_take]; omega),
      Nat.add_sub_cancel_left, take_left']
    rfl
  · intro a _ hne
    exact Heap.array_copyTo_of_ne _ _ hne
  · exact Nat.le_of_eq (Heap.length_arrays_copyTo _ _).symm

theorem write_nil (b : Buffer) (h : Heap) : b.write h [] = (b, h) := by
  have hcopy : h.copyTo b.buf b.buf.len [] = h := by
    have hid : (fun d : List UInt8 => d.take (b.buf.off + b.buf.len) ++ [] ++
        d.drop (b.buf.off + b.buf.len + ([] : List UInt8).length)) = id := by
      funext d
      simp
    rw [Heap.copyTo, hid, modify_id]
  simp only [write, tryGrowByReslice, length_nil, Nat.zero_le, if_true, Nat.add_zero]
  rw [hcopy]

theorem wrote_of_grows (hoff : b.off = 0) (hv : h.Valid b.buf)
    (hfull : ¬ p.length ≤ b.buf.cap - b.buf.len) : b.Wrote h p (b.write h p).1 (b.write h p).2 ∧
      (b.write h p).1.buf.array = h.arrays.length := by
  have hlen := hv.len_le
  have hcap := hv.cap_le
  obtain ⟨buf, off⟩ := b
  simp only at hoff hv hfull hlen hcap
  subst hoff
  -- With nothing read, sliding the bytes down does not make room.
  have hslide : ¬ p.length + buf.len ≤ buf.cap / 2 := by omega
  set c := if buf.len + p.length < 2 * buf.cap then 2 * buf.cap else buf.len + p.length with hc
  have hroom : buf.len + p.length ≤ c := by
    rw [hc]
    split <;> omega
  set data := h.bytes buf ++ replicate (c - buf.len) 0 with hdata
  have hdlen : data.length = c := by
    rw [hdata, length_append, hv.length_bytes, length_replicate]
    omega
  have hwrite : (Buffer.mk buf 0).write h p =
      (⟨⟨h.arrays.length, 0, buf.len + p.length, c⟩, 0⟩,
        (h.alloc data).copyTo ⟨h.arrays.length, 0, buf.len + p.length, c⟩ buf.len p) := by
    simp only [write, tryGrowByReslice, if_neg hfull, grow, len, Nat.sub_zero, ne_eq,
      not_true_eq_false, and_false, if_false, if_neg hslide, growSlice, Buffer.bytes,
      Nat.add_zero, Nat.zero_add]
    rfl
  rw [hwrite]
  have hnew : h.arrays.length < (h.alloc data).arrays.length := by
    rw [Heap.length_arrays_alloc]
    omega
  have harray := Heap.array_copyTo_self (i := buf.len) (p := p)
    (s := ⟨h.arrays.length, 0, buf.len + p.length, c⟩) hnew
  simp only [Nat.zero_add, Heap.array_alloc_self] at harray
  have hkept : ∀ a < h.arrays.length,
      ((h.alloc data).copyTo ⟨h.arrays.length, 0, buf.len + p.length, c⟩ buf.len p).array a =
        h.array a := by
    intro a ha
    rw [Heap.array_copyTo_of_ne _ _ (Nat.ne_of_lt ha), Heap.array_alloc_of_lt _ ha]
  refine ⟨⟨rfl, ⟨?_, ?_, ?_⟩, ?_, ?_, ?_, .inr ⟨Nat.le_refl _, hkept⟩⟩, rfl⟩
  · rw [Heap.length_arrays_copyTo]
    exact hnew
  · show 0 + c ≤ _
    rw [harray]
    simp only [length_append, length_take, length_drop]
    omega
  · exact hroom
  · show take (buf.len + p.length) (drop 0 _) = _
    have htake : data.take buf.len = h.bytes buf := by
      rw [hdata, take_left' hv.length_bytes]
    rw [harray, htake, drop_zero]
    exact take_left' (by rw [length_append, hv.length_bytes])
  · intro a ha _
    exact hkept a ha
  · rw [Heap.length_arrays_copyTo]
    omega

theorem write_spec (hoff : b.off = 0) (hv : h.Valid b.buf) :
    b.Wrote h p (b.write h p).1 (b.write h p).2 := by
  by_cases hfits : p.length ≤ b.buf.cap - b.buf.len
  · exact wrote_of_fits hoff hv hfits
  · exact (wrote_of_grows hoff hv hfits).1

end Buffer

end Go
