import Geryon.Cache.Query
import Geryon.Go.Slice
import Geryon.Protocol.Message
import Mathlib.Algebra.BigOperators.Group.List.Basic
import Mathlib.Algebra.Ring.Nat
import Mathlib.Data.List.Nodup

/-!
# The result cache

`Store` of `internal/cache/store.go`.  Its map and its eviction list have the
same entries, so both are one list here, the most recently used entry first.
A `Store` carries what its methods rely on: no two entries have the same key,
`currentMemory` is the sum of the sizes, and it is within `maxMemory`.

The value of an entry is a slice.  `Set` stores the slice that it is given and
`Get` returns it; neither copies the bytes.

`Capture` is bookkeeping: the response that an entry was made from.
-/

namespace Geryon.Cache

open Go List

/-- A message of a backend.  `time` is bookkeeping: how many statements the
backend had executed when it sent it. -/
structure Reply where
  msg : Wire.Message
  time : Nat
  deriving DecidableEq

/-- Bookkeeping: what an entry was made from. -/
structure Capture where
  session : Nat
  query : Str
  replies : List Reply
  deriving DecidableEq

/-- The bytes of the messages that were captured. -/
def Capture.raw (c : Capture) : List UInt8 := (c.replies.map (·.msg.raw)).flatten

structure CacheEntry where
  key : Str
  value : Slice
  size : Nat
  expiresAt : Nat
  tables : List Str
  capture : Capture
  deriving DecidableEq

def CacheEntry.isExpired (e : CacheEntry) (now : Nat) : Bool := e.expiresAt < now

def totalSize (l : List CacheEntry) : Nat := (l.map (·.size)).sum

/-- The entries but the one with a key. -/
def without (key : Str) (l : List CacheEntry) : List CacheEntry := l.eraseP (·.key = key)

variable {key : Str} {l : List CacheEntry}

theorem perm_without {e : CacheEntry} (h : l.find? (·.key = key) = some e) :
    (e :: without key l).Perm l := by
  induction l with
  | nil => cases h
  | cons e' l ih =>
    by_cases he : e'.key = key
    · rw [find?_cons_of_pos (by simpa using he)] at h
      cases h
      rw [without, eraseP_cons_of_pos (by simpa using he)]
    · rw [find?_cons_of_neg (by simpa using he)] at h
      rw [without, eraseP_cons_of_neg (by simpa using he)]
      exact (List.Perm.swap e' e _).trans ((ih h).cons e')

theorem without_of_not_found (h : l.find? (·.key = key) = none) : without key l = l :=
  eraseP_of_forall_not (by simpa using h)

theorem totalSize_perm {l' : List CacheEntry} (h : l.Perm l') : totalSize l = totalSize l' :=
  (h.map _).sum_eq

structure Store where
  entries : List CacheEntry := []
  maxMemory : Nat
  defaultTTL : Nat
  currentMemory : Nat := 0
  nodup : (entries.map (·.key)).Nodup := by exact List.nodup_nil
  memory : currentMemory = totalSize entries := by rfl
  fits : currentMemory ≤ maxMemory := by exact Nat.zero_le _

namespace Store

def find (s : Store) (key : Str) : Option CacheEntry := s.entries.find? (·.key = key)

/-- `removeEntry`, for the entry with a key if there is one. -/
def removeEntry (s : Store) (key : Str) : Store where
  entries := without key s.entries
  maxMemory := s.maxMemory
  defaultTTL := s.defaultTTL
  currentMemory := s.currentMemory - ((s.find key).map (·.size)).getD 0
  nodup := s.nodup.sublist (List.Sublist.map _ eraseP_sublist)
  memory := by
    cases hf : s.find key with
    | none => rw [without_of_not_found hf, s.memory]; rfl
    | some e =>
      have hsize := totalSize_perm (perm_without hf)
      rw [s.memory, ← hsize]
      exact Nat.add_sub_cancel_left _ _
  fits := Nat.le_trans (Nat.sub_le _ _) s.fits

/-- The loops over `toRemove`. -/
def removeAll (s : Store) (toRemove : List CacheEntry) : Store :=
  toRemove.foldl (fun s e => s.removeEntry e.key) s

def moveToFront (s : Store) {key : Str} {e : CacheEntry} (he : s.find key = some e) : Store where
  entries := e :: without key s.entries
  maxMemory := s.maxMemory
  defaultTTL := s.defaultTTL
  currentMemory := s.currentMemory
  nodup := (((perm_without he).map _).nodup_iff).mpr s.nodup
  memory := by rw [s.memory, totalSize_perm (perm_without he)]
  fits := s.fits

/-- `Get` at the time `now`. -/
def get (s : Store) (now : Nat) (key : Str) : Option CacheEntry × Store :=
  match hf : s.find key with
  | none => (none, s)
  | some e => if e.isExpired now then (none, s.removeEntry key) else (some e, s.moveToFront hf)

def evictLRU (s : Store) : Store :=
  match s.entries.getLast? with
  | none => s
  | some e => s.removeEntry e.key

/-- The loop of `Set` that makes room for `size` bytes.  It runs at most once
for each entry. -/
def evictFor (size : Nat) : Nat → Store → Store
  | 0, s => s
  | left + 1, s =>
    if s.maxMemory < s.currentMemory + size ∧ 0 < s.entries.length then
      evictFor size left s.evictLRU
    else s

variable {s : Store} {key : Str} {e : CacheEntry} {size : Nat}

theorem mem_entries_removeEntry :
    e ∈ (s.removeEntry key).entries ↔ e ∈ s.entries ∧ e.key ≠ key := by
  show e ∈ without key s.entries ↔ _
  cases hf : s.find key with
  | none =>
    rw [without_of_not_found hf]
    have hkey : e ∈ s.entries → e.key ≠ key := by simpa using find?_eq_none.mp hf e
    exact ⟨fun he => ⟨he, hkey he⟩, And.left⟩
  | some e' =>
    have hperm := perm_without hf
    have hkey : e'.key = key := by simpa using find?_some hf
    have hnodup := ((hperm.map (·.key)).nodup_iff).mpr s.nodup
    rw [map_cons, nodup_cons, hkey] at hnodup
    constructor
    · intro he
      refine ⟨hperm.subset (mem_cons_of_mem _ he), ?_⟩
      intro heq
      exact hnodup.1 (mem_map.mpr ⟨e, he, heq⟩)
    · rintro ⟨he, hne⟩
      rcases mem_cons.mp (hperm.symm.subset he) with rfl | he
      · exact absurd hkey hne
      · exact he

theorem mem_entries_removeAll {l : List CacheEntry} :
    e ∈ (s.removeAll l).entries ↔ e ∈ s.entries ∧ ∀ e' ∈ l, e.key ≠ e'.key := by
  induction l generalizing s with
  | nil => simp [removeAll]
  | cons e' l ih =>
    show e ∈ ((s.removeEntry e'.key).removeAll l).entries ↔ _
    rw [ih, mem_entries_removeEntry, forall_mem_cons, and_assoc]

theorem evictLRU_of_nonempty (h : 0 < s.entries.length) :
    s.evictLRU.maxMemory = s.maxMemory ∧ s.evictLRU.entries.length + 1 = s.entries.length ∧
      ∀ e ∈ s.evictLRU.entries, e ∈ s.entries := by
  unfold evictLRU
  cases hlast : s.entries.getLast? with
  | none =>
    rw [getLast?_eq_none_iff] at hlast
    simp [hlast] at h
  | some e =>
    have hmem : e ∈ s.entries := mem_of_getLast? hlast
    obtain ⟨e', hf⟩ : ∃ e', s.find e.key = some e' :=
      Option.isSome_iff_exists.mp (by
        rw [find, find?_isSome]
        exact ⟨e, hmem, by simp⟩)
    refine ⟨rfl, (perm_without hf).length_eq, ?_⟩
    intro e'' he''
    exact (mem_entries_removeEntry.mp he'').1

theorem evictFor_spec {left : Nat} (hleft : s.entries.length ≤ left) (hsize : size ≤ s.maxMemory) :
    (evictFor size left s).maxMemory = s.maxMemory ∧
      (evictFor size left s).currentMemory + size ≤ s.maxMemory ∧
      ∀ e ∈ (evictFor size left s).entries, e ∈ s.entries := by
  induction left generalizing s with
  | zero =>
    have hnil : s.entries = [] := eq_nil_of_length_eq_zero (by omega)
    refine ⟨rfl, ?_, fun e he => he⟩
    show s.currentMemory + size ≤ s.maxMemory
    rw [s.memory, hnil]
    simpa [totalSize] using hsize
  | succ left ih =>
    rw [evictFor]
    split
    · rename_i hloop
      obtain ⟨hmax, hlen, hsub⟩ := evictLRU_of_nonempty hloop.2
      obtain ⟨hmax', hroom, hsub'⟩ := ih (s := s.evictLRU) (by omega) (by omega)
      rw [hmax] at hmax' hroom
      exact ⟨hmax', hroom, fun e he => hsub e (hsub' e he)⟩
    · rename_i hstop
      refine ⟨rfl, ?_, fun e he => he⟩
      by_cases hempty : 0 < s.entries.length
      · exact Nat.le_of_not_lt fun hlt => hstop ⟨hlt, hempty⟩
      · have hnil : s.entries = [] := eq_nil_of_length_eq_zero (by omega)
        rw [s.memory, hnil]
        simpa [totalSize] using hsize

/-- The store in which `Set` puts a new entry. -/
def makeRoom (s : Store) (key : Str) (size : Nat) : Store :=
  evictFor size (s.removeEntry key).entries.length (s.removeEntry key)

theorem makeRoom_spec (hsize : size ≤ s.maxMemory) : (s.makeRoom key size).maxMemory = s.maxMemory ∧
      (s.makeRoom key size).currentMemory + size ≤ s.maxMemory ∧
      ∀ e ∈ (s.makeRoom key size).entries, e ∈ s.entries ∧ e.key ≠ key := by
  obtain ⟨hmax, hroom, hsub⟩ := evictFor_spec (s := s.removeEntry key) (Nat.le_refl _) hsize
  exact ⟨hmax, hroom, fun e he => mem_entries_removeEntry.mp (hsub e he)⟩

/-- `PushFront`, and the entry in the map. -/
def pushFront (s : Store) (e : CacheEntry) (hkey : ∀ e' ∈ s.entries, e'.key ≠ e.key)
    (hroom : s.currentMemory + e.size ≤ s.maxMemory) : Store where
  entries := e :: s.entries
  maxMemory := s.maxMemory
  defaultTTL := s.defaultTTL
  currentMemory := s.currentMemory + e.size
  nodup := by
    rw [map_cons, nodup_cons]
    refine ⟨?_, s.nodup⟩
    intro hmem
    obtain ⟨e', he', heq⟩ := mem_map.mp hmem
    exact hkey e' he' heq
  memory := by
    rw [s.memory]
    exact Nat.add_comm _ _
  fits := hroom

/-- `Set` at the time `now`: whether it stores the value. -/
def set (s : Store) (now : Nat) (key : Str) (value : Slice) (tables : List Str) (ttl : Nat)
    (capture : Capture) : Bool × Store :=
  if h : value.len ≤ s.maxMemory then
    (true, (s.makeRoom key value.len).pushFront
      ⟨key, value, value.len, now + (if ttl = 0 then s.defaultTTL else ttl), tables, capture⟩
      (fun e he => ((makeRoom_spec h).2.2 e he).2)
      (by rw [(makeRoom_spec h).1]; exact (makeRoom_spec h).2.1))
  else (false, s)

def invalidateTable (s : Store) (table : Str) : Store :=
  s.removeAll (s.entries.filter fun e => e.tables.contains table)

def cleanupExpired (s : Store) (now : Nat) : Store :=
  s.removeAll (s.entries.filter fun e => e.isExpired now)

/-! ## What is in the store afterwards -/

variable {s : Store} {now : Nat} {key : Str} {e : CacheEntry}

theorem mem_entries_get (h : e ∈ (s.get now key).2.entries) : e ∈ s.entries := by
  unfold get at h
  split at h
  · exact h
  · rename_i e' hf
    split at h
    · exact (mem_entries_removeEntry.mp h).1
    · exact (perm_without hf).subset h

theorem of_get_some (h : (s.get now key).1 = some e) :
    e ∈ s.entries ∧ e.key = key ∧ e.isExpired now = false := by
  unfold get at h
  split at h
  · cases h
  · rename_i e' hf
    split at h
    · cases h
    · rename_i hexp
      cases h
      exact ⟨mem_of_find?_eq_some hf, by simpa using find?_some hf, by simpa using hexp⟩

theorem mem_entries_set {value : Slice} {tables : List Str} {ttl : Nat} {capture : Capture}
    (h : e ∈ (s.set now key value tables ttl capture).2.entries) :
    e ∈ s.entries ∨ e.key = key ∧ e.value = value ∧ e.tables = tables ∧ e.capture = capture := by
  unfold set at h
  split at h
  · rename_i hsize
    rcases mem_cons.mp h with rfl | h
    · exact .inr ⟨rfl, rfl, rfl, rfl⟩
    · exact .inl ((makeRoom_spec hsize).2.2 e h).1
  · exact .inl h

theorem mem_entries_invalidateTable {table : Str}
    (h : e ∈ (s.invalidateTable table).entries) : e ∈ s.entries ∧ table ∉ e.tables := by
  obtain ⟨he, hkeys⟩ := mem_entries_removeAll.mp h
  refine ⟨he, ?_⟩
  intro htable
  exact hkeys e (mem_filter.mpr ⟨he, by simpa using htable⟩) rfl

theorem mem_entries_cleanupExpired (h : e ∈ (s.cleanupExpired now).entries) : e ∈ s.entries :=
  (mem_entries_removeAll.mp h).1

end Store

end Geryon.Cache
