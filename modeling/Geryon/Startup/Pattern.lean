import Geryon.Go.Text
import Geryon.Startup.Auth

/-!
# Patterns for certificates

`matchPattern` of `internal/auth/cert.go`.
-/

namespace Geryon.Startup

open Go (index)
open List

def star : UInt8 := '*'.toUInt8

/-- The loop of `matchPattern` over the middle parts, and the check of the suffix. -/
def matchParts : List Bytes → Bytes → Bool
  | [], _ => true
  | [last], s => last.isSuffixOf s
  | part :: next :: parts, s =>
    match index part s with
    | none => false
    | some idx => matchParts (next :: parts) (s.drop (idx + part.length))

def matchPattern (s pattern : Bytes) : Except Err Bool :=
  if pattern = [star] then .ok true
  else if !pattern.contains star then .ok (s = pattern)
  else
    match split star pattern with
    | [] | [_] => .ok (s = pattern)
    | first :: parts =>
      if !first.isPrefixOf s then .ok false else .ok (matchParts parts (s.drop first.length))

/-- The string is the pattern, with some bytes for each star. -/
inductive Expands : Bytes → Bytes → Prop
  | nil : Expands [] []
  | star {pattern s : Bytes} (bytes : Bytes) (h : Expands pattern s) :
    Expands (star :: pattern) (bytes ++ s)
  | byte {pattern s : Bytes} {b : UInt8} (hb : b ≠ Startup.star) (h : Expands pattern s) :
    Expands (b :: pattern) (b :: s)

variable {pattern part s : Bytes}

theorem expands_star :
    Expands (star :: pattern) s ↔ ∃ bytes t, s = bytes ++ t ∧ Expands pattern t := by
  constructor
  · rintro (_ | ⟨bytes, h⟩ | ⟨hne, -⟩)
    · exact ⟨bytes, _, rfl, h⟩
    · exact absurd rfl hne
  · rintro ⟨bytes, t, rfl, h⟩
    exact .star bytes h

theorem expands_append (hpart : star ∉ part) :
    Expands (part ++ pattern) s ↔ ∃ t, s = part ++ t ∧ Expands pattern t := by
  induction part generalizing s with
  | nil => simp
  | cons b part ih =>
    rw [mem_cons, not_or] at hpart
    constructor
    · rintro (_ | _ | ⟨-, h⟩)
      · exact absurd rfl hpart.1
      · obtain ⟨t, rfl, ht⟩ := (ih hpart.2).mp h
        exact ⟨t, rfl, ht⟩
    · rintro ⟨t, rfl, ht⟩
      exact .byte (Ne.symm hpart.1) ((ih hpart.2).mpr ⟨t, rfl, ht⟩)

/-- A pattern without stars stands for itself. -/
theorem expands_iff_eq (hpattern : star ∉ pattern) : Expands pattern s ↔ s = pattern := by
  have h : Expands (pattern ++ []) s ↔ _ := expands_append hpattern
  rw [append_nil] at h
  rw [h]
  constructor
  · rintro ⟨t, rfl, ⟨⟩⟩
    exact append_nil _
  · rintro rfl
    exact ⟨[], (append_nil _).symm, .nil⟩

theorem split_eq (sep : UInt8) (s : Bytes) : sep ∉ s ∧ split sep s = [s] ∨
    ∃ part rest, s = part ++ sep :: rest ∧ sep ∉ part ∧ split sep s = part :: split sep rest := by
  induction s with
  | nil => exact .inl ⟨not_mem_nil, rfl⟩
  | cons b s ih =>
    rw [split]
    split_ifs with hb
    · exact .inr ⟨[], s, by rw [hb]; rfl, not_mem_nil, rfl⟩
    · obtain ⟨hmem, heq⟩ | ⟨part, rest, rfl, hmem, heq⟩ := ih
      · exact .inl ⟨by simp [hmem, Ne.symm hb], by rw [heq]⟩
      · exact .inr ⟨b :: part, rest, rfl, by simp [hmem, Ne.symm hb], by rw [heq]⟩

theorem exists_split (sep : UInt8) (s : Bytes) : ∃ next parts, split sep s = next :: parts := by
  obtain ⟨-, h⟩ | ⟨_, _, -, -, h⟩ := split_eq sep s
  · exact ⟨_, _, h⟩
  · exact ⟨_, _, h⟩

/-- If more bytes in front do no harm, the leftmost match is as good as any other one. -/
theorem index_iff {P : Bytes → Prop} (hP : ∀ bytes t, P t → P (bytes ++ t)) (sub s : Bytes) :
    (∃ i, index sub s = some i ∧ P (s.drop (i + sub.length))) ↔
      ∃ bytes t, s = bytes ++ (sub ++ t) ∧ P t := by
  induction s with
  | nil => by_cases hsub : sub = [] <;> simp [index, hsub]
  | cons b s ih =>
    rw [index]
    split_ifs with hsub
    · obtain ⟨u, hu⟩ := isPrefixOf_iff_prefix.mp hsub
      rw [← hu]
      constructor
      · rintro ⟨i, ⟨⟩, h⟩
        exact ⟨[], u, rfl, by simpa using h⟩
      · rintro ⟨bytes, t, heq, h⟩
        refine ⟨0, rfl, ?_⟩
        rw [heq, ← append_assoc, Nat.zero_add, drop_append_of_le_length (by simp)]
        exact hP _ t h
    · constructor
      · rintro ⟨_, hi, h⟩
        obtain ⟨i, hindex, rfl⟩ := Option.map_eq_some_iff.mp hi
        rw [Nat.add_right_comm] at h
        obtain ⟨bytes, t, rfl, ht⟩ := ih.mp ⟨i, hindex, h⟩
        exact ⟨b :: bytes, t, rfl, ht⟩
      · rintro ⟨_ | ⟨c, bytes⟩, t, heq, h⟩
        · exact (hsub <| isPrefixOf_iff_prefix.mpr ⟨t, heq.symm⟩).elim
        · obtain ⟨rfl, rfl⟩ := cons.inj heq
          obtain ⟨i, hi, hdrop⟩ := ih.mpr ⟨bytes, t, rfl, h⟩
          refine ⟨i + 1, by rw [hi]; rfl, ?_⟩
          rw [Nat.add_right_comm]
          exact hdrop

theorem matchParts_iff (pattern s : Bytes) :
    matchParts (split star pattern) s = true ↔ Expands (star :: pattern) s := by
  rw [expands_star]
  obtain ⟨hfree, hsplit⟩ | ⟨part, rest, rfl, hfree, hsplit⟩ := split_eq star pattern
  · simp only [expands_iff_eq hfree, hsplit, matchParts, isSuffixOf_iff_suffix]
    exact exists_congr fun bytes => by simp [eq_comm]
  · obtain ⟨next, parts, hrest⟩ := exists_split star rest
    have hindex : matchParts (part :: next :: parts) s = true ↔ ∃ i, index part s = some i ∧
        Expands (star :: rest) (s.drop (i + part.length)) := by
      simp only [← matchParts_iff rest, hrest, matchParts]
      cases index part s <;> simp
    rw [hsplit, hrest, hindex, index_iff]
    · simp only [expands_append hfree]
      exact exists_congr fun bytes => by grind
    · intro bytes t h
      obtain ⟨before, t, rfl, ht⟩ := expands_star.mp h
      exact expands_star.mpr ⟨bytes ++ before, t, (append_assoc ..).symm, ht⟩
termination_by pattern.length
decreasing_by grind

/-- `matchPattern` returns no error, and whether the string is the pattern with some
bytes for each star. -/
theorem matchPattern_iff (s pattern : Bytes) :
    ∃ matched, matchPattern s pattern = .ok matched ∧ (matched = true ↔ Expands pattern s) := by
  by_cases hstar : pattern = [star]
  · subst hstar
    exact ⟨true, rfl, iff_of_true rfl (by simpa using Expands.star s .nil)⟩
  · rw [matchPattern, if_neg hstar]
    obtain ⟨hfree, -⟩ | ⟨first, rest, rfl, hfree, hsplit⟩ := split_eq star pattern
    · exact ⟨_, if_pos (by simpa using hfree), by rw [decide_eq_true_iff, expands_iff_eq hfree]⟩
    · obtain ⟨next, parts, hrest⟩ := exists_split star rest
      rw [if_neg (by simp), hsplit, hrest]
      dsimp only
      rw [← hrest, expands_append hfree]
      by_cases hfirst : first <+: s
      · obtain ⟨t, rfl⟩ := hfirst
        have hpre := isPrefixOf_iff_prefix.mpr (prefix_append first t)
        refine ⟨_, if_neg (by simp [hpre]), ?_⟩
        rw [drop_left, matchParts_iff]
        simp
      · refine ⟨false, if_pos (by simpa [← isPrefixOf_iff_prefix] using hfirst),
          iff_of_false Bool.false_ne_true ?_⟩
        rintro ⟨t, rfl, -⟩
        exact hfirst (prefix_append ..)

end Geryon.Startup
