import Geryon.Conc.Logs
import Geryon.Raft.Node

/-!
# Logs without gaps

The code looks for an entry by its index.  If the entries of a log have the
indices 1, 2, 3, ..., then this is a position in the list, and the loop of
`handleAppendEntries` is `Conc.overwrite`.
-/

namespace Geryon.Raft

open Go Conc List

/-! ## Indices -/

/-- The entries have the indices `s + 1`, `s + 2`, ... -/
def IndexedFrom (s : Nat) (l : List Entry) : Prop := ∀ k e, l[k]? = some e → e.index = s + k + 1

/-- The entries have the indices 1, 2, ... -/
abbrev Indexed (l : List Entry) : Prop := IndexedFrom 0 l

variable {s k : Nat} {l m : List Entry} {e : Entry} {n : Node}

theorem IndexedFrom.head (h : IndexedFrom s (e :: l)) : e.index = s + 1 := h 0 e rfl

theorem IndexedFrom.tail (h : IndexedFrom s (e :: l)) : IndexedFrom (s + 1) l := by
  intro k e' he'
  have := h (k + 1) e' (by rwa [getElem?_cons_succ])
  omega

theorem IndexedFrom.of_initial (h : IndexedFrom s l) (hm : m <+: l) : IndexedFrom s m :=
  fun k e he => h k e (getElem?_of_initial hm he)

theorem IndexedFrom.concat (h : IndexedFrom s l) (he : e.index = s + l.length + 1) :
    IndexedFrom s (l ++ [e]) := by
  intro k e' he'
  by_cases hk : k < l.length
  · rw [getElem?_append_left hk] at he'
    exact h k e' he'
  · rw [getElem?_append_right (by omega)] at he'
    have hlt := (List.getElem?_eq_some_iff.mp he').1
    rw [length_singleton] at hlt
    obtain rfl : k = l.length := by omega
    rw [Nat.sub_self] at he'
    cases he'
    exact he

theorem IndexedFrom.of_append (h : IndexedFrom s (l ++ m)) : IndexedFrom (s + l.length) m := by
  intro k e he
  have := h (l.length + k) e (by
    rw [getElem?_append_right (by omega), Nat.add_sub_cancel_left, he])
  omega

theorem Indexed.lastLogIndex (h : Indexed n.logEntries) : n.lastLogIndex = n.logEntries.length := by
  rw [Node.lastLogIndex, Node.lastLogInfo]
  split
  · rename_i hlast
    rw [getLast?_eq_none_iff.mp hlast]
    rfl
  · rename_i last hlast
    have hne : n.logEntries ≠ [] := by
      intro hnil
      simp [hnil] at hlast
    have hpos := length_pos_iff.mpr hne
    rw [getLast?_eq_getElem?] at hlast
    have := h _ _ hlast
    omega

theorem lastLogInfo_snd (n : Node) : n.lastLogInfo.2 = lastTerm Entry.term n.logEntries := by
  rw [Node.lastLogInfo, lastTerm]
  split
  · rename_i hlast
    rw [hlast]
    rfl
  · rename_i last hlast
    rw [hlast]
    rfl

/-- The commit index that a leader announces, as far as the log goes. -/
theorem accept_commitIndex {req : AppendEntries} (h : Indexed (n.logAfter req))
    (hlt : n.commitIndex < req.leaderCommit) :
    (n.accept req).1.commitIndex = min (n.logAfter req).length req.leaderCommit := by
  have hlast := Indexed.lastLogIndex (n := { n with logEntries := n.logAfter req }) h
  rw [Node.accept_fst]
  rw [Node.commitAfter, if_pos hlt, hlast]

theorem IndexedFrom.mem_iff (h : IndexedFrom s l) :
    e ∈ l ↔ s < e.index ∧ l[e.index - s - 1]? = some e := by
  constructor
  · intro he
    obtain ⟨k, hk⟩ := getElem?_of_mem he
    have hindex := h k e hk
    refine ⟨by omega, ?_⟩
    rwa [show e.index - s - 1 = k by omega]
  · intro he
    exact mem_of_getElem? he.2

section

variable (h : Indexed n.logEntries)
include h

theorem Indexed.hasLogEntry {index term : Nat} (hhas : n.hasLogEntry index term = true) :
    0 < index ∧ ∃ e, n.logEntries[index - 1]? = some e ∧ e.term = term := by
  obtain ⟨e, he, heq⟩ := any_eq_true.mp hhas
  rw [Bool.and_eq_true, beq_iff_eq, beq_iff_eq] at heq
  obtain ⟨rfl, rfl⟩ := heq
  obtain ⟨hpos, hget⟩ := (IndexedFrom.mem_iff h).mp he
  exact ⟨hpos, e, hget, rfl⟩

theorem entryAt_zero : n.entryAt 0 = none := by
  refine find?_eq_none.mpr ?_
  intro e he
  have := ((IndexedFrom.mem_iff h).mp he).1
  simp only [beq_iff_eq]
  omega

variable {index : Nat}

theorem Indexed.entryAt (hpos : 0 < index) : n.entryAt index = n.logEntries[index - 1]? := by
  cases hfind : n.entryAt index with
  | none =>
    cases hget : n.logEntries[index - 1]? with
    | none => rfl
    | some e =>
      have hindex := h _ _ hget
      have := find?_eq_none.mp hfind e (mem_of_getElem? hget)
      simp only [beq_iff_eq] at this
      omega
  | some e =>
    have hindex := find?_some hfind
    rw [beq_iff_eq] at hindex
    subst hindex
    exact ((IndexedFrom.mem_iff h).mp (mem_of_find?_eq_some hfind)).2.symm

/-- Logs without gaps that have a prefix in common have the same entries at its
indices. -/
theorem Indexed.entryAt_eq {n' : Node} (h' : Indexed n'.logEntries)
    (heq : n.logEntries.take index = n'.logEntries.take index) :
    n.entryAt index = n'.entryAt index := by
  cases index with
  | zero => rw [entryAt_zero h, entryAt_zero h']
  | succ k =>
    rw [h.entryAt k.succ_pos, h'.entryAt k.succ_pos, Nat.add_one_sub_one,
      ← getElem?_take_of_lt k.lt_succ_self, heq, getElem?_take_of_lt k.lt_succ_self]

theorem Indexed.entryTerm (hpos : 0 < index) :
    n.entryTerm index = ((n.logEntries[index - 1]?).map Entry.term).getD 0 := by
  rw [Node.entryTerm, h.entryAt hpos]

end

theorem IndexedFrom.map_index (h : IndexedFrom s l) :
    l.map Entry.index = range' (s + 1) l.length := by
  refine ext_getElem (by simp) ?_
  intro k hk hk'
  rw [length_map] at hk
  have := h k l[k] (getElem?_eq_getElem hk)
  simp only [getElem_map, getElem_range', this]
  omega

theorem indexedFrom_of_map_index (h : l.map Entry.index = List.range' (s + 1) l.length) :
    IndexedFrom s l := by
  intro k e he
  have hk := (List.getElem?_eq_some_iff.mp he).1
  have hget := congrArg (·[k]?) h
  simp only [getElem?_map, he, Option.map_some, getElem?_range' hk] at hget
  have := Option.some.inj hget
  omega

instance (s : Nat) (l : List Entry) : Decidable (IndexedFrom s l) :=
  decidable_of_iff (l.map Entry.index = range' (s + 1) l.length)
    ⟨indexedFrom_of_map_index, IndexedFrom.map_index⟩

namespace IndexedFrom

variable (h : IndexedFrom s l)
include h

theorem filter_index_le (b : Nat) :
    (l.filter fun entry => decide (entry.index ≤ b)) = l.take (b - s) := by
  induction l generalizing s with
  | nil => rw [filter_nil, take_nil]
  | cons e l ih =>
    have hhead := h.head
    by_cases hb : e.index ≤ b
    · rw [filter_cons_of_pos (by simpa using hb), ih h.tail,
        show b - s = b - (s + 1) + 1 by omega, take_succ_cons]
    · rw [filter_cons_of_neg (by simp; omega), ih h.tail, show b - s = 0 by omega,
        show b - (s + 1) = 0 by omega]
      rfl

theorem filter_lt_index (a : Nat) :
    (l.filter fun entry => decide (a < entry.index)) = l.drop (a - s) := by
  induction l generalizing s with
  | nil => rw [filter_nil, drop_nil]
  | cons e l ih =>
    have hhead := h.head
    by_cases ha : a < e.index
    · have hzero : a - s = 0 := by omega
      have hzero' : a - (s + 1) = 0 := by omega
      rw [filter_cons_of_pos (by simpa using ha), ih h.tail, hzero, hzero']
      rfl
    · rw [filter_cons_of_neg (by simp; omega), ih h.tail,
        show a - s = a - (s + 1) + 1 by omega, drop_succ_cons]

theorem filter_between (a b : Nat) :
    (l.filter fun entry => decide (a < entry.index) && decide (entry.index ≤ b)) =
      (l.take (b - s)).drop (a - s) := by
  rw [← filter_filter, h.filter_index_le, (h.of_initial <| take_prefix _ _).filter_lt_index]

end IndexedFrom

/-! ## Appending -/

/-- `appendEntry` at the position that the index of the entry says. -/
theorem appendEntry_eq (h : IndexedFrom s l) (hindex : e.index = s + k + 1) (hk : k ≤ l.length) :
    appendEntry l e =
      match l[k]? with
      | none => (l ++ [e], true)
      | some e' => if e'.term = e.term then (l, false) else (l.take k ++ [e], true) := by
  induction l generalizing s k with
  | nil => rfl
  | cons a l ih =>
    have hhead := h.head
    rw [appendEntry]
    cases k with
    | zero =>
      rw [if_pos (by omega), getElem?_cons_zero]
      dsimp only
      by_cases hterm : a.term = e.term
      · rw [if_neg (not_not.mpr hterm), if_pos hterm]
      · rw [if_pos hterm, if_neg hterm]
        rfl
    | succ k =>
      rw [length_cons] at hk
      rw [if_neg (by omega), getElem?_cons_succ, ih (k := k) h.tail (by omega) (by omega)]
      cases l[k]? with
      | none => rfl
      | some e' =>
        dsimp only
        split
        · rfl
        · rfl

theorem overwrite_length (es : List Entry) : overwrite Entry.term l l.length es = l ++ es := by
  cases es with
  | nil => rw [overwrite, append_nil]
  | cons e es => rw [overwrite, getElem?_eq_none le_rfl, take_length]

/-- The loop of `handleAppendEntries` writes the entries over the log. -/
theorem appendAll_fst (h : Indexed l) {es : List Entry} (hes : IndexedFrom k es)
    (hk : k ≤ l.length) : (appendAll l es).1 = overwrite Entry.term l k es := by
  induction es generalizing l k with
  | nil => rfl
  | cons e es ih =>
    have hindex := hes.head
    rw [appendAll, overwrite]
    rw [appendEntry_eq h (by omega) hk]
    cases hget : l[k]? with
    | none =>
      have hlen : l.length = k := le_antisymm (getElem?_eq_none_iff.mp hget) hk
      have hcat : Indexed (l ++ [e]) := IndexedFrom.concat h (by omega)
      rw [ih hcat hes.tail (by simp; omega), show k + 1 = (l ++ [e]).length by simp [hlen],
        overwrite_length, ← hlen, take_length, append_assoc]
      rfl
    | some e' =>
      have hlt := (List.getElem?_eq_some_iff.mp hget).1
      dsimp only
      split
      · exact ih h hes.tail hlt
      · have htake : (l.take k).length = k := by rw [length_take, min_eq_left hk]
        have hcut : Indexed (l.take k ++ [e]) :=
          IndexedFrom.concat (IndexedFrom.of_initial h <| take_prefix k l) (by omega)
        rw [ih hcut hes.tail (by simp; omega),
          show k + 1 = (l.take k ++ [e]).length by rw [length_append, htake]; rfl,
          overwrite_length, append_assoc]
        rfl

end Geryon.Raft
