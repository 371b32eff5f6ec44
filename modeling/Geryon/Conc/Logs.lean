import Mathlib.Data.List.Infix
import Mathlib.Data.List.TakeWhile

/-!
# Logs that follow leaders

A log is a list of entries, each made in a term.  Every term has at most one
leader, and `L t` is the log of the leader of `t` as far as it got: entries
that it has inherited, all of earlier terms, and then the ones that it made.
All other logs are copied from leaders' logs, by `overwrite`.

* `Coherent` says that a log has been copied: an entry of term `t` stands where
  `L t` has it, after the same entries.  Two coherent logs that agree on the
  term of one entry agree up to it (`Coherent.take_eq`).
* `overwrite_cases`: what copying a piece of a leader's log does to a log.
* `Leaders.complete`: if every leader was chosen by somebody who has a certain
  prefix, and whose log was not more up to date, then it has that prefix too.
-/

namespace Conc

open List

section Logs

variable {α : Type} (term : α → ℕ)

/-! ## Coherent logs -/

/-- Each entry stands where the leader of its term has it. -/
def Coherent (L : ℕ → List α) (l : List α) : Prop :=
  ∀ i e, l[i]? = some e → l.take (i + 1) <+: L (term e)

def lastTerm (l : List α) : ℕ := (l.getLast?.map term).getD 0

/-- Write the entries `es` over a log from position `k` on.  Entries that are
there already stay; at the first one of another term the log is cut off. -/
def overwrite (log : List α) : ℕ → List α → List α
  | _, [] => log
  | k, e :: es =>
    match log[k]? with
    | none => log.take k ++ e :: es
    | some e' => if term e' = term e then overwrite log (k + 1) es else log.take k ++ e :: es

variable {term} {L L' : ℕ → List α} {l m x : List α}

variable {i : ℕ} {e : α} {log M es : List α}

theorem getElem?_of_initial (h : l <+: m) (he : l[i]? = some e) : m[i]? = some e := by
  obtain ⟨r, rfl⟩ := h
  rwa [getElem?_append_left (List.getElem?_eq_some_iff.mp he).1]

theorem coherent_nil : Coherent term L [] := by
  intro i e h
  simp at h

namespace Coherent

variable (h : Coherent term L l)
include h

theorem mono (hL : ∀ e ∈ l, L (term e) <+: L' (term e)) : Coherent term L' l := by
  intro i e he
  exact (h i e he).trans (hL e (mem_of_getElem? he))

theorem of_initial (hm : m <+: l) : Coherent term L m := by
  intro i e he
  have hi : i < m.length := (List.getElem?_eq_some_iff.mp he).1
  rw [prefix_iff_eq_take.mp hm] at he ⊢
  rw [getElem?_take_of_lt hi] at he
  rw [take_take, min_eq_left (by omega)]
  exact h i e he

theorem concat (he : l ++ [e] <+: L (term e)) : Coherent term L (l ++ [e]) := by
  intro i e' hi
  by_cases hlt : i < l.length
  · rw [getElem?_append_left hlt] at hi
    rw [take_append_of_le_length (by omega)]
    exact h i e' hi
  · rw [getElem?_append_right (by omega)] at hi
    have hi' : i - l.length = 0 := by
      have := (List.getElem?_eq_some_iff.mp hi).1
      simp at this
      omega
    rw [hi'] at hi
    cases hi
    rw [take_of_length_le (by simp; omega)]
    exact he

end Coherent

/-- Coherent logs that agree on the term of one entry agree up to it. -/
theorem Coherent.take_eq (hl : Coherent term L l) (hm : Coherent term L m) {a b : α}
    (ha : l[i]? = some a) (hb : m[i]? = some b) (hterm : term a = term b) :
    l.take (i + 1) = m.take (i + 1) := by
  have hil : i < l.length := (List.getElem?_eq_some_iff.mp ha).1
  have him : i < m.length := (List.getElem?_eq_some_iff.mp hb).1
  have hlen : (l.take (i + 1)).length = (m.take (i + 1)).length := by
    rw [length_take, length_take]
    omega
  have hla := hl i a ha
  rw [hterm] at hla
  exact (prefix_of_prefix_length_le hla (hm i b hb) hlen.le).eq_of_length hlen

/-- A coherent log is a part of the log of its last entry's leader. -/
theorem Coherent.prefix_last (h : Coherent term L l) (hne : l ≠ []) :
    l <+: L (lastTerm term l) := by
  have hpos : 0 < l.length := length_pos_iff.mpr hne
  have hlast : l.getLast? = some (l.getLast hne) := getLast?_eq_some_getLast hne
  have hget : l[l.length - 1]? = some (l.getLast hne) := by rw [← getLast?_eq_getElem?, hlast]
  have hpre := h _ _ hget
  rw [Nat.sub_add_cancel hpos, take_length] at hpre
  rwa [lastTerm, hlast]

theorem exists_mem_lastTerm (h : l ≠ []) : ∃ e ∈ l, term e = lastTerm term l := by
  refine ⟨l.getLast h, getLast_mem h, ?_⟩
  rw [lastTerm, getLast?_eq_some_getLast h]
  rfl

/-! ## Copying -/

variable {k : ℕ}

section

variable (hlog : Coherent term L log)
include hlog

variable (hM : Coherent term L M)
include hM

variable (hbase : log.take k = M.take k)
include hbase

variable (hk : k ≤ log.length)
include hk

variable (hes : M.take k ++ es <+: M)
include hes

/-- Copying the entries of `M` from position `k` on either finds them all in
place, or leaves exactly the copied part of `M`; then the log had not agreed
with `M` any further. -/
theorem overwrite_cases : (overwrite term log k es = log ∧ M.take (k + es.length) <+: log) ∨
      (overwrite term log k es = M.take (k + es.length) ∧
        ∀ x, x <+: log → x <+: M → x.length ≤ k + es.length) := by
  induction es generalizing k with
  | nil =>
    left
    refine ⟨rfl, ?_⟩
    rw [length_nil, Nat.add_zero, ← hbase]
    exact take_prefix k log
  | cons e es ih =>
    have hkM : (M.take k).length = k := by
      rw [← hbase, length_take, min_eq_left hk]
    have hcopied : M.take k ++ e :: es = M.take (k + (e :: es).length) := by
      rw [prefix_iff_eq_take.mp hes, length_append, hkM]
    have he : M[k]? = some e := by
      refine getElem?_of_initial hes ?_
      rw [getElem?_append_right hkM.le, hkM, Nat.sub_self]
      rfl
    rw [overwrite]
    cases hlk : log[k]? with
    | none =>
      -- The log ends here.
      have hle : log.length ≤ k := List.getElem?_eq_none_iff.mp hlk
      right
      refine ⟨by rw [hbase]; exact hcopied, ?_⟩
      intro x hx _
      have := hx.length_le
      omega
    | some e' =>
      dsimp only
      by_cases hterm : term e' = term e
      · have hbase' := hlog.take_eq hM hlk he hterm
        have hk' : k + 1 ≤ log.length := (List.getElem?_eq_some_iff.mp hlk).1
        have hes' : M.take (k + 1) ++ es <+: M := by
          rw [take_add_one, he, Option.toList_some, append_assoc]
          exact hes
        rw [if_pos hterm, length_cons, Nat.add_comm es.length 1, ← Nat.add_assoc]
        exact ih hbase' hk' hes'
      · -- The log is cut off here.
        rw [if_neg hterm]
        right
        refine ⟨by rw [hbase]; exact hcopied, ?_⟩
        intro x hxlog hxM
        by_contra hlong
        have hxk : k < x.length := by
          rw [length_cons] at hlong
          omega
        have hx := getElem?_eq_getElem hxk
        have h1 := getElem?_of_initial hxlog hx
        have h2 := getElem?_of_initial hxM hx
        rw [hlk] at h1
        rw [he] at h2
        rw [Option.some.inj h1, Option.some.inj h2] at hterm
        exact hterm rfl

/-- Copying from `M` keeps what the log shares with `M`. -/
theorem prefix_overwrite (hx : x <+: log) (hxM : x <+: M) : x <+: overwrite term log k es := by
  obtain ⟨heq, -⟩ | ⟨heq, hshared⟩ := overwrite_cases hlog hM hbase hk hes
  · rwa [heq]
  · rw [heq]
    exact prefix_take_iff.mpr ⟨hxM, hshared x hx hxM⟩

theorem coherent_overwrite : Coherent term L (overwrite term log k es) := by
  obtain ⟨heq, -⟩ | ⟨heq, -⟩ := overwrite_cases hlog hM hbase hk hes
  · rwa [heq]
  · rw [heq]
    exact hM.of_initial <| take_prefix _ _

end

/-! ## Leaders -/

variable (term L)

/-- What the leader of a term has inherited. -/
def inherited (t : ℕ) : List α := (L t).takeWhile fun e => decide (term e < t)

/-- The first log is at least as up to date as the second. -/
def UpToDate (l m : List α) : Prop :=
  lastTerm term m < lastTerm term l ∨
    lastTerm term l = lastTerm term m ∧ m.length ≤ l.length

/-- The logs of the leaders of all terms. -/
structure Leaders (Elected : ℕ → Prop) : Prop where
  coherent : ∀ t, Coherent term L (L t)
  elected : ∀ t, ∀ e ∈ L t, Elected (term e)
  own : ∀ t, ∀ e ∈ (L t).dropWhile (fun e => decide (term e < t)), term e = t

variable {term L} {Elected : ℕ → Prop}

theorem inherited_initial (t : ℕ) : inherited term L t <+: L t := takeWhile_prefix _

variable {t : ℕ}

theorem term_lt_of_mem_inherited (h : e ∈ inherited term L t) : term e < t := by
  have := mem_takeWhile_imp h
  exact of_decide_eq_true this

variable (h : Leaders term L Elected)
include h

theorem Leaders.term_le (he : e ∈ L t) : term e ≤ t := by
  rw [← takeWhile_append_dropWhile (l := L t)] at he
  obtain hin | hown := mem_append.mp he
  · exact (term_lt_of_mem_inherited hin).le
  · exact (h.own t e hown).le

/-- Leader completeness.  Let `x` be the log of the leader of `T` up to an entry of its
own.  If each later leader was chosen by somebody who had `x` as long as the leaders in
between had it, and whose log was not more up to date, then all later leaders start with
`x`. -/
theorem Leaders.complete {T n : ℕ} {e : α}
    (he : (L T)[n]? = some e) (hT : term e = T) (hchosen : ∀ U, Elected U → T < U →
      (∀ W, Elected W → T < W → W < U → (L T).take (n + 1) <+: inherited term L W) →
      ∃ lg, Coherent term L lg ∧ (L T).take (n + 1) <+: lg ∧ UpToDate term (inherited term L U) lg)
    {U : ℕ} (hU : Elected U) (hlt : T < U) : (L T).take (n + 1) <+: inherited term L U := by
  induction U using Nat.strongRecOn with
  | ind U ih =>
    obtain ⟨lg, hcoh, hlg, hup⟩ :=
      hchosen U hU hlt fun W hW hTW hWU => ih W hWU hW hTW
    have hmem : e ∈ lg := by
      refine hlg.subset (mem_of_getElem? (i := n) ?_)
      rw [getElem?_take_of_lt (by omega), he]
    have hne : lg ≠ [] := ne_nil_of_mem hmem
    have hlast := hcoh.prefix_last hne
    have hinh : Coherent term L (inherited term L U) :=
      (h.coherent U).of_initial (inherited_initial U)
    obtain hless | ⟨hsame, hlen⟩ := hup
    · -- The leader's last entry comes from a leader in between.
      have hne' : inherited term L U ≠ [] := by
        intro hnil
        rw [hnil] at hless
        exact absurd hless (Nat.not_lt_zero _)
      obtain ⟨e', he', hterm'⟩ : ∃ e' ∈ inherited term L U,
          term e' = lastTerm term (inherited term L U) := exists_mem_lastTerm hne'
      have hTle : T ≤ lastTerm term lg := hT ▸ h.term_le (hlast.subset hmem)
      have hlast' := hinh.prefix_last hne'
      have hWU : lastTerm term (inherited term L U) < U :=
        hterm' ▸ term_lt_of_mem_inherited he'
      have hW : Elected (lastTerm term (inherited term L U)) :=
        hterm' ▸ h.elected U e' ((inherited_initial U).subset he')
      have hx := ih _ hWU hW (by omega)
      obtain hle | hge := prefix_or_prefix_of_prefix hlast' (inherited_initial _)
      · have hlt' : term e' < lastTerm term (inherited term L U) :=
          term_lt_of_mem_inherited (hle.subset he')
        omega
      · exact hx.trans hge
    · rw [← hsame] at hlast
      have hne' : inherited term L U ≠ [] := by
        intro hnil
        rw [hnil, length_nil] at hlen
        exact hne (length_eq_zero_iff.mp (by omega))
      exact hlg.trans (prefix_of_prefix_length_le hlast (hinh.prefix_last hne') hlen)

end Logs

end Conc
