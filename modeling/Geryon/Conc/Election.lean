import Mathlib.Data.List.Nodup
import Mathlib.Data.List.Perm.Subperm
import Mathlib.Data.Set.Basic

/-!
# Elections by quorum

Voters vote in numbered terms.  A voter enters a term without a vote, gives
its vote there, and from then on changes it only in favour of somebody who has
already won.  Who wins has the votes of a quorum.  Then every term has at most
one winner.

The votes that count are those given before the first winner of the term.
Instead of marking them, `Ballot.Safe` says that each winner has a quorum of
voters who have voted for winners only, and will.
-/

namespace Conc

/-! ## Majorities -/

/-- More than half of `members` are in `A`. -/
def Majority {V : Type} (members : List V) (A : Set V) : Prop :=
  ∃ l : List V, l.Nodup ∧ l ⊆ members ∧ (∀ v ∈ l, v ∈ A) ∧ members.length < 2 * l.length

section Majority

variable {V : Type} {members : List V} {A B : Set V}

theorem Majority.mono (h : Majority members A) (hsub : ∀ v ∈ members, v ∈ A → v ∈ B) :
    Majority members B := by
  obtain ⟨l, hnodup, hmem, hA, hlen⟩ := h
  exact ⟨l, hnodup, hmem, fun v hv => hsub v (hmem hv) (hA v hv), hlen⟩

/-- Two majorities share a member. -/
theorem Majority.inter (hA : Majority members A) (hB : Majority members B) :
    ∃ v ∈ members, v ∈ A ∧ v ∈ B := by
  obtain ⟨l, hl, hlmem, hlA, hllen⟩ := hA
  obtain ⟨m, hm, hmmem, hmB, hmlen⟩ := hB
  by_contra hnone
  have hdisj : List.Disjoint l m := by
    intro v hvl hvm
    exact hnone ⟨v, hlmem hvl, hlA v hvl, hmB v hvm⟩
  have hlength := (List.Nodup.append hl hm hdisj).subperm (List.append_subset.mpr ⟨hlmem, hmmem⟩)
    |>.length_le
  rw [List.length_append] at hlength
  omega

end Majority

/-! ## Ballots -/

/-- The terms and votes of all voters, the votes that have been given, and the
winners. -/
structure Ballot (V : Type) where
  term : V → ℕ
  vote : V → Option V
  cast : V → ℕ → V → Prop
  elected : ℕ → V → Prop

namespace Ballot

variable {V : Type} {members : List V} {b b' : Ballot V}

/-- The voter has voted for winners of term `t` only, and will. -/
def Settled (b : Ballot V) (t : ℕ) (v : V) : Prop :=
  (t < b.term v ∨ t = b.term v ∧ ∃ d, b.vote v = some d ∧ b.elected t d) ∧
    ∀ d, b.cast v t d → b.elected t d

/-- Nobody has won in term `t`. -/
def Open (b : Ballot V) (t : ℕ) : Prop := ∀ d, ¬ b.elected t d

structure Safe (members : List V) (b : Ballot V) : Prop where
  cast_le : ∀ {v t d}, b.cast v t d → t ≤ b.term v
  cast_vote : ∀ {v t d}, b.cast v t d → t = b.term v → b.vote v ≠ none
  vote_eq : ∀ {v t d}, b.Open t → b.cast v t d → t = b.term v → b.vote v = some d
  cast_eq : ∀ {v t d d'}, b.Open t → b.cast v t d → b.cast v t d' → d = d'
  settled : ∀ {t d}, b.elected t d → Majority members {v | b.Settled t v}
  unique : ∀ {t d d'}, b.elected t d → b.elected t d' → d = d'

/-- What one voter may do to its own vote: enter a later term, give its vote,
or change it in favour of a winner. -/
structure Moves (b b' : Ballot V) (v : V) : Prop where
  term_ne : ∀ u, u ≠ v → b'.term u = b.term u
  vote_ne : ∀ u, u ≠ v → b'.vote u = b.vote u
  elected : b'.elected = b.elected
  cast : ∀ {u t d}, b'.cast u t d →
    b.cast u t d ∨ u = v ∧ t = b'.term v ∧ b'.vote v = some d
  kept : b.term v < b'.term v ∨ b'.term v = b.term v ∧
    (b.vote v = none ∨ b'.vote v = b.vote v ∨
      ∃ d, b'.vote v = some d ∧ b.elected (b.term v) d)

theorem Moves.term_le (h : Moves b b' v) (u : V) : b.term u ≤ b'.term u := by
  by_cases hu : u = v
  · subst hu
    cases h.kept with
    | inl | inr => omega
  · exact (h.term_ne u hu).ge

theorem Moves.vote_ne_none (h : Moves b b' v) {u : V} (hterm : b'.term u = b.term u)
    (hvote : b.vote u ≠ none) : b'.vote u ≠ none := by
  by_cases hu : u = v
  · subst hu
    cases h.kept with
    | inl hlt => omega
    | inr heq =>
      obtain hnone | hsame | ⟨d, hd, -⟩ := heq.2
      · exact absurd hnone hvote
      · rwa [hsame]
      · simp [hd]
  · rwa [h.vote_ne u hu]

/-- In an open term a voter that has a vote keeps it. -/
theorem Moves.vote_eq_of_open (h : Moves b b' v) {u : V} {t : ℕ} (hopen : b.Open t)
    (ht : t = b.term u) (hterm : b'.term u = b.term u) (hvote : b.vote u ≠ none) :
    b'.vote u = b.vote u := by
  by_cases hu : u = v
  · subst hu
    cases h.kept with
    | inl hlt => omega
    | inr heq =>
      obtain hnone | hsame | ⟨d, -, hd⟩ := heq.2
      · exact absurd hnone hvote
      · exact hsame
      · exact absurd (ht ▸ hd) (hopen d)
  · exact h.vote_ne u hu

theorem Moves.settled (h : Moves b b' v) {t : ℕ} {u : V} (hset : b.Settled t u) :
    b'.Settled t u := by
  obtain ⟨hterm, hcast⟩ := hset
  have hle := h.term_le u
  have hterm' : t < b'.term u ∨ t = b'.term u ∧ ∃ d, b'.vote u = some d ∧ b'.elected t d := by
    obtain hlt | ⟨rfl, d, hvote, hd⟩ := hterm
    · exact .inl (by omega)
    · by_cases hu : u = v
      · subst hu
        cases h.kept with
        | inl hlt => exact .inl hlt
        | inr heq =>
          refine .inr ⟨heq.1.symm, ?_⟩
          rw [h.elected]
          obtain hnone | hsame | helected := heq.2
          · simp [hnone] at hvote
          · exact ⟨d, by rw [hsame, hvote], hd⟩
          · exact helected
      · exact .inr ⟨(h.term_ne u hu).symm, d, by rw [h.vote_ne u hu, hvote], h.elected ▸ hd⟩
  refine ⟨hterm', ?_⟩
  intro d hd
  obtain hold | ⟨rfl, rfl, hvote⟩ := h.cast hd
  · rw [h.elected]
    exact hcast d hold
  · obtain hlt | ⟨-, d', hvote', hd'⟩ := hterm'
    · omega
    · rw [hvote] at hvote'
      cases hvote'
      exact hd'

theorem Safe.vote_eq_of_move (h : Safe members b) (hmove : Moves b b' v) (hopen : b'.Open t)
    (hcast : b'.cast u t d) (ht : t = b'.term u) : b'.vote u = some d := by
  have hopen' : b.Open t := fun d hd => hopen d (hmove.elected ▸ hd)
  obtain hold | ⟨rfl, -, hvote⟩ := hmove.cast hcast
  · have hle := h.cast_le hold
    have hle' := hmove.term_le u
    rw [hmove.vote_eq_of_open hopen' (by omega) (by omega) (h.cast_vote hold (by omega))]
    exact h.vote_eq hopen' hold (by omega)
  · exact hvote

theorem Safe.move (h : Safe members b) (hmove : Moves b b' v) : Safe members b' where
  cast_le := by
    intro u t d hcast
    obtain hold | ⟨rfl, rfl, -⟩ := hmove.cast hcast
    · exact (h.cast_le hold).trans (hmove.term_le u)
    · exact le_rfl
  cast_vote := by
    intro u t d hcast ht
    obtain hold | ⟨rfl, -, hvote⟩ := hmove.cast hcast
    · have hle := h.cast_le hold
      have hle' := hmove.term_le u
      exact hmove.vote_ne_none (by omega) (h.cast_vote hold (by omega))
    · simp [hvote]
  vote_eq := h.vote_eq_of_move hmove
  cast_eq := by
    intro u t d d' hopen hd hd'
    have hsame : t = b'.term u → d = d' := fun ht => Option.some.inj
      ((h.vote_eq_of_move hmove hopen hd ht).symm.trans (h.vote_eq_of_move hmove hopen hd' ht))
    obtain hold | ⟨rfl, ht, -⟩ := hmove.cast hd
    · obtain hold' | ⟨rfl, ht', -⟩ := hmove.cast hd'
      · exact h.cast_eq (fun d hd => hopen d (hmove.elected ▸ hd)) hold hold'
      · exact hsame ht'
    · exact hsame ht
  settled := by
    intro t d hd
    rw [hmove.elected] at hd
    exact (h.settled hd).mono fun u _ hu => hmove.settled hu
  unique := by
    rw [hmove.elected]
    exact h.unique

/-- Somebody wins who has the votes of a majority. -/
structure Elects (members : List V) (b b' : Ballot V) (v : V) : Prop where
  term : b'.term = b.term
  vote : b'.vote = b.vote
  cast : b'.cast = b.cast
  elected : ∀ t d, b'.elected t d ↔ b.elected t d ∨ t = b.term v ∧ d = v
  fresh : ¬ b.elected (b.term v) v
  votes : Majority members {u | b.cast u (b.term v) v}

/-- Nobody has won before in the term of a winner. -/
theorem Elects.opened (h : Elects members b b' v) (hsafe : Safe members b) : b.Open (b.term v) := by
  intro d hd
  obtain ⟨u, -, hset, hcast⟩ := (hsafe.settled hd).inter h.votes
  exact h.fresh (hset.2 v hcast)

theorem Safe.elect (h : Safe members b) (helect : Elects members b b' v) : Safe members b' := by
  have hopen := helect.opened h
  have hopen' : ∀ {t}, b'.Open t → b.Open t :=
    fun hopen' d hd => hopen' d ((helect.elected _ d).mpr (.inl hd))
  constructor
  · intro u t d
    rw [helect.cast, helect.term]
    exact h.cast_le
  · intro u t d
    rw [helect.cast, helect.term, helect.vote]
    exact h.cast_vote
  · intro u t d hop
    rw [helect.cast, helect.term, helect.vote]
    exact h.vote_eq (hopen' hop)
  · intro u t d d' hop
    rw [helect.cast]
    exact h.cast_eq (hopen' hop)
  · intro t d hd
    obtain hold | ⟨rfl, rfl⟩ := (helect.elected t d).mp hd
    · refine (h.settled hold).mono ?_
      intro u _ hset
      refine ⟨?_, ?_⟩
      · rw [helect.term, helect.vote]
        obtain hlt | ⟨ht, d', hvote, hd'⟩ := hset.1
        · exact .inl hlt
        · exact .inr ⟨ht, d', hvote, (helect.elected _ _).mpr (.inl hd')⟩
      · intro d' hcast
        rw [helect.cast] at hcast
        exact (helect.elected _ _).mpr (.inl (hset.2 d' hcast))
    · -- The voters of the new winner have voted for nobody else.
      refine helect.votes.mono ?_
      intro u _ hcast
      have hle := h.cast_le hcast
      refine ⟨?_, ?_⟩
      · rw [helect.term, helect.vote]
        by_cases ht : b.term d = b.term u
        · exact .inr ⟨ht, d, h.vote_eq hopen hcast ht, hd⟩
        · exact .inl (by omega)
      · intro d' hcast'
        rw [helect.cast] at hcast'
        rw [← h.cast_eq hopen hcast hcast']
        exact hd
  · intro t d d' hd hd'
    obtain hold | ⟨rfl, rfl⟩ := (helect.elected t d).mp hd
    · obtain hold' | ⟨rfl, rfl⟩ := (helect.elected t d').mp hd'
      · exact h.unique hold hold'
      · exact absurd hold (hopen d)
    · obtain hold' | ⟨-, rfl⟩ := (helect.elected _ d').mp hd'
      · exact absurd hold' (hopen d')
      · rfl

end Ballot

end Conc
