/-!
# Objects that answer calls

An `Object` has a state, takes one call at a time and answers it.  Two objects
give the same answers to a list of calls if a relation between their states is
kept by every call and makes the answers the same.
-/

namespace Conc

open List

/-- A system that answers each call. -/
structure Object (σ ι ο : Type) where
  call : σ → ι → ο × σ

namespace Object

variable {σ τ ι ο : Type}

/-- The answers to a list of calls, and the state after them. -/
def run (A : Object σ ι ο) : σ → List ι → List ο × σ
  | s, [] => ([], s)
  | s, i :: is => ((A.call s i).1 :: (A.run (A.call s i).2 is).1, (A.run (A.call s i).2 is).2)

theorem run_append (A : Object σ ι ο) (s : σ) (is js : List ι) : A.run s (is ++ js) =
      ((A.run s is).1 ++ (A.run (A.run s is).2 js).1, (A.run (A.run s is).2 js).2) := by
  induction is generalizing s with
  | nil => rfl
  | cons i is ih => rw [cons_append, run, ih, run, cons_append]

/-- What every call keeps is kept by a list of calls. -/
theorem run_invariant {A : Object σ ι ο} {P : σ → Prop} (hcall : ∀ s i, P s → P (A.call s i).2)
    {s : σ} (h : P s) (is : List ι) : P (A.run s is).2 := by
  induction is generalizing s with
  | nil => exact h
  | cons i is ih => exact ih (hcall s i h)

/-- Related objects give the same answers, to calls that keep the relation. -/
theorem run_sim {A : Object σ ι ο} {B : Object τ ι ο} {R : σ → τ → Prop} {ok : ι → Prop}
    (hcall : ∀ s t i, R s t → ok i →
      (A.call s i).1 = (B.call t i).1 ∧ R (A.call s i).2 (B.call t i).2)
    {s : σ} {t : τ} (h : R s t) {is : List ι} (hok : ∀ i ∈ is, ok i) :
    (A.run s is).1 = (B.run t is).1 ∧ R (A.run s is).2 (B.run t is).2 := by
  induction is generalizing s t with
  | nil => exact ⟨rfl, h⟩
  | cons i is ih =>
    obtain ⟨hi, his⟩ := forall_mem_cons.mp hok
    obtain ⟨hanswer, hstate⟩ := hcall s t i h hi
    obtain ⟨hanswers, hend⟩ := ih hstate his
    exact ⟨by rw [run, run, hanswer, hanswers], hend⟩

end Object

end Conc
