import Geryon.Conc.Logic
import Geryon.Conc.Protocol

/-!
# Verifying programs in any logic

The `wp` of a `Discipline` and the `Obeys` of a `Protocol` are computed along
a program in the same way, and have the same rules.  A `Calculus` is a logic
with these rules.  What is verified in an arbitrary calculus, from what the
calculus says of some operations and procedures, is verified in both.
-/

namespace Conc

variable {M : Machine}

/-- A logic for programs: `wp p Q κ` says that from the knowledge `κ` the
program ends with a result and a knowledge that satisfy `Q`. -/
structure Calculus (M : Machine) where
  Know : Type
  wp : {α : Type} → Prog M α → (α → Know → Prop) → Know → Prop
  pure : ∀ {α : Type} {a : α} {Q : α → Know → Prop} {κ : Know}, Q a κ → wp (.pure a) Q κ
  seq : ∀ {α β : Type} {p : Prog M α} {f : α → Prog M β} {R : α → Know → Prop}
    {Q : β → Know → Prop} {κ : Know},
    wp p R κ → (∀ a κ', R a κ' → wp (f a) Q κ') → wp (p.bind f) Q κ

/-- Thread `t` under a discipline. -/
def Discipline.calculus (D : Discipline M) (t : M.Thread) : Calculus M :=
  ⟨D.Know, D.wp t, id, wp_seq⟩

/-- A thread that keeps to a protocol. -/
def Protocol.calculus (P : Protocol M) : Calculus M := ⟨P.Phase, P.Obeys, id, obeys_seq⟩

namespace Calculus

variable {L : Calculus M} {α β : Type} {p : Prog M α} {κ : L.Know}

/-- Composition with a first part after which one thing is known. -/
theorem andThen {f : α → Prog M β} {Q : β → L.Know → Prop} {κ1 : L.Know}
    (h : L.wp p (fun _ κ' => κ' = κ1) κ) (hf : ∀ a, L.wp (f a) Q κ1) : L.wp (p.bind f) Q κ :=
  L.seq h fun a _ hκ => hκ ▸ hf a

theorem ite {c : Prop} [Decidable c] {q : Prog M α} {Q : α → L.Know → Prop} (hp : L.wp p Q κ)
    (hq : L.wp q Q κ) : L.wp (if c then p else q) Q κ := by
  split
  · exact hp
  · exact hq

end Calculus

end Conc
