import Geryon.Conc.Protocol

/-!
# Copies of a machine that share a record

A `Ledger` is a record that several copies of a machine have in common.  An
operation of a copy is entered there after it has been performed, and it can
be refused: then the outside world could not have chosen as it did.  So a
machine in which some answers are left open becomes one in which the record
determines them.

A program of the machine is a program of every copy (`Prog.lift`).  It keeps
to the same protocols (`Protocol.obeys_lift`), and so does what `Copies.start`
sets up.
-/

namespace Conc

variable {M : Machine} {α β : Type}

/-- A record that copies of `M` share.  `enter` is the record after an
operation of the copy `i`, from the state before it. -/
structure Ledger (M : Machine) where
  Index : Type
  decEq : DecidableEq Index
  Book : Type
  enter : Book → Index → M.State → M.Thread → (o : M.Op) → M.Ret o → Option Book

instance (L : Ledger M) : DecidableEq L.Index := L.decEq

/-- The copies of `M` together with their ledger. -/
@[reducible] def Ledger.machine (L : Ledger M) : Machine where
  State := (L.Index → M.State) × L.Book
  Thread := L.Index × M.Thread
  decEq := inferInstance
  Op := M.Op
  Ret := M.Ret
  Choice := M.Choice
  exec s t o ch :=
    match M.exec (s.1 t.1) t.2 o ch with
    | none => none
    | some (r, s') =>
      match L.enter s.2 t.1 (s.1 t.1) t.2 o r with
      | none => none
      | some book => some (r, (Function.update s.1 t.1 s', book))

def Prog.lift (L : Ledger M) : Prog M α → Prog L.machine α
  | .pure a => .pure a
  | .op o k => .op o fun r => (k r).lift L

/-- The copies about to start with an empty book. -/
def Ledger.start (L : Ledger M) (init : L.Index → Config M) (book : L.Book) :
    Config L.machine where
  state := (fun i => (init i).state, book)
  prog t := ((init t.1).prog t.2).lift L

theorem Ledger.exec_inv {L : Ledger M} {s s' : L.machine.State} {t : L.machine.Thread} {o : M.Op}
    {ch : M.Choice} {r : M.Ret o} (h : L.machine.exec s t o ch = some (r, s')) :
    ∃ s1 book, M.exec (s.1 t.1) t.2 o ch = some (r, s1) ∧
      L.enter s.2 t.1 (s.1 t.1) t.2 o r = some book ∧ s' = (Function.update s.1 t.1 s1, book) := by
  simp only at h
  split at h
  · cases h
  · rename_i r1 s1 hexec
    split at h
    · cases h
    · rename_i book henter
      cases h
      exact ⟨s1, book, hexec, henter, rfl⟩

@[reducible] def Protocol.lift (P : Protocol M) (L : Ledger M) : Protocol L.machine where
  Phase := P.Phase
  next := P.next

theorem Protocol.obeys_lift {P : Protocol M} {L : Ledger M} {p : Prog M α}
    {Q : α → P.Phase → Prop} {q : P.Phase} (h : P.Obeys p Q q) :
    (P.lift L).Obeys (p.lift L) Q q := by
  induction p generalizing q with
  | pure a => exact h
  | op o k ih =>
    intro r
    obtain ⟨q', hnext, hk⟩ := h r
    exact ⟨q', hnext, ih r hk⟩

end Conc
