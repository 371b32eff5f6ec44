import Geryon.Swim.Rumors

/-!
# The table over whole runs

What every sequence of messages, of any types and about any members, does to the
table.
-/

namespace Geryon.Swim

open Go Protocol List

/-- Whatever is told, the table changes only by new members, and by changes of
known ones that do not lower the incarnation. -/
theorem deliver_induction {net : Net} {P : Protocol → Prop}
    (hregister : ∀ {p} id addr, P p → P (p.register id addr))
    (hmodify : ∀ {p} id {f : Member → Member}, (∀ m, m.incarnation ≤ (f m).incarnation) →
      P p → P (p.modify id f)) {p : Protocol} (h : P p) (ds : List Delivery) :
    P (p.deliver net ds) := by
  have hupdate : ∀ {p : Protocol} {now id addr state incarnation}, P p →
      P (p.updateMember net now id addr state incarnation) := by
    intro p now id addr state incarnation h
    rw [updateMember]
    split
    · exact h
    · refine hmodify _ ?_ (hregister _ _ h)
      intro m
      split
      · assumption
      · exact le_rfl
  have haccuse : ∀ {p : Protocol} {msg state}, P p → P (p.accuse msg state) := by
    intro p msg state h
    refine hmodify _ ?_ h
    intro m
    split <;> exact le_rfl
  induction ds generalizing p with
  | nil => exact h
  | cons d ds ih =>
    refine ih ?_
    simp only [handleMessage]
    cases d.msg.type with
    | ping | sync => exact hupdate h
    | ack => exact hmodify _ (fun _ => le_rfl) h
    | suspect | dead => exact haccuse h
    | pingReq =>
      simp only [handlePingReq]
      split <;> exact h
    | alive =>
      simp only [handleAlive]
      split
      · exact h
      · exact hupdate h

/-- Every member that gets into the table is announced, and only once. -/
theorem joins_announced_once (net : Net) (id addr : Str) (ds : List Delivery) :
    (deliver net ⟨id, addr, ∅, []⟩ ds).eventCh.Perm
      ((deliver net ⟨id, addr, ∅, []⟩ ds).members.keys.map (⟨.memberJoin, ·⟩)) := by
  refine deliver_induction
    (P := fun p => p.eventCh.Perm (p.members.keys.map (⟨.memberJoin, ·⟩))) ?_ ?_ (.refl _) ds
  · intro p id addr h
    rw [register]
    split
    · exact h
    · rename_i hnone
      rw [AList.keys_insert, @erase_of_not_mem _ instBEqOfDecidableEq _ _ _
        (AList.lookup_eq_none.mp hnone)]
      exact (perm_append_singleton _ _).trans (h.cons _)
  · intro p id f _ h
    unfold Protocol.modify
    split
    · exact h
    · rename_i m hm
      rw [AList.keys_insert]
      exact h.trans (.map _ (@perm_cons_erase _ instBEqOfDecidableEq _ _ _
        (AList.lookup_isSome.mp (by rw [hm]; rfl))))

/-- No member is forgotten, and no incarnation ever goes back. -/
theorem incarnation_never_decreases (net : Net) (p : Protocol) (id : Str) (m : Member)
    (h : p.members.lookup id = some m) (ds : List Delivery) :
    ∃ m', (p.deliver net ds).members.lookup id = some m' ∧ m.incarnation ≤ m'.incarnation := by
  refine deliver_induction (P := fun p' => ∃ m', p'.members.lookup id = some m' ∧
    m.incarnation ≤ m'.incarnation) ?_ ?_ ⟨m, h, le_rfl⟩ ds
  · rintro p id' addr ⟨m', hm', hle⟩
    by_cases hid : id = id'
    · subst hid
      exact ⟨m', by rwa [register_known hm'], hle⟩
    · exact ⟨m', by rwa [lookup_register_ne hid], hle⟩
  · rintro p id' f hf ⟨m', hm', hle⟩
    by_cases hid : id = id'
    · subst hid
      exact ⟨f m', by rw [lookup_modify_self, hm', Option.map_some], hle.trans (hf m')⟩
    · exact ⟨m', by rwa [lookup_modify_ne hid], hle⟩

theorem knowsM_incarnation : ∃ m, knowsM.members.lookup (str "m") = some m ∧
      ∀ ds, ∃ m', (knowsM.deliver plainNet ds).members.lookup (str "m") = some m' ∧
        m.incarnation ≤ m'.incarnation :=
  ⟨_, rfl, incarnation_never_decreases plainNet knowsM _ _ rfl⟩

end Geryon.Swim
