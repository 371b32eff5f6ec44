import Geryon.Swim.Rumors

/-!
# Gossip

`gossip` sends all members to one of them, and `handleSync` answers a join with
the same message.  The receiver of the message is again `handleSync`, which looks
at the sender only: it takes the payload, which is empty, for the address of the
sender, and never reads the list of members.
-/

namespace Geryon.Swim

open Go Protocol

/-- A Sync message with a list of members. -/
def Message.tells (source : Str) (members : List MemberInfo) : Message :=
  { type := .sync, source := source, members := members }

/-- After the message, the member is known with an incarnation that is not older
and with this address, unless something newer was known `before`. -/
def Protocol.Learned (before after : Protocol) (info : MemberInfo) : Prop :=
  ∃ m, after.members.lookup info.id = some m ∧ info.incarnation ≤ m.incarnation ∧
    (m.address = info.address ∨
      ∃ m₀, before.members.lookup info.id = some m₀ ∧ info.incarnation < m₀.incarnation)

namespace Protocol

variable {net : Net} {p : Protocol} {source : Str} {members : List MemberInfo} {m : Member}

theorem handleSync_tells (now : Nat) : (p.handleSync net now (.tells source members)).1 =
      (p.register source []).refresh now source [] .alive 0 := by
  show p.updateMember net now source [] .alive 0 = _
  rw [updateMember, if_neg (by simp)]

theorem lookup_handleSync_known {id : Str} (h : p.members.lookup id = some m) (now : Nat) :
    ∃ m', (p.handleSync net now (.tells source members)).1.members.lookup id = some m' ∧
      m'.incarnation = m.incarnation ∧ m'.address = m.address := by
  rw [handleSync_tells, refresh]
  by_cases hid : id = source
  · rw [← hid, register_known h, lookup_modify_self, h, Option.map_some]
    refine ⟨_, rfl, ?_⟩
    by_cases hle : m.incarnation ≤ 0
    · rw [if_pos hle]
      exact ⟨(Nat.le_zero.mp hle).symm, rfl⟩
    · rw [if_neg hle]
      exact ⟨rfl, rfl⟩
  · rw [lookup_modify_ne hid, lookup_register_ne hid]
    exact ⟨m, h, rfl, rfl⟩

/-- Of those that are unknown only the sender is entered, with nothing but the
id. -/
theorem lookup_handleSync_unknown {id : Str} (h : p.members.lookup id = none) (now : Nat) :
    (p.handleSync net now (.tells source members)).1.members.lookup id =
      if id = source then some { id := source, address := [], lastSeen := some now } else none := by
  rw [handleSync_tells, refresh]
  by_cases hid : id = source
  · rw [hid] at h ⊢
    rw [lookup_modify_self, lookup_register_unknown h, if_pos rfl]
    rfl
  · rw [lookup_modify_ne hid, lookup_register_ne hid, h, if_neg hid]

theorem learned_iff (info : MemberInfo) (now : Nat) :
    p.Learned (p.handleSync net now (.tells source members)).1 info ↔
      p.Learned p info ∨ (info.id = source ∧ p.members.lookup source = none ∧
        info.incarnation = 0 ∧ info.address = []) := by
  cases hlookup : p.members.lookup info.id with
  | none =>
    have hafter := @lookup_handleSync_unknown net p source members info.id hlookup now
    have hbefore : ¬ p.Learned p info := by
      rintro ⟨m, hm, -⟩
      rw [hlookup] at hm
      cases hm
    rw [or_iff_right hbefore]
    constructor
    · rintro ⟨m, hm, hinc, haddr⟩
      rw [hafter] at hm
      split at hm
      · rename_i hid
        cases hm
        refine ⟨hid, hid ▸ hlookup, Nat.le_zero.mp hinc, ?_⟩
        obtain haddr | ⟨m₀, hm0, -⟩ := haddr
        · exact haddr.symm
        · rw [hlookup] at hm0
          cases hm0
      · cases hm
    · rintro ⟨hid, -, hinc, haddr⟩
      rw [if_pos hid] at hafter
      exact ⟨_, hafter, hinc.le, .inl haddr.symm⟩
  | some m =>
    obtain ⟨m', hafter, hinc, haddr⟩ :=
      @lookup_handleSync_known net p source members m info.id hlookup now
    have hknown : ¬ (info.id = source ∧ p.members.lookup source = none ∧
        info.incarnation = 0 ∧ info.address = []) := by
      rintro ⟨hid, hnone, -⟩
      rw [← hid, hlookup] at hnone
      cases hnone
    rw [or_iff_left hknown]
    constructor
    · rintro ⟨m1, hm1, hle, hsame⟩
      rw [hafter] at hm1
      cases hm1
      exact ⟨m, hlookup, hinc ▸ hle, haddr ▸ hsame⟩
    · rintro ⟨m1, hm1, hle, hsame⟩
      rw [hlookup] at hm1
      cases hm1
      exact ⟨m', hafter, hinc.symm ▸ hle, haddr.symm ▸ hsame⟩

end Protocol

/-- A list of members teaches the receiver nothing: it has all of it after the
message if and only if it had all of it before, but for a sender that lists
itself with incarnation 0 and no address. -/
theorem gossip_learned_iff (net : Net) (p : Protocol) (now : Nat) (source : Str)
    (members : List MemberInfo) : (∀ info ∈ members, info.id ≠ p.id →
        p.Learned (p.handleSync net now (.tells source members)).1 info) ↔
      ∀ info ∈ members, info.id ≠ p.id →
        p.Learned p info ∨ (info.id = source ∧ p.members.lookup source = none ∧
          info.incarnation = 0 ∧ info.address = []) := by
  constructor
  · intro h info hinfo hne
    exact (learned_iff info now).mp (h info hinfo hne)
  · intro h info hinfo hne
    exact (learned_iff info now).mpr (h info hinfo hne)

def newcomer : Protocol := { id := str "x", addr := str "x" }

/-- It gets the members of a node that knows `m`, and does not know `m`
afterwards, nor the address of the sender. -/
theorem newcomer_learns_nothing : knowsM.syncMessage.members =
        [⟨str "n", str "n", .alive, 0⟩, ⟨str "m", str "m", .alive, 0⟩] ∧
      (newcomer.handleSync plainNet 0 knowsM.syncMessage).1.members.lookup (str "m") = none ∧
      ((newcomer.handleSync plainNet 0 knowsM.syncMessage).1.members.lookup (str "n")).map
        Member.address = some [] := by
  decide

end Geryon.Swim
