import Geryon.Startup.Machine
import Geryon.Swim.Protocol

/-!
# The signature of a message

`computeHMAC` of `internal/swim/swim.go`, up to the MAC itself.
-/

namespace Geryon.Swim

open Startup Go List Wire UInt8

/-- A `Message` as `computeHMAC` reads it: the type is a number. -/
structure Signed where
  type : Nat
  source : Str := []
  target : Str := []
  incarnation : UInt64 := 0
  payload : List UInt8 := []
  members : List MemberInfo := []
  deriving DecidableEq

/-- What `computeHMAC` feeds to the MAC. -/
def Signed.macInput (marshal : List MemberInfo → List UInt8) (m : Signed) : List UInt8 :=
  ofNat m.type :: (m.source ++ m.target ++ putLittleEndian 8 m.incarnation.toNat ++
    m.payload ++ if m.members = [] then [] else marshal m.members)

theorem putLittleEndian_littleEndian (l : List UInt8) :
    putLittleEndian l.length (littleEndian l) = l := by
  induction l with
  | nil => rfl
  | cons b l ih =>
    have hb := b.toNat_lt
    rw [littleEndian, foldr_cons, ← littleEndian, length_cons, putLittleEndian,
      show (256 * littleEndian l + b.toNat) / 256 = littleEndian l by omega, ih]
    refine congrArg (· :: l) (UInt8.toNat_inj.mp ?_)
    rw [UInt8.toNat_ofNat']
    omega

/-- Any eight bytes are an incarnation. -/
theorem exists_incarnation {l : List UInt8} (h : l.length = 8) :
    ∃ incarnation : UInt64, putLittleEndian 8 incarnation.toNat = l := by
  have hlt := littleEndian_lt l
  rw [h] at hlt
  refine ⟨.ofNat (littleEndian l), ?_⟩
  rw [UInt64.toNat_ofNat_of_lt' hlt, ← h]
  exact putLittleEndian_littleEndian l

variable {marshal : List MemberInfo → List UInt8} {m : Signed}

/-- The input of a message is that of no other one, exactly if the message has nothing
but its type and its incarnation. -/
theorem macInput_unambiguous_iff (hmarshal : ∀ members, marshal members ≠ [])
    (htype : m.type < 256) : (∀ m', m'.type < 256 → m' ≠ m →
      m'.macInput marshal ≠ m.macInput marshal) ↔
        m.source = [] ∧ m.target = [] ∧ m.payload = [] ∧ m.members = [] := by
  constructor
  · intro h
    have heq : ∀ m' : Signed, m'.type = m.type → m'.macInput marshal = m.macInput marshal →
        m' = m := fun m' ht hinput => by_contra fun hne => h m' (ht ▸ htype) hne hinput
    -- The bytes of a field can be given to the next one.
    have hsource := heq { m with source := [], target := m.source ++ m.target } rfl
      (by simp [Signed.macInput])
    have htarget := heq { m with source := m.source ++ m.target, target := [] } rfl
      (by simp [Signed.macInput])
    have hmembers := heq { m with
      payload := m.payload ++ if m.members = [] then [] else marshal m.members
      members := [] } rfl (by simp [Signed.macInput])
    replace hsource : [] = m.source := congrArg Signed.source hsource
    replace htarget : [] = m.target := congrArg Signed.target htarget
    replace hmembers : [] = m.members := congrArg Signed.members hmembers
    refine ⟨hsource.symm, htarget.symm, ?_, hmembers.symm⟩
    cases hpayload : m.payload with
    | nil => rfl
    | cons b payload =>
      -- The eight bytes of the incarnation can begin one byte later.
      cases hbytes : putLittleEndian 8 m.incarnation.toNat with
      | nil => cases hbytes
      | cons first bytes =>
        have hlength := congrArg length hbytes
        obtain ⟨incarnation, hshifted⟩ := exists_incarnation (l := bytes ++ [b]) (by
          simpa using hlength.symm)
        have hshift := congrArg Signed.source (heq
          { m with source := [first], incarnation, payload } rfl (by
            simp [Signed.macInput, hshifted, ← hsource, ← htarget, ← hmembers, hpayload, hbytes]))
        rw [← hsource] at hshift
        cases hshift
  · rintro ⟨hsource, htarget, hpayload, hmembers⟩ m' htype' hne hinput
    apply hne
    obtain ⟨type, source, target, incarnation, payload, members⟩ := m
    obtain ⟨type', source', target', incarnation', payload', members'⟩ := m'
    subst hsource htarget hpayload hmembers
    obtain ⟨hfirst, hrest⟩ := cons.inj hinput
    have hlength := congrArg length hrest
    simp only [length_append, length_putLittleEndian, length_nil, if_true] at hlength
    obtain rfl := length_eq_zero_iff.mp (by omega : source'.length = 0)
    obtain rfl := length_eq_zero_iff.mp (by omega : target'.length = 0)
    obtain rfl := length_eq_zero_iff.mp (by omega : payload'.length = 0)
    by_cases hmembers : members' = []
    · have hbytes : putLittleEndian 8 incarnation'.toNat = putLittleEndian 8 incarnation.toNat := by
        simpa [hmembers] using hrest
      have hincarnation := congrArg littleEndian hbytes
      rw [littleEndian_put incarnation'.toNat_lt, littleEndian_put incarnation.toNat_lt]
        at hincarnation
      have htypes := congrArg toNat hfirst
      rw [toNat_ofNat_of_lt' htype', toNat_ofNat_of_lt' htype] at htypes
      rw [hmembers, UInt64.toNat_inj.mp hincarnation]
      exact congrArg (Signed.mk · [] [] incarnation [] []) htypes
    · rw [if_neg hmembers] at hlength
      exact absurd (length_eq_zero_iff.mp (by omega)) (hmarshal members')

theorem macInput_unambiguous_iff_ping : (0 < 256) ∧
    ∀ m' : Signed, m'.type < 256 → m' ≠ ⟨0, [], [], 7, [], []⟩ →
      m'.macInput (fun _ => str "[]") ≠ Signed.macInput (fun _ => str "[]") ⟨0, [], [], 7, [], []⟩ :=
  ⟨by decide, (macInput_unambiguous_iff (fun _ => by decide) (by decide)).mpr ⟨rfl, rfl, rfl, rfl⟩⟩

/-- A message from `ab` to `c` is signed as one from `a` to `bc`. -/
theorem macInput_ambiguous :
    (⟨2, str "ab", str "c", 7, [], []⟩ : Signed) ≠ ⟨2, str "a", str "bc", 7, [], []⟩ ∧
    ∀ marshal, Signed.macInput marshal ⟨2, str "ab", str "c", 7, [], []⟩ =
      Signed.macInput marshal ⟨2, str "a", str "bc", 7, [], []⟩ :=
  ⟨by decide, fun _ => rfl⟩

end Geryon.Swim
