import Geryon.Swim.Protocol
import Mathlib.Data.List.Induction
import Mathlib.Order.Bounds.Basic

/-!
# Messages about one member

Alive, Suspect and Dead messages about a member that is known.  A message is
obeyed if its incarnation is not below the one in the table; then it sets the
state, and an Alive message also sets the incarnation.

So the incarnation ends at the greatest one, in whatever order the messages
come.  The state does not: of the messages with at least that incarnation all are
obeyed, and the last one stays.
-/

namespace Geryon.Swim

open Go List Protocol Message

/-! ## Rumors -/

/-- What the table says of a member. -/
structure View where
  state : MemberState
  incarnation : Nat
  deriving DecidableEq

/-- What a message says of a member. -/
structure Rumor where
  state : MemberState
  incarnation : Nat
  deriving DecidableEq

/-- A rumor that is not too old is believed.  Only a rumor of life raises the
incarnation. -/
def View.hear (v : View) (r : Rumor) : View :=
  if v.incarnation ≤ r.incarnation then
    ⟨r.state, if r.state = .alive then r.incarnation else v.incarnation⟩
  else v

/-- The rumors in the order they are heard. -/
def View.hearAll (v : View) (l : List Rumor) : View := l.foldl View.hear v

/-- The incarnation of the member, and all incarnations that it is said to live
in. -/
def lives (v : View) (l : List Rumor) : Set Nat :=
  {i | i = v.incarnation ∨ ∃ r ∈ l, r.state = .alive ∧ r.incarnation = i}

section

variable {v : View} {r : Rumor} {l l' : List Rumor} {k : MemberState}

theorem View.hearAll_concat : v.hearAll (l ++ [r]) = (v.hearAll l).hear r := by
  rw [hearAll, foldl_append]
  rfl

theorem View.hear_of_le (h : v.incarnation ≤ r.incarnation) :
    v.hear r = ⟨r.state, if r.state = .alive then r.incarnation else v.incarnation⟩ := if_pos h

theorem View.hear_of_lt (h : r.incarnation < v.incarnation) : v.hear r = v :=
  if_neg (Nat.not_le_of_lt h)

theorem lives_concat :
    lives v (l ++ [r]) = lives v l ∪ {i | r.state = .alive ∧ r.incarnation = i} := by
  ext i
  simp only [lives, mem_append, mem_singleton, Set.mem_union, Set.mem_ofPred_eq]
  constructor
  · rintro (rfl | ⟨r', hr' | rfl, halive, hi⟩)
    · exact .inl (.inl rfl)
    · exact .inl (.inr ⟨r', hr', halive, hi⟩)
    · exact .inr ⟨halive, hi⟩
  · rintro ((rfl | ⟨r', hr', halive, hi⟩) | ⟨halive, hi⟩)
    · exact .inl rfl
    · exact .inr ⟨r', .inl hr', halive, hi⟩
    · exact .inr ⟨r, .inr rfl, halive, hi⟩

theorem isGreatest_incarnation (v : View) (l : List Rumor) :
    IsGreatest (lives v l) (v.hearAll l).incarnation := by
  induction l using reverseRecOn with
  | nil =>
    refine ⟨.inl rfl, ?_⟩
    rintro i (rfl | ⟨r, hr, -⟩)
    · exact le_rfl
    · cases hr
  | append_singleton l r ih =>
    rw [View.hearAll_concat, lives_concat]
    obtain hle | hlt := le_or_gt (v.hearAll l).incarnation r.incarnation
    · rw [View.hear_of_le hle]
      by_cases halive : r.state = .alive
      · rw [if_pos halive]
        refine ⟨.inr ⟨halive, rfl⟩, ?_⟩
        rintro i (hi | ⟨-, rfl⟩)
        · exact le_trans (ih.2 hi) hle
        · exact le_rfl
      · rw [if_neg halive]
        refine ⟨.inl ih.1, ?_⟩
        rintro i (hi | ⟨h, -⟩)
        · exact ih.2 hi
        · exact absurd h halive
    · rw [View.hear_of_lt hlt]
      refine ⟨.inl ih.1, ?_⟩
      rintro i (hi | ⟨-, rfl⟩)
      · exact ih.2 hi
      · exact hlt.le

/-- If the rumors that are not too old in the end all say the same, it is
believed. -/
theorem state_hearAll (hall : ∀ r ∈ l, (v.hearAll l).incarnation ≤ r.incarnation → r.state = k)
    (hsome : ∃ r ∈ l, (v.hearAll l).incarnation ≤ r.incarnation) : (v.hearAll l).state = k := by
  induction l using reverseRecOn with
  | nil =>
    obtain ⟨r, hr, -⟩ := hsome
    cases hr
  | append_singleton l r ih =>
    rw [View.hearAll_concat] at hall hsome ⊢
    obtain hle | hlt := le_or_gt (v.hearAll l).incarnation r.incarnation
    · have hr := hall r (mem_append_right _ mem_cons_self)
      rw [View.hear_of_le hle] at hr ⊢
      refine hr ?_
      by_cases halive : r.state = .alive
      · simp only [halive, if_true]
        exact le_rfl
      · simp only [if_neg halive]
        exact hle
    · rw [View.hear_of_lt hlt] at hall hsome ⊢
      refine ih (fun r' hr' => hall r' (mem_append_left _ hr')) ?_
      obtain ⟨r', hr', hle⟩ := hsome
      obtain hr' | hr' := mem_append.mp hr'
      · exact ⟨r', hr', hle⟩
      · rw [mem_singleton.mp hr'] at hle
        omega

theorem hearAll_of_old (h : ∀ r ∈ l, r.incarnation < (v.hearAll l).incarnation) :
    v.hearAll l = v := by
  induction l using reverseRecOn with
  | nil => rfl
  | append_singleton l r ih =>
    rw [View.hearAll_concat] at h ⊢
    obtain hle | hlt := le_or_gt (v.hearAll l).incarnation r.incarnation
    · have hr := h r (mem_append_right _ mem_cons_self)
      rw [View.hear_of_le hle] at hr
      by_cases halive : r.state = .alive
      · simp only [halive, if_true] at hr
        omega
      · simp only [if_neg halive] at hr
        omega
    · rw [View.hear_of_lt hlt] at h ⊢
      exact ih fun r' hr' => h r' (mem_append_left _ hr')

theorem incarnation_mono (h : ∀ r ∈ l, r ∈ l') :
    (v.hearAll l).incarnation ≤ (v.hearAll l').incarnation := by
  refine (isGreatest_incarnation v l').2 ?_
  obtain hi | ⟨r, hr, halive, hi⟩ := (isGreatest_incarnation v l).1
  · exact .inl hi
  · exact .inr ⟨r, h r hr, halive, hi⟩

/-- The incarnation does not depend on the order. -/
theorem incarnation_perm (h : l.Perm l') : (v.hearAll l).incarnation = (v.hearAll l').incarnation :=
  Nat.le_antisymm (incarnation_mono fun _ => h.mem_iff.mp) (incarnation_mono fun _ => h.mem_iff.mpr)

/-- Nor does the state, if the rumors that count agree. -/
theorem hearAll_perm (hperm : l.Perm l')
    (hall : ∀ r ∈ l, ∀ r' ∈ l, (v.hearAll l).incarnation ≤ r.incarnation →
      (v.hearAll l).incarnation ≤ r'.incarnation → r.state = r'.state) :
    v.hearAll l = v.hearAll l' := by
  have hinc := @incarnation_perm v l l' hperm
  by_cases hsome : ∃ r ∈ l, (v.hearAll l).incarnation ≤ r.incarnation
  · obtain ⟨r, hr, hle⟩ := hsome
    have hstate : (v.hearAll l).state = r.state :=
      state_hearAll (fun r' hr' hle' => hall r' hr' r hr hle' hle) ⟨r, hr, hle⟩
    have hstate' : (v.hearAll l').state = r.state := by
      rw [hinc] at hle hall
      exact state_hearAll (fun r' hr' hle' => hall r' (hperm.mem_iff.mpr hr') r hr hle' hle)
        ⟨r, hperm.mem_iff.mp hr, hle⟩
    calc v.hearAll l = ⟨(v.hearAll l).state, (v.hearAll l).incarnation⟩ := rfl
      _ = ⟨(v.hearAll l').state, (v.hearAll l').incarnation⟩ := by rw [hstate, hstate', hinc]
  · have hold : ∀ r ∈ l, r.incarnation < (v.hearAll l).incarnation := by
      intro r hr
      by_contra hle
      exact hsome ⟨r, hr, Nat.le_of_not_lt hle⟩
    rw [hearAll_of_old hold, hearAll_of_old]
    intro r hr
    rw [← hinc]
    exact hold r (hperm.mem_iff.mpr hr)

/-- A rumor that counts is believed if it comes last. -/
theorem state_hearAll_concat (h : (v.hearAll l).incarnation ≤ r.incarnation) :
    (v.hearAll (l ++ [r])).state = r.state := by
  rw [View.hearAll_concat, View.hear_of_le h]

end

/-! ## Messages as rumors -/

/-- An Alive, Suspect or Dead message about the member. -/
def Message.About (id : Str) (msg : Message) : Prop :=
  (msg.type = .alive ∧ msg.source = id) ∨
    ((msg.type = .suspect ∨ msg.type = .dead) ∧ msg.target = id)

instance (id : Str) (msg : Message) : Decidable (msg.About id) :=
  inferInstanceAs (Decidable (_ ∨ _))

/-- The payload of an Alive message can be decoded, and its address is accepted. -/
def Message.heeded (net : Net) (msg : Message) : Bool :=
  match msg.type with
  | .alive =>
    match net.payloadAddress msg.payload with
    | none => false
    | some address => address.isEmpty || net.isValidAddress address
  | _ => true

/-- The state that a message announces. -/
def MessageType.announces : MessageType → MemberState
  | .suspect => .suspect
  | .dead => .dead
  | _ => .alive

def Message.rumor (net : Net) (msg : Message) : Option Rumor :=
  if msg.heeded net then some ⟨msg.type.announces, msg.incarnation⟩ else none

/-- What the table says of a member. -/
def Protocol.view (p : Protocol) (id : Str) : Option View :=
  (p.members.lookup id).map fun m => ⟨m.state, m.incarnation⟩

/-- A message that is handled: when, and where it came from. -/
structure Delivery where
  now : Nat
  sender : Str
  msg : Message

def Protocol.deliver (net : Net) (p : Protocol) (ds : List Delivery) : Protocol :=
  ds.foldl (fun p d => (p.handleMessage net d.now d.msg d.sender).1) p

section

variable {net : Net} {p : Protocol} {id : Str} {msg : Message} {v : View}

theorem view_modify {f : Member → Member} {g : View → View}
    (hfg : ∀ m : Member, (⟨(f m).state, (f m).incarnation⟩ : View) = g ⟨m.state, m.incarnation⟩)
    (h : p.view id = some v) : (p.modify id f).view id = some (g v) := by
  rw [view] at h ⊢
  obtain ⟨m, hm, hv⟩ := Option.map_eq_some_iff.mp h
  rw [lookup_modify_self, hm, Option.map_some, Option.map_some, hfg, hv]

theorem view_accuse {state : MemberState} (hstate : state ≠ .alive) (htarget : msg.target = id)
    (h : p.view id = some v) :
    (p.accuse msg state).view id = some (v.hear ⟨state, msg.incarnation⟩) := by
  rw [accuse, htarget]
  refine view_modify (g := fun v => v.hear ⟨state, msg.incarnation⟩) (fun m => ?_) h
  simp only [View.hear, if_neg hstate]
  split
  · rfl
  · rfl

theorem view_updateMember {now : Nat} {address : Str} {incarnation : Nat}
    (haddress : (address.isEmpty || net.isValidAddress address) = true) (h : p.view id = some v) :
    (p.updateMember net now id address .alive incarnation).view id =
      some (v.hear ⟨.alive, incarnation⟩) := by
  have hok : ¬ (address ≠ [] ∧ net.isValidAddress address = false) := by
    rintro ⟨hne, hfalse⟩
    rw [hfalse, Bool.or_false, List.isEmpty_iff] at haddress
    exact hne haddress
  obtain ⟨m, hm, -⟩ := Option.map_eq_some_iff.mp h
  rw [updateMember, if_neg hok, register_known hm, refresh]
  refine view_modify (g := fun v => v.hear ⟨.alive, incarnation⟩) (fun m => ?_) h
  simp only [View.hear]
  split
  · rfl
  · rfl

theorem view_handleMessage (habout : msg.About id) (h : p.view id = some v) (now : Nat)
    (sender : Str) : ((p.handleMessage net now msg sender).1).view id =
      some ((msg.rumor net).elim v v.hear) := by
  obtain ⟨htype, hsource⟩ | ⟨htype | htype, htarget⟩ := habout
  · rw [handleMessage, htype, rumor, heeded, htype]
    rw [handleAlive]
    cases haddress : net.payloadAddress msg.payload with
    | none => exact h
    | some address =>
      by_cases hok : (address.isEmpty || net.isValidAddress address) = true
      · simp only [hok, if_true]
        rw [hsource]
        exact view_updateMember hok h
      · have hbad : address ≠ [] ∧ net.isValidAddress address = false := by
          simpa using hok
        simp only [hok]
        rw [updateMember, if_pos hbad]
        exact h
  all_goals
    rw [handleMessage, htype, rumor, heeded, htype]
    exact view_accuse (by decide) htarget h

theorem view_deliver {ds : List Delivery} (habout : ∀ d ∈ ds, d.msg.About id)
    (h : p.view id = some v) : (p.deliver net ds).view id =
      some (v.hearAll ((ds.map Delivery.msg).filterMap (Message.rumor net))) := by
  induction ds generalizing p v with
  | nil => exact h
  | cons d ds ih =>
    obtain ⟨hd, hds⟩ := forall_mem_cons.mp habout
    have hview := @view_handleMessage net p id d.msg v hd h d.now d.sender
    rw [deliver, foldl_cons]
    rw [map_cons, filterMap_cons]
    cases hr : d.msg.rumor net with
    | none | some =>
      rw [hr] at hview
      exact ih hds hview

end

/-! ## The order of messages -/

/-- The message is heeded, and neither the member nor an Alive message that is
heeded has a greater incarnation. -/
def Newest (net : Net) (incarnation : Nat) (msgs : List Message) (msg : Message) : Prop :=
  msg.heeded net = true ∧ incarnation ≤ msg.incarnation ∧
    ∀ msg' ∈ msgs, msg'.type = .alive → msg'.heeded net = true →
      msg'.incarnation ≤ msg.incarnation

/-- The newest messages are of one type. -/
def Unanimous (net : Net) (incarnation : Nat) (msgs : List Message) : Prop :=
  ∀ msg ∈ msgs, ∀ msg' ∈ msgs, Newest net incarnation msgs msg →
    Newest net incarnation msgs msg' → msg.type = msg'.type

section

variable {net : Net} {p : Protocol} {id : Str} {v : View} {msgs : List Message} {msg : Message}

theorem rumor_eq_some {r : Rumor} :
    msg.rumor net = some r ↔ msg.heeded net = true ∧ ⟨msg.type.announces, msg.incarnation⟩ = r := by
  rw [rumor]
  split
  · rename_i h
    simp [h]
  · rename_i h
    simp [h]

theorem type_alive_of_announces (habout : msg.About id) (h : msg.type.announces = .alive) :
    msg.type = .alive := by
  obtain ⟨htype, -⟩ | ⟨htype | htype, -⟩ := habout
  · exact htype
  · rw [htype] at h
    cases h
  · rw [htype] at h
    cases h

theorem type_eq_of_announces {msg' : Message} (habout : msg.About id) (habout' : msg'.About id)
    (h : msg.type.announces = msg'.type.announces) : msg.type = msg'.type := by
  obtain ⟨htype, -⟩ | ⟨htype | htype, -⟩ := habout <;>
    obtain ⟨htype', -⟩ | ⟨htype' | htype', -⟩ := habout' <;>
      rw [htype, htype'] at h ⊢ <;> cases h

/-- The newest messages are those that are not too old in the end. -/
theorem newest_iff (habout : ∀ msg ∈ msgs, msg.About id) (hheeded : msg.heeded net = true) :
    Newest net v.incarnation msgs msg ↔
      (v.hearAll (msgs.filterMap (Message.rumor net))).incarnation ≤ msg.incarnation := by
  have hgreatest := isGreatest_incarnation v (msgs.filterMap (rumor net))
  constructor
  · rintro ⟨-, hv, hall⟩
    obtain hi | ⟨r, hr, halive, hi⟩ := hgreatest.1
    · rw [hi]
      exact hv
    · obtain ⟨msg', hmsg', hrumor⟩ := mem_filterMap.mp hr
      obtain ⟨hheeded', rfl⟩ := rumor_eq_some.mp hrumor
      rw [← hi]
      exact hall msg' hmsg' (type_alive_of_announces (habout msg' hmsg') halive) hheeded'
  · intro hle
    refine ⟨hheeded, le_trans (hgreatest.2 (.inl rfl)) hle, ?_⟩
    intro msg' hmsg' htype hheeded'
    refine le_trans (hgreatest.2 (.inr ⟨_, mem_filterMap.mpr
      ⟨msg', hmsg', rumor_eq_some.mpr ⟨hheeded', rfl⟩⟩, ?_, rfl⟩)) hle
    rw [htype]
    rfl

theorem exists_delivery_last (hknown : p.view id = some v)
    (habout : ∀ msg ∈ msgs, msg.About id) (hmem : msg ∈ msgs)
    (hnewest : Newest net v.incarnation msgs msg) :
    ∃ ds : List Delivery, (ds.map Delivery.msg).Perm msgs ∧
      ((p.deliver net ds).view id).map View.state = some msg.type.announces := by
  obtain ⟨before, after, rfl⟩ := append_of_mem hmem
  have hperm : ((before ++ after) ++ [msg]).Perm (before ++ msg :: after) :=
    (perm_append_singleton msg (before ++ after)).trans perm_middle.symm
  have hmap : (((before ++ after) ++ [msg]).map fun m => (⟨0, [], m⟩ : Delivery)).map
      Delivery.msg = (before ++ after) ++ [msg] := by
    rw [map_map]
    exact map_id _
  refine ⟨((before ++ after) ++ [msg]).map fun m => ⟨0, [], m⟩, by rwa [hmap], ?_⟩
  rw [view_deliver _ hknown, hmap]
  · have hrumor : msg.rumor net = some ⟨msg.type.announces, msg.incarnation⟩ :=
      rumor_eq_some.mpr ⟨hnewest.1, rfl⟩
    rw [filterMap_append, filterMap_cons, hrumor, Option.map_some]
    refine congrArg some (state_hearAll_concat ?_)
    refine le_trans (incarnation_mono ?_) ((newest_iff habout hnewest.1).mp hnewest)
    intro r hr
    obtain ⟨msg', hmsg', hr'⟩ := mem_filterMap.mp hr
    exact mem_filterMap.mpr ⟨msg', hperm.mem_iff.mp (mem_append_left _ hmsg'), hr'⟩
  · intro d hd
    obtain ⟨m, hm, rfl⟩ := mem_map.mp hd
    exact habout m (hperm.mem_iff.mp hm)

/-- For messages about a known member, the state and the incarnation in the end
do not depend on the order if and only if the newest messages are of one type. -/
theorem order_irrelevant_iff (net : Net) (p : Protocol) (id : Str) (v : View)
    (msgs : List Message) (hknown : p.view id = some v) (habout : ∀ msg ∈ msgs, msg.About id) :
    (∀ ds ds' : List Delivery, (ds.map Delivery.msg).Perm msgs → (ds'.map Delivery.msg).Perm msgs →
        (p.deliver net ds).view id = (p.deliver net ds').view id) ↔
      Unanimous net v.incarnation msgs := by
  constructor
  · intro h msg hmsg msg' hmsg' hnewest hnewest'
    obtain ⟨ds, hperm, hstate⟩ := exists_delivery_last hknown habout hmsg hnewest
    obtain ⟨ds', hperm', hstate'⟩ := exists_delivery_last hknown habout hmsg' hnewest'
    rw [h ds ds' hperm hperm', hstate'] at hstate
    exact type_eq_of_announces (habout msg hmsg) (habout msg' hmsg') (Option.some.inj hstate).symm
  · intro h ds ds' hperm hperm'
    have habout' : ∀ {ds : List Delivery}, (ds.map Delivery.msg).Perm msgs →
        ∀ d ∈ ds, d.msg.About id :=
      fun hds d hd => habout d.msg (hds.mem_iff.mp (mem_map_of_mem hd))
    rw [view_deliver (habout' hperm) hknown, view_deliver (habout' hperm') hknown]
    -- Both orders are compared with the order of the list.
    have hall : ∀ r ∈ msgs.filterMap (rumor net),
        ∀ r' ∈ msgs.filterMap (rumor net),
        (v.hearAll (msgs.filterMap (rumor net))).incarnation ≤ r.incarnation →
        (v.hearAll (msgs.filterMap (rumor net))).incarnation ≤ r'.incarnation →
        r.state = r'.state := by
      intro r hr r' hr' hle hle'
      obtain ⟨msg, hmsg, hrumor⟩ := mem_filterMap.mp hr
      obtain ⟨msg', hmsg', hrumor'⟩ := mem_filterMap.mp hr'
      obtain ⟨hheeded, rfl⟩ := rumor_eq_some.mp hrumor
      obtain ⟨hheeded', rfl⟩ := rumor_eq_some.mp hrumor'
      exact congrArg MessageType.announces (h msg hmsg msg' hmsg'
        ((newest_iff habout hheeded).mpr hle) ((newest_iff habout hheeded').mpr hle'))
    rw [← hearAll_perm (hperm.filterMap _).symm hall,
      ← hearAll_perm (hperm'.filterMap _).symm hall]

end

/-! ## A member that is alive and dead -/

/-- A node that knows the member `m`. -/
def knowsM : Protocol where
  id := str "n"
  addr := str "n"
  members := AList.singleton (str "m") { id := str "m", address := str "m" }

def aliveM (incarnation : Nat) : Message :=
  { type := .alive, source := str "m", incarnation := incarnation, payload := str "m" }

def deadM (incarnation : Nat) : Message :=
  { type := .dead, source := str "o", target := str "m", incarnation := incarnation }

theorem alive_then_dead_order_irrelevant : knowsM.view (str "m") = some ⟨.alive, 0⟩ ∧
      ∀ ds ds' : List Delivery, (ds.map Delivery.msg).Perm [aliveM 2, deadM 1] →
        (ds'.map Delivery.msg).Perm [aliveM 2, deadM 1] →
        (knowsM.deliver plainNet ds).view (str "m") =
          (knowsM.deliver plainNet ds').view (str "m") := by
  have hknown : knowsM.view (str "m") = some ⟨.alive, 0⟩ := by decide
  refine ⟨hknown, ?_⟩
  refine (order_irrelevant_iff plainNet knowsM (str "m") _ [aliveM 2, deadM 1] hknown
    (by decide)).mpr ?_
  intro msg hmsg msg' hmsg' hnewest hnewest'
  have hold : ¬ Newest plainNet 0 [aliveM 2, deadM 1] (deadM 1) := by
    rintro ⟨-, -, hall⟩
    exact absurd (hall (aliveM 2) mem_cons_self rfl rfl) (by decide)
  simp only [mem_cons, not_mem_nil, or_false] at hmsg hmsg'
  obtain rfl | rfl := hmsg
  · obtain rfl | rfl := hmsg'
    · rfl
    · exact absurd hnewest' hold
  · exact absurd hnewest hold

/-- Of an Alive and a Dead message with the same incarnation the later one
counts. -/
theorem alive_dead_order :
    ((knowsM.deliver plainNet [⟨0, [], aliveM 1⟩, ⟨1, [], deadM 1⟩]).view (str "m"),
      (knowsM.deliver plainNet [⟨0, [], deadM 1⟩, ⟨1, [], aliveM 1⟩]).view (str "m")) =
      (some ⟨.dead, 1⟩, some ⟨.alive, 1⟩) := by
  decide

end Geryon.Swim
