import InterWeave.Lib.OrderedMap
import InterWeave.Runtime.ConnectionPolicyCore

/-!
What each operation of the connection policy can do to quarantines and to the two
bounded tables. Most of them are gentle: they add no punishment, drop none that is
still in force, and keep both bounds.
-/

namespace InterWeave

open Std (ExtTreeMap)
open OrderedMap Extremum Saturating

namespace ConnectionPolicy

variable {peer : TransportIdentity} {key : AddressKey} {middle : ConnectionPolicy}
    {state : AddressState} {address : String}

def QuarantinedUntil (policy : ConnectionPolicy) (key : AddressKey) (untilMs : Nat) : Prop :=
  ∃ state, policy.addresses[key]? = some state ∧ state.quarantinedUntilMs = some untilMs

def LiveAt (policy : ConnectionPolicy) (nowMs : Nat) (key : AddressKey) : Prop :=
  ∃ state, policy.addresses[key]? = some state ∧ policy.outsideBook key = true ∧
    state.isPunitiveAt nowMs = true

structure Bounded (policy : ConnectionPolicy) : Prop where
  addresses : policy.outsideEntries.length ≤ policy.maxAddresses
  peers : policy.peers.size ≤ policy.maxPeers

open AddressState

theorem isPunitiveAt_iff :
    state.isPunitiveAt nowMs = true ↔
      ∃ untilMs, state.quarantinedUntilMs = some untilMs ∧ nowMs < untilMs := by
  unfold isPunitiveAt
  cases state.quarantinedUntilMs <;> simp

theorem isPunitiveAt_mono (order : earlier ≤ later) (punitive : state.isPunitiveAt later = true) :
    state.isPunitiveAt earlier = true := by
  obtain ⟨untilMs, isUntil, before⟩ := isPunitiveAt_iff.mp punitive
  exact isPunitiveAt_iff.mpr ⟨untilMs, isUntil, by omega⟩

theorem isDialableAt_eq_not : state.isDialableAt nowMs = !state.isPunitiveAt nowMs := by
  unfold isDialableAt isPunitiveAt
  cases state.quarantinedUntilMs with
  | none => rfl
  | some untilMs => by_cases later : nowMs < untilMs <;> simp [later]; omega

theorem outsideEntries_length {policy : ConnectionPolicy} :
    policy.outsideEntries.length =
      countWhere (fun key _ => policy.outsideBook key) policy.addresses := rfl

theorem liveQuarantines_eq {policy : ConnectionPolicy} {nowMs : Nat} :
    policy.liveQuarantines nowMs =
      countWhere (fun key state => policy.outsideBook key && state.isPunitiveAt nowMs)
        policy.addresses := by
  simp only [liveQuarantines, outsideEntries, countWhere, List.filter_filter]
  congr 2
  funext entry
  exact Bool.and_comm _ _

theorem mem_outsideEntries {policy : ConnectionPolicy} :
    (key, state) ∈ policy.outsideEntries ↔
      policy.addresses[key]? = some state ∧ policy.outsideBook key = true := by
  simp [outsideEntries, ExtTreeMap.mem_toList_iff_getElem?_eq_some]

theorem liveAt_of_test {policy : ConnectionPolicy} (found : policy.addresses[key]? = some state)
    (passes : (policy.outsideBook key && state.isPunitiveAt nowMs) = true) :
    policy.LiveAt nowMs key := by
  rw [Bool.and_eq_true] at passes
  exact ⟨state, found, passes.1, passes.2⟩

theorem liveQuarantines_le {before after : ConnectionPolicy}
    (sub : ∀ key, after.LiveAt nowMs key → before.LiveAt nowMs key) :
    after.liveQuarantines nowMs ≤ before.liveQuarantines nowMs := by
  rw [liveQuarantines_eq, liveQuarantines_eq]
  apply countWhere_le
  intro key state found passes
  obtain ⟨old, oldFound, outside, punitive⟩ := sub key (liveAt_of_test found passes)
  exact ⟨old, oldFound, by simp [outside, punitive]⟩

theorem liveQuarantines_le_succ {before after : ConnectionPolicy}
    (sub : ∀ key, after.LiveAt nowMs key → key = exempt ∨ before.LiveAt nowMs key) :
    after.liveQuarantines nowMs ≤ before.liveQuarantines nowMs + 1 := by
  rw [liveQuarantines_eq, liveQuarantines_eq]
  apply countWhere_le_succ exempt
  intro key state distinct found passes
  obtain ⟨old, oldFound, outside, punitive⟩ :=
    (sub key (liveAt_of_test found passes)).resolve_left distinct
  exact ⟨old, oldFound, by simp [outside, punitive]⟩

theorem liveQuarantines_antitone (policy : ConnectionPolicy) (order : earlier ≤ later) :
    policy.liveQuarantines later ≤ policy.liveQuarantines earlier := by
  rw [liveQuarantines_eq, liveQuarantines_eq]
  apply countWhere_le
  intro key state found passes
  rw [Bool.and_eq_true] at passes
  exact ⟨state, found, by simp [passes.1, isPunitiveAt_mono order passes.2]⟩

def Framed (before after : ConnectionPolicy) : Prop :=
  after = { before with
    addresses := after.addresses
    book := after.book
    peers := after.peers
    shuttingDown := after.shuttingDown }

theorem Framed.refl (policy : ConnectionPolicy) : Framed policy policy := rfl

theorem Framed.trans (left : Framed first second) (right : Framed second third) :
    Framed first third := by
  unfold Framed at *
  rw [right, left]

theorem Framed.maxAddresses (framed : Framed before after) :
    after.maxAddresses = before.maxAddresses := by
  rw [framed]

theorem Framed.maxPeers (framed : Framed before after) : after.maxPeers = before.maxPeers := by
  rw [framed]

/-- A change at `nowMs` that punishes no pair and forgives none still punished but those
`cleared`. A live quarantine that was in the book before may count against the table after
it only if its pair is `surfaced`. -/
structure Spares (cleared surfaced : AddressKey → Prop) (nowMs : Nat)
    (before after : ConnectionPolicy) : Prop where
  framed : Framed before after
  live : ∀ laterMs ≥ nowMs, ∀ key, after.LiveAt laterMs key →
    surfaced key ∨ before.LiveAt laterMs key
  kept : ∀ key untilMs, ¬cleared key → before.QuarantinedUntil key untilMs → nowMs < untilMs →
    after.QuarantinedUntil key untilMs
  noneAdded : ∀ key untilMs, after.QuarantinedUntil key untilMs →
    before.QuarantinedUntil key untilMs

structure Gentle (cleared surfaced : AddressKey → Prop) (nowMs : Nat)
    (before after : ConnectionPolicy) : Prop extends
    Spares cleared surfaced nowMs before after where
  bounded : before.Bounded → after.Bounded

def noPair : AddressKey → Prop := fun _ => False

section

variable {cleared surfaced : AddressKey → Prop} {nowMs : Nat}
  {before after policy : ConnectionPolicy}

theorem Gentle.refl : Gentle cleared surfaced nowMs policy policy where
  framed := .refl policy
  live := fun _ _ _ live => .inr live
  kept := fun _ _ _ kept _ => kept
  noneAdded := fun _ _ held => held
  bounded := id

theorem Spares.trans (first : Spares cleared surfaced nowMs before middle)
    (second : Spares cleared surfaced nowMs middle after) :
    Spares cleared surfaced nowMs before after where
  framed := first.framed.trans second.framed
  live := fun laterMs later key live =>
    (second.live laterMs later key live).elim .inl (first.live laterMs later key)
  kept := fun key untilMs spared held inForce =>
    second.kept key untilMs spared (first.kept key untilMs spared held inForce) inForce
  noneAdded := fun key untilMs held =>
    first.noneAdded key untilMs (second.noneAdded key untilMs held)

theorem Gentle.trans (first : Gentle cleared surfaced nowMs before middle)
    (second : Gentle cleared surfaced nowMs middle after) :
    Gentle cleared surfaced nowMs before after :=
  ⟨first.toSpares.trans second.toSpares, fun held => second.bounded (first.bounded held)⟩

theorem Gentle.later (gentle : Gentle cleared surfaced nowMs before after)
    (order : nowMs ≤ laterMs) : Gentle cleared surfaced laterMs before after where
  framed := gentle.framed
  live := fun muchLaterMs later => gentle.live muchLaterMs (order.trans later)
  kept := fun key untilMs spared held inForce =>
    gentle.kept key untilMs spared held (lt_of_le_of_lt order inForce)
  noneAdded := gentle.noneAdded
  bounded := gentle.bounded

theorem Gentle.liveQuarantines_le (gentle : Gentle cleared noPair nowMs before after)
    (later : nowMs ≤ laterMs) :
    after.liveQuarantines laterMs ≤ before.liveQuarantines laterMs :=
  ConnectionPolicy.liveQuarantines_le fun key live =>
    (gentle.live laterMs later key live).elim False.elim id

theorem Gentle.peers {peers : ExtTreeMap TransportIdentity PeerBackoff}
    (fits : policy.Bounded → peers.size ≤ policy.maxPeers) :
    Gentle cleared surfaced nowMs policy { policy with peers := peers } where
  framed := rfl
  live := fun _ _ _ live => .inr live
  kept := fun _ _ _ kept _ => kept
  noneAdded := fun _ _ held => held
  bounded := fun bounded => ⟨bounded.addresses, fits bounded⟩

theorem Gentle.erasePeer (peer : TransportIdentity) :
    Gentle cleared surfaced nowMs policy { policy with peers := policy.peers.erase peer } :=
  .peers fun bounded => ExtTreeMap.size_erase_le.trans bounded.peers

structure Sheds (nowMs : Nat) (before after : AddressTable) : Prop where
  sub : ∀ (key : AddressKey) (state : AddressState), after[key]? = some state →
    before[key]? = some state
  inForce : ∀ (key : AddressKey) (state : AddressState), before[key]? = some state →
    state.isPunitiveAt nowMs = true → after[key]? = some state

theorem Sheds.refl (table : AddressTable) : Sheds nowMs table table :=
  ⟨fun _ _ found => found, fun _ _ found _ => found⟩

theorem Sheds.trans (left : Sheds nowMs first second) (right : Sheds nowMs second third) :
    Sheds nowMs first third :=
  ⟨fun key state found => left.sub key state (right.sub key state found),
    fun key state found punitive =>
      right.inForce key state (left.inForce key state found punitive) punitive⟩

theorem Sheds.erase (found : table[key]? = some state) (idle : state.isPunitiveAt nowMs = false) :
    Sheds nowMs table (table.erase key) := by
  constructor
  · intro other record held
    rw [get_erase] at held
    split at held
    · cases held
    · exact held
  · intro other record held punitive
    rw [get_erase, if_neg]
    · exact held
    · rintro rfl
      obtain rfl := Option.some.inj (found.symm.trans held)
      exact Bool.false_ne_true (idle.symm.trans punitive)

theorem Gentle.addresses {addresses : AddressTable}
    (sheds : Sheds nowMs policy.addresses addresses) :
    Gentle cleared surfaced nowMs policy { policy with addresses := addresses } where
  framed := rfl
  live := by
    rintro laterMs - key ⟨state, found, outside, punitive⟩
    exact .inr ⟨state, sheds.sub key state found, outside, punitive⟩
  kept := by
    rintro key untilMs - ⟨state, found, isUntil⟩ before
    exact ⟨state, sheds.inForce key state found (isPunitiveAt_iff.mpr ⟨untilMs, isUntil, before⟩),
      isUntil⟩
  noneAdded := by
    rintro key untilMs ⟨state, found, isUntil⟩
    exact ⟨state, sheds.sub key state found, isUntil⟩
  bounded := by
    intro bounded
    refine ⟨le_trans ?_ bounded.addresses, bounded.peers⟩
    rw [outsideEntries_length, outsideEntries_length]
    exact countWhere_le fun key state found outside => ⟨state, sheds.sub key state found, outside⟩

theorem prune_sheds : Sheds nowMs policy.addresses (policy.prune nowMs).addresses := by
  constructor
  · intro key state found
    rw [prune, ExtTreeMap.getElem?_filter', Option.filter_eq_some_iff] at found
    exact found.1
  · intro key state found punitive
    rw [prune, ExtTreeMap.getElem?_filter', Option.filter_eq_some_iff]
    exact ⟨found, by simp [punitive]⟩

theorem prune_gentle : Gentle cleared surfaced nowMs policy (policy.prune nowMs) :=
  (Gentle.addresses prune_sheds).trans
    (.peers fun bounded => ExtTreeMap.size_filter_le_size.trans bounded.peers)

theorem makeRoomForAddress_cases :
    (policy.outsideEntries.length < policy.maxAddresses ∧
        policy.makeRoomForAddress nowMs = (policy, true)) ∨
      (∃ key state, policy.addresses[key]? = some state ∧ policy.outsideBook key = true ∧
        state.isPunitiveAt nowMs = false ∧ policy.maxAddresses ≤ policy.outsideEntries.length ∧
        policy.makeRoomForAddress nowMs =
          ({ policy with addresses := policy.addresses.erase key }, true)) ∨
      ((∀ (key : AddressKey) (state : AddressState), policy.addresses[key]? = some state →
          policy.outsideBook key = true → state.isPunitiveAt nowMs = true) ∧
        policy.maxAddresses ≤ policy.outsideEntries.length ∧
        policy.makeRoomForAddress nowMs = (policy, false)) := by
  unfold makeRoomForAddress
  by_cases room : policy.outsideEntries.length < policy.maxAddresses
  · exact .inl ⟨room, by simp [room]⟩
  · refine .inr ?_
    simp only [room, ↓reduceIte]
    cases victim : minByKey (fun entry => entry.2.lastTouchedMs)
        (policy.outsideEntries.filter fun entry => !entry.2.isPunitiveAt nowMs) with
    | some entry =>
      obtain ⟨key, state⟩ := entry
      have member := List.mem_filter.mp (minByKey_mem victim)
      obtain ⟨found, outside⟩ := mem_outsideEntries.mp member.1
      exact .inl ⟨key, state, found, outside, by simpa using member.2, by omega, rfl⟩
    | none =>
      refine .inr ⟨fun key state found outside => ?_, by omega, rfl⟩
      have nobody := List.filter_eq_nil_iff.mp (minByKey_eq_none.mp victim) (key, state)
        (mem_outsideEntries.mpr ⟨found, outside⟩)
      simpa using nobody

theorem makeRoomForAddress_sheds :
    ∃ addresses, (policy.makeRoomForAddress nowMs).1 = { policy with addresses := addresses } ∧
      Sheds nowMs policy.addresses addresses := by
  rcases makeRoomForAddress_cases with
    ⟨-, answer⟩ | ⟨key, state, found, -, idle, -, answer⟩ | ⟨-, -, answer⟩
  · exact ⟨_, by rw [answer], .refl _⟩
  · exact ⟨_, by rw [answer], .erase found idle⟩
  · exact ⟨_, by rw [answer], .refl _⟩

theorem makeRoomForAddress_gentle :
    Gentle cleared surfaced nowMs policy (policy.makeRoomForAddress nowMs).1 := by
  obtain ⟨addresses, room, sheds⟩ := makeRoomForAddress_sheds
  rw [room]
  exact .addresses sheds

theorem makeRoomForAddress_room {policy : ConnectionPolicy} {nowMs : Nat} (bounded : policy.Bounded)
    (made : (policy.makeRoomForAddress nowMs).2 = true) :
    (policy.makeRoomForAddress nowMs).1.outsideEntries.length <
      (policy.makeRoomForAddress nowMs).1.maxAddresses := by
  rcases makeRoomForAddress_cases with
    ⟨room, answer⟩ | ⟨key, state, found, outside, -, -, answer⟩ | ⟨-, -, answer⟩
  · rw [answer]; exact room
  · rw [answer]
    refine lt_of_lt_of_le ?_ bounded.addresses
    rw [outsideEntries_length, outsideEntries_length]
    apply countWhere_lt key ⟨state, found, outside⟩
    intro other record held counted
    rw [get_erase] at held
    split at held
    · cases held
    next distinct => exact ⟨Ne.symm distinct, record, held, counted⟩
  · rw [answer] at made
    cases made

theorem makeRoomForAddress_succeeds (few : policy.liveQuarantines nowMs < policy.maxAddresses) :
    (policy.makeRoomForAddress nowMs).2 = true := by
  rcases makeRoomForAddress_cases with
    ⟨-, answer⟩ | ⟨_, _, _, _, _, _, answer⟩ | ⟨allInForce, full, -⟩
  · rw [answer]
  · rw [answer]
  · have counted : policy.outsideEntries.length ≤ policy.liveQuarantines nowMs := by
      rw [outsideEntries_length, liveQuarantines_eq]
      refine countWhere_le fun key state found outside => ⟨state, found, ?_⟩
      simp [outside, allInForce key state found outside]
    omega

theorem updateAddress_bounded (bounded : policy.Bounded)
    (room : policy.placed peer address = true ∨
      policy.outsideEntries.length < policy.maxAddresses) :
    (policy.updateAddress peer address update).Bounded := by
  refine ⟨?_, bounded.peers⟩
  have others : ∀ (key : AddressKey) (state : AddressState), key ≠ ⟨peer, address⟩ →
      (policy.updateAddress peer address update).addresses[key]? = some state →
      policy.addresses[key]? = some state := by
    intro key state distinct found
    simpa [updateAddress, get_insert, Ne.symm distinct] using found
  rcases room with hasPlace | room
  · refine le_trans ?_ bounded.addresses
    rw [outsideEntries_length, outsideEntries_length]
    apply countWhere_le
    intro key state found outside
    by_cases same : key = ⟨peer, address⟩
    · subst same
      rw [placed, Bool.or_eq_true, decide_eq_true_eq, mem_iff_get] at hasPlace
      rcases hasPlace with ⟨old, present⟩ | inside
      · exact ⟨old, present, outside⟩
      · simp [updateAddress, outsideBook, inside] at outside
    · exact ⟨state, others key state same found, outside⟩
  · refine le_trans ?_ (Nat.succ_le_of_lt room)
    rw [outsideEntries_length, outsideEntries_length]
    apply countWhere_le_succ ⟨peer, address⟩
    intro key state distinct found outside
    exact ⟨state, others key state distinct found, outside⟩

theorem updateAddress_spares
    (quarantine : ∀ state, (update state).quarantinedUntilMs = state.quarantinedUntilMs ∨
      (update state).quarantinedUntilMs = none ∧ cleared ⟨peer, address⟩) :
    Spares cleared surfaced nowMs policy (policy.updateAddress peer address update) := by
  have noneAdded : ∀ key untilMs,
      (policy.updateAddress peer address update).QuarantinedUntil key untilMs →
      policy.QuarantinedUntil key untilMs := by
    rintro key untilMs ⟨state, found, isUntil⟩
    simp only [updateAddress, get_insert] at found
    split at found
    next same =>
      cases found
      subst same
      rcases quarantine (policy.addresses[AddressKey.mk peer address]?.getD {}) with
        kept | ⟨gone, -⟩
      · rw [kept] at isUntil
        cases present : policy.addresses[AddressKey.mk peer address]? with
        | none => simp [present] at isUntil
        | some old => exact ⟨old, present, by simpa [present] using isUntil⟩
      · rw [gone] at isUntil
        cases isUntil
    · exact ⟨state, found, isUntil⟩
  refine ⟨rfl, ?_, ?_, noneAdded⟩
  · rintro laterMs - key ⟨state, found, outside, punitive⟩
    obtain ⟨untilMs, isUntil, before⟩ := isPunitiveAt_iff.mp punitive
    obtain ⟨old, present, oldUntil⟩ := noneAdded key untilMs ⟨state, found, isUntil⟩
    exact .inr ⟨old, present, outside, isPunitiveAt_iff.mpr ⟨untilMs, oldUntil, before⟩⟩
  · rintro key untilMs spared ⟨state, found, isUntil⟩ -
    by_cases same : key = ⟨peer, address⟩
    · subst same
      refine ⟨update state, by simp [updateAddress, found], ?_⟩
      rcases quarantine state with kept | ⟨-, isCleared⟩
      · rw [kept, isUntil]
      · exact absurd isCleared spared
    · exact ⟨state, by simpa [updateAddress, get_insert, Ne.symm same] using found, isUntil⟩

theorem roomAfterPrune_gentle :
    Gentle cleared surfaced nowMs policy (policy.roomAfterPrune peer address nowMs).1 := by
  unfold roomAfterPrune
  split
  · exact .refl
  · exact prune_gentle.trans makeRoomForAddress_gentle

theorem roomAfterPrune_room (bounded : policy.Bounded)
    (made : (policy.roomAfterPrune peer address nowMs).2 = true) :
    (policy.roomAfterPrune peer address nowMs).1.placed peer address = true ∨
      (policy.roomAfterPrune peer address nowMs).1.outsideEntries.length <
        (policy.roomAfterPrune peer address nowMs).1.maxAddresses := by
  unfold roomAfterPrune at made ⊢
  split
  next hasPlace => exact .inl hasPlace
  next hasNone =>
    simp only [hasNone] at made
    have pruned : (policy.prune nowMs).Bounded :=
      (prune_gentle : Gentle noPair noPair nowMs _ _).bounded bounded
    exact .inr (makeRoomForAddress_room pruned made)

theorem Gentle.update (first : Gentle cleared surfaced nowMs before middle)
    {update : AddressState → AddressState}
    (room : before.Bounded → middle.placed peer address = true ∨
      middle.outsideEntries.length < middle.maxAddresses)
    (quarantine : ∀ state, (update state).quarantinedUntilMs = state.quarantinedUntilMs ∨
      (update state).quarantinedUntilMs = none ∧ cleared ⟨peer, address⟩) :
    Gentle cleared surfaced nowMs before (middle.updateAddress peer address update) :=
  ⟨first.toSpares.trans (updateAddress_spares quarantine),
    fun bounded => updateAddress_bounded (first.bounded bounded) (room bounded)⟩

theorem scoreAddressFailure_gentle :
    Gentle cleared surfaced nowMs policy (policy.scoreAddressFailure peer address nowMs) := by
  have roomy : Gentle cleared surfaced nowMs policy (policy.roomAfterPrune peer address nowMs).1 :=
    roomAfterPrune_gentle
  unfold scoreAddressFailure
  dsimp only
  split
  next made =>
    exact roomy.update (fun bounded => roomAfterPrune_room bounded made) fun _ => .inl rfl
  · exact roomy

theorem makeRoomForPeer_gentle :
    Gentle cleared surfaced nowMs policy (policy.makeRoomForPeer nowMs).1 := by
  unfold makeRoomForPeer
  split
  · exact .refl
  · dsimp only
    split
    · exact .erasePeer _
    · exact .refl

theorem makeRoomForPeer_room (bounded : policy.Bounded)
    (made : (policy.makeRoomForPeer nowMs).2 = true) :
    (policy.makeRoomForPeer nowMs).1.peers.size < policy.maxPeers := by
  unfold makeRoomForPeer at made ⊢
  split
  · assumption
  next full =>
    simp only [full, ↓reduceIte] at made ⊢
    split
    next victim _ chosen =>
      have member := List.mem_of_mem_filter (minByKey_mem chosen)
      have present : victim ∈ policy.peers :=
        (mem_iff_get _ _).mpr ⟨_, ExtTreeMap.mem_toList_iff_getElem?_eq_some.mp member⟩
      exact lt_of_lt_of_le (size_erase_lt present) bounded.peers
    next chosen => simp [chosen] at made

theorem recordAddressFailure_gentle :
    Gentle cleared surfaced nowMs policy
      (policy.recordAddressFailure peer address nowMs backoffMs).1 := by
  have scored : Gentle cleared surfaced nowMs policy
      (policy.scoreAddressFailure peer address nowMs) :=
    scoreAddressFailure_gentle
  unfold recordAddressFailure
  dsimp only
  split
  · exact scored
  · by_cases known : peer ∈ (policy.scoreAddressFailure peer address nowMs).peers
    · simp only [known, ↓reduceIte, Bool.not_true, Bool.false_eq_true]
      refine scored.trans (.peers fun bounded => ?_)
      rw [ExtTreeMap.size_insert, if_pos (ExtTreeMap.contains_iff_mem.mpr known)]
      exact bounded.peers
    · simp only [known, ↓reduceIte]
      have roomy : Gentle cleared surfaced nowMs policy
          ((policy.scoreAddressFailure peer address nowMs).makeRoomForPeer nowMs).1 :=
        scored.trans makeRoomForPeer_gentle
      split
      · exact roomy
      next made =>
        refine ⟨roomy.toSpares.trans ⟨rfl, fun _ _ _ live => .inr live, fun _ _ _ kept _ => kept,
          fun _ _ held => held⟩, fun bounded => ⟨(roomy.bounded bounded).addresses, ?_⟩⟩
        have room := makeRoomForPeer_room (scored.bounded bounded) (by simpa using made)
        have sameBound := scored.framed.maxPeers
        have sameBoundRoomy := roomy.framed.maxPeers
        refine ExtTreeMap.size_insert_le.trans ?_
        dsimp only
        omega

theorem recordSuccess_gentle (policy : ConnectionPolicy) (peer : TransportIdentity)
    (address : String) (nowMs : Nat) :
    Gentle (· = ⟨peer, address⟩) surfaced nowMs policy
      (policy.recordSuccess peer address nowMs) := by
  unfold recordSuccess
  by_cases hasPlace : policy.placed peer address = true
  · simp only [hasPlace, ↓reduceIte, Bool.not_true, Bool.false_eq_true]
    have updated : Gentle (· = ⟨peer, address⟩) surfaced nowMs policy
        (policy.updateAddress peer address (.succeeded nowMs)) :=
      Gentle.refl.update (fun _ => .inl hasPlace) fun _ => .inr ⟨rfl, rfl⟩
    exact updated.trans (.erasePeer peer)
  · simp only [hasPlace, ↓reduceIte, Bool.false_eq_true]
    have roomy : Gentle (· = ⟨peer, address⟩) surfaced nowMs policy
        (policy.makeRoomForAddress nowMs).1 := makeRoomForAddress_gentle
    split
    · exact roomy.trans (.erasePeer peer)
    next made =>
      have updated : Gentle (· = ⟨peer, address⟩) surfaced nowMs policy
          ((policy.makeRoomForAddress nowMs).1.updateAddress peer address (.succeeded nowMs)) := by
        refine roomy.update (fun bounded => .inr ?_) fun _ => .inr ⟨rfl, rfl⟩
        exact makeRoomForAddress_room bounded (by simpa using made)
      exact updated.trans (.erasePeer peer)

structure Punishes (key : AddressKey) (untilMs nowMs : Nat) (before after : ConnectionPolicy) :
    Prop where
  framed : Framed before after
  live : ∀ laterMs ≥ nowMs, ∀ other, after.LiveAt laterMs other →
    other = key ∨ before.LiveAt laterMs other
  kept : ∀ other oldUntilMs, other ≠ key → before.QuarantinedUntil other oldUntilMs →
    nowMs < oldUntilMs → after.QuarantinedUntil other oldUntilMs
  punished : after.QuarantinedUntil key untilMs
  onlyAdded : ∀ other newUntilMs, after.QuarantinedUntil other newUntilMs →
    other = key ∧ newUntilMs = untilMs ∨ before.QuarantinedUntil other newUntilMs
  bounded : before.Bounded → after.Bounded

theorem updateAddress_punishes (first : Gentle noPair noPair nowMs before middle)
    (room : before.Bounded → middle.placed peer address = true ∨
      middle.outsideEntries.length < middle.maxAddresses)
    (quarantine : ∀ state, (update state).quarantinedUntilMs = some untilMs) :
    Punishes ⟨peer, address⟩ untilMs nowMs before (middle.updateAddress peer address update) := by
  have others : ∀ (key : AddressKey), key ≠ ⟨peer, address⟩ →
      (middle.updateAddress peer address update).addresses[key]? = middle.addresses[key]? := by
    intro key distinct
    simp [updateAddress, get_insert, Ne.symm distinct]
  refine ⟨first.framed.trans rfl, ?_, ?_, ?_, ?_,
    fun bounded => updateAddress_bounded (first.bounded bounded) (room bounded)⟩
  · rintro laterMs later other ⟨state, found, outside, punitive⟩
    by_cases same : other = ⟨peer, address⟩
    · exact .inl same
    · rw [others other same] at found
      exact .inr ((first.live laterMs later other ⟨state, found, outside, punitive⟩).elim
        False.elim id)
  · intro other oldUntilMs distinct held inForce
    obtain ⟨state, found, isUntil⟩ := first.kept other oldUntilMs id held inForce
    exact ⟨state, by rw [others other distinct, found], isUntil⟩
  · exact ⟨update (middle.addresses[AddressKey.mk peer address]?.getD {}),
      by simp [updateAddress], quarantine _⟩
  · rintro other newUntilMs ⟨state, found, isUntil⟩
    by_cases same : other = ⟨peer, address⟩
    · subst same
      simp only [updateAddress, ExtTreeMap.getElem?_insert_self, Option.some.injEq] at found
      rw [← found, quarantine] at isUntil
      exact .inl ⟨rfl, (Option.some.inj isUntil).symm⟩
    · rw [others other same] at found
      exact .inr (first.noneAdded other newUntilMs ⟨state, found, isUntil⟩)

theorem recordIdentityMismatch_cases (policy : ConnectionPolicy) (peer : TransportIdentity)
    (address : String) (nowMs : Nat) :
    ((policy.recordIdentityMismatch peer address nowMs).2 = true ∧
        Punishes ⟨peer, address⟩ (add64 nowMs identityMismatchQuarantineMs) nowMs policy
          (policy.recordIdentityMismatch peer address nowMs).1) ∨
      ((policy.recordIdentityMismatch peer address nowMs).2 = false ∧
        Gentle noPair noPair nowMs policy
          (policy.recordIdentityMismatch peer address nowMs).1) := by
  have roomy : Gentle noPair noPair nowMs policy (policy.roomAfterPrune peer address nowMs).1 :=
    roomAfterPrune_gentle
  unfold recordIdentityMismatch
  dsimp only
  split
  · exact .inr ⟨rfl, roomy⟩
  next made =>
    refine .inl ⟨rfl, updateAddress_punishes roomy ?_ fun _ => rfl⟩
    exact fun bounded => roomAfterPrune_room bounded (by simpa using made)

theorem recordIdentityMismatch_succeeds (few : policy.liveQuarantines nowMs < policy.maxAddresses) :
    (policy.recordIdentityMismatch peer address nowMs).2 = true := by
  have made : (policy.roomAfterPrune peer address nowMs).2 = true := by
    unfold roomAfterPrune
    split
    · rfl
    · have pruned : Gentle noPair noPair nowMs policy (policy.prune nowMs) :=
        prune_gentle
      apply makeRoomForAddress_succeeds
      rw [pruned.framed.maxAddresses]
      exact lt_of_le_of_lt (pruned.liveQuarantines_le le_rfl) few
  simp [recordIdentityMismatch, made]

def known (policy : ConnectionPolicy) (peer : TransportIdentity) : Finset String :=
  policy.book[peer]?.getD ∅

theorem mem_known : address ∈ policy.known peer ↔ inBook policy.book peer address = true := by
  unfold known inBook
  cases policy.book[peer]? <;> simp

theorem known_congr (same : after.book[peer]? = before.book[peer]?) :
    after.known peer = before.known peer := by
  rw [known, known, same]

theorem addToBook_known :
    (policy.addToBook peer address).known peer = insert address (policy.known peer) := by
  simp [known, addToBook]

theorem addToBook_get (distinct : other ≠ peer) :
    (policy.addToBook peer address).book[other]? = policy.book[other]? :=
  (get_insert _ _ _ _).trans (if_neg (Ne.symm distinct))

theorem removeFromBook_get (policy : ConnectionPolicy) (peer other : TransportIdentity)
    (address : String) :
    (policy.removeFromBook peer address).book[other]? =
      if peer = other then
        (policy.book[other]?.map (·.erase address)).filter fun known => decide (known ≠ ∅)
      else policy.book[other]? := by
  unfold removeFromBook
  by_cases same : peer = other
  · subst same
    cases found : policy.book[peer]? with
    | none => simp [found]
    | some known =>
      by_cases empty : known.erase address = ∅
      · simp [empty, Option.filter]
      · simp [empty, Option.filter]
  · cases found : policy.book[peer]? with
    | none => simp [same]
    | some known =>
      by_cases empty : known.erase address = ∅
      · simp [empty, get_erase, same]
      · simp [empty, get_insert, same]

theorem removeFromBook_known :
    (policy.removeFromBook peer address).known peer = (policy.known peer).erase address := by
  rw [known, known, removeFromBook_get, if_pos rfl]
  cases policy.book[peer]? with
  | none => simp
  | some addresses =>
    by_cases empty : addresses.erase address = ∅
    · simp [Option.filter, empty]
    · simp [Option.filter, empty]

theorem outsideBook_eq :
    policy.outsideBook key = true ↔ ¬inBook policy.book key.peer key.address = true := by
  simp [outsideBook]

theorem addToBook_gentle :
    Gentle cleared surfaced nowMs policy (policy.addToBook peer address) := by
  have shrinks : ∀ key, (policy.addToBook peer address).outsideBook key = true →
      policy.outsideBook key = true := by
    intro key outside
    rw [outsideBook_eq, ← mem_known] at outside ⊢
    refine fun inside => outside ?_
    by_cases same : key.peer = peer
    · rw [same, addToBook_known]
      exact Finset.mem_insert_of_mem (same ▸ inside)
    · rwa [known_congr (addToBook_get same)]
  refine ⟨⟨rfl, ?_, fun _ _ _ kept _ => kept, fun _ _ held => held⟩,
    fun bounded => ⟨?_, bounded.peers⟩⟩
  · rintro laterMs - key ⟨state, found, outside, punitive⟩
    exact .inr ⟨state, found, shrinks key outside, punitive⟩
  · refine le_trans ?_ bounded.addresses
    rw [outsideEntries_length, outsideEntries_length]
    exact countWhere_le fun key state found outside => ⟨state, found, shrinks key outside⟩

theorem removeFromBook_framed :
    policy.removeFromBook peer address =
      { policy with book := (policy.removeFromBook peer address).book } := by
  unfold removeFromBook
  split
  · rfl
  · split <;> rfl

theorem outsideBook_removeFromBook
    (outside : (policy.removeFromBook peer address).outsideBook key = true) :
    key = ⟨peer, address⟩ ∨ policy.outsideBook key = true := by
  rw [outsideBook_eq, ← mem_known] at outside ⊢
  by_cases same : key.peer = peer
  · rw [same, removeFromBook_known, Finset.mem_erase, not_and_or, not_not] at outside
    exact outside.imp (AddressKey.ext same) (same ▸ ·)
  · rw [known_congr ((removeFromBook_get _ _ _ _).trans (if_neg (Ne.symm same)))] at outside
    exact .inr outside

theorem removeFromBook_addresses :
    (policy.removeFromBook peer address).addresses = policy.addresses := by
  rw [removeFromBook_framed]

theorem removeFromBook_spares
    (surfaces : ∀ state, policy.addresses[AddressKey.mk peer address]? = some state →
      state.isPunitiveAt nowMs = true → surfaced ⟨peer, address⟩) :
    Spares cleared surfaced nowMs policy (policy.removeFromBook peer address) where
  framed := by
    unfold Framed
    rw [removeFromBook_framed]
  live := by
    rintro laterMs later key ⟨state, found, outside, punitive⟩
    rw [removeFromBook_addresses] at found
    rcases outsideBook_removeFromBook outside with same | before
    · subst same
      exact .inl (surfaces state found (isPunitiveAt_mono later punitive))
    · exact .inr ⟨state, found, before, punitive⟩
  kept := by
    rintro key untilMs - ⟨state, found, isUntil⟩ -
    exact ⟨state, by rwa [removeFromBook_addresses], isUntil⟩
  noneAdded := by
    rintro key untilMs ⟨state, found, isUntil⟩
    exact ⟨state, by rwa [removeFromBook_addresses] at found, isUntil⟩

theorem removeFromBook_bounded (bounded : policy.Bounded)
    (room : policy.addresses[AddressKey.mk peer address]? = none ∨
      policy.outsideEntries.length < policy.maxAddresses) :
    (policy.removeFromBook peer address).Bounded := by
  have sub : ∀ (key : AddressKey) (state : AddressState), key ≠ ⟨peer, address⟩ →
      (policy.removeFromBook peer address).addresses[key]? = some state →
      (policy.removeFromBook peer address).outsideBook key = true →
      ∃ old, policy.addresses[key]? = some old ∧ policy.outsideBook key = true := by
    intro key state distinct found outside
    rw [removeFromBook_addresses] at found
    exact ⟨state, found, (outsideBook_removeFromBook outside).resolve_left distinct⟩
  have sameMax : (policy.removeFromBook peer address).maxAddresses = policy.maxAddresses := by
    rw [removeFromBook_framed]
  have samePeers : (policy.removeFromBook peer address).peers.size ≤
      (policy.removeFromBook peer address).maxPeers := by
    rw [removeFromBook_framed]
    exact bounded.peers
  refine ⟨?_, samePeers⟩
  rw [sameMax]
  rcases room with absent | room
  · refine le_trans ?_ bounded.addresses
    rw [outsideEntries_length, outsideEntries_length]
    apply countWhere_le
    intro key state found outside
    by_cases same : key = ⟨peer, address⟩
    · rw [removeFromBook_addresses, same, absent] at found
      cases found
    · exact sub key state same found outside
  · refine le_trans ?_ (Nat.succ_le_of_lt room)
    rw [outsideEntries_length, outsideEntries_length]
    exact countWhere_le_succ ⟨peer, address⟩ sub

theorem removeFromBook_gentle (first : Gentle cleared surfaced nowMs before middle)
    (surfaces : ∀ state, middle.addresses[AddressKey.mk peer address]? = some state →
      state.isPunitiveAt nowMs = true → surfaced ⟨peer, address⟩)
    (room : before.Bounded → middle.addresses[AddressKey.mk peer address]? = none ∨
      middle.outsideEntries.length < middle.maxAddresses) :
    Gentle cleared surfaced nowMs before (middle.removeFromBook peer address) :=
  ⟨first.toSpares.trans (removeFromBook_spares surfaces),
    fun bounded => removeFromBook_bounded (first.bounded bounded) (room bounded)⟩

inductive Released (policy : ConnectionPolicy) (peer : TransportIdentity) (address : String)
    (nowMs : Nat) : ConnectionPolicy × Bool → Prop
  | outside (absent : inBook policy.book peer address = false) :
      Released policy peer address nowMs (policy, true)
  | removed {addresses : AddressTable} (inside : inBook policy.book peer address = true)
      (sheds : Sheds nowMs policy.addresses addresses)
      (room : policy.Bounded → addresses[AddressKey.mk peer address]? = none ∨
        { policy with addresses := addresses }.outsideEntries.length < policy.maxAddresses) :
      Released policy peer address nowMs
        ({ policy with addresses := addresses }.removeFromBook peer address, true)
  | refused {state : AddressState} (inside : inBook policy.book peer address = true)
      (found : policy.address peer address = some state)
      (punitive : state.isPunitiveAt nowMs = true) :
      Released policy peer address nowMs (policy, false)

theorem releaseFromBook_exit (policy : ConnectionPolicy) (peer : TransportIdentity)
    (address : String) (nowMs : Nat) :
    Released policy peer address nowMs (policy.releaseFromBook peer address nowMs) := by
  unfold releaseFromBook
  cases inside : inBook policy.book peer address with
  | false => exact .outside inside
  | true =>
    simp only [Bool.not_true, Bool.false_eq_true, ↓reduceIte]
    cases found : policy.addresses[AddressKey.mk peer address]? with
    | none => exact .removed inside (.refl _) fun _ => .inl found
    | some state =>
      have roomy := fun bounded => @makeRoomForAddress_room policy nowMs bounded
      obtain ⟨addresses, room, sheds⟩ := makeRoomForAddress_sheds
      rw [room] at roomy
      cases made : (policy.makeRoomForAddress nowMs).2 with
      | true =>
        simp only [Bool.not_true, Bool.and_false, Bool.false_eq_true, ↓reduceIte, room]
        exact .removed inside sheds fun bounded => .inr (roomy bounded made)
      | false =>
        have kept : (policy.makeRoomForAddress nowMs).1 = policy := by
          rcases makeRoomForAddress_cases with
            ⟨-, answer⟩ | ⟨_, _, _, _, _, _, answer⟩ | ⟨-, -, answer⟩
          · rw [answer]
          · rw [answer] at made
            cases made
          · rw [answer]
        cases punitive : state.isPunitiveAt nowMs with
        | true => simpa [kept, punitive] using Released.refused inside found punitive
        | false =>
          simp only [punitive, Bool.not_false, Bool.and_true, Bool.false_eq_true, ↓reduceIte, kept]
          exact .removed inside (.erase found punitive) fun _ => .inl (by simp)

/-- Releasing an address is gentle; the only quarantine it can bring to the table is the
address's own, and only one that was in force. -/
theorem releaseFromBook_gentle (surfaces : ∀ state, inBook policy.book peer address = true →
      policy.addresses[AddressKey.mk peer address]? = some state →
      state.isPunitiveAt nowMs = true → surfaced ⟨peer, address⟩) :
    Gentle cleared surfaced nowMs policy (policy.releaseFromBook peer address nowMs).1 := by
  have exit := policy.releaseFromBook_exit peer address nowMs
  generalize policy.releaseFromBook peer address nowMs = answer at exit ⊢
  cases exit with
  | outside _ => exact .refl
  | removed inside sheds room =>
    exact removeFromBook_gentle (.addresses sheds)
      (fun state found => surfaces state inside (sheds.sub _ state found)) room
  | refused _ _ _ => exact .refl

theorem releaseFromBook_true_of_room (few : policy.liveQuarantines nowMs < policy.maxAddresses) :
    (policy.releaseFromBook peer address nowMs).2 = true := by
  have made := makeRoomForAddress_succeeds few
  unfold releaseFromBook
  split
  · rfl
  · dsimp only
    split
    · rfl
    · simp [made]

theorem clearPeerBackoff_gentle :
    Gentle cleared surfaced nowMs policy (policy.clearPeerBackoff peer).1 :=
  .erasePeer peer

theorem shutDown_gentle :
    Gentle cleared surfaced nowMs policy { policy with shuttingDown := true } where
  framed := rfl
  live := fun _ _ _ live => .inr live
  kept := fun _ _ _ kept _ => kept
  noneAdded := fun _ _ held => held
  bounded := fun bounded => ⟨bounded.addresses, bounded.peers⟩

theorem liftPeerBackoff_gentle :
    Gentle cleared surfaced nowMs policy (policy.liftPeerBackoff peer atMs).1 := by
  unfold liftPeerBackoff
  split
  · exact .refl
  next backoff found =>
    split
    · refine .peers fun bounded => ?_
      have present : peer ∈ policy.peers := (mem_iff_get _ _).mpr ⟨backoff, found⟩
      rw [ExtTreeMap.size_insert, if_pos (ExtTreeMap.contains_iff_mem.mpr present)]
      exact bounded.peers
    · exact .refl

theorem admit_quarantined (held : policy.QuarantinedUntil key untilMs) (inForce : nowMs < untilMs)
    (origin : DialOrigin) (cls : ConnectionClass) :
    ∃ denial, policy.admitDial ⟨some key.peer, key.address, origin⟩ cls nowMs = .error denial := by
  obtain ⟨state, found, isUntil⟩ := held
  have punished : policy.quarantined key.peer key.address nowMs = true := by
    have punitive := isPunitiveAt_iff.mpr ⟨untilMs, isUntil, inForce⟩
    unfold quarantined
    rw [show AddressKey.mk key.peer key.address = key from rfl, found]
    simp [isDialableAt_eq_not, punitive]
  simp only [admitDial, punished, ↓reduceIte]
  split
  · exact ⟨_, rfl⟩
  · split
    · exact ⟨_, rfl⟩
    · split <;> exact ⟨_, rfl⟩

end

end ConnectionPolicy

end InterWeave
