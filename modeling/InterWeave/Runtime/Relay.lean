import InterWeave.Api.Identities
import InterWeave.Runtime.RelayCore

/-!
The ceilings of the reservation manager and the order it asks and releases in, over every
sequence of calls, and that an adapter fed only with answers holds the advertised addresses.
-/

namespace InterWeave.Relay

open Std (ExtTreeMap)
open OrderedMap

variable {config : ReservationConfig}

def ReservationState.attempts : ReservationState → Nat
  | .requested _ attempts | .backoff _ attempts => attempts
  | .idle | .active _ _ => 0

def Candidate.Fits (candidate : Candidate) : Prop :=
  candidate.addresses.length ≤ maxAddressesPerRelay ∧
    candidate.state.advertised.length ≤ maxAddressesPerRelay

def RelaySource.limit : RelaySource → Nat
  | .static => maxStaticRelays
  | .learned => maxLearnedRelays

def Candidate.weight (candidate : Candidate) : Nat :=
  (if candidate.state.isActive then 1 else 0) + (if candidate.state.isRequested then 1 else 0)

namespace ReservationManager

variable {manager : ReservationManager} {relay : TransportIdentity} {old : Candidate}

variable {held : Held}

def holding (manager : ReservationManager) : Nat := manager.active + manager.requested

theorem active_put (found : manager.candidates[relay]? = some old) (new : Candidate) :
    (manager.put relay new).active + (if old.state.isActive then 1 else 0) =
      manager.active + (if new.state.isActive then 1 else 0) :=
  countWhere_replace (fun _ (candidate : Candidate) => candidate.state.isActive) found new

theorem holding_put (found : manager.candidates[relay]? = some old) (new : Candidate) :
    (manager.put relay new).holding + old.weight = manager.holding + new.weight := by
  have active := active_put found new
  have requested := countWhere_replace
    (fun _ (candidate : Candidate) => candidate.state.isRequested) found new
  simp only [holding, Candidate.weight, ReservationManager.requested, put] at *
  omega

theorem count_put (found : manager.candidates[relay]? = some old) (new : Candidate)
    (source : RelaySource) :
    (manager.put relay new).count source + (if old.source = source then 1 else 0) =
      manager.count source + (if new.source = source then 1 else 0) := by
  have counted := countWhere_replace
    (fun _ (candidate : Candidate) => decide (candidate.source = source)) found new
  simpa [count, put] using counted

theorem count_put_fresh (absent : manager.candidates[relay]? = none) {new : Candidate} :
    (manager.put relay new).count source =
      (if new.source = source then 1 else 0) + manager.count source := by
  have counted := countWhere_insert_fresh
    (fun _ (candidate : Candidate) => decide (candidate.source = source)) new absent
  simpa [count, put] using counted

theorem holding_put_fresh (absent : manager.candidates[relay]? = none) {new : Candidate} :
    (manager.put relay new).holding = new.weight + manager.holding := by
  have active := countWhere_insert_fresh
    (fun _ (candidate : Candidate) => candidate.state.isActive) new absent
  have requested := countWhere_insert_fresh
    (fun _ (candidate : Candidate) => candidate.state.isRequested) new absent
  simp only [holding, ReservationManager.active, ReservationManager.requested, put,
    Candidate.weight, active, requested]
  omega

theorem size_put (found : manager.candidates[relay]? = some old) {new : Candidate} :
    (manager.put relay new).candidates.size = manager.candidates.size := by
  have present : relay ∈ manager.candidates := (mem_iff_get _ _).mpr ⟨old, found⟩
  simp [put, ExtTreeMap.size_insert, present]

theorem target_put (found : manager.candidates[relay]? = some old) {new : Candidate} :
    (manager.put relay new).target = manager.target := by
  unfold target
  rw [size_put found]
  rfl

def advertisedSum (manager : ReservationManager) : Multiset String :=
  sumOver (fun _ candidate => (candidate.state.advertised : Multiset String))
    manager.candidates

theorem advertised_eq_sum : (manager.advertised : Multiset String) = advertisedSum manager := by
  unfold advertised advertisedSum sumOver
  induction manager.candidates.toList with
  | nil => rfl
  | cons entry rest ih =>
    rw [List.flatMap_cons, ← Multiset.coe_add, ih, List.map_cons, List.sum_cons]

theorem advertisedSum_put (found : manager.candidates[relay]? = some old) (new : Candidate) :
    advertisedSum (manager.put relay new) + old.state.advertised =
      advertisedSum manager + new.state.advertised :=
  sumOver_replace _ found

theorem advertisedSum_put_same (found : manager.candidates[relay]? = some old) {new : Candidate}
    (same : new.state.advertised = old.state.advertised) :
    advertisedSum (manager.put relay new) = advertisedSum manager := by
  have total := advertisedSum_put found new
  rw [same] at total
  exact add_right_cancel total

theorem advertisedSum_put_none (found : manager.candidates[relay]? = some old) (new : Candidate)
    (none : new.state.advertised = []) :
    advertisedSum (manager.put relay new) + old.state.advertised = advertisedSum manager := by
  have total := advertisedSum_put found new
  rwa [none, Multiset.coe_nil, add_zero] at total

structure Sized (manager : ReservationManager) : Prop where
  count : ∀ source, manager.count source ≤ source.limit
  fits : ∀ (relay : TransportIdentity) candidate, manager.candidates[relay]? = some candidate →
    candidate.Fits

theorem Sized.put_fits (sized : Sized manager) {new : Candidate} (fits : new.Fits) :
    ∀ (other : TransportIdentity) candidate,
      (manager.put relay new).candidates[other]? = some candidate → candidate.Fits := by
  intro other candidate held
  simp only [put, get_insert] at held
  split at held
  · cases held
    exact fits
  · exact sized.fits other candidate held

theorem Sized.put (sized : Sized manager) (found : manager.candidates[relay]? = some old)
    {new : Candidate} (source : new.source = old.source) (fits : new.Fits) :
    Sized (manager.put relay new) := by
  refine ⟨fun kind => ?_, sized.put_fits fits⟩
  have same := count_put found new kind
  rw [source] at same
  have before := sized.count kind
  omega

structure Keeps (before after : ReservationManager) : Prop where
  sized : Sized before → Sized after
  holding : after.holding ≤ before.holding
  config : after.config = before.config

theorem Keeps.refl (manager : ReservationManager) : Keeps manager manager := ⟨id, le_rfl, rfl⟩

theorem Keeps.trans (left : Keeps first second) (right : Keeps second third) : Keeps first third :=
  ⟨fun sized => right.sized (left.sized sized), le_trans right.holding left.holding,
    right.config.trans left.config⟩

theorem Keeps.put (found : manager.candidates[relay]? = some old) {new : Candidate}
    (source : new.source = old.source) (fits : old.Fits → new.Fits)
    (weight : new.weight ≤ old.weight) : Keeps manager (manager.put relay new) := by
  refine ⟨fun sized => sized.put found source (fits (sized.fits relay old found)), ?_, rfl⟩
  have total := holding_put found new
  omega

theorem put_same (found : manager.candidates[relay]? = some old) :
    manager.put relay old = manager := by
  rw [put, insert_of_get found]

/-- What an offer of a relay's address does with the candidates. -/
inductive Offer (manager : ReservationManager) : ReservationManager → Prop
  | same : Offer manager manager
  | fresh {relay : TransportIdentity} (absent : manager.candidates[relay]? = none)
      (source : RelaySource) (room : manager.count source < source.limit) (address : String) :
      Offer manager (manager.put relay ⟨[address], source, .idle, none⟩)
  | promoted {relay : TransportIdentity} {old : Candidate}
      (found : manager.candidates[relay]? = some old) (learned : old.source = .learned)
      (room : manager.count .static < maxStaticRelays) (address : String) :
      Offer manager (manager.put relay { old with source := .static, addresses := [address] })
  | added {relay : TransportIdentity} {old : Candidate} {addresses : List String}
      (found : manager.candidates[relay]? = some old)
      (short : addresses.length ≤ maxAddressesPerRelay) :
      Offer manager (manager.put relay { old with addresses := addresses })

theorem addAddress_offer (found : manager.candidates[relay]? = some old) :
    Offer manager (manager.put relay (old.addAddress address).1) := by
  unfold Candidate.addAddress
  split
  · rw [put_same found]
    exact .same
  split
  · rw [put_same found]
    exact .same
  next room => exact .added found (by simpa using Nat.lt_of_not_le room)

theorem addStatic_offer : Offer manager (manager.addStatic relay address).1 := by
  unfold addStatic
  split
  · exact .same
  split
  next candidate found =>
    split
    next learned =>
      split
      · exact .same
      next room => exact .promoted found learned (not_le.mp room) address
    · exact addAddress_offer found
  next absent =>
    split
    · exact .same
    next room => exact .fresh absent .static (not_le.mp room) address

theorem learn_offer : Offer manager (manager.learn relay address).1 := by
  unfold learn
  split
  · exact .same
  split
  next candidate found =>
    split
    · exact .same
    · exact addAddress_offer found
  next absent =>
    split
    · exact .same
    next room => exact .fresh absent .learned (not_le.mp room) address

theorem Offer.keeps (offer : Offer manager next) : Keeps manager next := by
  cases offer with
  | same => exact .refl manager
  | fresh absent source room address =>
    refine ⟨fun sized => ⟨fun kind => ?_, sized.put_fits
      ⟨by simp [maxAddressesPerRelay], Nat.zero_le _⟩⟩, ?_, rfl⟩
    · have before := sized.count kind
      rw [count_put_fresh absent]
      split
      next same =>
        obtain rfl : source = kind := same
        omega
      · omega
    · rw [holding_put_fresh absent]
      simp [Candidate.weight, ReservationState.isActive, ReservationState.isRequested]
  | @promoted relay old found learned room address =>
    refine ⟨fun sized => ⟨fun kind => ?_, sized.put_fits ⟨by simp [maxAddressesPerRelay],
      (sized.fits relay old found).2⟩⟩, ?_, rfl⟩
    · have counted := count_put found { old with source := .static, addresses := [address] } kind
      have before := sized.count kind
      rw [learned] at counted
      cases kind with
      | static => simp [RelaySource.limit] at counted ⊢; omega
      | learned => simp at counted; omega
    · have total := holding_put found { old with source := .static, addresses := [address] }
      exact (add_right_cancel total).le
  | added found short => exact .put found rfl (fun fits => ⟨short, fits.2⟩) le_rfl

theorem forget_keeps : Keeps manager (manager.forget relay).1 := by
  have fewer : ∀ test, countWhere test (manager.candidates.erase relay) ≤
      countWhere test manager.candidates := by
    intro test
    refine countWhere_le fun other candidate held passes => ⟨candidate, ?_, passes⟩
    rw [get_erase] at held
    split at held
    · cases held
    · exact held
  refine ⟨fun sized => ⟨fun kind => (fewer _).trans (sized.count kind),
    fun other candidate held => ?_⟩, Nat.add_le_add (fewer _) (fewer _), rfl⟩
  simp only [forget, get_erase] at held
  split at held
  · cases held
  · exact sized.fits other candidate held

theorem lift_eq :
    (lift config now gateHolds relay candidate).1 = candidate ∨
      ∃ untilMs attempts, candidate.state = .backoff untilMs attempts ∧
        (lift config now gateHolds relay candidate).1 =
          { candidate with state := .backoff now attempts, liftedAtMs := some now } := by
  unfold lift
  split
  · exact .inl rfl
  · split
    next untilMs attempts backoff =>
      split
      · exact .inr ⟨untilMs, attempts, backoff, rfl⟩
      · exact .inl rfl
    · exact .inl rfl

theorem networkAdded_keeps : Keeps manager (manager.networkAdded now gateHolds).1 := by
  have same : ∀ test : Candidate → Bool, (∀ relay candidate,
      test (lift manager.config now gateHolds relay candidate).1 = test candidate) →
      countWhere (fun _ => test) (manager.networkAdded now gateHolds).1.candidates =
        countWhere (fun _ => test) manager.candidates := by
    intro test agrees
    exact countWhere_map _ agrees
  refine ⟨fun sized => ⟨fun kind => le_trans (same (fun candidate =>
      decide (candidate.source = kind)) fun relay candidate => ?_).le (sized.count kind),
    fun relay candidate held => ?_⟩, (congrArg₂ (· + ·) (same _ fun relay candidate => ?_)
      (same _ fun relay candidate => ?_)).le, rfl⟩
  · rcases lift_eq with kept | ⟨_, _, _, lifted⟩
    · rw [kept]
    · rw [lifted]
  · simp only [networkAdded, ExtTreeMap.getElem?_map, Option.map_eq_some_iff] at held
    obtain ⟨before, found, rfl⟩ := held
    have fits := sized.fits relay before found
    rcases lift_eq with kept | ⟨_, _, _, lifted⟩
    · rwa [kept]
    · rw [lifted]
      exact ⟨fits.1, Nat.zero_le _⟩
  · rcases lift_eq with kept | ⟨_, _, was, lifted⟩
    · rw [kept]
    · rw [lifted, was]
      rfl
  · rcases lift_eq with kept | ⟨_, _, was, lifted⟩
    · rw [kept]
    · rw [lifted, was]
      rfl

inductive AcceptExit (manager : ReservationManager) (relay : TransportIdentity)
    (address : String) : ReservationManager × Except RefusedRelayReport Bool → Prop
  | refused (reason : RefusedRelayReport) :
      AcceptExit manager relay address (manager, .error reason)
  | accepted {old : Candidate} {sinceMs : Nat} {addresses : List String} {new : Bool}
      (found : manager.candidates[relay]? = some old)
      (held : old.state.isActive = true ∨ old.state.isRequested = true)
      (gained : addresses = old.state.advertised ++ if new then [address] else [])
      (fits : old.Fits → addresses.length ≤ maxAddressesPerRelay) :
      AcceptExit manager relay address
        (manager.put relay { old with state := .active sinceMs addresses }, .ok new)

theorem recordAccepted_exit (manager : ReservationManager) (relay : TransportIdentity)
    (address : String) (now : Nat) :
    AcceptExit manager relay address (manager.recordAccepted relay address now) := by
  unfold recordAccepted
  split
  · exact .refused _
  split
  · exact .refused _
  next candidate found =>
    split
    next was =>
      refine .accepted found (.inr (by rw [was]; rfl)) (by rw [was]; rfl) fun _ => ?_
      simp [maxAddressesPerRelay]
    next sinceMs addresses was =>
      have active : candidate.state.isActive = true := by rw [was]; rfl
      split
      · have same : { candidate with state := .active sinceMs addresses } = candidate := by
          rw [← was]
        have exit : AcceptExit manager relay address
            (manager.put relay { candidate with state := .active sinceMs addresses }, .ok false) :=
          .accepted found (.inl active) (by rw [was]; exact (List.append_nil _).symm)
            fun fits => by simpa [was, ReservationState.advertised] using fits.2
        rwa [same, put_same found] at exit
      split
      · exact .refused _
      next room =>
        refine .accepted found (.inl active) (by rw [was]; rfl) fun _ => ?_
        simpa using Nat.lt_of_not_le room
    · exact .refused _
    · exact .refused _

theorem AcceptExit.keeps (exit : AcceptExit manager relay address answer) :
    Keeps manager answer.1 := by
  cases exit with
  | refused reason => exact .refl manager
  | accepted found held gained fits =>
    refine .put found rfl (fun before => ⟨before.1, fits before⟩) (show 1 ≤ _ from ?_)
    rcases held with held | held <;> simp [Candidate.weight, held]

inductive FailExit (manager : ReservationManager) (relay : TransportIdentity) (now jitter : Nat) :
    ReservationManager × Except RefusedRelayReport (List String) → Prop
  | refused (reason : RefusedRelayReport) :
      FailExit manager relay now jitter (manager, .error reason)
  | failed {old : Candidate} (found : manager.candidates[relay]? = some old) :
      FailExit manager relay now jitter
        (manager.put relay (failed manager.config old old.state.attempts now jitter),
          .ok old.state.advertised)

theorem recordFailed_exit (manager : ReservationManager) (relay : TransportIdentity)
    (now jitter : Nat) :
    FailExit manager relay now jitter (manager.recordFailed relay now jitter) := by
  unfold recordFailed
  split
  · exact .refused _
  next old found =>
    have exit : FailExit manager relay now jitter _ := .failed found
    cases state : old.state with
    | idle => exact .refused _
    | requested | active | backoff => rwa [state] at exit

theorem FailExit.keeps (exit : FailExit manager relay now jitter answer) :
    Keeps manager answer.1 := by
  cases exit with
  | refused reason => exact .refl manager
  | failed found => exact .put found rfl (fun fits => ⟨fits.1, Nat.zero_le _⟩) (Nat.zero_le _)

def heldAt (manager : ReservationManager) (relay : TransportIdentity) : Option Held :=
  manager.candidates[relay]?.bind fun candidate => heldOf (relay, candidate)

theorem heldAt_put : (manager.put relay candidate).heldAt other =
      if relay = other then heldOf (relay, candidate) else manager.heldAt other := by
  simp only [heldAt, put, get_insert]
  split
  next same => subst same; rfl
  · rfl

theorem heldOf_relay (found : heldOf entry = some held) : held.relay = entry.1 := by
  unfold heldOf at found
  split at found
  · cases found
    rfl
  · cases found

theorem heldAt_relay (found : manager.heldAt relay = some held) : held.relay = relay := by
  simp only [heldAt, Option.bind_eq_some_iff] at found
  obtain ⟨candidate, -, here⟩ := found
  exact heldOf_relay here

theorem heldAt_active (holds : manager.heldAt relay = some held) :
    ∃ candidate addresses, manager.candidates[relay]? = some candidate ∧
      candidate.state = .active held.sinceMs addresses := by
  simp only [heldAt, Option.bind_eq_some_iff, heldOf] at holds
  obtain ⟨candidate, found, here⟩ := holds
  split at here
  next sinceMs addresses active =>
    cases here
    exact ⟨candidate, addresses, found, active⟩
  · cases here

def releasedBy (actions : List Action) : List TransportIdentity :=
  actions.filterMap fun action =>
    match action with
    | .release relay _ => some relay
    | .reserve _ _ => none

def reservedBy (actions : List Action) : List TransportIdentity :=
  actions.filterMap fun action =>
    match action with
    | .reserve relay _ => some relay
    | .release _ _ => none

structure SameFrame (before after : ReservationManager) : Prop where
  target : after.target = before.target
  keeps : Keeps before after

theorem releaseOne_held (holds : state.1.heldAt held.relay = some held) :
    (releaseOne state held).1.heldAt =
        (fun relay => if held.relay = relay then none else state.1.heldAt relay) ∧
      (releaseOne state held).1.active + 1 = state.1.active ∧
      releasedBy (releaseOne state held).2 = releasedBy state.2 ++ [held.relay] ∧
      reservedBy (releaseOne state held).2 = reservedBy state.2 ∧
      SameFrame state.1 (releaseOne state held).1 := by
  obtain ⟨candidate, addresses, found, active⟩ := heldAt_active holds
  have after : releaseOne state held = (state.1.put held.relay { candidate with state := .idle },
      state.2 ++ [.release held.relay addresses]) := by
    simp only [releaseOne, found, active]
  rw [after]
  refine ⟨?_, ?_, by simp [releasedBy], by simp [reservedBy],
    ⟨target_put found, .put found rfl (fun fits => ⟨fits.1, Nat.zero_le _⟩) (Nat.zero_le _)⟩⟩
  · funext relay
    rw [heldAt_put]
    rfl
  · have counted := active_put found { candidate with state := .idle }
    simpa [active, ReservationState.isActive] using counted

theorem SameFrame.refl (manager : ReservationManager) : SameFrame manager manager :=
  ⟨rfl, .refl manager⟩

theorem SameFrame.trans (left : SameFrame first second) (right : SameFrame second third) :
    SameFrame first third :=
  ⟨right.target.trans left.target, left.keeps.trans right.keeps⟩

theorem releaseAll (helds : List Held) (state : ReservationManager × List Action)
    (distinct : (helds.map Held.relay).Nodup)
    (holds : ∀ held ∈ helds, state.1.heldAt held.relay = some held) :
    (helds.foldl releaseOne state).1.heldAt =
        (fun relay => if relay ∈ helds.map Held.relay then none else state.1.heldAt relay) ∧
      (helds.foldl releaseOne state).1.active + helds.length = state.1.active ∧
      releasedBy (helds.foldl releaseOne state).2 =
        releasedBy state.2 ++ helds.map Held.relay ∧
      reservedBy (helds.foldl releaseOne state).2 = reservedBy state.2 ∧
      SameFrame state.1 (helds.foldl releaseOne state).1 := by
  induction helds generalizing state with
  | nil => exact ⟨by simp, rfl, by simp, rfl, .refl _⟩
  | cons held rest ih =>
    rw [List.map_cons, List.nodup_cons] at distinct
    obtain ⟨after, active, released, reserved, frame⟩ :=
      releaseOne_held (holds held List.mem_cons_self)
    have still : ∀ other ∈ rest, (releaseOne state held).1.heldAt other.relay = some other := by
      intro other member
      have apart : held.relay ≠ other.relay := by
        intro same
        exact distinct.1 (same ▸ List.mem_map_of_mem member)
      rw [after]
      simp only [if_neg apart]
      exact holds other (List.mem_cons_of_mem held member)
    obtain ⟨laterHeld, laterActive, laterReleased, laterReserved, laterFrame⟩ :=
      ih (releaseOne state held) distinct.2 still
    rw [List.foldl_cons]
    refine ⟨?_, ?_, ?_, laterReserved.trans reserved, frame.trans laterFrame⟩
    · rw [laterHeld, after]
      funext relay
      by_cases same : held.relay = relay
      · simp [same]
      · simp [same, Ne.symm same]
    · rw [List.length_cons]
      omega
    · rw [laterReleased, released, List.map_cons, List.append_assoc, List.singleton_append]

def GoesFirst (manager : ReservationManager) (first second : TransportIdentity) : Prop :=
  ∃ early late, manager.heldAt first = some early ∧ manager.heldAt second = some late ∧
    (early.source = .learned ∧ late.source = .static ∨
      early.source = late.source ∧ late.sinceMs ≤ early.sinceMs)

structure SurplusReleased (before after : ReservationManager)
    (released : List TransportIdentity) : Prop where
  active_le : after.active ≤ after.target
  surplus : released.length = before.active - after.target
  gone : ∀ relay, after.heldAt relay = if relay ∈ released then none else before.heldAt relay
  ordered : released.Pairwise before.GoesFirst
  kept : ∀ relay ∈ released, ∀ other, (after.heldAt other).isSome = true →
    before.GoesFirst relay other

def heldList (manager : ReservationManager) : List Held :=
  manager.candidates.toList.filterMap heldOf

theorem length_heldList (manager : ReservationManager) :
    manager.heldList.length = manager.active := by
  rw [heldList, List.length_filterMap_eq_countP, active, countWhere,
    List.countP_eq_length_filter]
  congr 2
  funext entry
  unfold heldOf ReservationState.isActive
  cases entry.2.state <;> rfl

theorem nodup_heldList : (manager.heldList.map Held.relay).Nodup := by
  rw [heldList, List.Nodup, List.pairwise_map, List.pairwise_filterMap]
  refine manager.candidates.distinct_keys_toList.imp ?_
  intro first second distinct held here other there same
  rw [heldOf_relay here, heldOf_relay there] at same
  exact distinct (Std.LawfulEqCmp.compare_eq_iff_eq.mpr same)

theorem mem_heldList : held ∈ manager.heldList ↔ manager.heldAt held.relay = some held := by
  simp only [heldList, heldAt, List.mem_filterMap, Option.bind_eq_some_iff, Prod.exists]
  constructor
  · rintro ⟨relay, candidate, member, here⟩
    have same := heldOf_relay here
    subst same
    exact ⟨candidate, ExtTreeMap.mem_toList_iff_getElem?_eq_some.mp member, here⟩
  · rintro ⟨candidate, found, here⟩
    exact ⟨held.relay, candidate, ExtTreeMap.mem_toList_iff_getElem?_eq_some.mpr found, here⟩

theorem Held.key_le {early late : Held} (order : early.key ≤ late.key) :
    early.source = .learned ∧ late.source = .static ∨
      early.source = late.source ∧ late.sinceMs ≤ early.sinceMs := by
  simp only [Held.key, Prod.Lex.toLex_le_toLex, OrderDual.toDual_lt_toDual,
    OrderDual.toDual_le_toDual, EmbeddingLike.apply_eq_iff_eq] at order
  rcases earlySource : early.source with _ | _ <;> rcases lateSource : late.source with _ | _ <;>
    simp_all [RelaySource.rank]

theorem goesFirst_of_key (first : manager.heldAt early.relay = some early)
    (second : manager.heldAt late.relay = some late) (order : early.key ≤ late.key) :
    manager.GoesFirst early.relay late.relay :=
  ⟨early, late, first, second, Held.key_le order⟩

open KeySort

theorem releaseSurplus_spec (manager : ReservationManager) :
    SurplusReleased manager manager.releaseSurplus.1 (releasedBy manager.releaseSurplus.2) ∧
      reservedBy manager.releaseSurplus.2 = [] ∧
      SameFrame manager manager.releaseSurplus.1 := by
  unfold releaseSurplus
  split
  next enough =>
    refine ⟨⟨enough, ?_, fun relay => by simp [releasedBy], by simp [releasedBy],
      by simp [releasedBy]⟩, rfl, .refl manager⟩
    simp only [releasedBy, List.filterMap_nil, List.length_nil]
    omega
  next more =>
    have sorted : (sortByKey Held.key manager.heldList).Perm manager.heldList :=
      sortByKey_perm Held.key manager.heldList
    have length : manager.surplus.length = manager.active - manager.target := by
      have sameLength := length_heldList manager
      rw [surplus, ← heldList, List.length_take, length_sortByKey]
      omega
    have holds : ∀ held ∈ sortByKey Held.key manager.heldList,
        manager.heldAt held.relay = some held :=
      fun held member => mem_heldList.mp (sorted.mem_iff.mp member)
    have part : manager.surplus.Sublist (sortByKey Held.key manager.heldList) :=
      List.take_sublist _ _
    have distinct : (manager.surplus.map Held.relay).Nodup :=
      ((sorted.map Held.relay).nodup_iff.mpr nodup_heldList).sublist
        (part.map Held.relay)
    obtain ⟨after, active, released, reserved, frame⟩ := releaseAll manager.surplus (manager, [])
      distinct fun held member => holds held (part.subset member)
    simp only [releasedBy, reservedBy, List.filterMap_nil, List.nil_append] at released reserved
    refine ⟨⟨?_, ?_, ?_, ?_, ?_⟩, reserved, frame⟩
    · rw [frame.target]
      simp only at active ⊢
      omega
    · rw [releasedBy, released, frame.target, List.length_map, length]
    · intro relay
      rw [after, releasedBy, released]
    · rw [releasedBy, released, List.pairwise_map]
      refine List.Pairwise.imp_of_mem ?_
        ((sortByKey_pairwise Held.key manager.heldList).sublist part)
      intro early late earlyIn lateIn order
      exact goesFirst_of_key (holds early (part.subset earlyIn))
        (holds late (part.subset lateIn)) order
    · intro relay member other remains
      rw [releasedBy, released] at member
      obtain ⟨early, earlyIn, rfl⟩ := List.mem_map.mp member
      rw [after] at remains
      simp only at remains
      split at remains
      · cases remains
      next notReleased =>
        obtain ⟨late, found⟩ := Option.isSome_iff_exists.mp remains
        have isRelay := heldAt_relay found
        subst isRelay
        have inList : late ∈ sortByKey Held.key manager.heldList :=
          sorted.mem_iff.mpr (mem_heldList.mpr found)
        have inDrop : late ∈ (sortByKey Held.key manager.heldList).drop
            (manager.active - manager.target) := by
          rw [← List.take_append_drop (manager.active - manager.target)
            (sortByKey Held.key manager.heldList), List.mem_append] at inList
          rcases inList with taken | dropped
          · exact absurd (List.mem_map_of_mem taken) notReleased
          · exact dropped
        exact goesFirst_of_key (holds early (part.subset earlyIn)) found
          (take_le_drop Held.key manager.heldList _ earlyIn inDrop)

structure Asked (before after : ReservationManager × List Action)
    (relays : List TransportIdentity) : Prop where
  heldAt : after.1.heldAt = before.1.heldAt
  active : after.1.active = before.1.active
  holding : after.1.holding ≤ before.1.holding + relays.length
  target : after.1.target = before.1.target
  config : after.1.config = before.1.config
  sized : Sized before.1 → Sized after.1
  known : ∀ relay, relay ∈ before.1.candidates → relay ∈ after.1.candidates
  released : releasedBy after.2 = releasedBy before.2
  reserved : reservedBy after.2 = reservedBy before.2 ++ relays
  advertised : advertisedSum after.1 = advertisedSum before.1
  withdrawn : after.2.flatMap Action.withdrawn = before.2.flatMap Action.withdrawn

theorem askOne_asked (now : Nat) (known : relay ∈ state.1.candidates)
    (free : state.1.heldAt relay = none) :
    Asked state (askOne now state relay) [relay] := by
  obtain ⟨candidate, found⟩ := (mem_iff_get _ _).mp known
  have idle : candidate.state.isActive = false ∧ candidate.state.advertised = [] := by
    simp only [ReservationManager.heldAt, found, Option.bind_some, heldOf] at free
    cases state : candidate.state with
    | active sinceMs addresses => simp [state] at free
    | idle | requested | backoff => exact ⟨rfl, rfl⟩
  obtain ⟨attempts, after⟩ : ∃ attempts, askOne now state relay =
      (state.1.put relay { candidate with state := .requested now attempts },
        state.2 ++ [.reserve relay candidate.addresses]) := by
    simp only [askOne, found]
    exact ⟨_, rfl⟩
  rw [after]
  refine ⟨?_, ?_, ?_, target_put found, rfl, fun sized => ?_, fun other member => ?_,
    by simp [releasedBy], by simp [reservedBy], advertisedSum_put_same found idle.2.symm,
    by simp [Action.withdrawn]⟩
  · funext other
    rw [heldAt_put]
    split
    next same =>
      subst same
      exact free.symm
    · rfl
  · have counted := active_put found { candidate with state := .requested now attempts }
    rw [idle.1] at counted
    exact counted
  · have total := holding_put found { candidate with state := .requested now attempts }
    have one : Candidate.weight { candidate with state := .requested now attempts } = 1 := rfl
    rw [one] at total
    exact (Nat.le_add_right _ _).trans total.le
  · exact sized.put found rfl ⟨(sized.fits relay candidate found).1, Nat.zero_le _⟩
  · exact (mem_insert _ _ _ _).mpr (.inr member)

theorem askAll (now : Nat) (relays : List TransportIdentity)
    (state : ReservationManager × List Action)
    (free : ∀ relay ∈ relays, relay ∈ state.1.candidates ∧ state.1.heldAt relay = none) :
    Asked state (relays.foldl (askOne now) state) relays := by
  induction relays generalizing state with
  | nil => exact ⟨rfl, rfl, le_rfl, rfl, rfl, id, fun _ => id, rfl, by simp, rfl, rfl⟩
  | cons relay rest ih =>
    have here := free relay List.mem_cons_self
    have first := askOne_asked now here.1 here.2
    have later := ih (askOne now state relay) fun other member => by
      have before := free other (List.mem_cons_of_mem relay member)
      exact ⟨first.known other before.1, by rw [first.heldAt]; exact before.2⟩
    rw [List.foldl_cons]
    refine ⟨later.heldAt.trans first.heldAt, later.active.trans first.active, ?_,
      later.target.trans first.target, later.config.trans first.config,
      fun sized => later.sized (first.sized sized),
      fun other member => later.known other (first.known other member),
      later.released.trans first.released, ?_, later.advertised.trans first.advertised,
      later.withdrawn.trans first.withdrawn⟩
    · have one := first.holding
      have more := later.holding
      rw [List.length_singleton] at one
      rw [List.length_cons]
      omega
    · rw [later.reserved, first.reserved, List.append_assoc, List.singleton_append]

theorem mem_askable : relay ∈ manager.askable now ↔
    ∃ candidate, manager.candidates[relay]? = some candidate ∧
      candidate.state.isAskable now = true := by
  simp only [askable, List.mem_map, mem_sortByKey, List.mem_filter, Prod.exists]
  constructor
  · rintro ⟨other, candidate, ⟨member, due⟩, rfl⟩
    exact ⟨candidate, ExtTreeMap.mem_toList_iff_getElem?_eq_some.mp member, due⟩
  · rintro ⟨candidate, found, due⟩
    exact ⟨relay, candidate, ⟨ExtTreeMap.mem_toList_iff_getElem?_eq_some.mpr found, due⟩, rfl⟩

theorem askable_free (due : relay ∈ manager.askable now) :
    relay ∈ manager.candidates ∧ manager.heldAt relay = none := by
  obtain ⟨candidate, found, due⟩ := mem_askable.mp due
  refine ⟨(mem_iff_get _ _).mpr ⟨candidate, found⟩, ?_⟩
  simp only [heldAt, found, Option.bind_some, heldOf]
  split
  next active => simp [active, ReservationState.isAskable] at due
  · rfl

theorem tick_eq :
    manager.tick now = ((manager.askDue now).1.releaseSurplus.1,
      (manager.askDue now).2 ++ (manager.askDue now).1.releaseSurplus.2) := rfl

theorem askDue_asked (manager : ReservationManager) (now : Nat) :
    Asked (manager, []) (manager.askDue now) (manager.toAsk now) :=
  askAll now _ _ fun _ member => askable_free (List.mem_of_mem_take member)

theorem tick_reserved : reservedBy (manager.tick now).2 = manager.toAsk now := by
  have asked := (askDue_asked manager now).reserved
  have released := (releaseSurplus_spec (manager.askDue now).1).2.1
  rw [tick_eq]
  simp only [reservedBy, List.filterMap_append] at asked released ⊢
  rw [asked, released]
  simp

theorem toAsk_static_first (member : learned ∈ manager.toAsk now)
    (found : manager.candidates[learned]? = some asked) (isLearned : asked.source = .learned)
    (known : manager.candidates[static]? = some waiting) (isStatic : waiting.source = .static)
    (due : waiting.state.isAskable now = true) : static ∈ manager.toAsk now := by
  rw [toAsk, askable, ← List.map_take] at member ⊢
  obtain ⟨entry, inFront, rfl⟩ := List.mem_map.mp member
  have listed := (mem_sortByKey _ _).mp (List.mem_of_mem_take inFront)
  have entryFound : manager.candidates[entry.1]? = some entry.2 :=
    ExtTreeMap.mem_toList_iff_getElem?_eq_some.mp (List.mem_filter.mp listed).1
  have sameCandidate : entry.2 = asked := Option.some.inj (entryFound.symm.trans found)
  have waits : (static, waiting) ∈ sortByKey askKey
      (manager.candidates.toList.filter fun entry => entry.2.state.isAskable now) :=
    (mem_sortByKey _ _).mpr (List.mem_filter.mpr
      ⟨ExtTreeMap.mem_toList_iff_getElem?_eq_some.mpr known, due⟩)
  rw [← List.take_append_drop (manager.target - (manager.active + manager.requested))
    (sortByKey askKey _), List.mem_append] at waits
  rcases waits with taken | dropped
  · exact List.mem_map_of_mem taken
  · have order := take_le_drop askKey _ _ inFront dropped
    simp [askKey, Prod.Lex.toLex_le_toLex, sameCandidate, isLearned, isStatic,
      RelaySource.rank] at order

theorem tick_surplus (manager : ReservationManager) (now : Nat) :
    SurplusReleased manager (manager.tick now).1 (releasedBy (manager.tick now).2) := by
  have asked := askDue_asked manager now
  rw [tick_eq]
  generalize manager.askDue now = due at asked ⊢
  obtain ⟨release, -, -⟩ := releaseSurplus_spec due.1
  have released : releasedBy (due.2 ++ due.1.releaseSurplus.2) =
      releasedBy due.1.releaseSurplus.2 := by
    have nothing := asked.released
    simp only [releasedBy, List.filterMap_nil] at nothing
    simp [releasedBy, nothing]
  have sameOrder : GoesFirst due.1 = GoesFirst manager := by
    funext first second
    unfold GoesFirst
    rw [asked.heldAt]
  rw [released]
  refine ⟨release.active_le, ?_, ?_, ?_, ?_⟩
  · have surplus := release.surplus
    rwa [asked.active] at surplus
  · intro relay
    have gone := release.gone relay
    rwa [asked.heldAt] at gone
  · have ordered := release.ordered
    rwa [sameOrder] at ordered
  · have kept := release.kept
    rwa [sameOrder] at kept

theorem tick_bounded (sized : Sized manager)
    (bound : manager.holding ≤ manager.config.maxReservations) :
    Sized (manager.tick now).1 ∧
      (manager.tick now).1.holding ≤ manager.config.maxReservations ∧
      (manager.tick now).1.config = manager.config := by
  have asked := askDue_asked manager now
  rw [tick_eq]
  generalize manager.askDue now = due at asked ⊢
  have released := (releaseSurplus_spec due.1).2.2.keeps
  refine ⟨released.sized (asked.sized sized), le_trans released.holding ?_,
    released.config.trans asked.config⟩
  have more : _ ≤ manager.holding + (manager.toAsk now).length := asked.holding
  have few : (manager.toAsk now).length ≤ manager.target - manager.holding :=
    List.length_take_le _ _
  have top : manager.target ≤ manager.config.maxReservations :=
    le_trans (Nat.min_le_left _ _) (Nat.min_le_left _ _)
  omega

end ReservationManager

open ReservationManager

theorem setDirectInbound_surplus (manager : ReservationManager) (state : DirectInboundState) :
    SurplusReleased manager (manager.setDirectInbound state).1
      (releasedBy (manager.setDirectInbound state).2) := by
  obtain ⟨release, -, -⟩ := releaseSurplus_spec { manager with directInbound := state }
  exact ⟨release.active_le, release.surplus, release.gone, release.ordered, release.kept⟩

structure Bounded (config : ReservationConfig) (manager : ReservationManager) : Prop where
  sameConfig : manager.config = config
  holding : manager.holding ≤ config.maxReservations
  sized : Sized manager

theorem Bounded.keeps (bounded : Bounded config before) (keeps : Keeps before after) :
    Bounded config after :=
  ⟨keeps.config.trans bounded.sameConfig, le_trans keeps.holding bounded.holding,
    keeps.sized bounded.sized⟩

theorem Bounded.step (bounded : Bounded config manager) (call : Call) :
    Bounded config (step manager call) := by
  cases call with
  | addStatic relay address => exact bounded.keeps addStatic_offer.keeps
  | learn relay address => exact bounded.keeps learn_offer.keeps
  | forget relay => exact bounded.keeps forget_keeps
  | setDirectInbound state =>
    have verdict : Bounded config { manager with directInbound := state } :=
      ⟨bounded.sameConfig, bounded.holding, bounded.sized.count, bounded.sized.fits⟩
    exact verdict.keeps (releaseSurplus_spec _).2.2.keeps
  | tick now =>
    have bound := bounded.holding
    rw [← bounded.sameConfig] at bound
    obtain ⟨sized, holding, same⟩ := tick_bounded bounded.sized bound
    rw [bounded.sameConfig] at holding same
    exact ⟨same, holding, sized⟩
  | recordAccepted relay address now =>
    exact bounded.keeps (recordAccepted_exit manager relay address now).keeps
  | recordFailed relay now jitter =>
    exact bounded.keeps (recordFailed_exit manager relay now jitter).keeps
  | networkAdded now gateHolds => exact bounded.keeps networkAdded_keeps

section

variable (built : ReservationManager.new config = .ok manager)

include built

theorem new_eq : manager = ⟨config, ∅, .unknown⟩ := by
  unfold ReservationManager.new at built
  split at built
  · cases built
  · split at built
    · cases built
    · split at built
      · cases built
      · cases built
        rfl

theorem Bounded.new : Bounded config manager := by
  rw [new_eq built]
  refine ⟨rfl, ?_, fun source => ?_, fun relay candidate held => ?_⟩
  · simp [ReservationManager.holding, active, requested, countWhere_eq_sumOver]
  · simp [count, countWhere_eq_sumOver]
  · cases (ExtTreeMap.getElem?_empty (a := relay)).symm.trans held

theorem run_bounded : Bounded config (run manager calls) :=
  List.foldlRecOn calls (motive := Bounded config) step (.new built)
    fun _ bounded call _ => bounded.step call

end

theorem mem_reservedBy :
    relay ∈ reservedBy actions ↔ ∃ addresses, Action.reserve relay addresses ∈ actions := by
  simp only [reservedBy, List.mem_filterMap]
  constructor
  · rintro ⟨action, member, here⟩
    cases action with
    | reserve other addresses =>
      cases here
      exact ⟨addresses, member⟩
    | release other addresses => cases here
  · rintro ⟨addresses, member⟩
    exact ⟨_, member, rfl⟩

/-- The ceilings hold after any calls, a tick asks static relays first, and a tick or a new
verdict leaves no surplus. -/
theorem reservations_bounded (config : ReservationConfig) (manager : ReservationManager)
    (built : ReservationManager.new config = .ok manager) (calls : List Call) :
    let reached := run manager calls
    reached.active + reached.requested ≤ config.maxReservations ∧
    reached.count .static ≤ maxStaticRelays ∧ reached.count .learned ≤ maxLearnedRelays ∧
    (∀ (relay : TransportIdentity) candidate, reached.candidates[relay]? = some candidate →
      candidate.addresses.length ≤ maxAddressesPerRelay ∧
      candidate.state.advertised.length ≤ maxAddressesPerRelay) ∧
    (∀ (now : Nat) (relay : TransportIdentity) (addresses : List String) (candidate : Candidate),
      Action.reserve relay addresses ∈ (reached.tick now).2 →
      reached.candidates[relay]? = some candidate → candidate.source = .learned →
      ∀ (other : TransportIdentity) (waiting : Candidate),
        reached.candidates[other]? = some waiting → waiting.source = .static →
        waiting.state.isAskable now = true →
        ∃ addresses, Action.reserve other addresses ∈ (reached.tick now).2) ∧
    (∀ state, SurplusReleased reached (reached.setDirectInbound state).1
      (releasedBy (reached.setDirectInbound state).2)) ∧
    ∀ now, SurplusReleased reached (reached.tick now).1 (releasedBy (reached.tick now).2) := by
  intro reached
  have bounded : Bounded config reached := run_bounded built
  refine ⟨bounded.holding, bounded.sized.count .static, bounded.sized.count .learned,
    bounded.sized.fits, ?_, setDirectInbound_surplus reached, tick_surplus reached⟩
  intro now relay addresses candidate asked found isLearned other waiting known isStatic due
  have member : relay ∈ reached.toAsk now := by
    rw [← tick_reserved]
    exact mem_reservedBy.mpr ⟨addresses, asked⟩
  have first := toAsk_static_first member found isLearned known isStatic due
  rw [← tick_reserved] at first
  exact mem_reservedBy.mp first

def tight : ReservationConfig := { maxReservations := 2 }

/-- One relay is configured and more are learned than fit; two of them accept. -/
def crowded : List Call :=
  .addStatic (.numbered 17) "/ip4/192.0.2.9/tcp/4001" ::
    ((List.range 17).map fun relay => .learn (.numbered relay) "/ip4/192.0.2.1/tcp/4001") ++
    [.tick 0, .recordAccepted (.numbered 17) "/ip4/192.0.2.9/p2p-circuit" 1,
      .recordAccepted (.numbered 0) "/ip4/192.0.2.1/p2p-circuit" 2]

/-- Both bounds are met, and a public verdict makes the learned relay's reservation surplus. -/
theorem reservations_bounded_sample : ReservationManager.new tight = .ok ⟨tight, ∅, .unknown⟩ ∧
    let reached := run ⟨tight, ∅, .unknown⟩ crowded
    reached.active + reached.requested = tight.maxReservations ∧
      reached.count .learned = maxLearnedRelays ∧
      releasedBy (reached.setDirectInbound .verifiedPublic).2 = [.numbered 0] ∧
      SurplusReleased reached (reached.setDirectInbound .verifiedPublic).1
        (releasedBy (reached.setDirectInbound .verifiedPublic).2) := by
  obtain ⟨-, -, -, -, -, surplus, -⟩ :=
    reservations_bounded tight ⟨tight, ∅, .unknown⟩ rfl crowded
  exact ⟨rfl, by decide +kernel, by decide +kernel, by decide +kernel, surplus .verifiedPublic⟩

section

variable {manager : ReservationManager} {relay : TransportIdentity} {old : Candidate}

theorem forget_advertised (manager : ReservationManager) (relay : TransportIdentity) :
    advertisedSum (manager.forget relay).1 + ((manager.forget relay).2 : Multiset String) =
      advertisedSum manager := by
  unfold forget
  split
  next candidate found =>
    rw [add_comm]
    exact (sumOver_erase
      (fun _ (candidate : Candidate) => (candidate.state.advertised : Multiset String))
      found).symm
  next absent => simp [advertisedSum, erase_of_get_none absent]

theorem ReservationManager.Offer.advertised (offer : Offer manager next) :
    advertisedSum next = advertisedSum manager := by
  cases offer with
  | same => rfl
  | fresh absent => exact (sumOver_insert_fresh _ absent).trans (zero_add _)
  | promoted found => exact advertisedSum_put_same found rfl
  | added found => exact advertisedSum_put_same found rfl

theorem networkAdded_advertised :
    advertisedSum (manager.networkAdded now gateHolds).1 = advertisedSum manager := by
  unfold advertisedSum networkAdded
  rw [sumOver_map]
  congr 1
  funext relay candidate
  rcases lift_eq with kept | ⟨_, _, was, lifted⟩
  · rw [kept]
  · rw [lifted, was]
    rfl

theorem releaseOne_advertised :
    advertisedSum (releaseOne state held).1 +
      ((releaseOne state held).2.flatMap Action.withdrawn : Multiset String) =
    advertisedSum state.1 + (state.2.flatMap Action.withdrawn : Multiset String) := by
  unfold releaseOne
  split
  · rfl
  next candidate found =>
    split
    next sinceMs addresses active =>
      have gone := advertisedSum_put_none found { candidate with state := .idle } rfl
      rw [active] at gone
      simp only [List.flatMap_append, List.flatMap_cons, List.flatMap_nil, List.append_nil,
        Action.withdrawn, ← Multiset.coe_add]
      rw [← gone, add_right_comm, add_assoc]
      rfl
    · rfl

theorem releaseAll_advertised {helds : List Held} :
    advertisedSum (helds.foldl releaseOne state).1 +
      ((helds.foldl releaseOne state).2.flatMap Action.withdrawn : Multiset String) =
    advertisedSum state.1 + (state.2.flatMap Action.withdrawn : Multiset String) := by
  induction helds generalizing state with
  | nil => rfl
  | cons held rest ih => rw [List.foldl_cons, ih, releaseOne_advertised]

theorem releaseSurplus_advertised (manager : ReservationManager) :
    advertisedSum manager.releaseSurplus.1 +
      (manager.releaseSurplus.2.flatMap Action.withdrawn : Multiset String) =
    advertisedSum manager := by
  unfold releaseSurplus
  split
  · exact add_zero _
  · exact releaseAll_advertised.trans (add_zero _)

theorem setDirectInbound_advertised (manager : ReservationManager) (state : DirectInboundState) :
    advertisedSum (manager.setDirectInbound state).1 +
      ((manager.setDirectInbound state).2.flatMap Action.withdrawn : Multiset String) =
    advertisedSum manager :=
  releaseSurplus_advertised { manager with directInbound := state }

theorem tick_advertised (manager : ReservationManager) (now : Nat) :
    advertisedSum (manager.tick now).1 +
      ((manager.tick now).2.flatMap Action.withdrawn : Multiset String) =
    advertisedSum manager := by
  have asked := askDue_asked manager now
  rw [tick_eq]
  generalize manager.askDue now = due at asked ⊢
  have released := releaseSurplus_advertised due.1
  simp only [List.flatMap_append, asked.withdrawn, List.flatMap_nil, List.nil_append]
  exact released.trans asked.advertised

theorem Mirror.withdraw_mirrors {mirror : Mirror} {addresses : List String}
    (mirrors : mirror.external = advertisedSum mirror.manager)
    (gone : advertisedSum next + (addresses : Multiset String) = advertisedSum mirror.manager) :
    (mirror.withdraw next addresses).external =
      advertisedSum (mirror.withdraw next addresses).manager := by
  simp only [Mirror.withdraw]
  rw [mirrors, ← gone]
  exact add_tsub_cancel_right _ _

theorem Mirror.step_mirrors {mirror : Mirror}
    (mirrors : mirror.external = advertisedSum mirror.manager) (call : Call) :
    (mirror.step call).external = advertisedSum (mirror.step call).manager := by
  cases call with
  | addStatic relay address => exact mirrors.trans addStatic_offer.advertised.symm
  | learn relay address => exact mirrors.trans learn_offer.advertised.symm
  | networkAdded now gateHolds => exact mirrors.trans networkAdded_advertised.symm
  | forget relay =>
    have gone := withdraw_mirrors mirrors (forget_advertised mirror.manager relay)
    simpa only [Mirror.step] using gone
  | setDirectInbound state =>
    have gone := withdraw_mirrors mirrors (setDirectInbound_advertised mirror.manager state)
    simpa only [Mirror.step] using gone
  | tick now =>
    have gone := withdraw_mirrors mirrors (tick_advertised mirror.manager now)
    simpa only [Mirror.step] using gone
  | recordFailed relay now jitter =>
    have exit := recordFailed_exit mirror.manager relay now jitter
    simp only [Mirror.step]
    generalize mirror.manager.recordFailed relay now jitter = answer at exit ⊢
    cases exit with
    | refused reason => exact mirrors
    | failed found => exact withdraw_mirrors mirrors (advertisedSum_put_none found _ rfl)
  | recordAccepted relay address now =>
    have exit := recordAccepted_exit mirror.manager relay address now
    simp only [Mirror.step]
    generalize mirror.manager.recordAccepted relay address now = answer at exit ⊢
    cases exit with
    | refused reason => exact mirrors
    | @accepted old sinceMs addresses new found held gained fits =>
      have total := advertisedSum_put found { old with state := .active sinceMs addresses }
      have sum := total.trans (congrArg _ (congrArg _ gained))
      rw [← Multiset.coe_add, add_left_comm, add_comm _ (old.state.advertised : Multiset String)]
        at sum
      have gains := add_left_cancel sum
      cases new with
      | false => exact mirrors.trans (gains.trans (add_zero _)).symm
      | true =>
        simp only
        rw [mirrors, gains, add_comm]
        rfl

theorem Mirror.step_manager (mirror : Mirror) (call : Call) :
    (mirror.step call).manager = Relay.step mirror.manager call := by
  cases call with
  | recordAccepted relay address now =>
    simp only [Mirror.step, Relay.step]
    split
    next answer => rw [answer]
    next answer => rw [answer]
  | recordFailed relay now jitter =>
    simp only [Mirror.step, Relay.step]
    split
    next answer => rw [answer]; rfl
    next answer => rw [answer]
  | addStatic | learn | networkAdded => rfl
  | forget | setDirectInbound | tick => simp only [Mirror.step, Relay.step, Mirror.withdraw]

theorem Mirror.run_mirrors (mirror : Mirror)
    (mirrors : mirror.external = advertisedSum mirror.manager) :
    (mirror.run calls).external = advertisedSum (mirror.run calls).manager ∧
      (mirror.run calls).manager = Relay.run mirror.manager calls := by
  induction calls generalizing mirror with
  | nil => exact ⟨mirrors, rfl⟩
  | cons call rest ih =>
    have later := ih (mirror.step call) (Mirror.step_mirrors mirrors call)
    rw [Mirror.step_manager] at later
    exact later

/-- An adapter that follows the answers holds exactly the advertised addresses. -/
theorem adapter_mirrors_advertised (config : ReservationConfig) (manager : ReservationManager)
    (built : ReservationManager.new config = .ok manager) (calls : List Call) :
    (Mirror.run ⟨manager, 0⟩ calls).manager = run manager calls ∧
    (Mirror.run ⟨manager, 0⟩ calls).external =
      ((run manager calls).advertised : Multiset String) := by
  have start : (0 : Multiset String) = advertisedSum manager := by
    rw [new_eq built]
    exact (sumOver_empty _).symm
  obtain ⟨mirrors, same⟩ := Mirror.run_mirrors ⟨manager, 0⟩ start
  refine ⟨same, ?_⟩
  rw [mirrors, same, advertised_eq_sum]

/-- The released reservation's address is withdrawn, and the other one stays. -/
theorem adapter_mirrors_advertised_sample :
    ReservationManager.new tight = .ok ⟨tight, ∅, .unknown⟩ ∧
    (run ⟨tight, ∅, .unknown⟩ crowded).advertised =
      ["/ip4/192.0.2.1/p2p-circuit", "/ip4/192.0.2.9/p2p-circuit"] ∧
    (Mirror.run ⟨⟨tight, ∅, .unknown⟩, 0⟩
      (crowded ++ [.setDirectInbound .verifiedPublic])).external =
        (["/ip4/192.0.2.9/p2p-circuit"] : Multiset String) := by
  have mirrors := (adapter_mirrors_advertised tight ⟨tight, ∅, .unknown⟩ rfl
    (crowded ++ [.setDirectInbound .verifiedPublic])).2
  have left : (run ⟨tight, ∅, .unknown⟩
      (crowded ++ [.setDirectInbound .verifiedPublic])).advertised =
        ["/ip4/192.0.2.9/p2p-circuit"] := by
    decide +kernel
  rw [left] at mirrors
  exact ⟨rfl, by decide +kernel, mirrors⟩

end

end InterWeave.Relay
