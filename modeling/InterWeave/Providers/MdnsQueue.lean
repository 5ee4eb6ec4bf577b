import InterWeave.Lib.OrderedMap
import InterWeave.Providers.MdnsCore

/-!
The queue of the provider: how many events it can hold between two complete drains, and what its
events tell a consumer about one address.
-/

namespace InterWeave.Mdns

open Std (ExtTreeMap ExtTreeSet)
open OrderedMap

variable {provider : MdnsDiscovery} {peer : TransportIdentity} {address : String}
    {addresses : Deadlines} {entry : TransportIdentity × String} {now deadline : Nat}

def expiredPeer : DiscoveryEvent → Option TransportIdentity
  | .candidateExpired expired _ _ => some expired
  | _ => none

structure Room (peers : Finset TransportIdentity) (others : Nat) (pending : List DiscoveryEvent) :
    Prop where
  distinct : (pending.filterMap expiredPeer).Nodup
  known : ∀ peer ∈ pending.filterMap expiredPeer, peer ∈ peers
  few : pending.countP (fun event => (expiredPeer event).isNone) ≤ others

theorem length_eq_expired_add_others {pending : List DiscoveryEvent} :
    pending.length = (pending.filterMap expiredPeer).length +
      pending.countP (fun event => (expiredPeer event).isNone) := by
  induction pending with
  | nil => rfl
  | cons event rest ih =>
    cases found : expiredPeer event with
    | none => simp [found, ih]; omega
    | some peer => simp [found, ih]; omega

namespace Room

variable {peers : Finset TransportIdentity} {others : Nat} {pending : List DiscoveryEvent}

theorem length_le (room : Room peers others pending) : pending.length ≤ peers.card + others := by
  have named : (pending.filterMap expiredPeer).length ≤ peers.card := by
    rw [← List.toFinset_card_of_nodup room.distinct]
    exact Finset.card_le_card fun peer listed => room.known peer (List.mem_toFinset.mp listed)
  rw [length_eq_expired_add_others]
  exact Nat.add_le_add named room.few

theorem of_sublist (room : Room peers others pending)
    (part : (fewer.map expiredPeer).Sublist (pending.map expiredPeer)) :
    Room peers others fewer := by
  have names : ∀ events : List DiscoveryEvent,
      events.filterMap expiredPeer = (events.map expiredPeer).filterMap id := fun events => by
    rw [List.filterMap_map, Function.id_comp]
  have counts : ∀ events : List DiscoveryEvent,
      events.countP (fun event => (expiredPeer event).isNone) =
        (events.map expiredPeer).countP (·.isNone) := fun events => by
    rw [List.countP_map]
    rfl
  have named := part.filterMap id
  rw [← names, ← names] at named
  refine ⟨room.distinct.sublist named, fun peer listed => room.known peer (named.subset listed), ?_⟩
  refine le_trans ?_ room.few
  rw [counts, counts]
  exact part.countP_le

theorem filterMap
    (keeps : ∀ {event after}, rewrite event = some after → expiredPeer after = expiredPeer event)
    (room : Room peers others pending) : Room peers others (pending.filterMap rewrite) := by
  refine room.of_sublist ?_
  clear room
  induction pending with
  | nil => exact List.Sublist.refl _
  | cons event rest ih =>
    cases kept : rewrite event with
    | none =>
      rw [List.filterMap_cons_none kept]
      exact ih.cons _
    | some after =>
      rw [List.filterMap_cons_some kept, List.map_cons, List.map_cons, keeps kept]
      exact ih.cons_cons _

theorem append_expired {addresses : ExtTreeSet String} (room : Room peers others pending)
    (known : peer ∈ peers) (fresh : peer ∉ pending.filterMap expiredPeer) :
    Room peers others (pending ++ [.candidateExpired peer source addresses]) where
  distinct := by
    rw [List.filterMap_append]
    exact List.Nodup.append room.distinct (List.nodup_singleton _)
      (List.disjoint_singleton.mpr fresh)
  known := by
    intro other listed
    rw [List.filterMap_append, List.mem_append] at listed
    rcases listed with listed | listed
    · exact room.known other listed
    · rw [List.mem_singleton.mp listed]
      exact known
  few := by simpa [expiredPeer] using room.few

theorem append_observed (room : Room peers others pending)
    (observed : ∀ event ∈ more, expiredPeer event = none) (fits : more.length ≤ count) :
    Room peers (others + count) (pending ++ more) := by
  have named : more.filterMap expiredPeer = [] := List.filterMap_eq_nil_iff.mpr observed
  have counted := List.countP_le_length
    (p := fun event => (expiredPeer event).isNone) (l := more)
  refine ⟨?_, ?_, ?_⟩
  · rw [List.filterMap_append, named, List.append_nil]
    exact room.distinct
  · rw [List.filterMap_append, named, List.append_nil]
    exact room.known
  · rw [List.countP_append]
    have few := room.few
    omega

end Room

variable {peers : Finset TransportIdentity} {others : Nat} {pending : List DiscoveryEvent}
    {event after : DiscoveryEvent} {live : ExtTreeSet String}

theorem enforcePendingBound_of_fits (fits : provider.pending.length ≤ maxPendingEvents) :
    provider.enforcePendingBound = provider :=
  if_pos fits

theorem withoutAddress_cases (kept : withoutAddress peer address event = some after) :
    after = event ∧ expiredPeer event ≠ some peer ∨ ∃ candidate,
      event = .candidateObserved candidate ∧ after = .candidateObserved
        { candidate with addresses := candidate.addresses.erase address } := by
  cases event with
  | candidateObserved | candidateExpired | healthChanged => grind [withoutAddress, expiredPeer]

theorem withoutAddress_expiredPeer (kept : withoutAddress peer address event = some after) :
    expiredPeer after = expiredPeer event ∧ expiredPeer after ≠ some peer := by
  rcases withoutAddress_cases kept with ⟨rfl, other⟩ | ⟨candidate, rfl, rfl⟩
  · exact ⟨rfl, other⟩
  · exact ⟨rfl, nofun⟩

theorem withoutLive_cases (kept : withoutLive peer live event = some after) :
    after = event ∧ observedPeer event ≠ some peer ∧ expiredPeer event ≠ some peer ∨
      ∃ source addresses, event = .candidateExpired peer source addresses ∧
        (addresses \ live).isEmpty = false ∧
        after = .candidateExpired peer source (addresses \ live) := by
  cases event with
  | candidateObserved candidate => grind [withoutLive, observedPeer, expiredPeer]
  | candidateExpired | healthChanged => grind [withoutLive, observedPeer, expiredPeer]

theorem withoutLive_expiredPeer
    (kept : withoutLive peer live event = some after) : expiredPeer after = expiredPeer event := by
  rcases withoutLive_cases kept with ⟨rfl, -⟩ | ⟨source, addresses, rfl, -, rfl⟩
  · rfl
  · rfl

def expire (pending : List DiscoveryEvent) (entry : TransportIdentity × String) :
    List DiscoveryEvent :=
  pending.filterMap (withoutAddress entry.1 entry.2) ++
    [.candidateExpired entry.1 sourceName
      (capAddresses (pending.foldl (mergeExpiry entry.1) {entry.2}))]

theorem Room.expire (room : Room peers others pending) (known : entry.1 ∈ peers) :
    Room peers others (Mdns.expire pending entry) := by
  have kept : Room peers others (pending.filterMap (withoutAddress entry.1 entry.2)) :=
    room.filterMap fun kept => (withoutAddress_expiredPeer kept).1
  refine kept.append_expired known fun listed => ?_
  obtain ⟨after, remains, named⟩ := List.mem_filterMap.mp listed
  obtain ⟨event, -, rewritten⟩ := List.mem_filterMap.mp remains
  exact (withoutAddress_expiredPeer rewritten).2 named

theorem queueExpiry_eq (room : Room peers others provider.pending) (known : entry.1 ∈ peers)
    (fits : peers.card + others ≤ maxPendingEvents) :
    provider.queueExpiry entry.1 entry.2 =
      { provider with pending := expire provider.pending entry } :=
  enforcePendingBound_of_fits ((room.expire known).length_le.trans fits)

theorem foldl_queueExpiry_eq
    (fits : peers.card + others ≤ maxPendingEvents) (gone : List (TransportIdentity × String))
    (known : ∀ entry ∈ gone, entry.1 ∈ peers) (provider : MdnsDiscovery)
    (room : Room peers others provider.pending) :
    gone.foldl (fun swept entry => swept.queueExpiry entry.1 entry.2) provider =
      { provider with pending := gone.foldl expire provider.pending } := by
  induction gone generalizing provider with
  | nil => rfl
  | cons entry rest ih =>
    have first := known entry List.mem_cons_self
    rw [List.foldl_cons, queueExpiry_eq room first fits,
      ih (fun other listed => known other (List.mem_cons_of_mem _ listed)) _ (room.expire first)]
    rfl

theorem Room.foldl_expire (room : Room peers others pending)
    {gone : List (TransportIdentity × String)} (known : ∀ entry ∈ gone, entry.1 ∈ peers) :
    Room peers others (gone.foldl Mdns.expire pending) :=
  List.foldlRecOn gone _ room fun _ room entry listed => room.expire (known entry listed)

theorem receive_of_silent {events : List DiscoveryEvent}
    (silent : ∀ event ∈ events, effect peer address event = none) :
    events.foldl View.receive view peer address = view peer address := by
  induction events generalizing view with
  | nil => rfl
  | cons event rest ih =>
    rw [List.foldl_cons, ih (fun other listed => silent other (List.mem_cons_of_mem _ listed))]
    simp [View.receive, silent event List.mem_cons_self]

theorem receive_of_agreed {deadline : Option Nat} (events : List DiscoveryEvent)
    (agreed : ∀ event ∈ events,
      effect peer address event = none ∨ effect peer address event = some deadline)
    (named : ∃ event ∈ events, effect peer address event = some deadline) (view : View) :
    events.foldl View.receive view peer address = deadline := by
  induction events generalizing view with
  | nil =>
    obtain ⟨event, listed, -⟩ := named
    cases listed
  | cons event rest ih =>
    have later := fun other listed => agreed other (List.mem_cons_of_mem event listed)
    by_cases again : ∃ other ∈ rest, effect peer address other = some deadline
    · exact ih later again _
    · have silent : ∀ other ∈ rest, effect peer address other = none := fun other listed =>
        (later other listed).resolve_right fun told => again ⟨other, listed, told⟩
      obtain ⟨first, listed, told⟩ := named
      rcases List.mem_cons.mp listed with rfl | listed
      · rw [List.foldl_cons, receive_of_silent silent]
        simp [View.receive, told]
      · exact absurd ⟨first, listed, told⟩ again

def Silent (peer : TransportIdentity) (address : String) (pending : List DiscoveryEvent) : Prop :=
  ∀ event ∈ pending, effect peer address event = none

theorem mem_of_mem_dropFirst (count : Nat) (addresses : ExtTreeSet String)
    (kept : address ∈ dropFirst count addresses) : address ∈ addresses := by
  induction count generalizing addresses with
  | zero => exact kept
  | succ count ih =>
    simp only [dropFirst] at kept
    split at kept
    · exact kept
    · exact (ExtTreeSet.mem_erase.mp (ih _ kept)).2

theorem dropFirst_nonempty {addresses : ExtTreeSet String} (more : count < addresses.size) :
    (dropFirst count addresses).isEmpty = false := by
  induction count generalizing addresses with
  | zero =>
    simp only [dropFirst]
    rw [ExtTreeSet.isEmpty_eq_size_beq_zero]
    simpa using Nat.ne_of_gt more
  | succ count ih =>
    simp only [dropFirst]
    split
    next absent =>
      rw [ExtTreeSet.min?_eq_none_iff] at absent
      simp [absent] at more
    next oldest least =>
      apply ih
      have present := ExtTreeSet.contains_iff_mem.mpr (ExtTreeSet.min?_mem least)
      rw [ExtTreeSet.size_erase, if_pos present]
      omega

theorem capAddresses_nonempty (listed : address ∈ merged) :
    (capAddresses merged).isEmpty = false := by
  apply dropFirst_nonempty
  have filled : merged.size ≠ 0 := by
    intro none
    have empty : merged.isEmpty = true := by
      rw [ExtTreeSet.isEmpty_eq_size_beq_zero, none]
      rfl
    rw [ExtTreeSet.isEmpty_iff.mp empty] at listed
    exact ExtTreeSet.not_mem_empty listed
  have positive : 0 < maxAddressesPerPeer := by decide
  omega

theorem effect_expired_eq_none {addresses : ExtTreeSet String} :
    effect peer address (.candidateExpired expired source addresses) = none ↔
      (expired = peer → addresses.isEmpty = false ∧ address ∉ addresses) := by
  simp [effect, ite_eq_right_iff]

theorem effect_observed_eq_none :
    effect peer address (.candidateObserved candidate) = none ↔
      (candidate.peerId = peer → address ∉ candidate.addresses) := by
  simp [effect, ite_eq_right_iff]

theorem effect_eq_none (unseen : observedPeer event ≠ some peer)
    (unexpired : expiredPeer event ≠ some peer) : effect peer address event = none := by
  cases event with
  | candidateObserved candidate => grind [observedPeer, effect]
  | candidateExpired expired source addresses => grind [expiredPeer, effect]
  | healthChanged source health => rfl

theorem mergeExpiry_silent (pending : List DiscoveryEvent) (silent : Silent peer address pending)
    (same : merging = peer) (merged : ExtTreeSet String) (absent : address ∉ merged) :
    address ∉ pending.foldl (mergeExpiry merging) merged := by
  induction pending generalizing merged with
  | nil => exact absent
  | cons event rest ih =>
    apply ih (fun other listed => silent other (List.mem_cons_of_mem _ listed))
    have first := silent event List.mem_cons_self
    cases event with
    | candidateExpired expired source addresses =>
      simp only [mergeExpiry]
      split
      next merges =>
        rw [ExtTreeSet.mem_union_iff]
        exact not_or.mpr
          ⟨absent, (effect_expired_eq_none.mp first (merges.trans same)).2⟩
      · exact absent
    | candidateObserved | healthChanged => exact absent

theorem mem_foldl_mergeExpiry (listed : address ∈ merged) :
    address ∈ pending.foldl (mergeExpiry peer) merged := by
  induction pending generalizing merged with
  | nil => exact listed
  | cons event rest ih =>
    apply ih
    cases event with
    | candidateExpired expired source addresses =>
      simp only [mergeExpiry]
      split
      · exact ExtTreeSet.mem_union_iff.mpr (.inl listed)
      · exact listed
    | candidateObserved | healthChanged => exact listed

theorem withoutAddress_silent (silent : effect peer address event = none)
    (kept : withoutAddress gone other event = some after) : effect peer address after = none := by
  rcases withoutAddress_cases kept with ⟨rfl, -⟩ | ⟨candidate, rfl, rfl⟩
  · exact silent
  · rw [effect_observed_eq_none] at silent ⊢
    exact fun same listed => silent same (ExtTreeSet.mem_erase.mp listed).2

theorem Silent.expire (silent : Silent peer address pending)
    (other : entry ≠ (peer, address)) : Silent peer address (Mdns.expire pending entry) := by
  intro event listed
  rcases List.mem_append.mp listed with listed | listed
  · obtain ⟨before, held, kept⟩ := List.mem_filterMap.mp listed
    exact withoutAddress_silent (silent before held) kept
  · rw [List.mem_singleton.mp listed, effect_expired_eq_none]
    intro same
    have itself : entry.2 ∈ pending.foldl (mergeExpiry entry.1) {entry.2} :=
      mem_foldl_mergeExpiry (by simp)
    refine ⟨capAddresses_nonempty itself, fun kept => ?_⟩
    refine mergeExpiry_silent pending silent same {entry.2} ?_ (mem_of_mem_dropFirst _ _ kept)
    intro alone
    exact other (Prod.ext same (by simpa using alone))

theorem Silent.foldl_expire (silent : Silent peer address pending)
    {gone : List (TransportIdentity × String)} (others : (peer, address) ∉ gone) :
    Silent peer address (gone.foldl Mdns.expire pending) :=
  List.foldlRecOn gone _ silent fun _ silent _ listed =>
    silent.expire (ne_of_mem_of_not_mem listed others)

def Names (groups : ExtTreeMap Nat (ExtTreeSet String)) (deadline : Nat) (address : String) :
    Prop :=
  ∃ addresses : ExtTreeSet String, groups[deadline]? = some addresses ∧ address ∈ addresses

theorem names_addDeadline {entry : String × Nat} :
    Names (addDeadline now groups entry) deadline address ↔
      Names groups deadline address ∨ entry = (address, deadline) ∧ now < deadline := by
  obtain ⟨added, limit⟩ := entry
  simp only [addDeadline, Names]
  split
  next live =>
    by_cases same : limit = deadline
    · subst same
      rw [get_insert, if_pos rfl]
      cases held : groups[limit]? with
      | none => simp [live]
      | some addresses => simp [live, or_comm]
    · rw [get_insert, if_neg same]
      simp [same]
  next dead =>
    refine ⟨.inl, fun named => named.resolve_right ?_⟩
    rintro ⟨same, live⟩
    cases same
    exact dead live

theorem names_foldl_addDeadline {entries : List (String × Nat)} :
    Names (entries.foldl (addDeadline now) groups) deadline address ↔
      Names groups deadline address ∨ (address, deadline) ∈ entries ∧ now < deadline := by
  induction entries generalizing groups with
  | nil => simp
  | cons entry rest ih =>
    rw [List.foldl_cons, ih, names_addDeadline, List.mem_cons, or_assoc]
    refine or_congr_right ?_
    rw [← or_and_right, eq_comm]

theorem names_byDeadline :
    Names (byDeadline addresses now) deadline address ↔
      addresses[address]? = some deadline ∧ now < deadline := by
  rw [byDeadline, names_foldl_addDeadline, ExtTreeMap.mem_toList_iff_getElem?_eq_some]
  simp [Names]

theorem size_foldl_addDeadline (now : Nat) (entries : List (String × Nat))
    (groups : ExtTreeMap Nat (ExtTreeSet String)) :
    (entries.foldl (addDeadline now) groups).size ≤ groups.size + entries.length := by
  induction entries generalizing groups with
  | nil => exact Nat.le_refl _
  | cons entry rest ih =>
    have grown : (addDeadline now groups entry).size ≤ groups.size + 1 := by
      unfold addDeadline
      split
      · exact ExtTreeMap.size_insert_le
      · exact Nat.le_succ _
    have later := ih (addDeadline now groups entry)
    rw [List.foldl_cons, List.length_cons]
    omega

theorem size_byDeadline_le (addresses : Deadlines) (now : Nat) :
    (byDeadline addresses now).size ≤ addresses.size := by
  have bound := size_foldl_addDeadline now addresses.toList ∅
  rw [ExtTreeMap.length_toList, ExtTreeMap.size_empty, Nat.zero_add] at bound
  exact bound

theorem mem_foldl_union {groups : List (Nat × ExtTreeSet String)} :
    address ∈ groups.foldl (fun live group => live ∪ group.2) live ↔
      address ∈ live ∨ ∃ group ∈ groups, address ∈ group.2 := by
  induction groups generalizing live with
  | nil => simp
  | cons group rest ih =>
    rw [List.foldl_cons, ih, ExtTreeSet.mem_union_iff, List.exists_mem_cons_iff, or_assoc]

theorem mem_liveAddresses {groups : ExtTreeMap Nat (ExtTreeSet String)}
    (named : Names groups deadline address) : address ∈ liveAddresses groups := by
  obtain ⟨addresses, found, listed⟩ := named
  refine mem_foldl_union.mpr (.inr ⟨(deadline, addresses), ?_, listed⟩)
  exact ExtTreeMap.mem_toList_iff_getElem?_eq_some.mpr found

theorem effect_observed {other : TransportIdentity} {group : Nat × ExtTreeSet String} :
    effect peer address (observed other now group) =
      if other = peer ∧ address ∈ group.2 then some (some group.1) else none :=
  rfl

def observe (pending : List DiscoveryEvent) (peer : TransportIdentity) (addresses : Deadlines)
    (now : Nat) : List DiscoveryEvent :=
  pending.filterMap (withoutLive peer (liveAddresses (byDeadline addresses now))) ++
    (byDeadline addresses now).toList.map (observed peer now)

theorem Room.observe (room : Room peers others pending)
    (few : addresses.size ≤ maxAddressesPerPeer) :
    Room peers (others + maxAddressesPerPeer) (Mdns.observe pending peer addresses now) := by
  refine (room.filterMap withoutLive_expiredPeer).append_observed ?_ ?_
  · intro event listed
    obtain ⟨group, -, rfl⟩ := List.mem_map.mp listed
    rfl
  · rw [List.length_map, ExtTreeMap.length_toList]
    exact (size_byDeadline_le addresses now).trans few

theorem queueObservation_eq (room : Room peers others provider.pending)
    (fits : peers.card + (others + maxAddressesPerPeer) ≤ maxPendingEvents)
    (found : provider.seen[peer]? = some addresses) (few : addresses.size ≤ maxAddressesPerPeer)
    (held : addresses[address]? = some deadline) (live : now < deadline) :
    provider.queueObservation peer now =
      { provider with
        lastEmitted := provider.lastEmitted.insert peer now
        pending := observe provider.pending peer addresses now } := by
  have named : Names (byDeadline addresses now) deadline address :=
    names_byDeadline.mpr ⟨held, live⟩
  have filled : (byDeadline addresses now).isEmpty = false := by
    obtain ⟨group, grouped, -⟩ := named
    exact (isEmpty_eq_false_iff_exists _).mpr
      ⟨deadline, (mem_iff_get _ _).mpr ⟨group, grouped⟩⟩
  simp only [MdnsDiscovery.queueObservation, found, filled, Bool.false_eq_true, if_false]
  exact enforcePendingBound_of_fits ((room.observe few).length_le.trans fits)

theorem withoutLive_silent (named : address ∈ live)
    (kept : withoutLive peer live event = some after) :
    effect peer address after = none := by
  rcases withoutLive_cases kept with ⟨rfl, unseen, unexpired⟩ | ⟨source, addresses, -, some, rfl⟩
  · exact effect_eq_none unseen unexpired
  · refine effect_expired_eq_none.mpr fun _ => ⟨some, fun listed => ?_⟩
    exact (ExtTreeSet.mem_diff_iff.mp listed).2 named

theorem receive_observe (held : addresses[address]? = some deadline) (live : now < deadline) :
    (observe pending peer addresses now).foldl View.receive view peer address = some deadline := by
  have named : Names (byDeadline addresses now) deadline address :=
    names_byDeadline.mpr ⟨held, live⟩
  apply receive_of_agreed
  · intro event listed
    rcases List.mem_append.mp listed with listed | listed
    · obtain ⟨before, -, kept⟩ := List.mem_filterMap.mp listed
      exact .inl (withoutLive_silent (mem_liveAddresses named) kept)
    · obtain ⟨group, grouped, rfl⟩ := List.mem_map.mp listed
      rw [effect_observed]
      split
      next told =>
        have again : Names (byDeadline addresses now) group.1 address :=
          ⟨group.2, ExtTreeMap.mem_toList_iff_getElem?_eq_some.mp grouped, told.2⟩
        have same := (names_byDeadline.mp again).1
        rw [held] at same
        rw [← Option.some.inj same]
        exact .inr rfl
      · exact .inl rfl
  · obtain ⟨group, grouped, listed⟩ := named
    refine ⟨observed peer now (deadline, group), List.mem_append_right _ ?_, ?_⟩
    · exact List.mem_map_of_mem (ExtTreeMap.mem_toList_iff_getElem?_eq_some.mpr grouped)
    · rw [effect_observed, if_pos ⟨rfl, listed⟩]

theorem Silent.observe_other (silent : Silent peer address pending) (distinct : other ≠ peer) :
    Silent peer address (Mdns.observe pending other addresses now) := by
  intro event listed
  rcases List.mem_append.mp listed with listed | listed
  · obtain ⟨before, held, kept⟩ := List.mem_filterMap.mp listed
    rcases withoutLive_cases kept with ⟨rfl, -⟩ | ⟨source, addresses, -, -, rfl⟩
    · exact silent event held
    · exact effect_expired_eq_none.mpr fun same => absurd same distinct
  · obtain ⟨group, -, rfl⟩ := List.mem_map.mp listed
    rw [effect_observed, if_neg fun same => distinct same.1]

end InterWeave.Mdns
