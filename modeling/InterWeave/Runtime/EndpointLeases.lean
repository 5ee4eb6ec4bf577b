import InterWeave.Lib.OrderedMap
import InterWeave.Runtime.EndpointRegistry

/-!
Leases are exclusive in every registry its operations can build, and what is advertised to a
peer is what a message from that peer would reach by name.
-/

namespace InterWeave

open Std (ExtTreeMap)
open OrderedMap

namespace EndpointRegistry

inductive Reachable : EndpointRegistry → Prop
  | new (endpoints : ExtTreeMap EndpointId RegisteredEndpoint)
      (defaultDirectEndpoint : Option EndpointId) :
      Reachable (EndpointRegistry.new endpoints defaultDirectEndpoint)
  | claim {registry : EndpointRegistry} (reachable : Reachable registry) (endpoint : EndpointId)
      (session : LocalSessionId) (clientKind : String) (epoch : Generation) :
      Reachable (registry.claim endpoint session clientKind epoch).1
  | releaseSession {registry : EndpointRegistry} (reachable : Reachable registry)
      (session : LocalSessionId) : Reachable (registry.releaseSession session).1
  | revoke {registry : EndpointRegistry} (reachable : Reachable registry)
      (endpoint : EndpointId) : Reachable (registry.revoke endpoint).1
  | setEnabled {registry : EndpointRegistry} (reachable : Reachable registry)
      (endpoint : EndpointId) (enabled : Bool) :
      Reachable (registry.setEnabled endpoint enabled).1
  | setDefault {registry : EndpointRegistry} (reachable : Reachable registry)
      (endpoint : Option EndpointId) : Reachable (registry.setDefault endpoint)

structure Exclusive (registry : EndpointRegistry) : Prop where
  enabled : ∀ (endpoint : EndpointId) (lease : ActiveLease),
    registry.leases[endpoint]? = some lease →
    ∃ configured, registry.endpoints[endpoint]? = some configured ∧ configured.enabled = true
  owners : ∀ (one two : EndpointId) (first second : ActiveLease),
    registry.leases[one]? = some first → registry.leases[two]? = some second →
    first.owner = second.owner → one = two
  epochs : ∀ (one two : EndpointId) (first second : ActiveLease),
    registry.leases[one]? = some first → registry.leases[two]? = some second →
    first.epoch = second.epoch → one = two

variable {registry : EndpointRegistry}

theorem Exclusive.fewer (exclusive : registry.Exclusive)
    {leases : ExtTreeMap EndpointId ActiveLease}
    (subset : ∀ (endpoint : EndpointId) (lease : ActiveLease),
      leases[endpoint]? = some lease → registry.leases[endpoint]? = some lease) :
    Exclusive { registry with leases := leases } :=
  ⟨fun endpoint lease held => exclusive.enabled endpoint lease (subset endpoint lease held),
    fun one two first second held heldToo =>
      exclusive.owners one two first second (subset one first held) (subset two second heldToo),
    fun one two first second held heldToo =>
      exclusive.epochs one two first second (subset one first held) (subset two second heldToo)⟩

theorem claim_cases :
    (∃ failure, registry.claim endpoint session clientKind epoch = (registry, .error failure)) ∨
      ((∃ configured, registry.endpoints[endpoint]? = some configured ∧
          configured.enabled = true) ∧
        (∀ (other : EndpointId) (lease : ActiveLease), registry.leases[other]? = some lease →
          lease.owner ≠ session ∧ lease.epoch ≠ epoch) ∧
        registry.claim endpoint session clientKind epoch =
          ({ registry with
             leases := registry.leases.insert endpoint ⟨session, epoch, clientKind⟩ },
            .ok ⟨session, epoch, clientKind⟩)) := by
  have unheld : ∀ (test : ActiveLease → Prop) [DecidablePred test],
      (registry.leases.toList.find? fun lease => test lease.2) = none →
      ∀ (other : EndpointId) (lease : ActiveLease), registry.leases[other]? = some lease →
        ¬test lease := by
    intro test _ none other lease held
    have passed := List.find?_eq_none.mp none (other, lease)
      (ExtTreeMap.mem_toList_iff_getElem?_eq_some.mpr held)
    simpa using passed
  unfold claim
  cases found : registry.endpoints[endpoint]? with
  | none => exact .inl ⟨_, rfl⟩
  | some configured =>
    dsimp only
    split
    · exact .inl ⟨_, rfl⟩
    next enabled =>
      split
      · exact .inl ⟨_, rfl⟩
      · split
        · exact .inl ⟨_, rfl⟩
        · split
          · exact .inl ⟨_, rfl⟩
          next freeSession =>
            split
            · exact .inl ⟨_, rfl⟩
            next freeEpoch =>
              refine .inr ⟨⟨configured, rfl, by simpa using enabled⟩, fun other lease held => ?_,
                rfl⟩
              exact ⟨unheld (·.owner = session) freeSession other lease held,
                unheld (·.epoch = epoch) freeEpoch other lease held⟩

theorem Exclusive.claim (exclusive : registry.Exclusive) (endpoint : EndpointId)
    (session : LocalSessionId) (clientKind : String) (epoch : Generation) :
    (registry.claim endpoint session clientKind epoch).1.Exclusive := by
  rcases claim_cases with
    ⟨failure, answer⟩ | ⟨listed, fresh, answer⟩
  · rw [answer]
    exact exclusive
  · rw [answer]
    refine ⟨fun other lease held => ?_, ?_, ?_⟩
    · rw [get_insert] at held
      split at held
      next same => exact same ▸ listed
      next => exact exclusive.enabled other lease held
    all_goals
      intro one two first second held heldToo same
      rw [get_insert] at held heldToo
      split at held <;> split at heldToo
      · simp_all
      · cases held
        have apart := fresh two second heldToo
        simp_all
      · cases heldToo
        have apart := fresh one first held
        simp_all
    · exact exclusive.owners one two first second held heldToo same
    · exact exclusive.epochs one two first second held heldToo same

theorem Exclusive.revoke (exclusive : registry.Exclusive) (endpoint : EndpointId) :
    (registry.revoke endpoint).1.Exclusive := by
  refine exclusive.fewer fun other lease held => ?_
  rw [get_erase] at held
  split at held
  · cases held
  · exact held

theorem Exclusive.releaseSession (exclusive : registry.Exclusive) (session : LocalSessionId) :
    (registry.releaseSession session).1.Exclusive := by
  refine exclusive.fewer fun other lease held => ?_
  rw [get_foldl_erase] at held
  split at held
  · cases held
  · exact held

theorem Exclusive.setEnabled (exclusive : registry.Exclusive) (endpoint : EndpointId)
    (enabled : Bool) : (registry.setEnabled endpoint enabled).1.Exclusive := by
  unfold EndpointRegistry.setEnabled
  cases found : registry.endpoints[endpoint]? with
  | none => exact exclusive
  | some configured =>
    cases enabled with
    | true =>
      have kept : Exclusive { registry with
          endpoints := registry.endpoints.insert endpoint
            { configured with enabled := true } } := by
        refine ⟨fun other lease held => ?_, exclusive.owners, exclusive.epochs⟩
        rw [get_insert]
        split
        · exact ⟨_, rfl, rfl⟩
        · exact exclusive.enabled other lease held
      exact kept
    | false =>
      have revoked := exclusive.revoke endpoint
      refine ⟨fun other lease held => ?_, revoked.owners, revoked.epochs⟩
      obtain ⟨before, listed, isEnabled⟩ := revoked.enabled other lease held
      have apart : endpoint ≠ other := by
        rintro rfl
        simp [EndpointRegistry.revoke] at held
      exact ⟨before, by simpa [EndpointRegistry.revoke, get_insert, apart] using listed,
        isEnabled⟩

theorem Reachable.exclusive (reachable : registry.Reachable) : registry.Exclusive := by
  induction reachable with
  | new endpoints defaultDirectEndpoint =>
    constructor <;> simp [EndpointRegistry.new]
  | claim _ endpoint session clientKind epoch ih => exact ih.claim endpoint session clientKind epoch
  | releaseSession _ session ih => exact ih.releaseSession session
  | revoke _ endpoint ih => exact ih.revoke endpoint
  | setEnabled _ endpoint enabled ih => exact ih.setEnabled endpoint enabled
  | setDefault _ endpoint ih => exact ⟨ih.enabled, ih.owners, ih.epochs⟩

def Reaches (registry : EndpointRegistry) (peer : TransportIdentity) (profile : PeerTrustPolicy)
    (endpoint : EndpointId) : Prop :=
  ∃ lease, registry.resolveInbound (some endpoint)
    (fun policy => (profile.decideForEndpoint peer policy).isAllowed) = .ok (endpoint, lease)

theorem reaches_iff {profile : PeerTrustPolicy} :
    registry.Reaches peer profile endpoint ↔
      endpoint ∈ registry.leases ∧ ∃ configured, registry.endpoints[endpoint]? = some configured ∧
        configured.enabled = true ∧
        (profile.decideForEndpoint peer configured.inbound).isAllowed = true := by
  constructor
  · rintro ⟨lease, resolved⟩
    obtain ⟨-, leased, certified⟩ := resolveInbound_ok resolved
    exact ⟨(mem_iff_get _ _).mpr ⟨lease, leased⟩, certified⟩
  · rintro ⟨leased, configured, found, enabled, admitted⟩
    obtain ⟨lease, held⟩ := (mem_iff_get _ _).mp leased
    exact ⟨lease, by simp [resolveInbound, found, enabled, admitted, held]⟩

def listing (registry : EndpointRegistry) (peer : TransportIdentity) (profile : PeerTrustPolicy) :
    List EndpointId :=
  keysWhere (fun endpoint configured => configured.enabled && configured.advertise &&
    decide (endpoint ∈ registry.leases) &&
    (profile.decideForEndpoint peer configured.inbound).isAllowed) registry.endpoints

theorem advertisedFor_eq (registry : EndpointRegistry) (peer : TransportIdentity)
    (profile : PeerTrustPolicy) (cap : Nat) :
    registry.advertisedFor peer profile cap =
      (registry.listing peer profile).take (min cap maxDirectoryEntries) := by
  simp only [advertisedFor, listing, keysWhere, List.filter_filter]
  congr 3
  funext entry
  cases entry.2.enabled <;> cases entry.2.advertise <;> simp [Bool.and_comm]

theorem mem_listing (registry : EndpointRegistry) (peer : TransportIdentity)
    (profile : PeerTrustPolicy) (endpoint : EndpointId) :
    endpoint ∈ registry.listing peer profile ↔
      (∃ configured, registry.endpoints[endpoint]? = some configured ∧
        configured.advertise = true) ∧ registry.Reaches peer profile endpoint := by
  rw [listing, mem_keysWhere, reaches_iff]
  constructor
  · rintro ⟨configured, found, passes⟩
    simp only [Bool.and_eq_true, decide_eq_true_eq] at passes
    obtain ⟨⟨⟨enabled, advertise⟩, leased⟩, admitted⟩ := passes
    exact ⟨⟨configured, found, advertise⟩, leased, configured, found, enabled, admitted⟩
  · rintro ⟨⟨configured, found, advertise⟩, leased, same, foundToo, enabled, admitted⟩
    obtain rfl : configured = same := Option.some.inj (found.symm.trans foundToo)
    exact ⟨configured, found, by simp [enabled, advertise, leased, admitted]⟩

theorem listing_sorted (registry : EndpointRegistry) (peer : TransportIdentity)
    (profile : PeerTrustPolicy) : (registry.listing peer profile).Pairwise (· < ·) := by
  have keys : (registry.endpoints.toList.map Prod.fst).Pairwise (· < ·) := by
    rw [ExtTreeMap.map_fst_toList_eq_keys]
    exact ExtTreeMap.ordered_keys.imp fun less => compare_lt_iff_lt.mp less
  exact keys.sublist (List.filter_sublist.map Prod.fst)

/-- Endpoint leases are exclusive. In every registry its operations can build: a lease is on a
configured and enabled endpoint; no session holds two leases and no endpoint has two holders;
an epoch belongs to one endpoint, and no other answers `holds_lease` with it. A refused claim
changes nothing. What is advertised to a peer is, up to the cap, what advertises and what a
message from that peer reaches by name, in increasing order. -/
theorem endpoint_leases_exclusive (reachable : registry.Reachable) :
    (∀ endpoint ∈ registry.leases, ∃ configured,
      registry.endpoints[endpoint]? = some configured ∧ configured.enabled = true) ∧
    (∀ (one two : EndpointId) (first second : ActiveLease), registry.leases[one]? = some first →
      registry.leases[two]? = some second →
      (one = two ↔ first.owner = second.owner) ∧ (one = two ↔ first.epoch = second.epoch) ∧
        (one = two → first = second)) ∧
    (∀ one two epoch, registry.holdsLease one epoch = true →
      registry.holdsLease two epoch = true → one = two) ∧
    (∀ endpoint session clientKind epoch failure,
      (registry.claim endpoint session clientKind epoch).2 = .error failure →
      (registry.claim endpoint session clientKind epoch).1 = registry) ∧
    ∀ peer profile, ∃ shown : List EndpointId, shown.Pairwise (· < ·) ∧
      (∀ endpoint, endpoint ∈ shown ↔
        (∃ configured, registry.endpoints[endpoint]? = some configured ∧
          configured.advertise = true) ∧ registry.Reaches peer profile endpoint) ∧
      ∀ cap, registry.advertisedFor peer profile cap = shown.take (min cap 32) := by
  have exclusive := reachable.exclusive
  refine ⟨?_, ?_, ?_, ?_, fun peer profile => ⟨registry.listing peer profile,
    registry.listing_sorted peer profile, registry.mem_listing peer profile,
    registry.advertisedFor_eq peer profile⟩⟩
  · intro endpoint leased
    obtain ⟨lease, held⟩ := (mem_iff_get _ _).mp leased
    exact exclusive.enabled endpoint lease held
  · intro one two first second held heldToo
    have together : one = two → first = second := by
      rintro rfl
      exact Option.some.inj (held.symm.trans heldToo)
    exact ⟨⟨fun same => congrArg _ (together same),
        exclusive.owners one two first second held heldToo⟩,
      ⟨fun same => congrArg _ (together same),
        exclusive.epochs one two first second held heldToo⟩, together⟩
  · intro one two epoch holds holdsToo
    unfold holdsLease at holds holdsToo
    split at holds
    · cases holds
    next first held =>
      split at holdsToo
      · cases holdsToo
      next second heldToo =>
        exact exclusive.epochs one two first second held heldToo
          ((of_decide_eq_true holds).trans (of_decide_eq_true holdsToo).symm)
  · intro endpoint session clientKind epoch failure refused
    rcases claim_cases with
      ⟨other, answer⟩ | ⟨-, -, answer⟩
    · rw [answer]
    · rw [answer] at refused
      cases refused

def human : EndpointId := ⟨"human", by decide⟩

def agent : EndpointId := ⟨"agent", by decide⟩

def spare : EndpointId := ⟨"spare", by decide⟩

def samplePeer : TransportIdentity :=
  ⟨"12D3KooWA9hFCGwGCpCbWWfLmYSpqPzXgLmPvbBrgWGNvNGSDVpS", TransportIdentity.check_plain⟩

def sampleProfile : PeerTrustPolicy := ⟨{samplePeer}, none, by decide, by simp⟩

def firstEpoch : Generation := ⟨"first___________", by decide⟩

def secondEpoch : Generation := ⟨"second__________", by decide⟩

/-- Three endpoints of which two are leased, each by a session of its own. -/
def leased : EndpointRegistry :=
  let configured := [human, agent, spare].foldl (fun endpoints endpoint =>
    endpoints.insert endpoint { advertise := true }) (∅ : ExtTreeMap EndpointId RegisteredEndpoint)
  let first := ((EndpointRegistry.new configured none).claim human ⟨"first"⟩ "client" firstEpoch).1
  (first.claim agent ⟨"second"⟩ "client" secondEpoch).1

/-- An endpoint, a session and an epoch that are taken each refuse a claim, which changes nothing;
the peer is shown the two endpoints it reaches. -/
theorem endpoint_leases_exclusive_sample :
    (leased.claim human ⟨"third"⟩ "client" firstEpoch =
        (leased, .error .endpointInUse) ∧
      leased.claim spare ⟨"first"⟩ "client" firstEpoch =
        (leased, .error (.sessionAlreadyLeased human)) ∧
      leased.claim spare ⟨"third"⟩ "client" secondEpoch =
        (leased, .error (.epochInUse agent))) ∧
    leased.advertisedFor samplePeer sampleProfile 8 = [agent, human] ∧
      leased.Reaches samplePeer sampleProfile human := by
  have advertised : leased.advertisedFor samplePeer sampleProfile 8 = [agent, human] := by
    decide +kernel
  have reachable : leased.Reachable := .claim (.claim (.new _ _) _ _ _ _) _ _ _ _
  obtain ⟨-, -, -, unchanged, directory⟩ := endpoint_leases_exclusive reachable
  obtain ⟨shown, -, members, cut⟩ := directory samplePeer sampleProfile
  have listed : human ∈ shown := by
    have cutAtEight := cut 8
    rw [advertised] at cutAtEight
    exact List.mem_of_mem_take (cutAtEight ▸ List.mem_cons_of_mem _ List.mem_cons_self)
  have refused : ∀ endpoint session epoch failure,
      (leased.claim endpoint session "client" epoch).2 = .error failure →
      leased.claim endpoint session "client" epoch = (leased, .error failure) :=
    fun endpoint session epoch failure answer =>
      Prod.ext (unchanged endpoint session "client" epoch failure answer) answer
  exact ⟨⟨refused _ _ _ _ (by decide +kernel), refused _ _ _ _ (by decide +kernel),
    refused _ _ _ _ (by decide +kernel)⟩, advertised, ((members human).mp listed).2⟩

end EndpointRegistry

end InterWeave
