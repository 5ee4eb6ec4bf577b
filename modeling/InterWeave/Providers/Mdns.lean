import InterWeave.Api.Identities
import InterWeave.Providers.MdnsQueue

/-!
When a route that the local network keeps announcing stays in the consumer's view. The deadlines
are kept for each address and the throttle for each peer, so an announcement of one address can
hold back the refresh of another.
-/

namespace InterWeave.Mdns

open Std (ExtTreeMap ExtTreeSet)
open OrderedMap Saturating

abbrev Seen := ExtTreeMap TransportIdentity Deadlines

def addressesOf (seen : Seen) (peer : TransportIdentity) : Deadlines := seen[peer]?.getD ∅

def deadlineOf (seen : Seen) (peer : TransportIdentity) (address : String) : Option Nat :=
  (addressesOf seen peer)[address]?

def keptAt (now : Nat) (seen : Seen) : Seen :=
  (seen.map fun _ addresses => addresses.filter fun _ deadline => now < deadline).filter
    fun _ addresses => !addresses.isEmpty

def goneAt (now : Nat) (seen : Seen) : List (TransportIdentity × String) :=
  seen.toList.flatMap fun entry => (lapsed now entry.2).map fun address => (entry.1, address)

def Fresh (now : Nat) (seen : Seen) : Prop :=
  ∀ peer address deadline, deadlineOf seen peer address = some deadline → now < deadline

variable {seen : Seen} {peer owner : TransportIdentity} {address name : String}
    {peers others lag now last deadline : Nat} {provider : MdnsDiscovery} {run : Run} {turn : Turn}

theorem mem_of_deadlineOf (found : deadlineOf seen peer address = some deadline) : peer ∈ seen := by
  rw [mem_iff_get]
  cases held : seen[peer]? with
  | none => simp [deadlineOf, addressesOf, held] at found
  | some addresses => exact ⟨addresses, rfl⟩

theorem mem_of_mem_keptAt (kept : peer ∈ keptAt now seen) : peer ∈ seen :=
  ExtTreeMap.mem_map.mp (ExtTreeMap.mem_of_mem_filter kept)

theorem addressesOf_keptAt : addressesOf (keptAt now seen) peer =
    (addressesOf seen peer).filter fun _ deadline => now < deadline := by
  rw [addressesOf, keptAt, ExtTreeMap.getElem?_filter', ExtTreeMap.getElem?_map, addressesOf]
  cases seen[peer]? with
  | none => rfl
  | some addresses =>
    simp only [Option.map_some, Option.getD_some]
    generalize addresses.filter _ = kept
    cases empty : kept.isEmpty with
    | true => rw [ExtTreeMap.isEmpty_iff.mp empty]; rfl
    | false => rw [Option.filter_some_pos (by rw [empty]; rfl), Option.getD_some]

theorem deadlineOf_keptAt : deadlineOf (keptAt now seen) peer address =
    (deadlineOf seen peer address).filter (now < ·) := by
  rw [deadlineOf, addressesOf_keptAt, ExtTreeMap.getElem?_filter', deadlineOf]

theorem keptAt_fresh : Fresh now (keptAt now seen) := by
  intro peer address deadline held
  rw [deadlineOf_keptAt, Option.filter_eq_some_iff, decide_eq_true_eq] at held
  exact held.2

theorem deadlineOf_keptAt_of_live (found : deadlineOf seen peer address = some deadline)
    (live : now < deadline) : deadlineOf (keptAt now seen) peer address = some deadline := by
  rw [deadlineOf_keptAt, found]
  exact Option.filter_some_pos (decide_eq_true live)

theorem mem_goneAt : (peer, address) ∈ goneAt now seen ↔
    ∃ deadline, deadlineOf seen peer address = some deadline ∧ deadline ≤ now := by
  simp only [goneAt, lapsed, List.mem_flatMap, List.mem_map, List.mem_filter, decide_eq_true_eq,
    Prod.exists, ExtTreeMap.mem_toList_iff_getElem?_eq_some, Prod.mk.injEq, ge_iff_le, deadlineOf,
    addressesOf]
  constructor
  · rintro ⟨owner, addresses, found, name, ⟨same, deadline, ⟨held, past⟩, rfl⟩, rfl, rfl⟩
    exact ⟨deadline, by rw [found]; exact held, past⟩
  · rintro ⟨deadline, held, past⟩
    cases found : seen[peer]? with
    | none => simp [found] at held
    | some addresses =>
      rw [found] at held
      exact ⟨peer, addresses, found, address, ⟨address, deadline, ⟨held, past⟩, rfl⟩, rfl, rfl⟩

theorem Fresh.goneAt_eq (fresh : Fresh now seen) : goneAt now seen = [] := by
  refine List.eq_nil_iff_forall_not_mem.mpr ?_
  rintro ⟨peer, address⟩ gone
  obtain ⟨deadline, held, past⟩ := mem_goneAt.mp gone
  have live := fresh peer address deadline held
  omega

structure Sound (peers others : Nat) (provider : MdnsDiscovery) : Prop where
  started : provider.started = true
  running : provider.stopped = false
  bounded : provider.seen.size ≤ maxPeers
  short : ∀ peer, (addressesOf provider.seen peer).size ≤ maxAddressesPerPeer
  told : ∀ peer ∈ provider.seen, peer ∈ provider.lastEmitted
  room : ∃ known : Finset TransportIdentity, known.card ≤ peers ∧
    (∀ peer ∈ provider.seen, peer ∈ known) ∧ Room known others provider.pending

def swept (now : Nat) (provider : MdnsDiscovery) : MdnsDiscovery :=
  { provider with
    seen := keptAt now provider.seen
    lastEmitted := provider.lastEmitted.filter fun peerId _ => peerId ∈ keptAt now provider.seen
    pending := (goneAt now provider.seen).foldl expire provider.pending }

theorem swept_lastEmitted (kept : peer ∈ keptAt now provider.seen) :
    (swept now provider).lastEmitted[peer]? = provider.lastEmitted[peer]? := by
  rw [swept, ExtTreeMap.getElem?_filter']
  cases provider.lastEmitted[peer]? with
  | none => rfl
  | some emitted => exact Option.filter_some_pos (decide_eq_true kept)

namespace Sound

theorem gone_known {known : Finset TransportIdentity} (listed : ∀ peer ∈ seen, peer ∈ known) :
    ∀ entry ∈ goneAt now seen, entry.1 ∈ known := by
  rintro ⟨peer, address⟩ gone
  obtain ⟨deadline, found, -⟩ := mem_goneAt.mp gone
  exact listed peer (mem_of_deadlineOf found)

section

variable (sound : Sound peers others provider)

include sound

theorem sweep_eq (fits : peers + others ≤ maxPendingEvents) (now : Nat) :
    provider.sweep now = swept now provider := by
  obtain ⟨known, card, listed, room⟩ := sound.room
  have bound : known.card + others ≤ maxPendingEvents := by omega
  exact foldl_queueExpiry_eq bound _ (gone_known listed) _ room

theorem swept (now : Nat) :
    Sound peers others (Mdns.swept now provider) where
  started := sound.started
  running := sound.running
  bounded := by
    refine le_trans ?_ sound.bounded
    exact (ExtTreeMap.size_filter_le_size).trans (Nat.le_of_eq ExtTreeMap.size_map)
  short := by
    intro peer
    rw [Mdns.swept, addressesOf_keptAt]
    exact ExtTreeMap.size_filter_le_size.trans (sound.short peer)
  told := by
    intro peer kept
    have before := sound.told peer (mem_of_mem_keptAt kept)
    rw [mem_iff_get, swept_lastEmitted kept]
    exact (mem_iff_get _ _).mp before
  room := by
    obtain ⟨known, card, listed, room⟩ := sound.room
    exact ⟨known, card, fun peer kept => listed peer (mem_of_mem_keptAt kept),
      room.foldl_expire (gone_known listed)⟩

theorem unemitted_eq : provider.unemitted = [] := by
  refine List.filter_eq_nil_iff.mpr fun peer listed => ?_
  simpa using sound.told peer (ExtTreeMap.mem_keys.mp listed)

theorem drainEvents_eq (fits : peers + others ≤ maxPendingEvents) (now max : Nat) :
    provider.drainEvents now max =
      ({ Mdns.swept now provider with pending := (Mdns.swept now provider).pending.drop max },
        (Mdns.swept now provider).pending.take max) := by
  have idle : ¬(¬provider.started = true ∨ provider.stopped = true) := by
    simp [sound.started, sound.running]
  simp only [MdnsDiscovery.drainEvents, if_neg idle, sound.sweep_eq fits,
    (sound.swept now).unemitted_eq, MdnsDiscovery.regenerate]

theorem dropped (max : Nat) :
    Sound peers others { provider with pending := provider.pending.drop max } := by
  obtain ⟨known, card, listed, room⟩ := sound.room
  exact { sound with
    room := ⟨known, card, listed, room.of_sublist ((List.drop_sublist _ _).map _)⟩ }

theorem length_le : provider.pending.length ≤ peers + others := by
  obtain ⟨known, card, -, room⟩ := sound.room
  have bound := room.length_le
  omega

theorem drained (fits : peers + others ≤ maxPendingEvents) :
    Sound maxPeers 1 { provider with pending := provider.pending.drop maxPendingEvents } := by
  have empty : provider.pending.drop maxPendingEvents = [] :=
    List.drop_eq_nil_iff.mpr (sound.length_le.trans fits)
  have keys : provider.seen.keys.toFinset.card ≤ maxPeers := by
    rw [List.toFinset_card_of_nodup ExtTreeMap.nodup_keys, ExtTreeMap.length_keys]
    exact sound.bounded
  refine { sound with room := ⟨provider.seen.keys.toFinset, keys, ?_, ?_⟩ }
  · exact fun peer held => List.mem_toFinset.mpr (ExtTreeMap.mem_keys.mpr held)
  · rw [empty]
    exact ⟨List.nodup_nil, nofun, Nat.zero_le _⟩

end

end Sound

structure Admits (provider : MdnsDiscovery) (peer : TransportIdentity) (address : String) :
    Prop where
  fits : peer ∈ provider.seen ∨ provider.seen.size < maxPeers
  short : address ∈ addressesOf provider.seen peer ∨
    (addressesOf provider.seen peer).size < maxAddressesPerPeer

inductive Pushed (provider : MdnsDiscovery) (peer address : String) (now : Nat) :
    MdnsDiscovery × Bool → Prop
  | ignored : Pushed provider peer address now (provider, false)
  | refused : Pushed provider peer address now (provider.sweep now, false)
  | held {peerId : TransportIdentity} (parsed : TransportIdentity.parse peer = .ok peerId)
      (admits : Admits (provider.sweep now) peerId address) :
      Pushed provider peer address now ((provider.sweep now).hold peerId
        (addressesOf (provider.sweep now).seen peerId) address now, true)

theorem pushDiscovered_pushed (provider : MdnsDiscovery) (peer address : String) (now : Nat) :
    Pushed provider peer address now (provider.pushDiscovered peer address now) := by
  unfold MdnsDiscovery.pushDiscovered
  split
  · exact .ignored
  cases parsed : TransportIdentity.parse peer with
  | error reason => exact .ignored
  | ok peerId =>
    simp only
    split
    · exact .ignored
    have held := @Pushed.held provider peer address now peerId parsed
    cases found : (provider.sweep now).seen[peerId]? with
    | none =>
      simp only
      split
      · exact .refused
      next free =>
        rw [addressesOf, found] at held
        refine held ⟨.inr (by omega), .inr ?_⟩
        rw [addressesOf, found]
        exact (by decide : 0 < maxAddressesPerPeer)
    | some addresses =>
      simp only
      split
      · exact .refused
      next free =>
        rw [addressesOf, found] at held
        refine held ⟨.inl ((mem_iff_get _ _).mpr ⟨addresses, found⟩), ?_⟩
        rw [addressesOf, found]
        by_cases again : address ∈ addresses
        · exact .inl again
        · exact .inr (Nat.lt_of_not_le fun full => free ⟨again, full⟩)

def renewed (provider : MdnsDiscovery) (peer : TransportIdentity) (address : String) (now : Nat) :
    Deadlines :=
  (addressesOf provider.seen peer).insert address (add64 now observationTtlMs)

def noted (provider : MdnsDiscovery) (peer : TransportIdentity) (address : String) (now : Nat) :
    MdnsDiscovery :=
  { provider with seen := provider.seen.insert peer (renewed provider peer address now) }

def forwarded (provider : MdnsDiscovery) (peer : TransportIdentity) (address : String)
    (now : Nat) : MdnsDiscovery :=
  { noted provider peer address now with
    lastEmitted := provider.lastEmitted.insert peer now
    pending := observe provider.pending peer (renewed provider peer address now) now }

theorem lt_add64 (early : now < u64Max) :
    now < add64 now observationTtlMs := by
  have positive : 0 < observationTtlMs := by decide
  unfold add64
  omega

theorem deadlineOf_noted : deadlineOf (noted provider owner name now).seen peer address =
    if (owner, name) = (peer, address) then some (add64 now observationTtlMs)
    else deadlineOf provider.seen peer address := by
  rw [deadlineOf, addressesOf, noted, get_insert]
  by_cases mine : owner = peer
  · subst mine
    simp [renewed, get_insert, deadlineOf]
  · simp [mine, deadlineOf, addressesOf]

theorem Fresh.noted (fresh : Fresh now provider.seen) (early : now < u64Max) :
    Fresh now (noted provider owner name now).seen := by
  intro peer address deadline held
  rw [deadlineOf_noted] at held
  split at held
  · exact Option.some.inj held ▸ lt_add64 early
  · exact fresh peer address deadline held

theorem size_insert_le_of {K V : Type} [LinearOrder K] {m : ExtTreeMap K V} {key : K} {value : V}
    (within : m.size ≤ bound) (room : key ∈ m ∨ m.size < bound) :
    (m.insert key value).size ≤ bound := by
  rw [ExtTreeMap.size_insert]
  split
  · exact within
  next absent => exact room.resolve_left fun present => absent present

section Hold

variable (sound : Sound maxPeers 1 provider) (admits : Admits provider peer address)

include sound admits

theorem renewed_short : (renewed provider peer address now).size ≤ maxAddressesPerPeer :=
  size_insert_le_of (sound.short peer) admits.short

/-- A held announcement is forwarded, or it repeats an address of a peer whose last observation is
younger than the refresh interval. -/
theorem hold_cases (early : now < u64Max) :
    provider.hold peer (addressesOf provider.seen peer) address now =
        forwarded provider peer address now ∨
      provider.hold peer (addressesOf provider.seen peer) address now =
          noted provider peer address now ∧
        (∃ deadline, deadlineOf provider.seen peer address = some deadline) ∧
        ∃ last, provider.lastEmitted[peer]? = some last ∧ now < last + refreshIntervalMs := by
  obtain ⟨known, card, -, room⟩ := sound.room
  have bound : known.card + (1 + maxAddressesPerPeer) ≤ maxPendingEvents := by
    have total : maxPeers + (1 + maxAddressesPerPeer) ≤ maxPendingEvents := by decide
    omega
  have observation : (noted provider peer address now).queueObservation peer now =
      forwarded provider peer address now :=
    queueObservation_eq room bound (by rw [noted, get_insert, if_pos rfl])
      (renewed_short sound admits) (by rw [renewed, get_insert, if_pos rfl])
      (lt_add64 early)
  by_cases forward : address ∉ addressesOf provider.seen peer ∨
      (noted provider peer address now).due peer now = true
  · refine .inl (Eq.trans ?_ observation)
    exact if_pos forward
  · obtain ⟨again, throttled⟩ := not_or.mp forward
    refine .inr ⟨if_neg forward, (mem_iff_get _ _).mp (not_not.mp again), ?_⟩
    simp only [MdnsDiscovery.due, noted] at throttled
    split at throttled
    · exact absurd rfl throttled
    next last emitted =>
      refine ⟨last, emitted, ?_⟩
      rw [decide_eq_true_eq] at throttled
      omega

theorem Sound.noted (emitted : peer ∈ provider.lastEmitted) :
    Sound (maxPeers + 1) 1 (noted provider peer address now) where
  started := sound.started
  running := sound.running
  bounded := size_insert_le_of sound.bounded admits.fits
  short := by
    intro other
    rw [addressesOf, Mdns.noted, get_insert]
    split
    · exact renewed_short sound admits
    · exact sound.short other
  told := by
    intro other held
    rcases (mem_insert _ _ _ _).mp held with rfl | held
    · exact emitted
    · exact sound.told other held
  room := by
    obtain ⟨known, card, listed, room⟩ := sound.room
    refine ⟨insert peer known, (Finset.card_insert_le _ _).trans (by omega), ?_,
      { room with known := fun other named => Finset.mem_insert_of_mem (room.known other named) }⟩
    intro other held
    rcases (mem_insert _ _ _ _).mp held with rfl | held
    · exact Finset.mem_insert_self _ _
    · exact Finset.mem_insert_of_mem (listed other held)

theorem Sound.forwarded :
    Sound (maxPeers + 1) (1 + maxAddressesPerPeer) (forwarded provider peer address now) := by
  have emitted : Sound maxPeers 1 { provider with
      lastEmitted := provider.lastEmitted.insert peer now } :=
    { sound with told := fun other held =>
        (mem_insert _ _ _ _).mpr (.inr (sound.told other held)) }
  have noted : Sound (maxPeers + 1) 1 (Mdns.noted _ peer address now) :=
    emitted.noted ⟨admits.fits, admits.short⟩ ((mem_insert _ _ _ _).mpr (.inl rfl))
  obtain ⟨known, card, listed, room⟩ := noted.room
  exact { noted with room := ⟨known, card, listed, room.observe (renewed_short sound admits)⟩ }

theorem Sound.hold (early : now < u64Max) :
    Sound (maxPeers + 1) (1 + maxAddressesPerPeer)
      (provider.hold peer (addressesOf provider.seen peer) address now) := by
  rcases hold_cases sound admits early with forward | ⟨throttled, -, last, emitted, -⟩
  · rw [forward]
    exact sound.forwarded admits
  · rw [throttled]
    have noted : Sound (maxPeers + 1) 1 (Mdns.noted provider peer address now) :=
      sound.noted admits ((mem_iff_get _ _).mpr ⟨last, emitted⟩)
    obtain ⟨known, card, listed, room⟩ := noted.room
    exact { noted with
      room := ⟨known, card, listed, { room with few := room.few.trans (Nat.le_add_right _ _) }⟩ }

theorem hold_seen (early : now < u64Max) :
    (provider.hold peer (addressesOf provider.seen peer) address now).seen =
      (noted provider peer address now).seen := by
  rcases hold_cases sound admits early with forward | ⟨throttled, -⟩
  · rw [forward]
    rfl
  · rw [throttled]

end Hold

def emptied (now max : Nat) (run : Run) : Run :=
  { run with
    provider := { swept now run.provider with pending := (swept now run.provider).pending.drop max }
    view := ((swept now run.provider).pending.take max).foldl View.receive run.view }

theorem Run.drain_eq (sound : Sound peers others run.provider)
    (fits : peers + others ≤ maxPendingEvents) {now max : Nat} :
    run.drain now max = emptied now max run := by
  rw [Run.drain, sound.drainEvents_eq fits now max]
  rfl

/-- The deadline of an address in the view comes from an announcement that the last observation
of the peer found at most `lag` old, and nothing queued changes it. -/
structure Shown (peer : TransportIdentity) (address : String) (lag last : Nat) (run : Run) :
    Prop where
  silent : Silent peer address run.provider.pending
  shown : ∃ told emitted, run.provider.lastEmitted[peer]? = some emitted ∧
    run.view peer address = some (add64 told observationTtlMs) ∧ emitted ≤ told + lag ∧
      (last = told ∨ last < emitted + refreshIntervalMs)

section

variable (shown : Shown peer address lag last run)
  (held : deadlineOf run.provider.seen peer address = some deadline) (live : now < deadline)

include shown held live

theorem Shown.swept :
    Shown peer address lag last { run with provider := swept now run.provider } where
  silent := by
    refine shown.silent.foldl_expire fun gone => ?_
    obtain ⟨lapsed, found, past⟩ := mem_goneAt.mp gone
    rw [held] at found
    have same := Option.some.inj found
    omega
  shown := by
    rw [swept_lastEmitted (mem_of_deadlineOf (deadlineOf_keptAt_of_live held live))]
    exact shown.shown

theorem Shown.emptied (max : Nat) : Shown peer address lag last (emptied now max run) := by
  have swept := shown.swept held live
  refine ⟨fun event listed => swept.silent event (List.mem_of_mem_drop listed), ?_⟩
  obtain ⟨told, emitted, found, view, recent⟩ := swept.shown
  refine ⟨told, emitted, found, Eq.trans ?_ view, recent⟩
  exact receive_of_silent (fun event listed => swept.silent event (List.mem_of_mem_take listed))

end

theorem Shown.forwarded (fresh : Fresh now run.provider.seen) (early : now < u64Max)
    (held : deadlineOf (noted run.provider peer name now).seen peer address =
      some (add64 last observationTtlMs)) (recent : now ≤ last + lag)
    (length : (forwarded run.provider peer name now).pending.length ≤ maxPendingEvents) :
    Shown peer address lag last
      (Mdns.emptied now maxPendingEvents
        { run with provider := forwarded run.provider peer name now }) := by
  have still : Fresh now (noted run.provider peer name now).seen := fresh.noted early
  have live := still peer address _ held
  have emitted : (Mdns.swept now (Mdns.forwarded run.provider peer name now)).lastEmitted[peer]? =
      some now := by
    have kept := mem_of_deadlineOf (deadlineOf_keptAt_of_live held live)
    rw [@swept_lastEmitted peer now (Mdns.forwarded run.provider peer name now) kept,
      Mdns.forwarded, get_insert, if_pos rfl]
  have pending : (Mdns.swept now (Mdns.forwarded run.provider peer name now)).pending =
      (Mdns.forwarded run.provider peer name now).pending := by
    have gone : goneAt now (Mdns.forwarded run.provider peer name now).seen = [] := still.goneAt_eq
    rw [Mdns.swept, gone]
    rfl
  refine ⟨?_, last, now, emitted, ?_, recent, .inl rfl⟩
  · rw [Mdns.emptied, pending, List.drop_eq_nil_of_le length]
    exact nofun
  · have renewed : (renewed run.provider peer name now)[address]? =
        some (add64 last observationTtlMs) := by
      rwa [deadlineOf, addressesOf, Mdns.noted, get_insert, if_pos rfl] at held
    rw [Mdns.emptied, pending, List.take_of_length_le length]
    exact receive_observe renewed live

theorem Shown.forwarded_other (shown : Shown peer address lag last run) (other : owner ≠ peer) :
    Shown peer address lag last
      { run with provider := Mdns.forwarded run.provider owner name now } where
  silent := shown.silent.observe_other other
  shown := by
    rw [Mdns.forwarded, get_insert, if_neg other]
    exact shown.shown

/-- What a turn may do with an address that was announced before: come at most `gap` after its
latest announcement, and announce another address of its peer at most `lag` after it. -/
def Paced (gap lag : Nat) (peer : TransportIdentity) (address : String) (run : Run) (turn : Turn) :
    Prop :=
  ∀ last, run.announced peer address = some last → turn.time ≤ last + gap ∧
    ∀ name, turn.subject = some (peer, name) → name ≠ address → turn.time ≤ last + lag

/-- The provider holds an address for as long as its latest announcement says. -/
structure Tracked (peer : TransportIdentity) (address : String) (lag : Nat) (run : Run) :
    Prop where
  sound : Sound maxPeers 1 run.provider
  held : deadlineOf run.provider.seen peer address =
    (run.announced peer address).map (add64 · observationTtlMs)
  shown : ∀ last, run.announced peer address = some last → Shown peer address lag last run

theorem few_events : maxPeers + 1 ≤ maxPendingEvents := by decide

theorem few_observations : maxPeers + 1 + (1 + maxAddressesPerPeer) ≤ maxPendingEvents := by decide

namespace Tracked

theorem start (peer : TransportIdentity) (address : String) (lag : Nat) :
    Tracked peer address lag Run.start where
  sound := by
    refine ⟨rfl, rfl, Nat.zero_le _, fun peer => Nat.zero_le _, ?_, ∅, Nat.zero_le _, ?_, ?_⟩
    · intro peer held
      simp [Run.start, MdnsDiscovery.start] at held
    · intro peer held
      simp [Run.start, MdnsDiscovery.start] at held
    · exact ⟨List.nodup_nil, nofun, Nat.le_refl 1⟩
  held := rfl
  shown := nofun

theorem held_some (tracked : Tracked peer address lag run)
    (announced : run.announced peer address = some last) :
    deadlineOf run.provider.seen peer address = some (add64 last observationTtlMs) := by
  rw [tracked.held, announced]
  rfl

section

variable (tracked : Tracked peer address lag run)
  (live : ∀ last, run.announced peer address = some last → now <
    add64 last observationTtlMs)

include tracked live

theorem keptAt_held :
    deadlineOf (keptAt now run.provider.seen) peer address =
      (run.announced peer address).map (add64 · observationTtlMs) := by
  cases announced : run.announced peer address with
  | none => rw [deadlineOf_keptAt, tracked.held, announced]; rfl
  | some last =>
    exact deadlineOf_keptAt_of_live (tracked.held_some announced) (live last announced)

theorem swept :
    Tracked peer address lag { run with provider := Mdns.swept now run.provider } where
  sound := tracked.sound.swept now
  held := tracked.keptAt_held live
  shown := fun last announced =>
    (tracked.shown last announced).swept (tracked.held_some announced) (live last announced)

theorem drain (max : Nat) : Tracked peer address lag (run.drain now max) := by
  rw [Run.drain_eq tracked.sound few_events]
  exact ⟨(tracked.sound.swept now).dropped max, tracked.keptAt_held live, fun last announced =>
    (tracked.shown last announced).emptied (tracked.held_some announced) (live last announced) max⟩

end

/-- A held announcement and the complete drain that follows it. -/
theorem hold (tracked : Tracked peer address lag run) (fresh : Fresh now run.provider.seen)
    (early : now < u64Max) (admits : Admits run.provider owner name)
    (recent : ∀ last, run.announced peer address = some last → owner = peer → name ≠ address →
      now ≤ last + lag) :
    Tracked peer address lag (Run.drain
      { run with
        provider := run.provider.hold owner (addressesOf run.provider.seen owner) name now
        announced := fun peerId held =>
          if (owner, name) = (peerId, held) then some now else run.announced peerId held }
      now maxPendingEvents) := by
  have sound := tracked.sound.hold admits early
  have seen := hold_seen tracked.sound admits early
  have held : deadlineOf (noted run.provider owner name now).seen peer address =
      (if (owner, name) = (peer, address) then some now else run.announced peer address).map
        (add64 · observationTtlMs) := by
    rw [deadlineOf_noted, tracked.held]
    split <;> rfl
  rw [Run.drain_eq sound few_observations]
  refine ⟨(sound.swept now).drained few_observations, ?_, ?_⟩
  · refine Eq.trans ?_ held
    simp only [emptied, Mdns.swept, seen]
    cases found : deadlineOf (noted run.provider owner name now).seen peer address with
    | none => rw [deadlineOf_keptAt, found]; rfl
    | some deadline =>
      exact deadlineOf_keptAt_of_live found (fresh.noted early peer address deadline found)
  intro last announced
  change (if (owner, name) = (peer, address) then some now else _) = some last at announced
  rw [announced] at held
  have live := fresh.noted early peer address _ held
  rcases hold_cases tracked.sound admits early with forward | ⟨throttled, known, soon⟩
  · simp only [forward] at sound ⊢
    by_cases mine : owner = peer
    · subst mine
      have soon : now ≤ last + lag := by
        split at announced
        · cases announced
          exact Nat.le_add_right _ _
        next other => exact recent last announced rfl fun same => other (Prod.ext rfl same)
      have after := Shown.forwarded fresh early held soon (sound.length_le.trans few_observations)
      exact ⟨after.silent, after.shown⟩
    · rw [if_neg fun same => mine (congrArg Prod.fst same)] at announced
      have after := ((tracked.shown last announced).forwarded_other mine).emptied held live
        maxPendingEvents
      exact ⟨after.silent, after.shown⟩
  · simp only [throttled]
    refine @Shown.emptied _ _ lag now last _ _ ?_ held live maxPendingEvents
    split at announced
    next mine =>
      cases mine
      cases announced
      obtain ⟨deadline, known⟩ := known
      rw [tracked.held, Option.map_eq_some_iff] at known
      obtain ⟨before, announced, -⟩ := known
      have shown := tracked.shown before announced
      obtain ⟨told, emitted, found, view, close, -⟩ := shown.shown
      obtain ⟨same, again, soon⟩ := soon
      rw [found] at again
      cases again
      exact ⟨shown.silent, told, emitted, found, view, close, .inr soon⟩
    · have before := tracked.shown last announced
      exact ⟨before.silent, before.shown⟩

end Tracked

theorem live_of_paced (short : gap < observationTtlMs) (early : turn.time < u64Max)
    (paced : Paced gap lag peer address run turn) (last : Nat)
    (found : run.announced peer address = some last) :
    turn.time < add64 last observationTtlMs := by
  have soon := (paced last found).1
  refine Nat.lt_of_not_le fun past => ?_
  have ended := (add64_le_iff early last observationTtlMs).mp past
  omega

theorem Tracked.step (tracked : Tracked peer address lag run) (short : gap < observationTtlMs)
    (early : turn.time < u64Max) (paced : Paced gap lag peer address run turn) :
    Tracked peer address lag (run.step turn) := by
  have live := live_of_paced short early paced
  cases turn with
  | drain now max => exact tracked.drain live max
  | announce text name now =>
    simp only [Turn.time] at early live
    have pushed := pushDiscovered_pushed run.provider text name now
    have swept := tracked.swept live
    simp only [Run.step]
    generalize run.provider.pushDiscovered text name now = result at pushed
    cases pushed with
    | ignored =>
      simp only [Bool.false_eq_true, false_and, if_false]
      exact tracked.drain live _
    | refused =>
      simp only [Bool.false_eq_true, false_and, if_false]
      rw [tracked.sound.sweep_eq few_events]
      exact swept.drain live _
    | @held owner parsed admits =>
      have subject : (Turn.announce text name now).subject = some (owner, name) := by
        simp only [Turn.subject, parsed]
      rw [tracked.sound.sweep_eq few_events] at admits ⊢
      simp only [subject, true_and, Option.some.injEq]
      refine swept.hold keptAt_fresh early admits ?_
      intro last announced mine differs
      exact (paced last announced).2 name (by rw [subject, mine]) differs

theorem Run.after_append (before : List Turn) (turn : Turn) :
    Run.after (before ++ [turn]) = (Run.after before).step turn := by
  rw [Run.after, List.foldl_append]
  rfl

theorem Tracked.after (short : gap < observationTtlMs) (turns : List Turn)
    (early : ∀ turn ∈ turns, turn.time < u64Max)
    (paced : ∀ before turn later, turns = before ++ turn :: later →
      Paced gap lag peer address (Run.after before) turn) :
    Tracked peer address lag (Run.after turns) := by
  induction turns using List.reverseRecOn with
  | nil => exact Tracked.start peer address lag
  | append_singleton before turn ih =>
    rw [Run.after_append]
    have earlier := ih (fun other listed => early other (List.mem_append_left _ listed))
      fun first other later split => paced first other (later ++ [turn]) (by rw [split]; simp)
    exact earlier.step short (early turn (by simp)) (paced before turn [] rfl)

theorem Run.announced_step (other : turn.subject ≠ some (peer, address)) :
    (run.step turn).announced peer address = run.announced peer address := by
  cases turn with
  | drain now max => rfl
  | announce text name now =>
    simp [Run.step, Run.drain, other]

theorem Run.announced_foldl {turns : List Turn}
    (others : ∀ turn ∈ turns, turn.subject ≠ some (peer, address)) :
    (turns.foldl Run.step run).announced peer address = run.announced peer address := by
  induction turns generalizing run with
  | nil => rfl
  | cons turn rest ih =>
    rw [List.foldl_cons, ih fun other listed => others other (List.mem_cons_of_mem _ listed)]
    exact Run.announced_step (others turn List.mem_cons_self)

theorem Run.announced_time (found : (Run.after turns).announced peer address = some last) :
    ∃ turn ∈ turns, turn.time = last := by
  induction turns using List.reverseRecOn with
  | nil => cases found
  | append_singleton before turn ih =>
    rw [Run.after_append] at found
    by_cases mine : turn.subject = some (peer, address)
    · cases turn with
      | drain now max => cases mine
      | announce text name now =>
        simp only [Run.step, Run.drain, mine, and_true] at found
        split at found
        · cases found
          exact ⟨_, List.mem_append_right _ List.mem_cons_self, rfl⟩
        · obtain ⟨earlier, listed, same⟩ := ih found
          exact ⟨earlier, List.mem_append_left _ listed, same⟩
    · rw [Run.announced_step mine] at found
      obtain ⟨earlier, listed, same⟩ := ih found
      exact ⟨earlier, List.mem_append_left _ listed, same⟩

def Along (condition : Run → Turn → List Turn → Prop) : Run → List Turn → Prop
  | _, [] => True
  | run, turn :: rest => condition run turn rest ∧ Along condition (run.step turn) rest

instance Along.decidable {condition : Run → Turn → List Turn → Prop}
    [∀ run turn rest, Decidable (condition run turn rest)] :
    ∀ (run : Run) (turns : List Turn), Decidable (Along condition run turns)
  | _, [] => .isTrue trivial
  | run, _ :: rest => @instDecidableAnd _ _ _ (Along.decidable (run.step _) rest)

theorem Along.split (before : List Turn) (run : Run)
    (all : Along condition run (before ++ turn :: rest)) :
    condition (before.foldl Run.step run) turn rest := by
  induction before generalizing run with
  | nil => exact all.1
  | cons first later ih => exact ih _ all.2

def Reannounces (gap : Nat) (peer : TransportIdentity) (address : String) (run : Run) (turn : Turn)
    (_rest : List Turn) : Prop :=
  ∀ last ∈ run.announced peer address, turn.subject = some (peer, address) →
    turn.time ≤ last + gap

instance (gap : Nat) (peer : TransportIdentity) (address : String) (run : Run) (turn : Turn)
    (rest : List Turn) : Decidable (Reannounces gap peer address run turn rest) :=
  inferInstanceAs (Decidable (∀ last ∈ run.announced peer address, _))

/-- A turn that announces another address of a peer does so at most `lag` after the latest
announcement of this one, unless this one is not announced again. -/
def Follows (lag : Nat) (peer : TransportIdentity) (address : String) (run : Run) (turn : Turn)
    (rest : List Turn) : Prop :=
  ∀ last ∈ run.announced peer address, ∀ subject ∈ turn.subject, subject.1 = peer →
    subject.2 ≠ address → (∃ later ∈ rest, later.subject = some (peer, address)) →
      turn.time ≤ last + lag

instance (lag : Nat) (peer : TransportIdentity) (address : String) (run : Run) (turn : Turn)
    (rest : List Turn) : Decidable (Follows lag peer address run turn rest) :=
  inferInstanceAs (Decidable (∀ last ∈ run.announced peer address, ∀ subject ∈ turn.subject, _))

theorem time_le_of_again (gaps : Along (Reannounces gap peer address) Run.start (before ++ rest))
    (found : (Run.after before).announced peer address = some last)
    (again : ∃ turn ∈ rest, turn.subject = some (peer, address))
    (coming : ∀ turn ∈ rest, time ≤ turn.time) : time ≤ last + gap := by
  obtain ⟨next, first⟩ : ∃ next,
      rest.find? (fun turn => turn.subject = some (peer, address)) = some next :=
    Option.isSome_iff_exists.mp (List.find?_isSome.mpr (by simpa using again))
  obtain ⟨announces, waiting, later, rfl, none⟩ := List.find?_eq_some_iff_append.mp first
  rw [decide_eq_true_eq] at announces
  rw [← List.append_assoc] at gaps
  have gap := gaps.split
  rw [List.foldl_append] at gap
  have others : ∀ turn ∈ waiting, turn.subject ≠ some (peer, address) :=
    fun turn listed => by simpa using none turn listed
  have same := (Run.announced_foldl others).trans found
  have bound := gap last same announces
  have order := coming next (by simp)
  omega

namespace Sample

def host : TransportIdentity := TransportIdentity.numbered 1

def wired (now : Nat) : Turn :=
  .announce host.asStr "wired" now

def wireless (now : Nat) : Turn :=
  .announce host.asStr "wireless" now

def earlier : List Turn := [wired 0, wireless 89_999, wired 90_000]
def later : List Turn := [wireless 179_999, wired 180_000]

end Sample

section Live

variable {gap lag : Nat} {peer : TransportIdentity} {address : String} {before after : List Turn}

theorem paced_of_follows
    (ordered : (before ++ after).Pairwise fun first second => first.time ≤ second.time)
    (gaps : Along (Reannounces gap peer address) Run.start (before ++ after))
    (close : Along (Follows lag peer address) Run.start (before ++ after))
    (past : ∀ turn ∈ before, turn.time ≤ time)
    (begun : (Run.after before).announced peer address = some last)
    (again : time ≤ last ∨ ∃ turn ∈ after, turn.subject = some (peer, address)) (first : List Turn)
    (turn : Turn) (rest : List Turn) (split : before = first ++ turn :: rest) :
    Paced gap lag peer address (Run.after first) turn := by
  subst split
  intro earlier found
  by_cases more : ∃ later ∈ turn :: rest ++ after, later.subject = some (peer, address)
  · have order : ∀ later ∈ turn :: rest ++ after, turn.time ≤ later.time := by
      rw [List.append_assoc] at ordered
      have tail := (List.pairwise_append.mp ordered).2.1
      intro later listed
      rcases List.mem_cons.mp listed with rfl | listed
      · exact Nat.le_refl _
      · exact (List.pairwise_cons.mp tail).1 later listed
    rw [List.append_assoc] at gaps close
    refine ⟨time_le_of_again gaps found more order, fun name subject differs => ?_⟩
    refine close.split first Run.start earlier found (peer, name) subject rfl differs ?_
    obtain ⟨later, listed, announces⟩ := more
    rcases List.mem_cons.mp listed with rfl | listed
    · rw [subject] at announces
      exact absurd (congrArg Prod.snd (Option.some.inj announces)) differs
    · exact ⟨later, listed, announces⟩
  · have same : (Run.after (first ++ turn :: rest)).announced peer address = some earlier := by
      rw [Run.after, List.foldl_append]
      refine (Run.announced_foldl (fun later listed announces => more ?_)).trans found
      exact ⟨later, List.mem_append_left _ listed, announces⟩
    rw [begun] at same
    cases same
    have soon : time ≤ last := again.resolve_right fun ⟨later, listed, announces⟩ =>
      more ⟨later, List.mem_append_right _ listed, announces⟩
    have now := past turn (by simp)
    exact ⟨by omega, fun _ _ _ => by omega⟩

/-- While an address is announced with gaps of at most `gap`, and every other address of its peer
is announced at most `lag` after it, the consumer's deadline for it never passes, for all bounds
that together leave a refresh interval before the deadline. -/
theorem announced_route_never_lapses {last time : Nat}
    (slack : lag + gap ≤ observationTtlMs - refreshIntervalMs)
    (ordered : (before ++ after).Pairwise fun first second => first.time ≤ second.time)
    (early : ∀ turn ∈ before ++ after, turn.time < u64Max)
    (gaps : Along (Reannounces gap peer address) Run.start (before ++ after))
    (close : Along (Follows lag peer address) Run.start (before ++ after))
    (past : ∀ turn ∈ before, turn.time ≤ time) (coming : ∀ turn ∈ after, time ≤ turn.time)
    (begun : (Run.after before).announced peer address = some last)
    (again : time ≤ last ∨ ∃ turn ∈ after, turn.subject = some (peer, address)) :
    ∃ deadline, (Run.after before).view peer address = some deadline ∧ time < deadline := by
  have ttl : observationTtlMs = 120_000 := rfl
  have refresh : refreshIntervalMs = 30_000 := rfl
  have tracked : Tracked peer address lag (Run.after before) :=
    Tracked.after (by omega) before (fun turn listed => early turn (List.mem_append_left _ listed))
      (paced_of_follows ordered gaps close past begun again)
  obtain ⟨told, emitted, -, shown, recent, fresh⟩ := (tracked.shown last begun).shown
  refine ⟨_, shown, Nat.lt_of_not_le fun lapsed => ?_⟩
  have soon : time ≤ last + gap := by
    rcases again with now | again
    · omega
    · exact time_le_of_again gaps begun again coming
  have clock : time < u64Max := by
    rcases again with now | ⟨turn, listed, -⟩
    · obtain ⟨turn, listed, same⟩ := Run.announced_time begun
      have bound := early turn (List.mem_append_left _ listed)
      omega
    · have bound := early turn (List.mem_append_right _ listed)
      have order := coming turn listed
      omega
  have ended := (add64_le_iff clock told observationTtlMs).mp lapsed
  omega

end Live

open Sample in
theorem announced_route_never_lapses_sample :
    ∃ deadline, (Run.after [wired 0, wireless 40_000]).view host "wired" = some deadline ∧
      44_000 < deadline :=
  announced_route_never_lapses
    (by decide : 45_000 + 45_000 ≤ observationTtlMs - refreshIntervalMs) (by decide) (by decide)
    (by decide +kernel) (by decide +kernel) (by decide)
    (by decide : ∀ turn ∈ [wired 45_000], 44_000 ≤ turn.time)
    (by decide +kernel : (Run.after [wired 0, wireless 40_000]).announced host "wired" = some 0)
    (by decide +kernel)

open Sample in
/-- Both addresses come back every ninety seconds. The wired one is announced once more before its
deadline in the view, which passes all the same. -/
theorem throttled_refresh_lapses :
    (∀ name ∈ ["wired", "wireless"],
      Along (Reannounces (observationTtlMs - refreshIntervalMs) host name) Run.start
        (earlier ++ later)) ∧
      (∀ turn ∈ earlier, turn.time ≤ 120_000) ∧ (∀ turn ∈ later, 120_000 ≤ turn.time) ∧
      (Run.after earlier).announced host "wired" = some 90_000 ∧
      (∃ turn ∈ later, turn.subject = some (host, "wired")) ∧
      (Run.after earlier).view host "wired" = some 120_000 := by
  decide +kernel

end InterWeave.Mdns
