import InterWeave.Runtime.Dedup

/-!
The books of the reservation map. Along every sequence of acquisitions and releases the count
kept for a peer is what its keys in flight stand for, and both ceilings hold.
-/

namespace InterWeave

open Std (ExtTreeMap)
open OrderedMap

namespace ReservationMap

variable (reservations : ReservationMap) (peer : TransportIdentity)

def share (key : DedupKey) (entry : InFlight) : Nat :=
  if key.sourcePeer = peer then entry.waiters + 1 else 0

def chargedTo : Nat :=
  OrderedMap.total (share peer) reservations.inFlight

def counted : Nat :=
  OrderedMap.total (fun _ count => count) reservations.perPeer

structure Accounted (reservations : ReservationMap) : Prop where
  charged : reservations.Charged
  held : ∀ peer, reservations.held peer = reservations.chargedTo peer
  all : reservations.counted = reservations.outstanding
  perPeer : ∀ peer, reservations.held peer ≤ reservations.maxPerPeer
  global : reservations.outstanding ≤ reservations.maxGlobal

theorem outstanding_eq_total :
    reservations.outstanding =
      OrderedMap.total (fun _ entry => InFlight.waiters entry + 1) reservations.inFlight := rfl

theorem held_charge (other : TransportIdentity) (inFlight : ExtTreeMap DedupKey InFlight) :
    held { reservations with inFlight := inFlight, perPeer := charge reservations.perPeer peer }
      other = reservations.held other + if peer = other then 1 else 0 := by
  simp only [held, charge, get_insert]
  split
  next same => rw [same]; rfl
  next => rfl

theorem total_charge (perPeer : ExtTreeMap TransportIdentity Nat) (peer : TransportIdentity) :
    OrderedMap.total (fun _ count => count) (charge perPeer peer) =
      OrderedMap.total (fun _ count => count) perPeer + 1 := by
  rw [charge, total_insert]
  cases found : perPeer[peer]? with
  | none =>
    rw [erase_of_get_none found]
    simp [Nat.add_comm]
  | some count =>
    rw [total_of_get (fun _ count => count) found]
    simp
    omega

theorem Accounted.grow {reservations : ReservationMap} (accounted : reservations.Accounted)
    {key : DedupKey} {inFlight : ExtTreeMap DedupKey InFlight}
    (shares : ∀ peer, OrderedMap.total (share peer) inFlight =
      reservations.chargedTo peer + if key.sourcePeer = peer then 1 else 0)
    (units : OrderedMap.total (fun _ entry => InFlight.waiters entry + 1) inFlight =
      reservations.outstanding + 1)
    (light : reservations.held key.sourcePeer < reservations.maxPerPeer)
    (spare : reservations.outstanding < reservations.maxGlobal) :
    Accounted { reservations with
      inFlight := inFlight, perPeer := charge reservations.perPeer key.sourcePeer } := by
  refine ⟨accounted.charged.charge _ _, fun peer => ?_, ?_, fun peer => ?_, ?_⟩
  · rw [held_charge, accounted.held]
    exact (shares peer).symm
  · rw [counted, total_charge]
    exact (congrArg (· + 1) accounted.all).trans units.symm
  · rw [held_charge]
    have bound := accounted.perPeer peer
    split
    next same =>
      rw [same] at light
      exact light
    next => exact bound
  · rw [outstanding_eq_total, units]
    exact spare

theorem Accounted.acquire {reservations : ReservationMap} (accounted : reservations.Accounted)
    (key : DedupKey) (fingerprint : ContentFingerprint) :
    (reservations.acquire key fingerprint).1.Accounted := by
  unfold ReservationMap.acquire
  cases found : reservations.inFlight[key]? with
  | none =>
    dsimp only
    split
    · exact accounted
    · split
      · exact accounted
      next room light =>
        refine accounted.grow (fun peer => ?_) ?_ (Nat.lt_of_not_ge light) (Nat.lt_of_not_ge room)
        · rw [total_insert_fresh _ _ found, chargedTo, share, Nat.add_comm]
        · rw [total_insert_fresh _ _ found, outstanding_eq_total, Nat.add_comm]
  | some entry =>
    dsimp only
    split
    · exact accounted
    · split
      · exact accounted
      next room =>
        obtain ⟨light, spare⟩ := not_or.mp room
        refine accounted.grow (fun peer => ?_) ?_ (Nat.lt_of_not_ge light)
            (Nat.lt_of_not_ge spare)
        · rw [total_insert, chargedTo, total_of_get _ found]
          simp only [share]
          split <;> omega
        · rw [total_insert, outstanding_eq_total, total_of_get _ found]
          dsimp only
          omega

section

variable {reservations : ReservationMap} {key : DedupKey} {entry : InFlight}

theorem release_absent (absent : reservations.inFlight[key]? = none) :
    reservations.release key = reservations := by
  simp [release, absent]

section

variable (found : reservations.inFlight[key]? = some entry)

include found

theorem release_inFlight :
    (reservations.release key).inFlight = reservations.inFlight.erase key := by
  simp [release, found]

theorem release_outstanding :
    (reservations.release key).outstanding + (entry.waiters + 1) = reservations.outstanding := by
  rw [outstanding_eq_total, release_inFlight found, outstanding_eq_total, total_of_get _ found,
    Nat.add_comm]

theorem release_chargedTo (peer : TransportIdentity) :
    (reservations.release key).chargedTo peer + share peer key entry =
      reservations.chargedTo peer := by
  rw [chargedTo, release_inFlight found, chargedTo, total_of_get _ found, Nat.add_comm]

end

theorem release_other (peer : TransportIdentity) (other : peer ≠ key.sourcePeer) :
    (reservations.release key).perPeer[peer]? = reservations.perPeer[peer]? := by
  unfold release
  split
  · rfl
  · dsimp only
    split
    · rfl
    · split
      · rw [get_erase, if_neg (Ne.symm other)]
      · rw [get_insert, if_neg (Ne.symm other)]

theorem release_perPeer (found : reservations.inFlight[key]? = some entry)
    (counts : reservations.perPeer[key.sourcePeer]? = some count) :
    (reservations.release key).perPeer =
      if count - (entry.waiters + 1) = 0 then reservations.perPeer.erase key.sourcePeer
      else reservations.perPeer.insert key.sourcePeer (count - (entry.waiters + 1)) := by
  simp [release, found, counts]

theorem Accounted.listed (accounted : reservations.Accounted)
    (found : reservations.inFlight[key]? = some entry) :
    ∃ count, reservations.perPeer[key.sourcePeer]? = some count ∧ entry.waiters + 1 ≤ count := by
  have sum := accounted.held key.sourcePeer
  rw [chargedTo, total_of_get _ found, share, if_pos rfl, ReservationMap.held] at sum
  cases counts : reservations.perPeer[key.sourcePeer]? with
  | none =>
    rw [counts, Option.getD_none] at sum
    omega
  | some count =>
    rw [counts, Option.getD_some] at sum
    exact ⟨count, rfl, by omega⟩

theorem Accounted.release_held (accounted : reservations.Accounted)
    (found : reservations.inFlight[key]? = some entry) (peer : TransportIdentity) :
    (reservations.release key).held peer + share peer key entry = reservations.held peer := by
  obtain ⟨count, counts, enough⟩ := accounted.listed found
  by_cases same : key.sourcePeer = peer
  · subst same
    simp only [ReservationMap.held, release_perPeer found counts, share, ↓reduceIte, counts,
      Option.getD_some]
    split
    · rw [get_erase, if_pos rfl, Option.getD_none]
      omega
    · rw [get_insert, if_pos rfl, Option.getD_some]
      omega
  · rw [ReservationMap.held, release_other peer (Ne.symm same), share, if_neg same]
    rfl

theorem Accounted.release_counted (accounted : reservations.Accounted)
    (found : reservations.inFlight[key]? = some entry) :
    (reservations.release key).counted + (entry.waiters + 1) = reservations.counted := by
  obtain ⟨count, counts, enough⟩ := accounted.listed found
  rw [counted, release_perPeer found counts, counted, total_of_get _ counts]
  split
  · omega
  · rw [total_insert]
    omega

theorem Accounted.release (accounted : reservations.Accounted) (key : DedupKey) :
    (reservations.release key).Accounted := by
  cases found : reservations.inFlight[key]? with
  | none => rwa [release_absent found]
  | some entry =>
    have limits : (reservations.release key).maxPerPeer = reservations.maxPerPeer ∧
        (reservations.release key).maxGlobal = reservations.maxGlobal := by
      simp [ReservationMap.release, found]
    have units := release_outstanding found
    refine ⟨accounted.charged.release key, fun peer => ?_, ?_, fun peer => ?_, ?_⟩
    · have given := accounted.release_held found peer
      have shares := release_chargedTo found peer
      have before := accounted.held peer
      omega
    · have given := accounted.release_counted found
      have before := accounted.all
      omega
    · have given := accounted.release_held found peer
      have bound := accounted.perPeer peer
      omega
    · have bound := accounted.global
      omega

end

theorem Reachable.accounted {reservations : ReservationMap} (reachable : reservations.Reachable) :
    reservations.Accounted := by
  induction reachable with
  | new maxGlobal maxPerPeer =>
    have none : ∀ peer, (ReservationMap.new maxGlobal maxPerPeer).held peer = 0 := by
      intro peer
      simp [held, ReservationMap.new]
    have nothing : (ReservationMap.new maxGlobal maxPerPeer).outstanding = 0 :=
      total_empty fun (_ : DedupKey) (entry : InFlight) => entry.waiters + 1
    exact ⟨(Reachable.new maxGlobal maxPerPeer).charged,
      fun peer => (none peer).trans (total_empty _).symm,
      nothing.symm ▸ total_empty _, fun peer => (none peer).trans_le (Nat.zero_le _),
      nothing.trans_le (Nat.zero_le _)⟩
  | acquire _ key fingerprint ih => exact ih.acquire key fingerprint
  | release _ key ih => exact ih.release key

inductive Request where
  | acquired (key : DedupKey) (answer : Except ReservationFailure Reservation)
  | released (key : DedupKey)

inductive Served : List Request → ReservationMap → Prop
  | new (maxGlobal maxPerPeer : Nat) : Served [] (ReservationMap.new maxGlobal maxPerPeer)
  | acquire {requests : List Request} {reservations : ReservationMap}
      (served : Served requests reservations) (key : DedupKey) (fingerprint : ContentFingerprint) :
      Served (.acquired key (reservations.acquire key fingerprint).2 :: requests)
        (reservations.acquire key fingerprint).1
  | release {requests : List Request} {reservations : ReservationMap}
      (served : Served requests reservations) (key : DedupKey) :
      Served (.released key :: requests) (reservations.release key)

theorem Served.reachable {requests : List Request} {reservations : ReservationMap}
    (served : Served requests reservations) : reservations.Reachable := by
  induction served with
  | new maxGlobal maxPerPeer => exact .new maxGlobal maxPerPeer
  | acquire _ key fingerprint ih => exact ih.acquire key fingerprint
  | release _ key ih => exact ih.release key

def attached (key : DedupKey) : List Request → Nat
  | [] => 0
  | .acquired other (.ok .owner) :: earlier =>
    if other = key then 0 else attached key earlier
  | .acquired other (.ok .waiter) :: earlier =>
    if other = key then attached key earlier + 1 else attached key earlier
  | .acquired _ (.error _) :: earlier | .released _ :: earlier => attached key earlier

theorem Served.waiters {requests : List Request} {reservations : ReservationMap}
    (served : Served requests reservations) {key : DedupKey} {entry : InFlight}
    (found : reservations.inFlight[key]? = some entry) : entry.waiters = attached key requests := by
  induction served generalizing entry with
  | new maxGlobal maxPerPeer => simp [ReservationMap.new] at found
  | @acquire requests reservations _ other fingerprint ih =>
    rcases acquire_cases reservations other fingerprint with
      ⟨failure, answer⟩ | ⟨before, foundBefore, -, answer⟩ | ⟨absent, answer⟩
    · rw [answer] at found ⊢
      exact ih found
    · rw [answer] at found ⊢
      simp only [get_insert] at found
      simp only [attached]
      split at found
      next same =>
        cases found
        rw [if_pos same, ← ih (same ▸ foundBefore)]
      next apart =>
        rw [if_neg apart]
        exact ih found
    · rw [answer] at found ⊢
      simp only [get_insert] at found
      simp only [attached]
      split at found
      next same =>
        cases found
        rw [if_pos same]
      next apart =>
        rw [if_neg apart]
        exact ih found
  | @release requests reservations _ other ih =>
    cases present : reservations.inFlight[other]? with
    | none =>
      rw [release_absent present] at found
      exact ih found
    | some gone =>
      rw [release_inFlight present, get_erase] at found
      split at found
      · cases found
      · exact ih found

/-- Reservation accounting. After any sequence of acquisitions and releases, a peer's count is
what its keys in flight stand for, within its ceiling, and absent when zero; the counts of all
peers together are what is outstanding, within the global ceiling. A refused acquisition changes
nothing. Releasing a key in flight gives back its owner and the waiters attached since it was
acquired, to its peer and to the whole, and touches no other key and no other peer; releasing
any other key changes nothing. -/
theorem reservation_accounting {requests : List Request} {reservations : ReservationMap}
    (served : Served requests reservations) :
    (∀ peer, reservations.held peer = reservations.chargedTo peer ∧
      reservations.held peer ≤ reservations.maxPerPeer ∧
      (reservations.perPeer[peer]? = none ↔ reservations.chargedTo peer = 0)) ∧
    (reservations.outstanding = reservations.counted ∧
      reservations.outstanding ≤ reservations.maxGlobal) ∧
    (∀ key fingerprint failure, (reservations.acquire key fingerprint).2 = .error failure →
      (reservations.acquire key fingerprint).1 = reservations) ∧
    (∀ key, key ∈ reservations.inFlight →
      (reservations.release key).held key.sourcePeer + (attached key requests + 1) =
        reservations.held key.sourcePeer ∧
      (reservations.release key).outstanding + (attached key requests + 1) =
        reservations.outstanding ∧
      (∀ peer, peer ≠ key.sourcePeer →
        (reservations.release key).perPeer[peer]? = reservations.perPeer[peer]?) ∧
      ∀ other, (reservations.release key).inFlight[other]? =
        if key = other then none else reservations.inFlight[other]?) ∧
    ∀ key, key ∉ reservations.inFlight → reservations.release key = reservations := by
  have accounted := served.reachable.accounted
  refine ⟨fun peer => ⟨accounted.held peer, accounted.perPeer peer, ?_⟩,
    ⟨accounted.all.symm, accounted.global⟩, ?_, ?_, ?_⟩
  · rw [← accounted.held peer, held]
    cases counts : reservations.perPeer[peer]? with
    | none => simp
    | some count => simpa using (accounted.charged peer count counts).ne'
  · intro key fingerprint failure refused
    rcases acquire_cases reservations key fingerprint with
      ⟨other, answer⟩ | ⟨entry, -, -, answer⟩ | ⟨-, answer⟩
    · rw [answer]
    · rw [answer] at refused
      cases refused
    · rw [answer] at refused
      cases refused
  · intro key present
    obtain ⟨entry, found⟩ := (mem_iff_get _ _).mp present
    have waiters := served.waiters found
    have given := accounted.release_held found key.sourcePeer
    rw [share, if_pos rfl, waiters] at given
    refine ⟨given, waiters ▸ release_outstanding found, release_other, fun other => ?_⟩
    rw [release_inFlight found, get_erase]
  · intro key absent
    exact release_absent ((notMem_iff_get _ _).mp absent)

def sampleKey : DedupKey :=
  .broadcast ⟨"12D3KooWA9hFCGwGCpCbWWfLmYSpqPzXgLmPvbBrgWGNvNGSDVpS", TransportIdentity.check_plain⟩
    ⟨"lobby", by decide⟩ ⟨List.replicate 16 0, by decide⟩

set_option maxRecDepth 4096 in
/-- Two requests under one key go together. -/
theorem reservation_accounting_sample : ∃ requests reservations, Served requests reservations ∧
    sampleKey ∈ reservations.inFlight ∧
    (reservations.release sampleKey).outstanding + 2 = reservations.outstanding := by
  have served := ((Served.new 128 8).acquire sampleKey ⟨List.replicate 32 0, rfl⟩).acquire sampleKey
    ⟨List.replicate 32 0, rfl⟩
  have present : sampleKey ∈ (((ReservationMap.new 128 8).acquire sampleKey
      ⟨List.replicate 32 0, rfl⟩).1.acquire sampleKey ⟨List.replicate 32 0, rfl⟩).1.inFlight := by
    decide +kernel
  obtain ⟨-, -, -, released, -⟩ := reservation_accounting served
  exact ⟨_, _, served, present, (released sampleKey present).2.1⟩

end ReservationMap

end InterWeave
