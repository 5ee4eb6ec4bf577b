import InterWeave.Lib.OrderedMap
import InterWeave.Lib.Recency
import InterWeave.Runtime.DedupCore

/-!
What the dedup cache and the reservation map guarantee. The recency list tracks
exactly the recorded keys; a reservation taken and released leaves no trace.
-/

namespace InterWeave

open Std (ExtTreeMap)
open OrderedMap Recency

namespace DedupCache

variable {entries : ExtTreeMap DedupKey AcceptedRecord} {other : DedupKey} {order : List DedupKey}

structure Wf (cache : DedupCache) : Prop where
  nodup : cache.order.Nodup
  tracked : ∀ key, key ∈ cache.order ↔ key ∈ cache.entries
  room : cache.entries.size ≤ cache.maxEntries
  positive : 0 < cache.maxEntries

theorem length_of_tracked (nodup : order.Nodup) (tracked : ∀ key, key ∈ order ↔ key ∈ entries) :
    order.length = entries.size := by
  have perm : order.Perm entries.keys := by
    rw [List.perm_ext_iff_of_nodup nodup ExtTreeMap.nodup_keys]
    simpa using tracked
  rw [perm.length_eq, ExtTreeMap.length_keys]

theorem foldl_forget {keys : List DedupKey} (cache : DedupCache) :
    keys.foldl forget cache =
      { cache with
        entries := keys.foldl ExtTreeMap.erase cache.entries
        order := keys.foldl List.erase cache.order } := by
  induction keys generalizing cache with
  | nil => rfl
  | cons key rest ih => exact ih (cache.forget key)

theorem mem_expiredKeys {cache : DedupCache} :
    key ∈ cache.expiredKeys nowMs ↔
      ∃ record, cache.entries[key]? = some record ∧ expired cache.ttlMs nowMs record = true := by
  simp [expiredKeys, ExtTreeMap.mem_toList_iff_getElem?_eq_some]

variable (cache : DedupCache) (key : DedupKey) (fingerprint : ContentFingerprint) (nowMs : Nat)

@[simp]
theorem expire_maxEntries : (cache.expire nowMs).maxEntries = cache.maxEntries := by
  simp [expire, foldl_forget]

@[simp]
theorem expire_ttlMs : (cache.expire nowMs).ttlMs = cache.ttlMs := by
  simp [expire, foldl_forget]

theorem get_expire (key : DedupKey) :
    (cache.expire nowMs).entries[key]? =
      cache.entries[key]?.filter fun record => !expired cache.ttlMs nowMs record := by
  simp only [expire, foldl_forget, get_foldl_erase, mem_expiredKeys]
  cases found : cache.entries[key]? with
  | none => simp
  | some record =>
    by_cases gone : expired cache.ttlMs nowMs record = true <;> simp [gone, Option.filter]

theorem Wf.order_expire {cache : DedupCache} (wf : cache.Wf) (nowMs : Nat) :
    (cache.expire nowMs).order =
      cache.order.filter fun key => key ∈ (cache.expire nowMs).entries := by
  have removed : (cache.expire nowMs).order =
      cache.order.filter fun key => key ∉ cache.expiredKeys nowMs := by
    simp only [expire, foldl_forget]
    rw [← List.diff_eq_foldl, wf.nodup.sdiff_eq_filter]
  rw [removed]
  apply List.filter_congr
  intro key member
  obtain ⟨record, found⟩ := (mem_iff_get _ _).mp ((wf.tracked key).mp member)
  simp [mem_expiredKeys, mem_iff_get, get_expire, found]

theorem Wf.new (maxEntries ttlMs : Nat) : (DedupCache.new maxEntries ttlMs).Wf where
  nodup := by simp [DedupCache.new]
  tracked := by simp [DedupCache.new]
  room := by simp [DedupCache.new]
  positive := by simp [DedupCache.new]

theorem Wf.expire {cache : DedupCache} (wf : cache.Wf) (nowMs : Nat) : (cache.expire nowMs).Wf where
  nodup := by
    rw [wf.order_expire]
    exact wf.nodup.filter _
  tracked := by
    intro key
    rw [wf.order_expire]
    simp only [List.mem_filter, decide_eq_true_eq, and_iff_right_iff_imp]
    intro kept
    obtain ⟨record, found⟩ := (mem_iff_get _ _).mp kept
    rw [get_expire, Option.filter_eq_some_iff] at found
    exact (wf.tracked key).mpr ((mem_iff_get _ _).mpr ⟨record, found.1⟩)
  room := by
    have kept : (cache.expire nowMs).entries =
        cache.entries.filter fun _ record => !expired cache.ttlMs nowMs record := by
      apply ExtTreeMap.ext_getElem?
      intro key
      rw [get_expire, ExtTreeMap.getElem?_filter']
    rw [kept, expire_maxEntries]
    exact ExtTreeMap.size_filter_le_size.trans wf.room
  positive := by simpa using wf.positive

theorem Wf.touch {cache : DedupCache} (wf : cache.Wf) (key : DedupKey) : (cache.touch key).Wf := by
  unfold DedupCache.touch
  split
  next member =>
    have moved : (cache.order.erase key ++ [key]).Perm cache.order :=
      (List.perm_append_singleton key _).trans (List.perm_cons_erase member).symm
    exact ⟨moved.nodup_iff.mpr wf.nodup, fun other => (moved.mem_iff).trans (wf.tracked other),
      wf.room, wf.positive⟩
  · exact wf

theorem admit_cases :
    ((cache.expire nowMs).entries[key]? = none ∧
        cache.admitKey key fingerprint nowMs = (cache.expire nowMs, .fresh)) ∨
      ∃ record, (cache.expire nowMs).entries[key]? = some record ∧
        ((record.fingerprint ≠ fingerprint ∧
            cache.admitKey key fingerprint nowMs = (cache.expire nowMs, .conflict)) ∨
          (record.fingerprint = fingerprint ∧
            cache.admitKey key fingerprint nowMs =
              ((cache.expire nowMs).touch key, .duplicateAccepted record.route))) := by
  unfold admitKey
  cases found : (cache.expire nowMs).entries[key]? with
  | none => exact .inl ⟨rfl, by simp [found]⟩
  | some record =>
    refine .inr ⟨record, rfl, ?_⟩
    by_cases same : record.fingerprint = fingerprint
    · exact .inr ⟨same, by simp [found, same]⟩
    · exact .inl ⟨same, by simp [found, same]⟩

theorem tracked_tail (nodup : (oldest :: rest).Nodup)
    (tracked : ∀ key, key ∈ oldest :: rest ↔ key ∈ entries) (key : DedupKey) :
    key ∈ rest ↔ key ∈ entries.erase oldest := by
  have absent : oldest ∉ rest := (List.nodup_cons.mp nodup).1
  simp only [mem_erase, ← tracked key, List.mem_cons]
  by_cases same : key = oldest
  · simp [same, absent]
  · simp [same]

theorem evict_spec {maxEntries : Nat} (nodup : order.Nodup)
    (tracked : ∀ key, key ∈ order ↔ key ∈ entries) (positive : 0 < maxEntries) :
    (evict maxEntries entries order).2.Sublist order ∧
      (∀ key, key ∈ (evict maxEntries entries order).2 ↔
        key ∈ (evict maxEntries entries order).1) ∧
      (evict maxEntries entries order).1.size < maxEntries ∧
      ∀ key ∈ (evict maxEntries entries order).2,
        (evict maxEntries entries order).1[key]? = entries[key]? := by
  induction order generalizing entries with
  | nil =>
    have empty : entries.size = 0 := (length_of_tracked nodup tracked).symm
    exact ⟨List.Sublist.refl _, tracked, by simp only [evict]; omega, fun _ _ => rfl⟩
  | cons oldest rest ih =>
    by_cases full : entries.size ≥ maxEntries
    · obtain ⟨sub, trackedNext, room, same⟩ :=
        ih (List.nodup_cons.mp nodup).2 (tracked_tail nodup tracked)
      simp only [evict, full, ↓reduceIte]
      refine ⟨sub.cons oldest, trackedNext, room, fun key kept => ?_⟩
      have distinct : oldest ≠ key := by
        rintro rfl
        exact (List.nodup_cons.mp nodup).1 (sub.subset kept)
      rw [same key kept, get_erase, if_neg distinct]
    · simp only [evict, full, ↓reduceIte]
      exact ⟨List.Sublist.refl _, tracked, Nat.lt_of_not_ge full, fun _ _ => trivial⟩

theorem evict_keeps {maxEntries : Nat} {key : DedupKey} (nodup : order.Nodup)
    (tracked : ∀ key, key ∈ order ↔ key ∈ entries) (member : key ∈ order)
    (few : (behind key order).length + 1 < maxEntries) :
    key ∈ (evict maxEntries entries order).2 ∧
      behind key (evict maxEntries entries order).2 = behind key order := by
  induction order generalizing entries with
  | nil => cases member
  | cons oldest rest ih =>
    by_cases full : entries.size ≥ maxEntries
    · have distinct : oldest ≠ key := by
        rintro rfl
        have lengths := length_of_tracked nodup tracked
        simp only [behind_cons_self, List.length_cons] at few lengths
        omega
      have inRest : key ∈ rest := (List.mem_cons.mp member).resolve_left (Ne.symm distinct)
      rw [behind_cons_of_ne distinct] at few ⊢
      simpa [evict, full] using
        ih (List.nodup_cons.mp nodup).2 (tracked_tail nodup tracked) inRest few
    · simpa [evict, full] using member

theorem recordAccepted_of_mem {cache : DedupCache} {key : DedupKey} {nowMs : Nat}
    (known : key ∈ (cache.expire nowMs).entries) (fingerprint : ContentFingerprint) :
    cache.recordAccepted key route fingerprint nowMs = cache.expire nowMs := by
  simp [recordAccepted, known]

theorem recordAccepted_of_notMem {cache : DedupCache} {key : DedupKey} {nowMs : Nat}
    (fresh : key ∉ (cache.expire nowMs).entries) (fingerprint : ContentFingerprint) :
    cache.recordAccepted key route fingerprint nowMs =
      { cache.expire nowMs with
        entries := (evict cache.maxEntries (cache.expire nowMs).entries
          (cache.expire nowMs).order).1.insert key ⟨route, fingerprint, nowMs⟩
        order := (evict cache.maxEntries (cache.expire nowMs).entries
          (cache.expire nowMs).order).2 ++ [key] } := by
  simp [recordAccepted, fresh]

theorem Wf.recordAccepted {cache : DedupCache} (wf : cache.Wf) (key : DedupKey)
    (route : RecordedRoute) (fingerprint : ContentFingerprint) (nowMs : Nat) :
    (cache.recordAccepted key route fingerprint nowMs).Wf := by
  by_cases known : key ∈ (cache.expire nowMs).entries
  · rw [recordAccepted_of_mem known]
    exact wf.expire nowMs
  · rw [recordAccepted_of_notMem known]
    have expired := wf.expire nowMs
    obtain ⟨sub, tracked, room, -⟩ :=
      evict_spec expired.nodup expired.tracked wf.positive
    have absent := fun member => known ((expired.tracked key).mp (sub.subset member))
    refine ⟨?_, ?_, ?_, by simpa using wf.positive⟩
    · rw [List.nodup_append]
      refine ⟨expired.nodup.sublist sub, List.nodup_singleton key, ?_⟩
      rintro other member _ same rfl
      rw [List.mem_singleton.mp same] at member
      exact absent member
    · intro other
      simp only [List.mem_append, List.mem_singleton, tracked other, mem_insert, or_comm]
    · have grown := ExtTreeMap.size_insert_le (t := (evict cache.maxEntries
        (cache.expire nowMs).entries (cache.expire nowMs).order).1) (k := key)
        (v := ⟨route, fingerprint, nowMs⟩)
      simp only [expire_maxEntries]
      omega

@[simp]
theorem touch_maxEntries : (cache.touch key).maxEntries = cache.maxEntries := by
  unfold touch
  split <;> rfl

@[simp]
theorem touch_ttlMs : (cache.touch key).ttlMs = cache.ttlMs := by
  unfold touch
  split <;> rfl

@[simp]
theorem touch_entries : (cache.touch key).entries = cache.entries := by
  unfold touch
  split <;> rfl

@[simp]
theorem recordAccepted_maxEntries (fingerprint : ContentFingerprint) (nowMs : Nat) :
    (cache.recordAccepted key route fingerprint nowMs).maxEntries = cache.maxEntries := by
  unfold recordAccepted
  dsimp only
  split <;> simp

@[simp]
theorem recordAccepted_ttlMs (fingerprint : ContentFingerprint) (nowMs : Nat) :
    (cache.recordAccepted key route fingerprint nowMs).ttlMs = cache.ttlMs := by
  unfold recordAccepted
  dsimp only
  split <;> simp

theorem expire_sub {cache : DedupCache} {nowMs : Nat} {key : DedupKey} {record : AcceptedRecord}
    (found : (cache.expire nowMs).entries[key]? = some record) :
    cache.entries[key]? = some record := by
  rw [get_expire, Option.filter_eq_some_iff] at found
  exact found.1

theorem Wf.recordAccepted_sub {cache : DedupCache} (wf : cache.Wf) {key : DedupKey}
    {route : RecordedRoute} {fingerprint : ContentFingerprint} {nowMs : Nat}
    {record : AcceptedRecord}
    (found : (cache.recordAccepted key route fingerprint nowMs).entries[other]? = some record) :
    record = ⟨route, fingerprint, nowMs⟩ ∨ cache.entries[other]? = some record := by
  by_cases known : key ∈ (cache.expire nowMs).entries
  · rw [recordAccepted_of_mem known] at found
    exact .inr (expire_sub found)
  · rw [recordAccepted_of_notMem known, get_insert] at found
    split at found
    · exact .inl (Option.some.inj found).symm
    · have expired := wf.expire nowMs
      obtain ⟨-, tracked, -, same⟩ :=
        evict_spec expired.nodup expired.tracked wf.positive
      have kept := (tracked other).mpr ((mem_iff_get _ _).mpr ⟨record, found⟩)
      rw [same other kept] at found
      exact .inr (expire_sub found)

theorem Wf.admitKey {cache : DedupCache} (wf : cache.Wf) (key : DedupKey)
    (fingerprint : ContentFingerprint) (nowMs : Nat) :
    (cache.admitKey key fingerprint nowMs).1.Wf := by
  rcases admit_cases cache key fingerprint nowMs with
    ⟨-, answer⟩ | ⟨record, -, ⟨-, answer⟩ | ⟨-, answer⟩⟩
  · rw [answer]; exact wf.expire nowMs
  · rw [answer]; exact wf.expire nowMs
  · rw [answer]; exact (wf.expire nowMs).touch key

structure Holds (cache : DedupCache) (key : DedupKey) (record : AcceptedRecord)
    (others : Finset DedupKey) : Prop where
  wf : cache.Wf
  recorded : cache.entries[key]? = some record
  ahead : ∀ other ∈ behind key cache.order, other ∈ others

section

variable {cache : DedupCache} {key : DedupKey} {record : AcceptedRecord} {others : Finset DedupKey}

section

variable (holds : cache.Holds key record others)

include holds

theorem Holds.mono (sub : others ⊆ more) : cache.Holds key record more :=
  ⟨holds.wf, holds.recorded, fun other member => sub (holds.ahead other member)⟩

theorem Holds.mem_order : key ∈ cache.order :=
  (holds.wf.tracked key).mpr ((mem_iff_get _ _).mpr ⟨record, holds.recorded⟩)

theorem Holds.expire {nowMs : Nat} (live : expired cache.ttlMs nowMs record = false) :
    (cache.expire nowMs).Holds key record others where
  wf := holds.wf.expire nowMs
  recorded := by simp [get_expire, holds.recorded, live, Option.filter]
  ahead := by
    have kept : key ∈ (cache.expire nowMs).entries :=
      (mem_iff_get _ _).mpr ⟨record, by simp [get_expire, holds.recorded, live, Option.filter]⟩
    rw [holds.wf.order_expire, behind_filter (by simpa using kept)]
    intro other member
    exact holds.ahead other (List.mem_of_mem_filter member)

theorem Holds.touch_self :
    (cache.touch key).Holds key record ∅ where
  wf := holds.wf.touch key
  recorded := by
    simpa [DedupCache.touch, holds.mem_order] using holds.recorded
  ahead := by
    have gone : key ∉ cache.order.erase key := holds.wf.nodup.not_mem_erase
    simp [DedupCache.touch, holds.mem_order, behind_append_of_notMem gone]

theorem Holds.touch_other (distinct : other ≠ key) :
    (cache.touch other).Holds key record (insert other others) where
  wf := holds.wf.touch other
  recorded := by
    unfold DedupCache.touch
    split <;> exact holds.recorded
  ahead := by
    intro later member
    unfold DedupCache.touch at member
    split at member
    · have inside : key ∈ cache.order.erase other :=
        (List.mem_erase_of_ne (Ne.symm distinct)).mpr holds.mem_order
      rw [behind_append inside, List.mem_append, List.mem_singleton] at member
      rcases member with before | last
      · exact Finset.mem_insert_of_mem (holds.ahead later (behind_erase_subset distinct before))
      · exact last ▸ Finset.mem_insert_self other others
    · exact Finset.mem_insert_of_mem (holds.ahead later member)

theorem Holds.recordAccepted_other (distinct : other ≠ key) {nowMs : Nat}
    (live : expired cache.ttlMs nowMs record = false)
    (few : (insert other others).card < cache.maxEntries) (route : RecordedRoute)
    (fingerprint : ContentFingerprint) :
    (cache.recordAccepted other route fingerprint nowMs).Holds key record
      (insert other others) := by
  have expiredHolds := holds.expire live
  by_cases known : other ∈ (cache.expire nowMs).entries
  · rw [recordAccepted_of_mem known]
    exact ⟨expiredHolds.wf, expiredHolds.recorded,
      fun later member => Finset.mem_insert_of_mem (expiredHolds.ahead later member)⟩
  · have room : (behind key (cache.expire nowMs).order).length + 1 < cache.maxEntries := by
      have sub := behind_sublist key (cache.expire nowMs).order
      have fresh : other ∉ behind key (cache.expire nowMs).order := fun member =>
        known ((expiredHolds.wf.tracked other).mp (sub.subset member))
      have within : (other :: behind key (cache.expire nowMs).order).toFinset ⊆
          insert other others := by
        intro later member
        rcases List.mem_cons.mp (List.mem_toFinset.mp member) with here | behindIt
        · exact here ▸ Finset.mem_insert_self other others
        · exact Finset.mem_insert_of_mem (expiredHolds.ahead later behindIt)
      have counted := List.toFinset_card_of_nodup
        (List.nodup_cons.mpr ⟨fresh, expiredHolds.wf.nodup.sublist sub⟩)
      have bound := Finset.card_le_card within
      simp only [List.length_cons] at counted
      omega
    obtain ⟨kept, sameBehind⟩ := evict_keeps expiredHolds.wf.nodup expiredHolds.wf.tracked
      expiredHolds.mem_order room
    obtain ⟨-, -, -, sameRecord⟩ := evict_spec
      expiredHolds.wf.nodup expiredHolds.wf.tracked holds.wf.positive
    refine ⟨holds.wf.recordAccepted other route fingerprint nowMs, ?_, ?_⟩
    · rw [recordAccepted_of_notMem known]
      simpa [get_insert, distinct] using (sameRecord key kept).trans expiredHolds.recorded
    · rw [recordAccepted_of_notMem known]
      intro later member
      rw [behind_append kept, sameBehind, List.mem_append, List.mem_singleton] at member
      rcases member with before | last
      · exact Finset.mem_insert_of_mem (expiredHolds.ahead later before)
      · exact last ▸ Finset.mem_insert_self other others

end

theorem Wf.holds_recordAccepted (wf : cache.Wf) {nowMs : Nat}
    (fresh : key ∉ (cache.expire nowMs).entries) (route : RecordedRoute)
    (fingerprint : ContentFingerprint) :
    (cache.recordAccepted key route fingerprint nowMs).Holds key ⟨route, fingerprint, nowMs⟩
      ∅ where
  wf := wf.recordAccepted key route fingerprint nowMs
  recorded := by simp [recordAccepted_of_notMem fresh]
  ahead := by
    have expired := wf.expire nowMs
    obtain ⟨sub, -⟩ := evict_spec expired.nodup expired.tracked
      wf.positive
    have absent := fun member => fresh ((expired.tracked key).mp (sub.subset member))
    simp [recordAccepted_of_notMem fresh, behind_append_of_notMem absent]

end

inductive Reachable : DedupCache → Prop
  | new (maxEntries ttlMs : Nat) : Reachable (DedupCache.new maxEntries ttlMs)
  | admitKey {cache : DedupCache} (reachable : Reachable cache) (key : DedupKey)
      (fingerprint : ContentFingerprint) (nowMs : Nat) :
      Reachable (cache.admitKey key fingerprint nowMs).1
  | recordAccepted {cache : DedupCache} (reachable : Reachable cache) (key : DedupKey)
      (route : RecordedRoute) (fingerprint : ContentFingerprint) (nowMs : Nat) :
      Reachable (cache.recordAccepted key route fingerprint nowMs)

theorem Reachable.wf {cache : DedupCache} (reachable : cache.Reachable) : cache.Wf := by
  induction reachable with
  | new maxEntries ttlMs => exact Wf.new maxEntries ttlMs
  | admitKey _ key fingerprint nowMs ih => exact ih.admitKey key fingerprint nowMs
  | recordAccepted _ key route fingerprint nowMs ih =>
    exact ih.recordAccepted key route fingerprint nowMs

end DedupCache

namespace ReservationMap

variable {reservations : ReservationMap}

def Charged (reservations : ReservationMap) : Prop :=
  ∀ (peer : TransportIdentity) (count : Nat), reservations.perPeer[peer]? = some count → 0 < count

theorem acquire_cases (reservations : ReservationMap) (key : DedupKey)
    (fingerprint : ContentFingerprint) :
    (∃ failure, reservations.acquire key fingerprint = (reservations, .error failure)) ∨
      (∃ entry, reservations.inFlight[key]? = some entry ∧ entry.fingerprint = fingerprint ∧
        reservations.acquire key fingerprint =
          ({ reservations with
             inFlight := reservations.inFlight.insert key
              { entry with waiters := entry.waiters + 1 }
             perPeer := charge reservations.perPeer key.sourcePeer }, .ok .waiter)) ∨
      (reservations.inFlight[key]? = none ∧
        reservations.acquire key fingerprint =
          ({ reservations with
             inFlight := reservations.inFlight.insert key ⟨fingerprint, 0⟩
             perPeer := charge reservations.perPeer key.sourcePeer }, .ok .owner)) := by
  unfold acquire
  cases found : reservations.inFlight[key]? with
  | none =>
    by_cases full : reservations.outstanding ≥ reservations.maxGlobal
    · exact .inl ⟨.overloaded, by simp [full]⟩
    · by_cases heavy : reservations.held key.sourcePeer ≥ reservations.maxPerPeer
      · exact .inl ⟨.overloaded, by simp [heavy]⟩
      · exact .inr (.inr ⟨rfl, by simp [full, heavy]⟩)
  | some entry =>
    by_cases same : entry.fingerprint = fingerprint
    · by_cases full : reservations.held key.sourcePeer ≥ reservations.maxPerPeer ∨
        reservations.outstanding ≥ reservations.maxGlobal
      · exact .inl ⟨.overloaded, by simp [same, full]⟩
      · exact .inr (.inl ⟨entry, rfl, same, by simp [same, full]⟩)
    · exact .inl ⟨.conflict, by simp [same]⟩

theorem release_owner (charged : reservations.Charged) {key : DedupKey}
    (fingerprint : ContentFingerprint) (absent : reservations.inFlight[key]? = none) :
    release { reservations with
      inFlight := reservations.inFlight.insert key ⟨fingerprint, 0⟩
      perPeer := charge reservations.perPeer key.sourcePeer } key = reservations := by
  simp only [release, charge, ExtTreeMap.getElem?_insert_self, erase_insert,
    erase_of_get_none absent]
  cases held : reservations.perPeer[key.sourcePeer]? with
  | none => simp [erase_of_get_none held]
  | some count =>
    have positive := charged _ _ held
    have restored : reservations.perPeer.insert key.sourcePeer count = reservations.perPeer := by
      rw [← insert_erase_of_get held, insert_insert]
    simp [insert_insert, restored, positive.ne']

theorem Charged.charge (charged : reservations.Charged) (peer : TransportIdentity)
    (inFlight : ExtTreeMap DedupKey InFlight) :
    Charged { reservations with
      inFlight := inFlight, perPeer := ReservationMap.charge reservations.perPeer peer } := by
  intro other count found
  rw [ReservationMap.charge, get_insert] at found
  split at found
  · cases found
    omega
  · exact charged other count found

theorem Charged.acquire (charged : reservations.Charged) (key : DedupKey)
    (fingerprint : ContentFingerprint) : (reservations.acquire key fingerprint).1.Charged := by
  rcases acquire_cases reservations key fingerprint with
    ⟨_, answer⟩ | ⟨_, _, _, answer⟩ | ⟨_, answer⟩
  · rw [answer]; exact charged
  · rw [answer]; exact charged.charge key.sourcePeer _
  · rw [answer]; exact charged.charge key.sourcePeer _

theorem Charged.release (charged : reservations.Charged) (key : DedupKey) :
    (reservations.release key).Charged := by
  unfold ReservationMap.release
  split
  · exact charged
  next entry found =>
    intro peer count held
    dsimp only at held
    split at held
    · exact charged peer count held
    next before beforeHeld =>
      split at held
      · rw [get_erase] at held
        split at held
        · cases held
        · exact charged peer count held
      next remaining =>
        rw [get_insert] at held
        split at held
        · cases held
          omega
        · exact charged peer count held

inductive Reachable : ReservationMap → Prop
  | new (maxGlobal maxPerPeer : Nat) : Reachable (ReservationMap.new maxGlobal maxPerPeer)
  | acquire {reservations : ReservationMap} (reachable : Reachable reservations) (key : DedupKey)
      (fingerprint : ContentFingerprint) : Reachable (reservations.acquire key fingerprint).1
  | release {reservations : ReservationMap} (reachable : Reachable reservations)
      (key : DedupKey) : Reachable (reservations.release key)

theorem Reachable.charged (reachable : reservations.Reachable) : reservations.Charged := by
  induction reachable with
  | new maxGlobal maxPerPeer =>
    intro peer count held
    simp [ReservationMap.new] at held
  | acquire _ key fingerprint ih => exact ih.acquire key fingerprint
  | release _ key ih => exact ih.release key

end ReservationMap

end InterWeave
