import InterWeave.Lib.Machine
import InterWeave.Runtime.DirectInbound

/-!
Runs of direct admissions over one cache, reservation map and set of queues,
interleaved with everything else that may change between two calls. The result
is at-most-once delivery within the lifetime of a record.
-/

namespace InterWeave

open Std (ExtTreeMap)
open OrderedMap

structure InboundCall where
  frame : DirectMessageV2
  sourcePeer : TransportIdentity
  clocks : Clocks

def InboundCall.key (call : InboundCall) : DedupKey :=
  dedupKey call.frame call.sourcePeer

inductive DirectStep where
  | admitInbound (call : InboundCall)
  | gates (prefixContext : PrefixContext)
  | claim (endpoint : EndpointId) (session : LocalSessionId) (clientKind : String)
      (epoch : Generation)
  | releaseSession (session : LocalSessionId)
  | revoke (endpoint : EndpointId)
  | setEnabled (endpoint : EndpointId) (enabled : Bool)
  | setDefault (endpoint : Option EndpointId)
  | openQueue (endpoint : EndpointId) (bound : Nat)
  | closeQueue (endpoint : EndpointId)
  | drain (endpoint : EndpointId)
  | drainUpTo (endpoint : EndpointId) (limit : Nat)

structure AnsweredCall where
  key : DedupKey
  outcome : Outcome

section

variable (sha256 : List UInt8 → ContentFingerprint)

variable (ctx : AdmissionContext)

def admitCall (call : InboundCall) : AdmissionContext × Outcome :=
  admitInbound sha256 call.frame call.sourcePeer call.clocks ctx

def directStep : DirectStep → AdmissionContext × Option AnsweredCall
  | .admitInbound call =>
    let (after, outcome) := admitCall sha256 ctx call
    (after, some ⟨call.key, outcome⟩)
  | .gates prefixContext => ({ ctx with prefixContext := prefixContext }, none)
  | .claim endpoint session clientKind epoch =>
    ({ ctx with registry := (ctx.registry.claim endpoint session clientKind epoch).1 }, none)
  | .releaseSession session =>
    ({ ctx with registry := (ctx.registry.releaseSession session).1 }, none)
  | .revoke endpoint => ({ ctx with registry := (ctx.registry.revoke endpoint).1 }, none)
  | .setEnabled endpoint enabled =>
    ({ ctx with registry := (ctx.registry.setEnabled endpoint enabled).1 }, none)
  | .setDefault endpoint => ({ ctx with registry := ctx.registry.setDefault endpoint }, none)
  | .openQueue endpoint bound => ({ ctx with queues := ctx.queues.openQueue endpoint bound }, none)
  | .closeQueue endpoint => ({ ctx with queues := (ctx.queues.close endpoint).1 }, none)
  | .drain endpoint => ({ ctx with queues := (ctx.queues.drain endpoint).1 }, none)
  | .drainUpTo endpoint limit =>
    ({ ctx with queues := (ctx.queues.drainUpTo endpoint limit).1 }, none)

def runDirect (steps : List DirectStep) : AdmissionContext × List AnsweredCall :=
  Machine.run (directStep sha256) ctx steps

end

def callTimes (steps : List DirectStep) : List Nat :=
  steps.filterMap fun
    | .admitInbound call => some call.clocks.monotonicMs
    | _ => none

def Outcome.isAccepted : Outcome → Bool
  | .accepted _ => true
  | _ => false

def Outcome.isRemembering : Outcome → Bool
  | .accepted _ => true
  | .duplicateAccepted _ => true
  | _ => false

def trackOthers (counts : Outcome → Bool) (key : DedupKey) (others : Finset DedupKey)
    (answered : AnsweredCall) : Finset DedupKey :=
  if answered.key = key then
    if answered.outcome.isRemembering then ∅ else others
  else if counts answered.outcome then insert answered.key others
  else others

theorem directStep_cases (sha256 : List UInt8 → ContentFingerprint) (ctx : AdmissionContext) :
    (∃ call, step = .admitInbound call ∧
        directStep sha256 ctx step =
          ((admitCall sha256 ctx call).1, some ⟨call.key, (admitCall sha256 ctx call).2⟩)) ∨
      (directStep sha256 ctx step).2 = none ∧
        (directStep sha256 ctx step).1.dedup = ctx.dedup ∧
        (directStep sha256 ctx step).1.reservations = ctx.reservations := by
  cases step with
  | admitInbound call => exact .inl ⟨call, rfl, rfl⟩
  | _ => exact .inr ⟨rfl, rfl, rfl⟩

structure DirectInvariant (ctx : AdmissionContext) : Prop where
  wf : ctx.dedup.Wf
  direct : ∀ (key : DedupKey) (record : AcceptedRecord), ctx.dedup.entries[key]? = some record →
    ∃ endpoint, record.route = .direct endpoint
  charged : ctx.reservations.Charged

theorem DirectInvariant.of_fresh (dedup : ctx.dedup = .new maxEntries ttlMs)
    (reservations : ctx.reservations = .new maxGlobal maxPerPeer) : DirectInvariant ctx where
  wf := dedup ▸ .new maxEntries ttlMs
  direct := by simp [dedup, DedupCache.new]
  charged := reservations ▸ (ReservationMap.Reachable.new maxGlobal maxPerPeer).charged

section

variable {sha256 : List UInt8 → ContentFingerprint} {ctx after : AdmissionContext}
  {frame : DirectMessageV2} {sourcePeer : TransportIdentity} {clocks : Clocks}
  {fingerprint : ContentFingerprint} {outcome : Outcome}

theorem DirectInvariant.exit (invariant : DirectInvariant ctx)
    (exit : Exit frame sourcePeer clocks fingerprint ctx after outcome) :
    DirectInvariant after := by
  obtain ⟨wf, direct, charged⟩ := invariant
  have expired := wf.expire clocks.monotonicMs
  have expiredDirect := fun (key : DedupKey) (record : AcceptedRecord)
      (found : (ctx.dedup.expire clocks.monotonicMs).entries[key]? = some record) =>
    direct key record (DedupCache.expire_sub found)
  cases exit with
  | gated gates refusal stopped => exact ⟨wf, direct, charged⟩
  | repeated gates passed record live same =>
    exact ⟨expired.touch _, by simpa using expiredDirect, charged⟩
  | conflicting | refused => exact ⟨expired, expiredDirect, charged⟩
  | waiting gates passed fresh entry inFlight same =>
    exact ⟨expired, expiredDirect, charged.charge _ _⟩
  | accepted gates passed fresh resolved lease routed queue isOpen room =>
    refine ⟨expired.recordAccepted _ _ _ _, ?_, charged⟩
    intro key record found
    rcases expired.recordAccepted_sub found with new | old
    · exact ⟨resolved, by rw [new]⟩
    · exact expiredDirect key record old

structure Remembers (maxEntries ttlMs : Nat) (key : DedupKey) (record : AcceptedRecord)
    (ctx : AdmissionContext) (others : Finset DedupKey) : Prop where
  invariant : DirectInvariant ctx
  holds : ctx.dedup.Holds key record others
  sameTtl : ctx.dedup.ttlMs = ttlMs
  sameRoom : ctx.dedup.maxEntries = maxEntries

variable {maxEntries ttlMs : Nat} {key : DedupKey} {record : AcceptedRecord}
  {others : Finset DedupKey}

theorem Remembers.live (remembers : Remembers maxEntries ttlMs key record ctx others)
    (young : nowMs - record.storedAtMs < ttlMs) :
    DedupCache.expired ctx.dedup.ttlMs nowMs record = false := by
  simp only [DedupCache.expired, remembers.sameTtl, decide_eq_false_iff_not]
  omega

theorem Remembers.exit (remembers : Remembers maxEntries ttlMs key record ctx others)
    (young : clocks.monotonicMs - record.storedAtMs < ttlMs)
    (exit : Exit frame sourcePeer clocks fingerprint ctx after outcome)
    (few : (trackOthers Outcome.isRemembering key others
      ⟨dedupKey frame sourcePeer, outcome⟩).card < maxEntries) :
    Remembers maxEntries ttlMs key record after
      (trackOthers Outcome.isRemembering key others ⟨dedupKey frame sourcePeer, outcome⟩) := by
  have next := remembers.invariant.exit exit
  have live := remembers.live young
  have expired := remembers.holds.expire live
  have sameTtl := remembers.sameTtl
  have sameRoom := remembers.sameRoom
  cases exit with
  | gated gates refusal stopped =>
    have unmoved : trackOthers Outcome.isRemembering key others
        ⟨dedupKey frame sourcePeer, .refused refusal⟩ = others := by
      simp [trackOthers, Outcome.isRemembering]
    rw [unmoved]
    exact ⟨next, remembers.holds, sameTtl, sameRoom⟩
  | repeated gates passed matched found same =>
    obtain ⟨endpoint, route⟩ := remembers.invariant.direct _ _ (DedupCache.expire_sub found)
    simp only [route, recordedAnswer] at few ⊢
    by_cases self : dedupKey frame sourcePeer = key
    · refine ⟨next, ?_, by simpa using sameTtl, by simpa using sameRoom⟩
      simpa [trackOthers, self, Outcome.isRemembering] using expired.touch_self
    · refine ⟨next, ?_, by simpa using sameTtl, by simpa using sameRoom⟩
      simpa [trackOthers, self, Outcome.isRemembering] using expired.touch_other self
  | conflicting | waiting | refused =>
    refine ⟨next, ?_, by simpa using sameTtl, by simpa using sameRoom⟩
    simpa [trackOthers, Outcome.isRemembering] using expired
  | accepted gates passed fresh resolved lease routed queue isOpen room =>
    have distinct : dedupKey frame sourcePeer ≠ key := by
      intro self
      rw [self, expired.recorded] at fresh
      cases fresh
    simp only [trackOthers, distinct, ↓reduceIte, Outcome.isRemembering] at few ⊢
    refine ⟨next, ?_, by simpa using sameTtl, by simpa using sameRoom⟩
    exact expired.recordAccepted_other distinct (by simpa using live)
      (by simpa [sameRoom] using few) _ _

theorem Exit.remembers_accepted (exit : Exit frame sourcePeer clocks fingerprint ctx after outcome)
    (invariant : DirectInvariant ctx) (accepted : outcome = .accepted endpoint)
    (sameTtl : ctx.dedup.ttlMs = ttlMs) (sameRoom : ctx.dedup.maxEntries = maxEntries) :
    Remembers maxEntries ttlMs (dedupKey frame sourcePeer)
      ⟨.direct endpoint, fingerprint, clocks.monotonicMs⟩ after ∅ := by
  have next := invariant.exit exit
  cases exit with
  | gated | conflicting | waiting | refused => cases accepted
  | repeated gates passed record live same =>
    exact absurd accepted (recordedAnswer_ne_accepted _)
  | accepted gates passed fresh resolved lease routed queue isOpen room =>
    cases accepted
    refine ⟨next, ?_, by simpa using sameTtl, by simpa using sameRoom⟩
    apply (invariant.wf.expire clocks.monotonicMs).holds_recordAccepted
    rw [notMem_iff_get, DedupCache.get_expire, fresh, Option.filter_none]

theorem Remembers.answered (remembers : Remembers maxEntries ttlMs key record ctx others)
    (young : clocks.monotonicMs - record.storedAtMs < ttlMs)
    (same : dedupKey frame sourcePeer = key)
    (exit : Exit frame sourcePeer clocks fingerprint ctx after outcome) :
    after.queues = ctx.queues ∧ (∀ endpoint, outcome ≠ .accepted endpoint) ∧
      ((admitPrefix sourcePeer clocks.monotonicMs ctx.prefixContext).2 = .ok () →
        outcome = if fingerprint = record.fingerprint then recordedAnswer record.route
          else .refused .duplicateConflict) := by
  have recorded := (remembers.holds.expire (remembers.live young)).recorded
  rw [← same] at recorded
  cases exit with
  | gated gates refusal stopped =>
    exact ⟨rfl, nofun, fun passes => by simp [stopped] at passes⟩
  | repeated gates passed matched found sameContent =>
    rw [recorded] at found
    cases found
    refine ⟨rfl, recordedAnswer_ne_accepted, fun _ => ?_⟩
    rw [if_pos sameContent.symm]
  | conflicting gates passed matched found different =>
    rw [recorded] at found
    cases found
    refine ⟨rfl, nofun, fun _ => ?_⟩
    rw [if_neg (Ne.symm different)]
  | waiting _ _ fresh | refused _ _ fresh | accepted _ _ fresh => simp [recorded] at fresh

end

theorem Exit.limits (exit : Exit frame sourcePeer clocks fingerprint ctx after outcome) :
    after.dedup.ttlMs = ctx.dedup.ttlMs ∧ after.dedup.maxEntries = ctx.dedup.maxEntries := by
  cases exit <;> simp

variable (sha256 : List UInt8 → ContentFingerprint)

theorem admitCall_exit (invariant : DirectInvariant ctx) {call : InboundCall} :
    ∃ fingerprint, fingerprintOf sha256 call.frame = .ok fingerprint ∧
      Exit call.frame call.sourcePeer call.clocks fingerprint ctx
        (admitCall sha256 ctx call).1 (admitCall sha256 ctx call).2 := by
  obtain ⟨fingerprint, hashed⟩ := fingerprintOf_ok
  exact ⟨fingerprint, hashed,
    admitInbound_exit sha256 call.frame call.sourcePeer call.clocks ctx invariant.charged hashed⟩

theorem runDirect_invariant (invariant : DirectInvariant ctx) :
    DirectInvariant (runDirect sha256 ctx steps).1 ∧
      (runDirect sha256 ctx steps).1.dedup.ttlMs = ctx.dedup.ttlMs ∧
      (runDirect sha256 ctx steps).1.dedup.maxEntries = ctx.dedup.maxEntries := by
  refine Machine.run_invariant
    (fun reached => DirectInvariant reached ∧ reached.dedup.ttlMs = ctx.dedup.ttlMs ∧
      reached.dedup.maxEntries = ctx.dedup.maxEntries) ?_ ⟨invariant, rfl, rfl⟩ steps
  rintro reached step ⟨kept, sameTtl, sameRoom⟩
  rcases directStep_cases sha256 reached with ⟨call, -, taken⟩ | ⟨-, dedup, reservations⟩
  · obtain ⟨fingerprint, -, exit⟩ := admitCall_exit sha256 kept
    obtain ⟨ttl, room⟩ := exit.limits
    rw [taken]
    exact ⟨kept.exit exit, ttl.trans sameTtl, room.trans sameRoom⟩
  · rw [dedup]
    exact ⟨⟨dedup ▸ kept.wf, dedup ▸ kept.direct, reservations ▸ kept.charged⟩, sameTtl, sameRoom⟩

theorem mem_callTimes (member : .admitInbound call ∈ steps) :
    call.clocks.monotonicMs ∈ callTimes steps :=
  List.mem_filterMap.mpr ⟨.admitInbound call, member, rfl⟩

theorem callTimes_between
    (ordered : (callTimes (before ++ .admitInbound first :: between ++
      [.admitInbound later])).Pairwise (· ≤ ·))
    (member : .admitInbound call ∈ between) :
    call.clocks.monotonicMs ≤ later.clocks.monotonicMs := by
  have tail : (callTimes (between ++ [.admitInbound later])).Pairwise (· ≤ ·) := by
    refine ordered.sublist (List.Sublist.filterMap _ ?_)
    rw [List.append_assoc, List.cons_append]
    exact ((List.sublist_cons_self _ _).trans (List.sublist_append_right before _))
  rw [callTimes, List.filterMap_append, List.pairwise_append] at tail
  exact tail.2.2 _ (mem_callTimes member) _ (by simp)

theorem Remembers.run (sha256 : List UInt8 → ContentFingerprint)
    (remembers : Remembers maxEntries ttlMs key record ctx others)
    (young : ∀ call, .admitInbound call ∈ steps →
      call.clocks.monotonicMs - record.storedAtMs < ttlMs)
    (few : ∀ seen ∈ (runDirect sha256 ctx steps).2.inits,
      (seen.foldl (trackOthers Outcome.isRemembering key) others).card < maxEntries) :
    Remembers maxEntries ttlMs key record (runDirect sha256 ctx steps).1
      ((runDirect sha256 ctx steps).2.foldl (trackOthers Outcome.isRemembering key) others) := by
  refine Machine.run_summarised (Remembers maxEntries ttlMs key record)
    (trackOthers Outcome.isRemembering key) (fun others => others.card < maxEntries)
    (fun step => ∀ call, step = .admitInbound call →
      call.clocks.monotonicMs - record.storedAtMs < ttlMs)
    ?_ remembers (fun step member call isCall => young call (isCall ▸ member)) few
  intro reached step seen held admissible allowed
  rcases directStep_cases sha256 reached with ⟨call, isCall, taken⟩ | ⟨silent, dedup, kept⟩
  · rw [taken] at allowed ⊢
    obtain ⟨fingerprint, -, exit⟩ := admitCall_exit sha256 held.invariant
    exact held.exit (admissible call isCall) exit allowed
  · rw [silent]
    obtain ⟨⟨wf, direct, charged⟩, holds, sameTtl, sameRoom⟩ := held
    exact ⟨⟨dedup ▸ wf, dedup ▸ direct, kept ▸ charged⟩, dedup ▸ holds, dedup ▸ sameTtl,
      dedup ▸ sameRoom⟩

/-- At-most-once delivery: within the lifetime of an accepted record, and while fewer than
`maxEntries` other keys were accepted or answered as duplicates since its key last was, a
call with that key enqueues nothing. If it passes the gates it gets the recorded endpoint
for the same content and a conflict for any other. -/
theorem direct_delivery_at_most_once (sha256 : List UInt8 → ContentFingerprint)
    {start : AdmissionContext} {maxEntries ttlMs maxGlobal maxPerPeer : Nat}
    (dedup : start.dedup = .new maxEntries ttlMs)
    (reservations : start.reservations = .new maxGlobal maxPerPeer)
    (before between : List DirectStep) (first later : InboundCall) (endpoint : EndpointId)
    (ordered : (callTimes (before ++ .admitInbound first :: between ++
      [.admitInbound later])).Pairwise (· ≤ ·))
    (accepted : (admitCall sha256 (runDirect sha256 start before).1 first).2 = .accepted endpoint)
    (sameKey : later.key = first.key)
    (within : later.clocks.monotonicMs - first.clocks.monotonicMs < ttlMs)
    (few : ∀ seen ∈ (runDirect sha256
        (admitCall sha256 (runDirect sha256 start before).1 first).1 between).2.inits,
      (seen.foldl (trackOthers Outcome.isRemembering first.key) ∅).card < max maxEntries 1) :
    let reached := (runDirect sha256
      (admitCall sha256 (runDirect sha256 start before).1 first).1 between).1
    (admitCall sha256 reached later).1.queues = reached.queues ∧
      (∀ other, (admitCall sha256 reached later).2 ≠ .accepted other) ∧
      ((admitPrefix later.sourcePeer later.clocks.monotonicMs reached.prefixContext).2 = .ok () →
        (admitCall sha256 reached later).2 =
          if fingerprintOf sha256 later.frame = fingerprintOf sha256 first.frame then
            .duplicateAccepted endpoint
          else .refused .duplicateConflict) := by
  intro reached
  obtain ⟨invariant, sameTtl, sameRoom⟩ :=
    runDirect_invariant sha256 (.of_fresh dedup reservations)
  obtain ⟨fingerprint, hashed, exit⟩ := admitCall_exit sha256 invariant
  rw [dedup] at sameTtl sameRoom
  have start : Remembers (max maxEntries 1) ttlMs first.key
      ⟨.direct endpoint, fingerprint, first.clocks.monotonicMs⟩
      (admitCall sha256 (runDirect sha256 start before).1 first).1 ∅ :=
    exit.remembers_accepted invariant accepted sameTtl sameRoom
  have held := start.run sha256
    (fun call member => by have := callTimes_between ordered member; dsimp only; omega) few
  obtain ⟨laterFingerprint, laterHashed, laterExit⟩ := admitCall_exit sha256 held.invariant
  obtain ⟨queues, notAccepted, answer⟩ := held.answered within sameKey laterExit
  refine ⟨queues, notAccepted, fun passes => ?_⟩
  rw [answer passes, laterHashed, hashed]
  simp [recordedAnswer]

def Sample.call (id : UInt8) (nowMs : Nat) : InboundCall :=
  ⟨Sample.frame id, Sample.peer, ⟨nowMs, nowMs⟩⟩

theorem direct_delivery_at_most_once_sample :
    (admitCall Sample.digest (runDirect Sample.digest (admitCall Sample.digest (Sample.context 2)
      (Sample.call 1 0)).1 [.admitInbound (Sample.call 2 1)]).1 (Sample.call 1 2)).2 =
        .duplicateAccepted Sample.human := by
  have once := direct_delivery_at_most_once Sample.digest
    (show (Sample.context 2).dedup = .new 2 DedupCache.defaultTtlMs from rfl)
    (show (Sample.context 2).reservations = .new 128 8 from rfl) []
    [.admitInbound (Sample.call 2 1)] (Sample.call 1 0) (Sample.call 1 2) Sample.human (by decide)
    (by decide +kernel) rfl (by decide) (by decide +kernel)
  exact once.2.2 (by decide +kernel)

/-- Counting acceptances alone is not enough: answering another key as a duplicate moves it
behind the record too. With room for two, one acceptance after such an answer evicts the
record, and the message is delivered again within its lifetime. -/
theorem duplicate_answers_evict :
    let start := Sample.context 2
    let before := [DirectStep.admitInbound (Sample.call 1 0)]
    let first := Sample.call 2 1
    let between := [DirectStep.admitInbound (Sample.call 1 2), .admitInbound (Sample.call 3 3)]
    let later := Sample.call 2 4
    let afterFirst := (admitCall Sample.digest (runDirect Sample.digest start before).1 first)
    let reached := (runDirect Sample.digest afterFirst.1 between)
    (callTimes
      (before ++ .admitInbound first :: between ++ [.admitInbound later])).Pairwise (· ≤ ·) ∧
      afterFirst.2 = .accepted Sample.human ∧ later.key = first.key ∧
      later.clocks.monotonicMs - first.clocks.monotonicMs < start.dedup.ttlMs ∧
      (∀ seen ∈ reached.2.inits,
        (seen.foldl (trackOthers Outcome.isAccepted first.key) ∅).card < start.dedup.maxEntries) ∧
      (admitCall Sample.digest reached.1 later).2 = .accepted Sample.human := by
  decide +kernel

end InterWeave
