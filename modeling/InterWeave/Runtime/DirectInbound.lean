import InterWeave.Runtime.Dedup
import InterWeave.Runtime.DirectInboundCore

/-!
The exits of `admit_inbound`, said once. Every result about one admission, and
about runs of admissions, is read off `admitInbound_exit`.
-/

namespace InterWeave

open Std (ExtTreeMap)
open OrderedMap

variable {cache : DedupCache} {sourcePeer : TransportIdentity} {clocks : Clocks}
    {fingerprint : ContentFingerprint} {gates : PrefixContext} {ctx after : AdmissionContext}
    {outcome : Outcome}

theorem admitPrefix_cases (sourcePeer : TransportIdentity) (nowMs : Nat) (ctx : PrefixContext) :
    (ctx.trust.decide sourcePeer ≠ .allowed ∧
        admitPrefix sourcePeer nowMs ctx = (ctx, .error .untrustedPeer)) ∨
      (ctx.draining = true ∧ admitPrefix sourcePeer nowMs ctx = (ctx, .error .draining)) ∨
      (ctx.trust.decide sourcePeer = .allowed ∧ ctx.draining = false ∧
        ((∃ denial, (ctx.ingress.admitPeer sourcePeer nowMs).2 = .error denial) ∧
            admitPrefix sourcePeer nowMs ctx =
              ({ ctx with ingress := (ctx.ingress.admitPeer sourcePeer nowMs).1 },
                .error .rateLimited) ∨
          (ctx.ingress.admitPeer sourcePeer nowMs).2 = .ok () ∧
            admitPrefix sourcePeer nowMs ctx =
              ({ ctx with ingress := (ctx.ingress.admitPeer sourcePeer nowMs).1 }, .ok ()))) := by
  unfold admitPrefix
  cases decision : ctx.trust.decide sourcePeer with
  | denied reason => exact .inl ⟨by simp, rfl⟩
  | allowed =>
    cases drained : ctx.draining with
    | true => exact .inr (.inl ⟨rfl, by simp⟩)
    | false =>
      refine .inr (.inr ⟨rfl, rfl, ?_⟩)
      obtain ⟨ingress, answer⟩ : IngressLimiter × Except IngressDenial Unit :=
        ctx.ingress.admitPeer sourcePeer nowMs
      cases answer with
      | error denial => exact .inl ⟨⟨denial, rfl⟩, by simp⟩
      | ok granted => exact .inr ⟨rfl, by simp⟩

theorem admitPrefix_passed {ctx : PrefixContext}
    (passed : admitPrefix sourcePeer nowMs ctx = (gates, .ok ())) :
    ctx.trust.decide sourcePeer = .allowed ∧ gates.trust = ctx.trust := by
  rcases admitPrefix_cases sourcePeer nowMs ctx with
    ⟨_, answer⟩ | ⟨_, answer⟩ | ⟨allowed, _, ⟨_, answer⟩ | ⟨_, answer⟩⟩
  · simp [answer] at passed
  · simp [answer] at passed
  · simp [answer] at passed
  · rw [answer] at passed
    cases passed
    exact ⟨allowed, rfl⟩

theorem admitPrefix_stopped {ctx : PrefixContext}
    (stopped : admitPrefix sourcePeer nowMs ctx = (gates, .error refusal)) :
    refusal = .rateLimited ∨ gates = ctx := by
  rcases admitPrefix_cases sourcePeer nowMs ctx with
    ⟨_, answer⟩ | ⟨_, answer⟩ | ⟨_, _, ⟨_, answer⟩ | ⟨_, answer⟩⟩
  · rw [answer] at stopped; cases stopped; exact .inr rfl
  · rw [answer] at stopped; cases stopped; exact .inr rfl
  · rw [answer] at stopped; cases stopped; exact .inl rfl
  · simp [answer] at stopped

def recordedAnswer : RecordedRoute → Outcome
  | .direct resolved => .duplicateAccepted resolved
  | .broadcast => .refused .duplicateConflict

def Refusal.afterGates : Refusal → Bool
  | .untrustedPeer => false
  | .draining => false
  | .rateLimited => false
  | .unfingerprintable => false
  | .duplicateConflict => true
  | .overloaded => true
  | .noRoute _ => true
  | .queue _ => true

def directEvent (frame : DirectMessageV2) (sourcePeer : TransportIdentity) (clocks : Clocks)
    (resolved : EndpointId) : DirectEvent :=
  { sourcePeer := sourcePeer
    sourceEndpoint := frame.sourceEndpoint
    destinationEndpoint := resolved
    messageId := frame.messageId
    payload := frame.payload
    receivedAt := clocks.wallMs }

open ReservationMap

inductive Exit (frame : DirectMessageV2) (sourcePeer : TransportIdentity) (clocks : Clocks)
    (fingerprint : ContentFingerprint) (ctx : AdmissionContext) :
    AdmissionContext → Outcome → Prop
  | gated (gates : PrefixContext) (refusal : Refusal)
      (stopped : admitPrefix sourcePeer clocks.monotonicMs ctx.prefixContext =
        (gates, .error refusal)) :
      Exit frame sourcePeer clocks fingerprint ctx { ctx with prefixContext := gates }
        (.refused refusal)
  | repeated (gates : PrefixContext)
      (passed : admitPrefix sourcePeer clocks.monotonicMs ctx.prefixContext = (gates, .ok ()))
      (record : AcceptedRecord)
      (live : (ctx.dedup.expire clocks.monotonicMs).entries[dedupKey frame sourcePeer]? =
        some record)
      (same : record.fingerprint = fingerprint) :
      Exit frame sourcePeer clocks fingerprint ctx
        { ctx with
          prefixContext := gates
          dedup := (ctx.dedup.expire clocks.monotonicMs).touch (dedupKey frame sourcePeer) }
        (recordedAnswer record.route)
  | conflicting (gates : PrefixContext)
      (passed : admitPrefix sourcePeer clocks.monotonicMs ctx.prefixContext = (gates, .ok ()))
      (record : AcceptedRecord)
      (live : (ctx.dedup.expire clocks.monotonicMs).entries[dedupKey frame sourcePeer]? =
        some record)
      (different : record.fingerprint ≠ fingerprint) :
      Exit frame sourcePeer clocks fingerprint ctx
        { ctx with prefixContext := gates, dedup := ctx.dedup.expire clocks.monotonicMs }
        (.refused .duplicateConflict)
  | waiting (gates : PrefixContext)
      (passed : admitPrefix sourcePeer clocks.monotonicMs ctx.prefixContext = (gates, .ok ()))
      (fresh : (ctx.dedup.expire clocks.monotonicMs).entries[dedupKey frame sourcePeer]? = none)
      (entry : InFlight)
      (inFlight : ctx.reservations.inFlight[dedupKey frame sourcePeer]? = some entry)
      (same : entry.fingerprint = fingerprint) :
      Exit frame sourcePeer clocks fingerprint ctx
        { ctx with
          prefixContext := gates
          dedup := ctx.dedup.expire clocks.monotonicMs
          reservations := { ctx.reservations with
            inFlight := ctx.reservations.inFlight.insert (dedupKey frame sourcePeer)
              { entry with waiters := entry.waiters + 1 }
            perPeer := charge ctx.reservations.perPeer sourcePeer } }
        .attachedAsWaiter
  | refused (gates : PrefixContext)
      (passed : admitPrefix sourcePeer clocks.monotonicMs ctx.prefixContext = (gates, .ok ()))
      (fresh : (ctx.dedup.expire clocks.monotonicMs).entries[dedupKey frame sourcePeer]? = none)
      (refusal : Refusal) (late : refusal.afterGates = true) :
      Exit frame sourcePeer clocks fingerprint ctx
        { ctx with prefixContext := gates, dedup := ctx.dedup.expire clocks.monotonicMs }
        (.refused refusal)
  | accepted (gates : PrefixContext)
      (passed : admitPrefix sourcePeer clocks.monotonicMs ctx.prefixContext = (gates, .ok ()))
      (fresh : (ctx.dedup.expire clocks.monotonicMs).entries[dedupKey frame sourcePeer]? = none)
      (resolved : EndpointId) (lease : ActiveLease)
      (routed : ctx.registry.resolveInbound frame.destinationEndpoint
        (fun policy => (gates.trust.decideForEndpoint sourcePeer policy).isAllowed) =
          .ok (resolved, lease))
      (queue : Queue) (isOpen : ctx.queues.queues[resolved]? = some queue)
      (room : queue.events.length < queue.bound) :
      Exit frame sourcePeer clocks fingerprint ctx
        { ctx with
          prefixContext := gates
          dedup := (ctx.dedup.expire clocks.monotonicMs).recordAccepted
            (dedupKey frame sourcePeer) (.direct resolved) fingerprint clocks.monotonicMs
          queues := ⟨ctx.queues.queues.insert resolved
            { queue with events := queue.events ++
              [directEvent frame sourcePeer clocks resolved] }⟩ }
        (.accepted resolved)

theorem admitOwned_exit {owned : AdmissionContext} (charged : ctx.reservations.Charged)
    (passed : admitPrefix sourcePeer clocks.monotonicMs ctx.prefixContext = (gates, .ok ()))
    (fresh : (ctx.dedup.expire clocks.monotonicMs).entries[dedupKey frame sourcePeer]? = none)
    (absent : ctx.reservations.inFlight[dedupKey frame sourcePeer]? = none)
    (entered : owned = { ctx with
      prefixContext := gates
      dedup := ctx.dedup.expire clocks.monotonicMs
      reservations := { ctx.reservations with
        inFlight := ctx.reservations.inFlight.insert (dedupKey frame sourcePeer) ⟨fingerprint, 0⟩
        perPeer := charge ctx.reservations.perPeer sourcePeer } }) :
    Exit frame sourcePeer clocks fingerprint ctx
      (admitOwned frame sourcePeer clocks (dedupKey frame sourcePeer) fingerprint owned).1
      (admitOwned frame sourcePeer clocks (dedupKey frame sourcePeer) fingerprint owned).2 := by
  have released : owned.reservations.release (dedupKey frame sourcePeer) = ctx.reservations := by
    rw [entered]
    exact release_owner charged fingerprint absent
  unfold admitOwned
  rw [released]
  subst entered
  dsimp only
  cases routed : ctx.registry.resolveInbound frame.destinationEndpoint
      (fun policy => (gates.trust.decideForEndpoint sourcePeer policy).isAllowed) with
  | error failure => exact .refused gates passed fresh (.noRoute failure) rfl
  | ok found =>
    obtain ⟨resolved, lease⟩ := found
    rcases EndpointQueues.push_cases ctx.queues (directEvent frame sourcePeer clocks resolved) with
      ⟨refusal, answer⟩ | ⟨queue, isOpen, room, answer⟩
    · simp only [directEvent] at answer
      simp only [answer]
      exact .refused gates passed fresh (.queue refusal) rfl
    · simp only [directEvent] at answer
      simp only [answer]
      exact .accepted gates passed fresh resolved lease routed queue isOpen room

theorem admitInbound_exit (sha256 : List UInt8 → ContentFingerprint) (frame : DirectMessageV2)
    (sourcePeer : TransportIdentity) (clocks : Clocks) (ctx : AdmissionContext)
    (charged : ctx.reservations.Charged) (hashed : fingerprintOf sha256 frame = .ok fingerprint) :
    Exit frame sourcePeer clocks fingerprint ctx
      (admitInbound sha256 frame sourcePeer clocks ctx).1
      (admitInbound sha256 frame sourcePeer clocks ctx).2 := by
  unfold admitInbound
  cases gate : admitPrefix sourcePeer clocks.monotonicMs ctx.prefixContext with
  | mk gates answer =>
    cases answer with
    | error refusal => exact .gated gates refusal gate
    | ok passed =>
      simp only [admitStructured, hashed]
      rcases DedupCache.admit_cases ctx.dedup (dedupKey frame sourcePeer) fingerprint
          clocks.monotonicMs with
        ⟨fresh, admission⟩ | ⟨record, live, ⟨different, admission⟩ | ⟨same, admission⟩⟩
      · simp only [admission]
        rcases acquire_cases ctx.reservations (dedupKey frame sourcePeer)
            fingerprint with
          ⟨failure, acquired⟩ | ⟨entry, inFlight, same, acquired⟩ | ⟨absent, acquired⟩
        · cases failure with
          | overloaded =>
            simp only [acquired]
            exact .refused gates gate fresh .overloaded rfl
          | conflict =>
            simp only [acquired]
            exact .refused gates gate fresh .duplicateConflict rfl
        · simp only [acquired]
          exact .waiting gates gate fresh entry inFlight same
        · simp only [acquired]
          exact admitOwned_exit charged gate fresh absent rfl
      · simp only [admission]
        exact .conflicting gates gate record live different
      · simp only [admission]
        have exit : Exit frame sourcePeer clocks fingerprint ctx _ _ :=
          .repeated gates gate record live same
        cases route : record.route <;> rw [route] at exit <;> exact exit

structure Eligible (ctx : AdmissionContext) (sourcePeer : TransportIdentity)
    (endpoint : EndpointId) : Prop where
  configured : ∃ registered, ctx.registry.endpoints[endpoint]? = some registered ∧
    registered.enabled = true ∧ registered.inbound.admits sourcePeer = true
  leased : endpoint ∈ ctx.registry.leases
  trusted : ctx.prefixContext.trust.decide sourcePeer = .allowed
  open_below_bound : ∃ queue, ctx.queues.queues[endpoint]? = some queue ∧
    queue.events.length < queue.bound

def AppendedOne (before after : EndpointQueues) (endpoint : EndpointId) (event : DirectEvent) :
    Prop :=
  ∃ queue, before.queues[endpoint]? = some queue ∧
    after.queues = before.queues.insert endpoint { queue with events := queue.events ++ [event] }

/-- No live record was created, altered or lost. The recency list keeps its order,
but for a key whose live record matched the frame: that one may move to the back. -/
structure RecordsKept (key : DedupKey) (fingerprint : ContentFingerprint) (nowMs : Nat)
    (before after : DedupCache) : Prop where
  noneCreated : ∀ (other : DedupKey) (record : AcceptedRecord),
    after.entries[other]? = some record → before.entries[other]? = some record
  liveKept : ∀ (other : DedupKey) (record : AcceptedRecord),
    before.entries[other]? = some record →
      DedupCache.expired before.ttlMs nowMs record = false → after.entries[other]? = some record
  orderKept : after.order = (before.order.filter fun other => other ∈ after.entries) ∨
    (∃ record, after.entries[key]? = some record ∧ record.fingerprint = fingerprint) ∧
      after.order = (before.order.filter fun other => other ∈ after.entries).erase key ++ [key]

theorem RecordsKept.refl (wf : cache.Wf) (key : DedupKey) (fingerprint : ContentFingerprint)
    (nowMs : Nat) :
    RecordsKept key fingerprint nowMs cache cache where
  noneCreated := fun _ _ found => found
  liveKept := fun _ _ found _ => found
  orderKept := by
    left
    rw [List.filter_eq_self.mpr]
    intro other member
    simpa using (wf.tracked other).mp member

theorem RecordsKept.expire (wf : cache.Wf) (key : DedupKey) (fingerprint : ContentFingerprint)
    (nowMs : Nat) :
    RecordsKept key fingerprint nowMs cache (cache.expire nowMs) where
  noneCreated := by
    intro other record found
    rw [DedupCache.get_expire, Option.filter_eq_some_iff] at found
    exact found.1
  liveKept := by
    intro other record found live
    simp [DedupCache.get_expire, found, live, Option.filter]
  orderKept := .inl (wf.order_expire nowMs)

theorem RecordsKept.touch (wf : cache.Wf)
    (live : (cache.expire nowMs).entries[key]? = some record) :
    RecordsKept key record.fingerprint nowMs cache ((cache.expire nowMs).touch key) := by
  have expired := RecordsKept.expire wf key record.fingerprint nowMs
  have member : key ∈ (cache.expire nowMs).order :=
    ((wf.expire nowMs).tracked key).mpr ((mem_iff_get _ _).mpr ⟨record, live⟩)
  simp only [DedupCache.touch, member, ↓reduceIte]
  refine ⟨expired.noneCreated, expired.liveKept, .inr ⟨⟨record, live, rfl⟩, ?_⟩⟩
  simp only [← wf.order_expire]

def OneMoreWaiter (key : DedupKey) (before after : ReservationMap) : Prop :=
  ∃ entry, before.inFlight[key]? = some entry ∧
    after = { before with
      inFlight := before.inFlight.insert key { entry with waiters := entry.waiters + 1 }
      perPeer := charge before.perPeer key.sourcePeer }

structure ExactAndAtomic (frame : DirectMessageV2) (sourcePeer : TransportIdentity)
    (clocks : Clocks) (fingerprint : ContentFingerprint) (before after : AdmissionContext)
    (outcome : Outcome) : Prop where
  acceptedIff : ∀ endpoint, outcome = .accepted endpoint ↔
    AppendedOne before.queues after.queues endpoint
        (directEvent frame sourcePeer clocks endpoint) ∧
      after.dedup.entries[dedupKey frame sourcePeer]? =
        some ⟨.direct endpoint, fingerprint, clocks.monotonicMs⟩
  eligible : ∀ endpoint, outcome = .accepted endpoint → Eligible before sourcePeer endpoint
  queuesKept : (∀ endpoint, outcome ≠ .accepted endpoint) → after.queues = before.queues
  recordsKept : (∀ endpoint, outcome ≠ .accepted endpoint) →
    RecordsKept (dedupKey frame sourcePeer) fingerprint clocks.monotonicMs before.dedup after.dedup
  waiterAdded : outcome = .attachedAsWaiter →
    OneMoreWaiter (dedupKey frame sourcePeer) before.reservations after.reservations
  reservationsKept : outcome ≠ .attachedAsWaiter → after.reservations = before.reservations
  noTokenSpent : outcome = .refused .untrustedPeer ∨ outcome = .refused .draining →
    after.prefixContext.ingress = before.prefixContext.ingress

theorem not_appendedOne_self : ¬AppendedOne queues queues endpoint event := by
  rintro ⟨queue, found, same⟩
  have grown : queues.queues[endpoint]? =
      some { queue with events := queue.events ++ [event] } := by
    nth_rewrite 1 [same]
    simp
  rw [found] at grown
  simpa using congrArg Queue.events (Option.some.inj grown)

theorem ExactAndAtomic.of_not_accepted (notAccepted : ∀ endpoint, outcome ≠ .accepted endpoint)
    (queues : after.queues = before.queues)
    (records : RecordsKept (dedupKey frame sourcePeer) fingerprint clocks.monotonicMs
      before.dedup after.dedup) (waiter : outcome = .attachedAsWaiter →
      OneMoreWaiter (dedupKey frame sourcePeer) before.reservations after.reservations)
    (reservations : outcome ≠ .attachedAsWaiter → after.reservations = before.reservations)
    (token : outcome = .refused .untrustedPeer ∨ outcome = .refused .draining →
      after.prefixContext.ingress = before.prefixContext.ingress) :
    ExactAndAtomic frame sourcePeer clocks fingerprint before after outcome where
  acceptedIff := by
    intro endpoint
    refine iff_of_false (notAccepted endpoint) ?_
    rintro ⟨appended, -⟩
    rw [queues] at appended
    exact not_appendedOne_self appended
  eligible := fun endpoint accepted => absurd accepted (notAccepted endpoint)
  queuesKept := fun _ => queues
  recordsKept := fun _ => records
  waiterAdded := waiter
  reservationsKept := reservations
  noTokenSpent := token

theorem recordedAnswer_ne_accepted (endpoint : EndpointId) :
    recordedAnswer route ≠ .accepted endpoint := by
  cases route <;> simp [recordedAnswer]

theorem exit_accepted_spec
    (passed : admitPrefix sourcePeer clocks.monotonicMs ctx.prefixContext = (gates, .ok ()))
    (routed : ctx.registry.resolveInbound frame.destinationEndpoint
      (fun policy => (gates.trust.decideForEndpoint sourcePeer policy).isAllowed) =
        .ok (resolved, lease)) (isOpen : ctx.queues.queues[resolved]? = some queue)
    (room : queue.events.length < queue.bound)
    (queues : after.queues.queues = ctx.queues.queues.insert resolved
      { queue with events := queue.events ++ [directEvent frame sourcePeer clocks resolved] })
    (recorded : after.dedup.entries[dedupKey frame sourcePeer]? =
      some ⟨.direct resolved, fingerprint, clocks.monotonicMs⟩)
    (reservations : after.reservations = ctx.reservations) :
    ExactAndAtomic frame sourcePeer clocks fingerprint ctx after (.accepted resolved) where
  acceptedIff := by
    intro endpoint
    constructor
    · rintro ⟨⟩
      exact ⟨⟨queue, isOpen, queues⟩, recorded⟩
    · rintro ⟨-, recordedToo⟩
      rw [recorded] at recordedToo
      simpa using recordedToo
  eligible := by
    rintro endpoint ⟨⟩
    obtain ⟨trusted, sameTrust⟩ := admitPrefix_passed passed
    obtain ⟨-, leased, registered, found, enabled, allowed⟩ :=
      EndpointRegistry.resolveInbound_ok routed
    have admitted : gates.trust.decideForEndpoint sourcePeer registered.inbound = .allowed := by
      cases decision : gates.trust.decideForEndpoint sourcePeer registered.inbound with
      | allowed => rfl
      | denied reason => simp [decision, TrustDecision.isAllowed] at allowed
    exact ⟨⟨registered, found, enabled,
        ((PeerTrustPolicy.decideForEndpoint_allowed_iff _ _ _).mp admitted).2⟩,
      (mem_iff_get _ _).mpr ⟨lease, leased⟩, trusted, queue, isOpen, room⟩
  queuesKept := fun notAccepted => absurd rfl (notAccepted resolved)
  recordsKept := fun notAccepted => absurd rfl (notAccepted resolved)
  waiterAdded := nofun
  reservationsKept := fun _ => reservations
  noTokenSpent := by simp

theorem Exit.exactAndAtomic (wf : ctx.dedup.Wf)
    (exit : Exit frame sourcePeer clocks fingerprint ctx after outcome) :
    ExactAndAtomic frame sourcePeer clocks fingerprint ctx after outcome := by
  have expired := RecordsKept.expire wf (dedupKey frame sourcePeer) fingerprint clocks.monotonicMs
  cases exit with
  | gated gates refusal stopped =>
    refine .of_not_accepted nofun rfl (.refl wf _ _ _) nofun (fun _ => rfl) ?_
    intro early
    rcases admitPrefix_stopped stopped with limited | same
    · simp [limited] at early
    · simp [same]
  | repeated gates passed record live same =>
    subst same
    refine .of_not_accepted recordedAnswer_ne_accepted rfl (.touch wf live) ?_
      (fun _ => rfl) ?_
    · cases record.route <;> simp [recordedAnswer]
    · cases record.route <;> simp [recordedAnswer]
  | conflicting gates passed record live different =>
    exact .of_not_accepted nofun rfl expired nofun (fun _ => rfl) (by simp)
  | waiting gates passed fresh entry inFlight same =>
    exact .of_not_accepted nofun rfl expired (fun _ => ⟨entry, inFlight, rfl⟩)
      (fun other => absurd rfl other) (by simp)
  | refused gates passed fresh refusal late =>
    refine .of_not_accepted nofun rfl expired nofun (fun _ => rfl) ?_
    rintro (early | early) <;> simp_all [Refusal.afterGates]
  | accepted gates passed fresh resolved lease routed queue isOpen room =>
    refine exit_accepted_spec passed routed isOpen room rfl ?_ rfl
    have stillFresh : dedupKey frame sourcePeer ∉
        ((ctx.dedup.expire clocks.monotonicMs).expire clocks.monotonicMs).entries := by
      rw [notMem_iff_get, DedupCache.get_expire, fresh, Option.filter_none]
    exact ((wf.expire clocks.monotonicMs).holds_recordAccepted stillFresh _ _).recorded

inductive AdmitOnly (sha256 : List UInt8 → ContentFingerprint) : ReservationMap → Prop
  | new (maxGlobal maxPerPeer : Nat) : AdmitOnly sha256 (.new maxGlobal maxPerPeer)
  | admitInbound {ctx : AdmissionContext} (used : AdmitOnly sha256 ctx.reservations)
      (frame : DirectMessageV2) (sourcePeer : TransportIdentity) (clocks : Clocks) :
      AdmitOnly sha256 (admitInbound sha256 frame sourcePeer clocks ctx).1.reservations

theorem Exit.reservations (exit : Exit frame sourcePeer clocks fingerprint ctx after outcome) :
    after.reservations = ctx.reservations ∨
      ∃ entry, ctx.reservations.inFlight[dedupKey frame sourcePeer]? = some entry := by
  cases exit with
  | waiting gates passed fresh entry inFlight same => exact .inr ⟨entry, inFlight⟩
  | gated | repeated | conflicting | refused | accepted => exact .inl rfl

theorem fingerprintOf_ok : ∃ fingerprint, fingerprintOf sha256 frame = .ok fingerprint :=
  directContentFingerprintV1_typed sha256 frame.payload

theorem AdmitOnly.empty (used : AdmitOnly sha256 reservations) :
    reservations.inFlight = ∅ ∧ reservations.perPeer = ∅ := by
  induction used with
  | new maxGlobal maxPerPeer => exact ⟨rfl, rfl⟩
  | @admitInbound ctx used frame sourcePeer clocks ih =>
    obtain ⟨noneInFlight, noneCharged⟩ := ih
    have charged : ctx.reservations.Charged := by
      intro peer count held
      simp [noneCharged] at held
    obtain ⟨fingerprint, hashed⟩ := fingerprintOf_ok
    have exit := admitInbound_exit sha256 frame sourcePeer clocks ctx charged hashed
    rcases exit.reservations with same | ⟨entry, inFlight⟩
    · rw [same]
      exact ⟨noneInFlight, noneCharged⟩
    · simp [noneInFlight] at inFlight

/-- Acceptance is exact and everything else is atomic, from any state the cache and the
reservation map can reach; the limiter, the registry and the queues may be anything. A
map used through `admit_inbound` alone is empty after every call. -/
theorem admitInbound_exact_atomic (sha256 : List UInt8 → ContentFingerprint) :
    (∀ (ctx : AdmissionContext) (frame : DirectMessageV2) (sourcePeer : TransportIdentity)
        (clocks : Clocks), ctx.dedup.Reachable → ctx.reservations.Reachable →
      ∃ fingerprint, fingerprintOf sha256 frame = .ok fingerprint ∧
        ExactAndAtomic frame sourcePeer clocks fingerprint ctx
          (admitInbound sha256 frame sourcePeer clocks ctx).1
          (admitInbound sha256 frame sourcePeer clocks ctx).2) ∧
      ∀ reservations, AdmitOnly sha256 reservations →
        reservations.inFlight = ∅ ∧ reservations.perPeer = ∅ := by
  refine ⟨?_, fun reservations used => used.empty⟩
  intro ctx frame sourcePeer clocks dedup reservations
  obtain ⟨fingerprint, hashed⟩ := fingerprintOf_ok
  have exit := admitInbound_exit sha256 frame sourcePeer clocks ctx reservations.charged hashed
  exact ⟨fingerprint, hashed, exit.exactAndAtomic dedup.wf⟩

namespace Sample

def peer : TransportIdentity :=
  ⟨"12D3KooWA9hFCGwGCpCbWWfLmYSpqPzXgLmPvbBrgWGNvNGSDVpS", TransportIdentity.check_plain⟩

def human : EndpointId := ⟨"human", rfl⟩

def generation : Generation := ⟨"human___________", rfl⟩

theorem padded_length (bytes : List UInt8) :
    ((bytes.reverse ++ List.replicate 32 0).take 32).length = 32 := by
  simp

def digest (bytes : List UInt8) : ContentFingerprint :=
  ⟨(bytes.reverse ++ List.replicate 32 0).take 32, padded_length bytes⟩

def trust : PeerTrustPolicy := ⟨{peer}, none, by decide, by simp⟩

def registry : EndpointRegistry :=
  ((EndpointRegistry.new ((∅ : ExtTreeMap EndpointId RegisteredEndpoint).insert human {})
    (some human)).claim human ⟨"session-human"⟩ "test-client" generation).1

def context (maxEntries : Nat) : AdmissionContext where
  prefixContext := ⟨trust, .withDefaults 0, false⟩
  dedup := .new maxEntries DedupCache.defaultTtlMs
  reservations := .new 128 8
  registry := registry
  queues := EndpointQueues.new.openQueue human 8

def frame (id : UInt8) : DirectMessageV2 where
  messageId := ⟨List.replicate 16 id, rfl⟩
  sentAtMs := 1000
  sourceEndpoint := human
  destinationEndpoint := none
  payload := ⟨none, [id], Nat.succ_le_succ (Nat.zero_le _)⟩

end Sample

theorem admitInbound_exact_atomic_sample :
    (admitInbound Sample.digest (Sample.frame 1) Sample.peer ⟨0, 0⟩ (Sample.context 64)).2 =
        .accepted Sample.human ∧
      Eligible (Sample.context 64) Sample.peer Sample.human := by
  have accepted : (admitInbound Sample.digest (Sample.frame 1) Sample.peer ⟨0, 0⟩
      (Sample.context 64)).2 = .accepted Sample.human := by
    decide +kernel
  obtain ⟨_, _, contract⟩ := (admitInbound_exact_atomic Sample.digest).1 (Sample.context 64)
    (Sample.frame 1) Sample.peer ⟨0, 0⟩ (.new 64 _) (.new 128 8)
  exact ⟨accepted, contract.eligible _ accepted⟩

end InterWeave
