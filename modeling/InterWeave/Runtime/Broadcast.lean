import InterWeave.Lib.Machine
import InterWeave.Runtime.BroadcastCore
import InterWeave.Runtime.Dedup

/-!
Runs of broadcast admissions: each one admitted reaches every joined session once, and none is
delivered a second time while its record lives.
-/

namespace InterWeave

open Std (ExtTreeMap)
open OrderedMap

variable {ctx after : LocalContext} {admission : BroadcastAdmission}

def SessionQueue.gains (queue : SessionQueue) (event : BroadcastEvent) : SessionQueue :=
  { queue with
    events := (if queue.events.length ≥ queue.bound then queue.events.drop 1 else queue.events) ++
      [event] }

theorem SessionQueues.get_push (queues : SessionQueues) (session other : String)
    (event : BroadcastEvent) :
    (queues.push session event).1.queues[other]? =
      if session = other then queues.queues[other]?.map fun queue => queue.gains event
      else queues.queues[other]? := by
  unfold push
  by_cases same : session = other
  · subst same
    cases found : queues.queues[session]? with
    | none => simp [found]
    | some queue =>
      by_cases full : queue.events.length ≥ queue.bound
      · simp [full, SessionQueue.gains]
      · simp [full, SessionQueue.gains]
  · cases found : queues.queues[session]? with
    | none => simp [same]
    | some queue =>
      by_cases full : queue.events.length ≥ queue.bound
      · simp [full, get_insert, same]
      · simp [full, get_insert, same]

theorem FanOut.deliver_queues {fan : FanOut} :
    (fan.deliver exclude event session).queues =
      if some session = exclude then fan.queues else (fan.queues.push session event).1 := by
  unfold deliver
  split
  · rfl
  · split
    next answer => rw [answer]
    next answer => rw [answer]
    next answer => rw [answer]

open SessionQueues

theorem FanOut.get_foldl {sessions : List String} (nodup : sessions.Nodup) :
    (sessions.foldl (FanOut.deliver exclude event) fan).queues.queues[other]? =
      if other ∈ sessions ∧ some other ≠ exclude then
        fan.queues.queues[other]?.map fun queue => queue.gains event
      else fan.queues.queues[other]? := by
  induction sessions generalizing fan with
  | nil => simp
  | cons session rest ih =>
    obtain ⟨absent, nodup⟩ := List.nodup_cons.mp nodup
    rw [List.foldl_cons, ih nodup, deliver_queues]
    by_cases excluded : some session = exclude
    · by_cases same : session = other
      · subst same
        simp [excluded]
      · simp [excluded, Ne.symm same]
    · rw [if_neg excluded, get_push]
      by_cases same : session = other
      · subst same
        simp [absent, excluded]
      · simp [same, Ne.symm same]

def BroadcastAdmission.isAdmitted : BroadcastAdmission → Bool
  | .delivered _ _ => true
  | .nobodyJoined => true
  | _ => false

def BroadcastAdmission.isRemembering : BroadcastAdmission → Bool
  | .duplicate => true
  | admission => admission.isAdmitted

def FannedOut (joined : Finset String) (exclude : Option String) (event : BroadcastEvent)
    (before after : SessionQueues) : Prop :=
  ∀ session, after.queues[session]? =
    if session ∈ joined ∧ some session ≠ exclude then
      before.queues[session]?.map fun queue => queue.gains event
    else before.queues[session]?

open SubscriptionRegistry

theorem subscribers_served {registry : SubscriptionRegistry} :
    FannedOut (registry.joined channel) exclude event fan.queues
      ((registry.subscribers channel).foldl (FanOut.deliver exclude event) fan).queues := by
  intro session
  have nodup : (registry.subscribers channel).Nodup := Finset.sort_nodup _ _
  rw [FanOut.get_foldl nodup]
  simp [subscribers]

structure BroadcastCall where
  frame : BroadcastMessageV1
  channel : ChannelId
  source : TransportIdentity
  clocks : Clocks
  published : Bool
  exclude : Option String

namespace BroadcastCall

def key (call : BroadcastCall) : DedupKey :=
  .broadcast call.source call.channel call.frame.messageId

def event (call : BroadcastCall) : BroadcastEvent :=
  broadcastEvent call.frame call.channel call.source call.clocks

def left (call : BroadcastCall) : Option String :=
  if call.published then call.exclude else none

end BroadcastCall

section

variable (sha256 : List UInt8 → ContentFingerprint)

def broadcast (ctx : BroadcastContext) (call : BroadcastCall) :
    BroadcastContext × BroadcastAdmission :=
  if call.published then
    let (after, admission) := admitLocalBroadcast sha256 call.frame call.channel call.source
      call.clocks call.exclude ctx.toLocalContext
    (⟨after, ctx.prefixContext⟩, admission)
  else admitBroadcast sha256 call.frame call.channel call.source call.clocks ctx

end

inductive BroadcastExit (call : BroadcastCall) (ctx : LocalContext) :
    LocalContext → BroadcastAdmission → Prop
  | gated (refusal : Refusal) : BroadcastExit call ctx ctx (.refused refusal)
  | repeated (record : AcceptedRecord)
      (live : (ctx.dedup.expire call.clocks.monotonicMs).entries[call.key]? = some record) :
      BroadcastExit call ctx
        { ctx with dedup := (ctx.dedup.expire call.clocks.monotonicMs).touch call.key } .duplicate
  | conflicting (record : AcceptedRecord)
      (live : (ctx.dedup.expire call.clocks.monotonicMs).entries[call.key]? = some record) :
      BroadcastExit call ctx
        { ctx with dedup := ctx.dedup.expire call.clocks.monotonicMs } .conflict
  | admitted (fingerprint : ContentFingerprint)
      (fresh : (ctx.dedup.expire call.clocks.monotonicMs).entries[call.key]? = none)
      (queues : SessionQueues) (admission : BroadcastAdmission)
      (isAdmitted : admission.isAdmitted = true)
      (served : FannedOut (ctx.subs.joined call.channel) call.left call.event ctx.queues queues) :
      BroadcastExit call ctx
        { ctx with
          dedup := (ctx.dedup.expire call.clocks.monotonicMs).recordAccepted call.key .broadcast
            fingerprint call.clocks.monotonicMs
          queues := queues } admission

theorem BroadcastExit.fannedOut (exit : BroadcastExit call ctx after admission)
    (isAdmitted : admission.isAdmitted = true) :
    FannedOut (ctx.subs.joined call.channel) call.left call.event ctx.queues after.queues := by
  cases exit with
  | gated | conflicting | repeated => cases isAdmitted
  | admitted fingerprint fresh queues admission isAdmitted served => exact served

theorem BroadcastExit.unchanged (exit : BroadcastExit call ctx after admission)
    (refused : admission.isAdmitted = false) :
    after.queues = ctx.queues := by
  cases exit with
  | gated | conflicting | repeated => rfl
  | admitted fingerprint fresh queues admission isAdmitted served =>
    rw [isAdmitted] at refused
    cases refused

theorem admitLocalBroadcast_exit (sha256 : List UInt8 → ContentFingerprint)
    (same : exclude = call.left) :
    BroadcastExit call ctx
      (admitLocalBroadcast sha256 call.frame call.channel call.source call.clocks exclude ctx).1
      (admitLocalBroadcast sha256 call.frame call.channel call.source call.clocks exclude
        ctx).2 := by
  obtain ⟨fingerprint, hashed⟩ := directContentFingerprintV1_typed sha256 call.frame.payload
  unfold admitLocalBroadcast
  simp only [hashed]
  rcases DedupCache.admit_cases ctx.dedup call.key fingerprint call.clocks.monotonicMs with
    ⟨fresh, answer⟩ | ⟨record, live, ⟨-, answer⟩ | ⟨-, answer⟩⟩
  · unfold BroadcastCall.key at answer
    simp only [answer]
    split
    next nobody =>
      have none : ctx.subs.joined call.channel = ∅ := by
        rw [← Finset.card_eq_zero, ← Finset.length_sort (· ≤ ·), List.length_eq_zero_iff]
        simpa [subscribers] using nobody
      refine .admitted fingerprint fresh ctx.queues .nobodyJoined rfl fun session => ?_
      simp [none]
    · subst same
      exact .admitted fingerprint fresh _ _ rfl subscribers_served
  · unfold BroadcastCall.key at answer
    simp only [answer]
    exact .conflicting record live
  · unfold BroadcastCall.key at answer
    simp only [answer]
    exact .repeated record live

theorem broadcast_exit (sha256 : List UInt8 → ContentFingerprint) (call : BroadcastCall)
    (ctx : BroadcastContext) :
    BroadcastExit call ctx.toLocalContext (broadcast sha256 ctx call).1.toLocalContext
      (broadcast sha256 ctx call).2 := by
  unfold broadcast
  by_cases published : call.published = true
  · rw [if_pos published]
    exact admitLocalBroadcast_exit sha256 (by simp [BroadcastCall.left, published])
  · rw [if_neg published]
    unfold admitBroadcast
    split
    · exact .gated _
    · exact admitLocalBroadcast_exit sha256
        (by simp [BroadcastCall.left, published])

inductive BroadcastStep where
  | call (call : BroadcastCall)
  | gates (prefixContext : PrefixContext)
  | configure (desired : Finset ChannelId) (ceiling : Nat)
  | join (channel : ChannelId) (session : String)
  | leave (channel : ChannelId) (session : String)
  | openQueue (session : String) (bound : Nat)
  | closeQueue (session : String)
  | setBound (bound : Nat)
  | drainUpTo (session : String) (max : Nat)

structure AnsweredBroadcast where
  key : DedupKey
  admission : BroadcastAdmission

section

variable (sha256 : List UInt8 → ContentFingerprint)

def broadcastStep (ctx : BroadcastContext) :
    BroadcastStep → BroadcastContext × Option AnsweredBroadcast
  | .call call =>
    let (after, admission) := broadcast sha256 ctx call
    (after, some ⟨call.key, admission⟩)
  | .gates prefixContext => ({ ctx with prefixContext := prefixContext }, none)
  | .configure desired ceiling =>
    ({ ctx with subs := (ctx.subs.configure desired ceiling).1 }, none)
  | .join channel session => ({ ctx with subs := (ctx.subs.join channel session).1 }, none)
  | .leave channel session => ({ ctx with subs := ctx.subs.leave channel session }, none)
  | .openQueue session bound => ({ ctx with queues := ctx.queues.openQueue session bound }, none)
  | .closeQueue session => ({ ctx with queues := (ctx.queues.close session).1 }, none)
  | .setBound bound => ({ ctx with queues := ctx.queues.setBound bound }, none)
  | .drainUpTo session max => ({ ctx with queues := (ctx.queues.drainUpTo session max).1 }, none)

def runBroadcast (ctx : BroadcastContext) (steps : List BroadcastStep) :
    BroadcastContext × List AnsweredBroadcast :=
  Machine.run (broadcastStep sha256) ctx steps

end

theorem broadcastStep_cases (sha256 : List UInt8 → ContentFingerprint) {ctx : BroadcastContext} :
    (∃ call, step = .call call ∧
        broadcastStep sha256 ctx step =
          ((broadcast sha256 ctx call).1, some ⟨call.key, (broadcast sha256 ctx call).2⟩)) ∨
      (broadcastStep sha256 ctx step).2 = none ∧
        (broadcastStep sha256 ctx step).1.dedup = ctx.dedup := by
  cases step with
  | call call => exact .inl ⟨call, rfl, rfl⟩
  | _ => exact .inr ⟨rfl, rfl⟩

def broadcastTimes (steps : List BroadcastStep) : List Nat :=
  steps.filterMap fun
    | .call call => some call.clocks.monotonicMs
    | _ => none

def countOthers (counts : BroadcastAdmission → Bool) (key : DedupKey) (others : Finset DedupKey)
    (answered : AnsweredBroadcast) : Finset DedupKey :=
  if answered.key ≠ key ∧ counts answered.admission then insert answered.key others else others

theorem subset_foldl_countOthers (counts : BroadcastAdmission → Bool) (key : DedupKey)
    (answers : List AnsweredBroadcast) (others : Finset DedupKey) :
    others ⊆ answers.foldl (countOthers counts key) others := by
  induction answers generalizing others with
  | nil => exact fun _ member => member
  | cons answered rest ih =>
    refine Finset.Subset.trans ?_ (ih _)
    unfold countOthers
    split
    · exact Finset.subset_insert _ _
    · exact fun _ member => member

structure Retains (maxEntries ttlMs : Nat) (key : DedupKey) (record : AcceptedRecord)
    (cache : DedupCache) (others : Finset DedupKey) : Prop where
  holds : cache.Holds key record others
  sameTtl : cache.ttlMs = ttlMs
  sameRoom : cache.maxEntries = maxEntries

section

variable {maxEntries ttlMs : Nat} {key : DedupKey} {record : AcceptedRecord}
  {others : Finset DedupKey} {call : BroadcastCall} {ctx after : LocalContext}
  {admission : BroadcastAdmission}

theorem Retains.expire (retains : Retains maxEntries ttlMs key record ctx.dedup others)
    (young : call.clocks.monotonicMs - record.storedAtMs < ttlMs) :
    Retains maxEntries ttlMs key record (ctx.dedup.expire call.clocks.monotonicMs) others := by
  refine ⟨retains.holds.expire ?_, by simpa using retains.sameTtl, by simpa using retains.sameRoom⟩
  simp only [DedupCache.expired, retains.sameTtl, decide_eq_false_iff_not]
  omega

theorem Retains.exit (retains : Retains maxEntries ttlMs key record ctx.dedup others)
    (young : call.clocks.monotonicMs - record.storedAtMs < ttlMs)
    (exit : BroadcastExit call ctx after admission)
    (few : (countOthers BroadcastAdmission.isRemembering key others
      ⟨call.key, admission⟩).card < maxEntries) :
    Retains maxEntries ttlMs key record after.dedup
      (countOthers BroadcastAdmission.isRemembering key others ⟨call.key, admission⟩) := by
  have expired := retains.expire young
  have sameTtl := expired.sameTtl
  have sameRoom := expired.sameRoom
  cases exit with
  | gated refusal =>
    simpa [countOthers, BroadcastAdmission.isRemembering, BroadcastAdmission.isAdmitted] using
      retains
  | conflicting matched live =>
    simpa [countOthers, BroadcastAdmission.isRemembering, BroadcastAdmission.isAdmitted] using
      expired
  | repeated matched live =>
    refine ⟨?_, by simpa using sameTtl, by simpa using sameRoom⟩
    by_cases self : call.key = key
    · simpa [countOthers, self] using expired.holds.touch_self.mono (Finset.empty_subset others)
    · simpa [countOthers, self, BroadcastAdmission.isRemembering] using
        expired.holds.touch_other self
  | admitted fingerprint fresh queues admission isAdmitted served =>
    have distinct : call.key ≠ key := by
      intro self
      rw [self, expired.holds.recorded] at fresh
      cases fresh
    have remembering : admission.isRemembering = true := by
      cases admission with
      | delivered | nobodyJoined => rfl
      | refused | duplicate | conflict | unfingerprintable => cases isAdmitted
    have counted : countOthers BroadcastAdmission.isRemembering key others
        ⟨call.key, admission⟩ = insert call.key others := if_pos ⟨distinct, remembering⟩
    rw [counted] at few ⊢
    refine ⟨expired.holds.recordAccepted_other distinct ?_ (by rwa [sameRoom]) _ _,
      by simpa using sameTtl, by simpa using sameRoom⟩
    simp only [DedupCache.expired, sameTtl, decide_eq_false_iff_not]
    omega

theorem Retains.undelivered (retains : Retains maxEntries ttlMs key record ctx.dedup others)
    (young : call.clocks.monotonicMs - record.storedAtMs < ttlMs) (same : call.key = key)
    (exit : BroadcastExit call ctx after admission) :
    after.queues = ctx.queues ∧ admission.isAdmitted = false := by
  have recorded := (retains.expire young).holds.recorded
  cases exit with
  | gated | conflicting | repeated => exact ⟨rfl, rfl⟩
  | admitted fingerprint fresh =>
    rw [same, recorded] at fresh
    cases fresh

end

structure SoundCache (maxEntries ttlMs : Nat) (cache : DedupCache) : Prop where
  wf : cache.Wf
  sameTtl : cache.ttlMs = ttlMs
  sameRoom : cache.maxEntries = maxEntries

theorem BroadcastExit.sound (exit : BroadcastExit call ctx after admission)
    (sound : SoundCache maxEntries ttlMs ctx.dedup) : SoundCache maxEntries ttlMs after.dedup := by
  obtain ⟨wf, sameTtl, sameRoom⟩ := sound
  have expired := wf.expire call.clocks.monotonicMs
  cases exit with
  | gated => exact ⟨wf, sameTtl, sameRoom⟩
  | conflicting => exact ⟨expired, by simpa using sameTtl, by simpa using sameRoom⟩
  | repeated => exact ⟨expired.touch _, by simpa using sameTtl, by simpa using sameRoom⟩
  | admitted =>
    exact ⟨expired.recordAccepted _ _ _ _, by simpa using sameTtl, by simpa using sameRoom⟩

theorem BroadcastExit.retains (exit : BroadcastExit call ctx after admission)
    (sound : SoundCache maxEntries ttlMs ctx.dedup) (isAdmitted : admission.isAdmitted = true) :
    ∃ record, record.storedAtMs = call.clocks.monotonicMs ∧
      Retains maxEntries ttlMs call.key record after.dedup ∅ := by
  obtain ⟨wf, sameTtl, sameRoom⟩ := exit.sound sound
  cases exit with
  | gated | conflicting | repeated => cases isAdmitted
  | admitted fingerprint fresh =>
    refine ⟨⟨.broadcast, fingerprint, call.clocks.monotonicMs⟩, rfl, ?_, sameTtl, sameRoom⟩
    apply (sound.wf.expire call.clocks.monotonicMs).holds_recordAccepted
    rw [notMem_iff_get, DedupCache.get_expire, fresh, Option.filter_none]

theorem runBroadcast_sound (sha256 : List UInt8 → ContentFingerprint) {ctx : BroadcastContext}
    (sound : SoundCache maxEntries ttlMs ctx.dedup) :
    SoundCache maxEntries ttlMs (runBroadcast sha256 ctx steps).1.dedup := by
  refine Machine.run_invariant (fun reached : BroadcastContext =>
    SoundCache maxEntries ttlMs reached.dedup) ?_ sound steps
  intro reached step kept
  rcases broadcastStep_cases sha256 with ⟨call, -, taken⟩ | ⟨-, dedup⟩
  · rw [taken]
    exact (broadcast_exit sha256 call reached).sound kept
  · rw [dedup]
    exact kept

theorem Retains.run (sha256 : List UInt8 → ContentFingerprint) {ctx : BroadcastContext}
    (retains : Retains maxEntries ttlMs key record ctx.dedup others)
    (young : ∀ call, .call call ∈ steps → call.clocks.monotonicMs - record.storedAtMs < ttlMs)
    (few : ((runBroadcast sha256 ctx steps).2.foldl
      (countOthers BroadcastAdmission.isRemembering key) others).card < maxEntries) :
    Retains maxEntries ttlMs key record (runBroadcast sha256 ctx steps).1.dedup
      ((runBroadcast sha256 ctx steps).2.foldl
        (countOthers BroadcastAdmission.isRemembering key) others) := by
  refine Machine.run_summarised (fun reached : BroadcastContext =>
    Retains maxEntries ttlMs key record reached.dedup)
    (countOthers BroadcastAdmission.isRemembering key) (fun others => others.card < maxEntries)
    (fun step => ∀ call, step = BroadcastStep.call call →
      call.clocks.monotonicMs - record.storedAtMs < ttlMs)
    ?_ retains (fun step member call isCall => young call (isCall ▸ member)) ?_
  · intro reached step seen held admissible allowed
    rcases broadcastStep_cases sha256 with ⟨call, isCall, taken⟩ | ⟨silent, dedup⟩
    · rw [taken] at allowed ⊢
      exact held.exit (admissible call isCall) (broadcast_exit sha256 call reached) allowed
    · rw [silent, dedup]
      exact held
  · intro seen member
    obtain ⟨rest, whole⟩ := (List.mem_inits _ _).mp member
    change _ = (runBroadcast sha256 ctx steps).2 at whole
    rw [← whole, List.foldl_append] at few
    exact lt_of_le_of_lt (Finset.card_le_card (subset_foldl_countOthers _ _ _ _)) few

theorem mem_broadcastTimes (member : .call call ∈ steps) :
    call.clocks.monotonicMs ∈ broadcastTimes steps :=
  List.mem_filterMap.mpr ⟨.call call, member, rfl⟩

/-- Fan-out and no replay. An admitted broadcast is at the back of the queue of every joined
session but the one it leaves out, and is not delivered again while its record is young and
fewer than `maxEntries` other keys were recorded or answered as duplicates since. -/
theorem broadcast_fan_out (sha256 : List UInt8 → ContentFingerprint) :
    (∀ (ctx : BroadcastContext) (call : BroadcastCall),
      ((broadcast sha256 ctx call).2.isAdmitted = true →
        FannedOut (ctx.subs.joined call.channel) call.left call.event ctx.queues
          (broadcast sha256 ctx call).1.queues) ∧
      ((broadcast sha256 ctx call).2.isAdmitted = false →
        (broadcast sha256 ctx call).1.queues = ctx.queues)) ∧
    ∀ (start : BroadcastContext) (maxEntries ttlMs : Nat) (before between : List BroadcastStep)
      (first later : BroadcastCall), start.dedup = .new maxEntries ttlMs →
      (broadcastTimes (.call first :: between ++ [.call later])).Pairwise (· ≤ ·) →
      let reached := (runBroadcast sha256 start before).1
      let admitted := broadcast sha256 reached first
      let onward := runBroadcast sha256 admitted.1 between
      admitted.2.isAdmitted = true → later.key = first.key →
      later.clocks.monotonicMs - first.clocks.monotonicMs < ttlMs →
      (onward.2.foldl (countOthers BroadcastAdmission.isRemembering first.key) ∅).card <
        max maxEntries 1 →
      (broadcast sha256 onward.1 later).1.queues = onward.1.queues ∧
        (broadcast sha256 onward.1 later).2.isAdmitted = false := by
  refine ⟨?_, ?_⟩
  · intro ctx call
    have exit := broadcast_exit sha256 call ctx
    exact ⟨exit.fannedOut, exit.unchanged⟩
  · intro start maxEntries ttlMs before between first later fresh ordered reached admitted onward
      isAdmitted sameKey within few
    have sound : SoundCache (max maxEntries 1) ttlMs start.dedup := by
      rw [fresh]
      exact ⟨.new maxEntries ttlMs, rfl, rfl⟩
    obtain ⟨record, stored, retains⟩ := (broadcast_exit sha256 first reached).retains
      (runBroadcast_sound sha256 sound) isAdmitted
    have young : ∀ call, .call call ∈ between →
        call.clocks.monotonicMs - record.storedAtMs < ttlMs := by
      intro call member
      have tail : (broadcastTimes (between ++ [.call later])).Pairwise (· ≤ ·) :=
        ordered.sublist (List.Sublist.filterMap _ (List.sublist_cons_self _ _))
      rw [broadcastTimes, List.filterMap_append, List.pairwise_append] at tail
      have order := tail.2.2 _ (mem_broadcastTimes member) later.clocks.monotonicMs (by simp)
      omega
    exact (retains.run sha256 young few).undelivered (by omega) sameKey
      (broadcast_exit sha256 later onward.1)

namespace BroadcastSample

def publisher : TransportIdentity :=
  ⟨"12D3KooWA9hFCGwGCpCbWWfLmYSpqPzXgLmPvbBrgWGNvNGSDVpS", TransportIdentity.check_plain⟩

def general : ChannelId := ⟨"general", by decide⟩

def digest (bytes : List UInt8) : ContentFingerprint :=
  ⟨(bytes.reverse ++ List.replicate 32 0).take 32, by simp⟩

def context (maxEntries : Nat) : BroadcastContext where
  dedup := .new maxEntries DedupCache.defaultTtlMs
  subs := (default.join general "human").1
  queues := new.openQueue "human" 8
  prefixContext := ⟨⟨{publisher}, none, by decide, by simp⟩, .withDefaults 0, false⟩

def call (id : UInt8) (nowMs : Nat) : BroadcastCall where
  frame := ⟨⟨List.replicate 16 id, by simp⟩, 1000, ⟨none, [id], by simp [maxPayloadBytes]⟩⟩
  channel := general
  source := publisher
  clocks := ⟨nowMs, nowMs⟩
  published := false
  exclude := none

end BroadcastSample

open BroadcastSample in
theorem broadcast_fan_out_sample :
    let admitted := broadcast digest (context 2) (call 1 0)
    let onward := runBroadcast digest admitted.1
      [.call (call 2 1), .join general "later", .openQueue "later" 8]
    FannedOut ((context 2).subs.joined general) none (call 1 0).event (context 2).queues
        admitted.1.queues ∧
      (broadcast digest onward.1 (call 1 2)).1.queues = onward.1.queues := by
  have admitted : (broadcast digest (context 2) (call 1 0)).2.isAdmitted = true := by
    decide +kernel
  have once := broadcast_fan_out digest
  refine ⟨(once.1 (context 2) (call 1 0)).1 admitted, ?_⟩
  have reached : (runBroadcast digest (context 2) []).1 = context 2 := rfl
  have repeated := once.2 (context 2) 2 DedupCache.defaultTtlMs []
    [.call (call 2 1), .join general "later", .openQueue "later" 8] (call 1 0) (call 1 2) rfl
    (by decide)
  rw [reached] at repeated
  exact (repeated admitted rfl (by decide) (by decide +kernel)).1

open BroadcastSample in
/-- Counting the keys recorded alone is not enough: a duplicate answer moves a key recorded
earlier behind the record too. With room for two, one more record then evicts it, and the
session gets a second copy within the lifetime of the first. -/
theorem duplicate_broadcasts_evict :
    let before := [BroadcastStep.call (call 1 0)]
    let first := call 2 1
    let between := [BroadcastStep.call (call 1 2), .call (call 3 3)]
    let later := call 2 4
    let admitted := broadcast digest (runBroadcast digest (context 2) before).1 first
    let onward := runBroadcast digest admitted.1 between
    (broadcastTimes (before ++ .call first :: between ++ [.call later])).Pairwise (· ≤ ·) ∧
      admitted.2.isAdmitted = true ∧ later.key = first.key ∧
      later.clocks.monotonicMs - first.clocks.monotonicMs < (context 2).dedup.ttlMs ∧
      (onward.2.foldl (countOthers BroadcastAdmission.isAdmitted first.key) ∅).card <
        (context 2).dedup.maxEntries ∧
      (broadcast digest onward.1 later).2 = .delivered ["human"] [] ∧
      ((broadcast digest onward.1 later).1.queues.queues["human"]?.map fun queue =>
        queue.events.count later.event + queue.events.count first.event) = some 2 := by
  decide +kernel

end InterWeave
