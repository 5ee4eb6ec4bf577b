import InterWeave.Runtime.BroadcastCore

/-!
Runs of calls on the subscription registry. Channels joined and channels desired are counted
together, each once, whichever operation does the counting.
-/

namespace InterWeave

open Std (ExtTreeMap)
open OrderedMap

namespace SubscriptionRegistry

variable {sessions : Finset String} (registry : SubscriptionRegistry) (channel : ChannelId)
    (desired : Finset ChannelId) (session : String)

def channels (registry : SubscriptionRegistry) : Finset ChannelId :=
  registry.joins.keys.toFinset

theorem mem_channels {registry : SubscriptionRegistry} {channel : ChannelId} :
    channel ∈ registry.channels ↔ channel ∈ registry.joins := by
  simp [channels]

theorem mem_channels_of_get {registry : SubscriptionRegistry} {channel : ChannelId}
    (found : registry.joins[channel]? = some sessions) : channel ∈ registry.channels :=
  mem_channels.mpr ((mem_iff_get _ _).mpr ⟨sessions, found⟩)

theorem joinedElsewhere_add_card :
    registry.joinedElsewhere desired + desired.card = (registry.channels ∪ desired).card := by
  have nodup : (registry.joins.keys.filter fun channel => channel ∉ desired).Nodup :=
    registry.joins.nodup_keys.filter _
  rw [joinedElsewhere, ← List.toFinset_card_of_nodup nodup, ← Finset.card_sdiff_add_card]
  congr 2
  ext channel
  simp [channels]

theorem subscriptions_eq : registry.subscriptions = (registry.channels ∪ registry.desired).card :=
  registry.joinedElsewhere_add_card registry.desired

structure Sound (registry : SubscriptionRegistry) : Prop where
  within : (registry.channels ∪ registry.desired).card ≤ registry.ceiling
  crowds : ∀ (channel : ChannelId) sessions, registry.joins[channel]? = some sessions →
    sessions.Nonempty ∧ sessions.card ≤ maxSessionsPerChannel

theorem sound_default : Sound default := by
  refine ⟨?_, ?_⟩
  · have none : default.channels = ∅ :=
      Finset.eq_empty_of_forall_notMem fun channel member =>
        ExtTreeMap.not_mem_empty (mem_channels.mp member)
    rw [none]
    exact Nat.zero_le _
  · simp [default]

def put (registry : SubscriptionRegistry) (channel : ChannelId) (sessions : Finset String) :
    SubscriptionRegistry :=
  { registry with joins := registry.joins.insert channel sessions }

theorem put_channels :
    (registry.put channel sessions).channels = insert channel registry.channels := by
  ext other
  rw [mem_channels, Finset.mem_insert, mem_channels, put, mem_insert, eq_comm]

theorem Sound.put {registry : SubscriptionRegistry} (sound : registry.Sound) {channel : ChannelId}
    (counted : channel ∈ registry.channels ∪ registry.desired ∨
      registry.subscriptions < registry.ceiling) (some : sessions.Nonempty)
    (few : sessions.card ≤ maxSessionsPerChannel) : (registry.put channel sessions).Sound := by
  refine ⟨?_, ?_⟩
  · rw [put_channels, Finset.insert_union]
    change (insert channel (registry.channels ∪ registry.desired)).card ≤ registry.ceiling
    rcases counted with counted | room
    · rw [Finset.insert_eq_of_mem counted]
      exact sound.within
    · rw [subscriptions_eq] at room
      exact (Finset.card_insert_le _ _).trans room
  · intro other held found
    simp only [SubscriptionRegistry.put, get_insert] at found
    split at found
    · obtain rfl := Option.some.inj found
      exact ⟨some, few⟩
    · exact sound.crowds other held found

theorem joined_put :
    (registry.put channel sessions).joined other =
      if channel = other then sessions else registry.joined other := by
  simp only [joined, put, get_insert]
  split
  · rfl
  · rfl

theorem joined_of_get {registry : SubscriptionRegistry} {channel : ChannelId}
    (found : registry.joins[channel]? = some sessions) : registry.joined channel = sessions := by
  rw [joined, found, Option.getD_some]

theorem joined_of_none {registry : SubscriptionRegistry} {channel : ChannelId}
    (absent : registry.joins[channel]? = none) : registry.joined channel = ∅ := by
  rw [joined, absent, Option.getD_none]

theorem joinReferences_put (sessions : Finset String) :
    (registry.put channel sessions).joinReferences + (registry.joined channel).card =
      registry.joinReferences + sessions.card := by
  cases found : registry.joins[channel]? with
  | none =>
    rw [joined_of_none found, Finset.card_empty, Nat.add_zero, Nat.add_comm]
    exact sumOver_insert_fresh _ found
  | some old =>
    rw [joined_of_get found]
    exact sumOver_replace (fun _ held => held.card) found

inductive JoinExit (registry : SubscriptionRegistry) (channel : ChannelId) (session : String) :
    SubscriptionRegistry × Except SubscriptionDenial Unit → Prop
  | held : session ∈ registry.joined channel → JoinExit registry channel session (registry, .ok ())
  | refused (denial : SubscriptionDenial) : session ∉ registry.joined channel →
      JoinExit registry channel session (registry, .error denial)
  | added : session ∉ registry.joined channel →
      (registry.joined channel).card < maxSessionsPerChannel →
      (channel ∈ registry.channels ∪ registry.desired ∨
        registry.subscriptions < registry.ceiling) →
      JoinExit registry channel session
        (registry.put channel (insert session (registry.joined channel)), .ok ())

theorem join_exit : JoinExit registry channel session (registry.join channel session) := by
  unfold join
  cases found : registry.joins[channel]? with
  | none =>
    have none : registry.joined channel = ∅ := joined_of_none found
    simp only
    by_cases full : channel ∉ registry.desired ∧ registry.subscriptions ≥ registry.ceiling
    · rw [if_pos full]
      exact .refused _ (by simp [none])
    · rw [if_neg full]
      have counted : channel ∈ registry.channels ∪ registry.desired ∨
          registry.subscriptions < registry.ceiling := by
        by_cases desired : channel ∈ registry.desired
        · exact .inl (Finset.mem_union_right _ desired)
        · exact .inr (not_le.mp fun reached => full ⟨desired, reached⟩)
      have added : JoinExit registry channel session _ :=
        .added (by simp [none]) (by simp [none, maxSessionsPerChannel]) counted
      rw [none] at added
      exact added
  | some sessions =>
    have some : registry.joined channel = sessions := joined_of_get found
    simp only
    by_cases member : session ∈ sessions
    · rw [if_pos member]
      exact .held (some ▸ member)
    · rw [if_neg member]
      by_cases full : sessions.card ≥ maxSessionsPerChannel
      · rw [if_pos full]
        exact .refused _ (some ▸ member)
      · rw [if_neg full]
        have known := Finset.mem_union_left registry.desired (mem_channels_of_get found)
        have added : JoinExit registry channel session _ :=
          .added (some ▸ member) (some ▸ not_le.mp full) (.inl known)
        rw [some] at added
        exact added

theorem Sound.join {registry : SubscriptionRegistry} (sound : registry.Sound)
    (channel : ChannelId) (session : String) : (registry.join channel session).1.Sound := by
  generalize registry.join channel session = joined, registry.join_exit channel session = exit
    at *
  cases exit with
  | held | refused => exact sound
  | added new room counted =>
    refine sound.put counted (Finset.insert_nonempty _ _) ?_
    rw [Finset.card_insert_of_notMem new]
    exact room

theorem setDesired_cases :
    registry.setDesired desired = (registry, .error .tooManySubscriptions) ∧
        registry.ceiling < (registry.channels ∪ desired).card ∨
      registry.setDesired desired = ({ registry with desired := desired }, .ok ()) ∧
        (registry.channels ∪ desired).card ≤ registry.ceiling := by
  unfold setDesired
  rw [joinedElsewhere_add_card]
  by_cases excess : (registry.channels ∪ desired).card > registry.ceiling
  · exact .inl ⟨if_pos excess, excess⟩
  · exact .inr ⟨if_neg excess, not_lt.mp excess⟩

theorem configure_cases (ceiling : Nat) :
    (∃ denial, registry.configure desired ceiling = (registry, .error denial)) ∨
      registry.configure desired ceiling =
          ({ registry with desired := desired, ceiling := ceiling }, .ok ()) ∧
        (registry.channels ∪ desired).card ≤ ceiling := by
  unfold configure
  split
  · exact .inl ⟨_, rfl⟩
  · rcases setDesired_cases { registry with ceiling := ceiling } desired with
      ⟨refused, -⟩ | ⟨accepted, within⟩
    · rw [refused]
      exact .inl ⟨_, rfl⟩
    · rw [accepted]
      exact .inr ⟨rfl, within⟩

theorem leave_joins :
    registry.leave channel session = registry ∧ registry.joins[channel]? = none ∨
      ∃ sessions, registry.joins[channel]? = some sessions ∧
        (sessions.erase session = ∅ ∧
            registry.leave channel session =
              { registry with joins := registry.joins.erase channel } ∨
          sessions.erase session ≠ ∅ ∧
            registry.leave channel session = registry.put channel (sessions.erase session)) := by
  unfold leave
  cases found : registry.joins[channel]? with
  | none => exact .inl ⟨rfl, rfl⟩
  | some sessions =>
    refine .inr ⟨sessions, rfl, ?_⟩
    by_cases last : sessions.erase session = ∅
    · exact .inl ⟨last, by simp only [last, Finset.card_empty, if_true]⟩
    · refine .inr ⟨last, if_neg fun none => last (Finset.card_eq_zero.mp none)⟩

theorem joined_leave (other : ChannelId) : (registry.leave channel session).joined other =
      if channel = other then (registry.joined channel).erase session
      else registry.joined other := by
  rcases registry.leave_joins channel session with
    ⟨same, absent⟩ | ⟨sessions, found, ⟨last, left⟩ | ⟨-, left⟩⟩
  · rw [same]
    by_cases here : channel = other
    · subst here
      simp [joined_of_none absent]
    · rw [if_neg here]
  · rw [left, joined_of_get found, last]
    simp only [joined, get_erase]
    split
    · rfl
    · rfl
  · rw [left, joined_put, joined_of_get found]

theorem joinReferences_leave :
    (registry.leave channel session).joinReferences + (registry.joined channel).card =
      registry.joinReferences + ((registry.joined channel).erase session).card := by
  rcases registry.leave_joins channel session with
    ⟨same, absent⟩ | ⟨sessions, found, ⟨last, left⟩ | ⟨-, left⟩⟩
  · rw [same, joined_of_none absent, Finset.erase_empty]
  · have gone := sumOver_erase (fun _ (held : Finset String) => held.card) found
    rw [left, joined_of_get found, last, Finset.card_empty, Nat.add_zero, Nat.add_comm]
    exact gone.symm
  · rw [left, joinReferences_put, joined_of_get found]

theorem ceiling_leave : (registry.leave channel session).ceiling = registry.ceiling := by
  rcases registry.leave_joins channel session with
    ⟨same, -⟩ | ⟨sessions, -, ⟨-, left⟩ | ⟨-, left⟩⟩
  · rw [same]
  · rw [left]
  · rw [left]
    rfl

theorem Sound.leave {registry : SubscriptionRegistry} (sound : registry.Sound)
    (channel : ChannelId) (session : String) : (registry.leave channel session).Sound := by
  rcases registry.leave_joins channel session with
    ⟨same, -⟩ | ⟨sessions, found, ⟨-, left⟩ | ⟨others, left⟩⟩
  · rw [same]
    exact sound
  · rw [left]
    refine ⟨?_, fun other held kept => ?_⟩
    · refine (Finset.card_le_card (Finset.union_subset_union_left fun other => ?_)).trans
        sound.within
      simp only [mem_channels]
      exact fun member => ((mem_erase _ _ _).mp member).2
    · simp only [get_erase] at kept
      split at kept
      · cases kept
      · exact sound.crowds other held kept
  · rw [left]
    exact sound.put (.inl (Finset.mem_union_left _ (mem_channels_of_get found)))
      (Finset.nonempty_iff_ne_empty.mpr others)
      ((Finset.card_erase_le).trans (sound.crowds channel sessions found).2)

end SubscriptionRegistry

inductive SubscriptionCall where
  | configure (desired : Finset ChannelId) (ceiling : Nat)
  | setDesired (desired : Finset ChannelId)
  | join (channel : ChannelId) (session : String)
  | leave (channel : ChannelId) (session : String)

namespace SubscriptionRegistry

variable {registry : SubscriptionRegistry}

def perform (registry : SubscriptionRegistry) :
    SubscriptionCall → SubscriptionRegistry × Except SubscriptionDenial Unit
  | .configure desired ceiling => registry.configure desired ceiling
  | .setDesired desired => registry.setDesired desired
  | .join channel session => registry.join channel session
  | .leave channel session => (registry.leave channel session, .ok ())

theorem Sound.perform (sound : registry.Sound) (call : SubscriptionCall) :
    (registry.perform call).1.Sound := by
  cases call with
  | configure desired ceiling =>
    rcases registry.configure_cases desired ceiling with ⟨denial, refused⟩ | ⟨accepted, within⟩
    · rw [SubscriptionRegistry.perform, refused]
      exact sound
    · rw [SubscriptionRegistry.perform, accepted]
      exact ⟨within, sound.crowds⟩
  | setDesired desired =>
    rcases registry.setDesired_cases desired with ⟨refused, -⟩ | ⟨accepted, within⟩
    · rw [SubscriptionRegistry.perform, refused]
      exact sound
    · rw [SubscriptionRegistry.perform, accepted]
      exact ⟨within, sound.crowds⟩
  | join channel session => exact sound.join channel session
  | leave channel session => exact sound.leave channel session

theorem perform_error (refused : (registry.perform call).2 = .error denial) :
    (registry.perform call).1 = registry := by
  cases call with
  | configure desired ceiling =>
    rcases registry.configure_cases desired ceiling with ⟨_, answer⟩ | ⟨answer, -⟩
    · rw [perform, answer]
    · rw [perform, answer] at refused
      cases refused
  | setDesired desired =>
    rcases registry.setDesired_cases desired with ⟨answer, -⟩ | ⟨answer, -⟩
    · rw [perform, answer]
    · rw [perform, answer] at refused
      cases refused
  | join channel session =>
    have exit := registry.join_exit channel session
    simp only [perform] at refused ⊢
    generalize registry.join channel session = answer at *
    cases exit with
    | held | refused => rfl
    | added _ _ _ => cases refused
  | leave channel session => cases refused

theorem Sound.setDesired_subset (sound : registry.Sound) {desired : Finset ChannelId}
    (fewer : desired ⊆ registry.desired) : (registry.setDesired desired).2 = .ok () := by
  rcases registry.setDesired_cases desired with ⟨-, excess⟩ | ⟨accepted, -⟩
  · have smaller : (registry.channels ∪ desired).card ≤
        (registry.channels ∪ registry.desired).card :=
      Finset.card_le_card (Finset.union_subset_union_right fewer)
    exact absurd (smaller.trans sound.within) (not_le.mpr excess)
  · rw [accepted]

theorem join_held (held : session ∈ registry.joined channel) :
    registry.join channel session = (registry, .ok ()) := by
  have exit := registry.join_exit channel session
  generalize registry.join channel session = answer at *
  cases exit with
  | held _ => rfl
  | refused _ absent => exact absurd held absent
  | added absent _ _ => exact absurd held absent

end SubscriptionRegistry

/-- A registry with the pairs joined and not left, and the ceiling of the last configuration that
was accepted. -/
structure SubscriptionRun where
  registry : SubscriptionRegistry
  pairs : Finset (ChannelId × String)
  ceiling : Nat

namespace SubscriptionRun

variable {run : SubscriptionRun}

def start : SubscriptionRun := ⟨.default, ∅, maxSubscriptions⟩

def notePairs (run : SubscriptionRun) : SubscriptionCall → Finset (ChannelId × String)
  | .join channel session =>
    match (run.registry.join channel session).2 with
    | .ok () => insert (channel, session) run.pairs
    | .error _ => run.pairs
  | .leave channel session => run.pairs.erase (channel, session)
  | .configure _ _ | .setDesired _ => run.pairs

def noteCeiling (run : SubscriptionRun) : SubscriptionCall → Nat
  | .configure desired ceiling =>
    match (run.registry.configure desired ceiling).2 with
    | .ok () => ceiling
    | .error _ => run.ceiling
  | .setDesired _ | .join _ _ | .leave _ _ => run.ceiling

def step (run : SubscriptionRun) (call : SubscriptionCall) : SubscriptionRun :=
  ⟨(run.registry.perform call).1, run.notePairs call, run.noteCeiling call⟩

def after (calls : List SubscriptionCall) : SubscriptionRun := calls.foldl step start

structure Sound (run : SubscriptionRun) : Prop where
  registry : run.registry.Sound
  joined : ∀ channel session, (channel, session) ∈ run.pairs ↔
    session ∈ run.registry.joined channel
  references : run.registry.joinReferences = run.pairs.card
  ceiling : run.registry.ceiling = run.ceiling

theorem sound_start : Sound start := by
  refine ⟨SubscriptionRegistry.sound_default, fun channel session => ?_, ?_, rfl⟩
  · simp [start, SubscriptionRegistry.default, SubscriptionRegistry.joined]
  · simp [start, SubscriptionRegistry.default, SubscriptionRegistry.joinReferences]

theorem Sound.join (sound : run.Sound) (channel : ChannelId) (session : String) :
    (run.step (.join channel session)).Sound := by
  have kept := sound.registry.join channel session
  have exit := run.registry.join_exit channel session
  simp only [SubscriptionRun.step, SubscriptionRegistry.perform, notePairs, noteCeiling]
  generalize run.registry.join channel session = answer at *
  cases exit with
  | held member =>
    have already := (sound.joined channel session).mpr member
    simp only [Finset.insert_eq_of_mem already]
    exact sound
  | refused denial _ => exact sound
  | added new room counted =>
    have absent : (channel, session) ∉ run.pairs := by
      rw [sound.joined]
      exact new
    refine ⟨kept, fun other guest => ?_, ?_, sound.ceiling⟩
    · rw [Finset.mem_insert, Prod.mk.injEq, sound.joined, SubscriptionRegistry.joined_put]
      by_cases same : channel = other
      · subst same
        simp
      · rw [if_neg same]
        simp [Ne.symm same]
    · have moved := run.registry.joinReferences_put channel
        (insert session (run.registry.joined channel))
      rw [Finset.card_insert_of_notMem new] at moved
      rw [Finset.card_insert_of_notMem absent, ← sound.references]
      exact Nat.add_right_cancel (moved.trans (by omega))

theorem Sound.leave (sound : run.Sound) (channel : ChannelId) (session : String) :
    (run.step (.leave channel session)).Sound := by
  have kept := sound.registry.leave channel session
  have left := run.registry.joined_leave channel session
  have count := run.registry.joinReferences_leave channel session
  refine ⟨kept, fun other guest => ?_, ?_,
    (run.registry.ceiling_leave channel session).trans sound.ceiling⟩
  · simp only [SubscriptionRun.step, SubscriptionRegistry.perform, notePairs, Finset.mem_erase,
      sound.joined, left]
    by_cases same : channel = other
    · subst same
      simp
    · rw [if_neg same]
      simp [Ne.symm same]
  · simp only [SubscriptionRun.step, SubscriptionRegistry.perform, notePairs]
    by_cases member : session ∈ run.registry.joined channel
    · have held := (sound.joined channel session).mpr member
      rw [← Finset.card_erase_add_one member] at count
      have fewer := Finset.card_erase_add_one held
      rw [← sound.references] at fewer
      omega
    · have absent := mt (sound.joined channel session).mp member
      rw [Finset.erase_eq_of_notMem member] at count
      rw [Finset.erase_eq_of_notMem absent, ← sound.references]
      omega

theorem Sound.of_joins (sound : run.Sound) {registry : SubscriptionRegistry}
    (kept : registry.Sound) (same : registry.joins = run.registry.joins) :
    Sound ⟨registry, run.pairs, registry.ceiling⟩ := by
  refine ⟨kept, fun channel session => ?_, ?_, rfl⟩
  · rw [SubscriptionRegistry.joined, same]
    exact sound.joined channel session
  · rw [SubscriptionRegistry.joinReferences, same]
    exact sound.references

theorem Sound.step (sound : run.Sound) (call : SubscriptionCall) : (run.step call).Sound := by
  have kept := sound.registry.perform call
  cases call with
  | join channel session => exact sound.join channel session
  | leave channel session => exact sound.leave channel session
  | configure desired ceiling =>
    simp only [SubscriptionRun.step, notePairs, noteCeiling, SubscriptionRegistry.perform] at kept ⊢
    rcases run.registry.configure_cases desired ceiling with ⟨_, answer⟩ | ⟨answer, -⟩
    · rw [answer]
      exact sound
    · rw [answer] at kept ⊢
      exact sound.of_joins kept rfl
  | setDesired desired =>
    simp only [SubscriptionRun.step, notePairs, noteCeiling, SubscriptionRegistry.perform] at kept ⊢
    rw [← sound.ceiling]
    rcases run.registry.setDesired_cases desired with ⟨answer, -⟩ | ⟨answer, -⟩
    · rw [answer] at kept ⊢
      exact sound.of_joins kept rfl
    · rw [answer] at kept ⊢
      exact sound.of_joins kept rfl

theorem after_sound (calls : List SubscriptionCall) : (after calls).Sound := by
  induction calls using List.reverseRecOn with
  | nil => exact sound_start
  | append_singleton calls call ih =>
    rw [after, List.foldl_append]
    exact ih.step call

/-- Whatever was asked before, the ceiling in force is that of the last accepted configuration,
the registry stays below it and counts every join once; a refusal changes nothing. -/
theorem subscription_ceilings_hold (calls : List SubscriptionCall) :
    let registry := (after calls).registry
    registry.subscriptions = (registry.channels ∪ registry.desired).card ∧
      registry.subscriptions ≤ registry.ceiling ∧ registry.ceiling = (after calls).ceiling ∧
      (∀ (channel : ChannelId) sessions, registry.joins[channel]? = some sessions →
        sessions.Nonempty ∧ sessions.card ≤ maxSessionsPerChannel) ∧
      (∀ call denial, (registry.perform call).2 = .error denial →
        (registry.perform call).1 = registry) ∧
      (∀ desired ⊆ registry.desired, (registry.setDesired desired).2 = .ok ()) ∧
      (∀ channel session, session ∈ registry.joined channel →
        registry.join channel session = (registry, .ok ())) ∧
      registry.joinReferences = (after calls).pairs.card := by
  have sound := after_sound calls
  refine ⟨SubscriptionRegistry.subscriptions_eq _, ?_, sound.ceiling, sound.registry.crowds,
    fun _ _ refused => SubscriptionRegistry.perform_error refused,
    fun _ fewer => sound.registry.setDesired_subset fewer,
    fun _ _ held => SubscriptionRegistry.join_held held, sound.references⟩
  rw [SubscriptionRegistry.subscriptions_eq]
  exact sound.registry.within

end SubscriptionRun

end InterWeave
