import InterWeave.Runtime.PreAuthCore

/-!
The accounts of the pre-authentication gate: what a call can do to an entry, and from that
the ceilings, the pending sum and the attempts of each window over whole runs.
-/

namespace InterWeave

open Std (ExtTreeMap)
open OrderedMap Saturating

inductive SourceState.Renewed (window now : Nat) :
    Option SourceState → Option SourceState → Prop
  | same (entry : Option SourceState) : Renewed window now entry entry
  | dropped {state : SourceState} : state.isLiveAt now window = false →
      Renewed window now (some state) none
  | touched (entry : Option SourceState) :
      Renewed window now entry (some ((entry.getD {}).restartWindow now window))

namespace SourceState

variable {now : Nat} (state : SourceState)

theorem restartWindow_pending (now : Nat) :
    (state.restartWindow now window).pending = state.pending := by
  unfold restartWindow
  split <;> rfl

theorem restartWindow_twice (order : now ≤ later) :
    ((state.restartWindow now window).restartWindow later window).attemptsInWindow =
      (state.restartWindow later window).attemptsInWindow := by
  by_cases elapsed : add64 state.windowStartMs window ≤ now
  · simp only [restartWindow, ge_iff_le, elapsed, le_trans elapsed order, if_true]
    split <;> rfl
  · simp [restartWindow, elapsed]

theorem restartWindow_running (now : Nat) :
    (state.restartWindow now window).windowStartMs = now ∨
      now < add64 (state.restartWindow now window).windowStartMs window := by
  unfold restartWindow
  split
  · exact .inl rfl
  next running => exact .inr (not_le.mp running)

theorem dead_iff {state : SourceState} {window : Nat} :
    state.isLiveAt now window = false ↔
      state.pending = ∅ ∧ add64 state.windowStartMs window ≤ now := by
  simp [isLiveAt]

theorem Renewed.pending_eq (renewed : Renewed window now entry next) :
    (next.getD {}).pending = (entry.getD {}).pending := by
  cases renewed with
  | same => rfl
  | dropped dead => exact (dead_iff.mp dead).1.symm
  | touched => exact restartWindow_pending _ now

theorem Renewed.spent_eq (renewed : Renewed window now entry next) (order : now ≤ later) :
    ((next.getD {}).restartWindow later window).attemptsInWindow =
      ((entry.getD {}).restartWindow later window).attemptsInWindow := by
  cases renewed with
  | same => rfl
  | touched => exact restartWindow_twice _ order
  | dropped dead =>
    have elapsed := le_trans (dead_iff.mp dead).2 order
    simp only [Option.getD_none, Option.getD_some, restartWindow, ge_iff_le, elapsed, if_true]
    split <;> rfl

end SourceState

namespace PreAuthGate

def pendingCount (_ : String) (state : SourceState) : Nat := state.pending.size

def pendingSum (gate : PreAuthGate) : Nat := OrderedMap.total pendingCount gate.sources

structure SourcesRenewed (limits : PreAuthLimits) (now : Nat)
    (sources next : ExtTreeMap String SourceState) : Prop where
  entries : ∀ source : String,
    SourceState.Renewed limits.rateWindowMs now sources[source]? next[source]?
  size : sources.size ≤ limits.maxSources → next.size ≤ limits.maxSources
  sum : OrderedMap.total pendingCount next = OrderedMap.total pendingCount sources

structure Refreshed (now : Nat) (gate next : PreAuthGate) : Prop where
  limits : next.limits = gate.limits
  pendingTotal : next.pendingTotal = gate.pendingTotal
  nextId : next.nextId = gate.nextId
  global : next.globalWindowStartMs = gate.globalWindowStartMs ∧
      next.globalAttemptsInWindow = gate.globalAttemptsInWindow ∨
    next.globalWindowStartMs = (gate.restartGlobalWindow now).globalWindowStartMs ∧
      next.globalAttemptsInWindow = (gate.restartGlobalWindow now).globalAttemptsInWindow
  sources : SourcesRenewed gate.limits now gate.sources next.sources

section

variable {limits : PreAuthLimits} {now : Nat} {sources next : ExtTreeMap String SourceState}

theorem SourcesRenewed.refl : SourcesRenewed limits now sources sources :=
  ⟨fun source => .same sources[source]?, id, rfl⟩

theorem SourcesRenewed.touch (renewed : SourcesRenewed limits now sources next)
    (untouched : next[source]? = sources[source]?)
    (room : source ∈ next ∨ next.size < limits.maxSources) :
    SourcesRenewed limits now sources
      (next.insert source ((next[source]?.getD {}).restartWindow now limits.rateWindowMs)) where
  entries := by
    intro other
    rw [get_insert]
    split
    next same =>
      subst same
      rw [untouched]
      exact .touched _
    · exact renewed.entries other
  size := by
    intro bounded
    have before := renewed.size bounded
    rw [ExtTreeMap.size_insert]
    rcases room with present | room
    · rw [if_pos (ExtTreeMap.contains_iff_mem.mpr present)]
      exact before
    · split <;> omega
  sum := by
    rw [← renewed.sum]
    cases found : next[source]? with
    | none =>
      rw [total_insert_fresh _ _ found]
      simp [pendingCount, SourceState.restartWindow_pending]
    | some state =>
      exact total_replace pendingCount found
        (by simp [pendingCount, SourceState.restartWindow_pending])

end

theorem Refreshed.refl (now : Nat) (gate : PreAuthGate) : Refreshed now gate gate :=
  ⟨rfl, rfl, rfl, .inl ⟨rfl, rfl⟩, .refl⟩

section

variable (gate : PreAuthGate) (now : Nat)

theorem restartGlobalWindow_sources : (gate.restartGlobalWindow now).sources = gate.sources := by
  unfold restartGlobalWindow
  split <;> rfl

theorem restartGlobalWindow_limits : (gate.restartGlobalWindow now).limits = gate.limits := by
  unfold restartGlobalWindow
  split <;> rfl

theorem restartGlobalWindow_pendingTotal :
    (gate.restartGlobalWindow now).pendingTotal = gate.pendingTotal := by
  unfold restartGlobalWindow
  split <;> rfl

theorem restartGlobalWindow_nextId : (gate.restartGlobalWindow now).nextId = gate.nextId := by
  unfold restartGlobalWindow
  split <;> rfl

theorem restartGlobalWindow_running :
    (gate.restartGlobalWindow now).globalWindowStartMs = now ∨
      now < add64 (gate.restartGlobalWindow now).globalWindowStartMs
        gate.limits.rateWindowMs := by
  unfold restartGlobalWindow
  split
  · exact .inl rfl
  next running => exact .inr (not_le.mp running)

theorem Refreshed.of_sources (renewed : SourcesRenewed gate.limits now gate.sources next) :
    Refreshed now gate { gate.restartGlobalWindow now with sources := next } :=
  ⟨restartGlobalWindow_limits gate now, restartGlobalWindow_pendingTotal gate now,
    restartGlobalWindow_nextId gate now, .inr ⟨rfl, rfl⟩, renewed⟩

end

theorem Refreshed.globallySpent_eq (refreshed : Refreshed now gate next) (order : now ≤ later) :
    next.globallySpent later = gate.globallySpent later := by
  rcases refreshed.global with ⟨start, attempts⟩ | ⟨start, attempts⟩
  · simp only [globallySpent, restartGlobalWindow, refreshed.limits, start]
    split
    · rfl
    · exact attempts
  · by_cases elapsed :
        add64 gate.globalWindowStartMs gate.limits.rateWindowMs ≤ now
    · simp only [restartGlobalWindow, ge_iff_le, elapsed, if_true] at start attempts
      simp only [globallySpent, restartGlobalWindow, refreshed.limits, start, ge_iff_le,
        le_trans elapsed order, if_true]
      split
      · rfl
      · exact attempts
    · simp only [restartGlobalWindow, ge_iff_le, elapsed, if_false] at start attempts
      simp only [globallySpent, restartGlobalWindow, refreshed.limits, start]
      split
      · rfl
      · exact attempts

structure Chargeable (now : Nat) (gate next : PreAuthGate) (source : String)
    (state : SourceState) : Prop extends Refreshed now gate next where
  held : next.sources[source]? = some state
  totalRoom : next.pendingTotal < gate.limits.maxPendingTotal
  pendingRoom : state.pending.size < gate.limits.maxPendingPerSource
  room : state.attemptsInWindow < gate.limits.maxAttemptsPerWindow
  globalRoom : next.globalAttemptsInWindow < gate.limits.maxGlobalAttemptsPerWindow
  running : state.windowStartMs = now ∨
    now < add64 state.windowStartMs gate.limits.rateWindowMs
  globalRunning : next.globalWindowStartMs = now ∨
    now < add64 next.globalWindowStartMs gate.limits.rateWindowMs

inductive AdmitExit (gate : PreAuthGate) (source : String) (now : Nat) :
    PreAuthGate × Except PreAuthDenial HandshakeSlot → Prop
  | refused {next : PreAuthGate} (denial : PreAuthDenial) : Refreshed now gate next →
      AdmitExit gate source now (next, .error denial)
  | admitted {next : PreAuthGate} {state : SourceState} :
      Chargeable now gate next source state →
      AdmitExit gate source now (next.charged source state now, .ok ⟨source, next.nextId, now⟩)

theorem makeRoomForSource_renewed (gate : PreAuthGate) (now : Nat) {source : String}
    (untracked : source ∉ gate.sources) :
    ∃ next, (gate.makeRoomForSource now).1 = { gate with sources := next } ∧
      SourcesRenewed gate.limits now gate.sources next ∧ next[source]? = none ∧
      ((gate.makeRoomForSource now).2 = true → gate.sources.size ≤ gate.limits.maxSources →
        next.size < gate.limits.maxSources) := by
  have absent := (notMem_iff_get gate.sources source).mp untracked
  unfold makeRoomForSource
  split
  next room => exact ⟨gate.sources, rfl, .refl, absent, fun _ _ => room⟩
  next full =>
    split
    next victim settled =>
      have member := Extremum.minByKey_mem settled
      simp only [List.mem_filter, Bool.not_eq_true'] at member
      have found : gate.sources[victim.1]? = some victim.2 :=
        ExtTreeMap.mem_toList_iff_getElem?_eq_some.mp member.1
      have empty := (SourceState.dead_iff.mp member.2).1
      refine ⟨gate.sources.erase victim.1, rfl, ⟨fun other => ?_, fun bounded => ?_, ?_⟩, ?_,
        fun _ bounded => ?_⟩
      · rw [get_erase]
        split
        next same =>
          rw [← same, found]
          exact .dropped member.2
        · exact .same _
      · exact le_trans ExtTreeMap.size_erase_le bounded
      · rw [total_of_get pendingCount found]
        simp [pendingCount, empty]
      · rw [get_erase]
        split
        · rfl
        · exact absent
      · exact lt_of_lt_of_le
          (size_erase_lt ((mem_iff_get _ _).mpr ⟨_, found⟩)) bounded
    · exact ⟨gate.sources, rfl, .refl, absent, nofun⟩

theorem chargeSource_exit (gate : PreAuthGate) {sources : ExtTreeMap String SourceState}
    (renewed : SourcesRenewed gate.limits now gate.sources sources)
    (untouched : sources[source]? = gate.sources[source]?)
    (room : source ∈ sources ∨ sources.size < gate.limits.maxSources)
    (totalRoom : gate.pendingTotal < gate.limits.maxPendingTotal)
    (globalRoom : (gate.restartGlobalWindow now).globalAttemptsInWindow <
      gate.limits.maxGlobalAttemptsPerWindow) :
    AdmitExit gate source now
      ({ gate.restartGlobalWindow now with sources := sources }.chargeSource source now) := by
  have unchanged := Refreshed.of_sources gate now renewed
  have touched := Refreshed.of_sources gate now (renewed.touch untouched room)
  have sameLimits := restartGlobalWindow_limits gate now
  have sameTotal := restartGlobalWindow_pendingTotal gate now
  have running := restartGlobalWindow_running gate now
  generalize gate.restartGlobalWindow now = looked at *
  rcases looked with ⟨limits, _, total, _, _, _, _⟩
  simp only at sameLimits sameTotal
  subst limits total
  unfold chargeSource
  simp only
  split
  next full =>
    refine .refused _ ?_
    cases found : sources[source]? with
    | none =>
      rw [found] at full
      have positive := gate.limits.pendingPerSource.1
      simp at full
      omega
    | some state =>
      rw [Option.getD_some, insert_of_get found]
      exact unchanged
  next pendingRoom =>
    split
    · exact .refused _ touched
    next attemptsRoom =>
      have held := ExtTreeMap.getElem?_insert_self (t := sources) (k := source)
        (v := (sources[source]?.getD {}).restartWindow now gate.limits.rateWindowMs)
      have exit := AdmitExit.admitted ⟨touched, held, totalRoom,
        by simpa [SourceState.restartWindow_pending] using pendingRoom,
        not_le.mp attemptsRoom, globalRoom, SourceState.restartWindow_running _ now, running⟩
      simpa only [charged, insert_insert] using exit

theorem admitHandshake_exit (text : Ip.Text) (gate : PreAuthGate) (source : String) (now : Nat)
    (bounded : gate.sources.size ≤ gate.limits.maxSources) :
    AdmitExit gate (sourceBucket text source) now (gate.admitHandshake text source now) := by
  have restarted : gate.restartGlobalWindow now =
      { gate.restartGlobalWindow now with sources := gate.sources } := by
    rw [← restartGlobalWindow_sources gate now]
  unfold admitHandshake
  simp only
  split
  · exact .refused _ (.refl now gate)
  · split
    · exact .refused _ (.refl now gate)
    · split
      · exact .refused _ (.refl now gate)
      next totalRoom =>
        split
        · rw [restarted]
          exact .refused _ (.of_sources gate now .refl)
        next globalRoom =>
          rw [restartGlobalWindow_limits, not_le] at globalRoom
          split
          next tracked =>
            rw [restartGlobalWindow_sources] at tracked
            rw [restarted]
            exact chargeSource_exit gate .refl rfl (.inl tracked) (not_le.mp totalRoom)
              globalRoom
          next untracked =>
            obtain ⟨next, gateEq, renewed, absent, room⟩ :=
              makeRoomForSource_renewed (gate.restartGlobalWindow now) now untracked
            rw [restartGlobalWindow_sources, restartGlobalWindow_limits] at renewed room
            rw [restartGlobalWindow_sources] at untracked
            split
            next made answer =>
              rw [answer] at gateEq
              simp only at gateEq
              subst gateEq
              exact .refused _ (.of_sources gate now renewed)
            next made answer =>
              rw [answer] at gateEq room
              simp only at gateEq
              subst gateEq
              refine chargeSource_exit gate renewed ?_ (.inr (room rfl bounded))
                (not_le.mp totalRoom) globalRoom
              rw [absent, (notMem_iff_get _ _).mp untracked]

structure Bounded (gate : PreAuthGate) : Prop where
  total : gate.pendingTotal ≤ gate.limits.maxPendingTotal
  perSource : ∀ source : String, (gate.pendingOf source).size ≤ gate.limits.maxPendingPerSource
  tracked : gate.sources.size ≤ gate.limits.maxSources

section

variable {now : Nat} {gate next : PreAuthGate} {source : String} {state : SourceState}

theorem Refreshed.pendingOf_eq (refreshed : Refreshed now gate next) (source : String) :
    next.pendingOf source = gate.pendingOf source :=
  (refreshed.sources.entries source).pending_eq

theorem Refreshed.spentBy_eq (refreshed : Refreshed now gate next) (source : String)
    (order : now ≤ later) : next.spentBy source later = gate.spentBy source later := by
  unfold spentBy
  rw [refreshed.limits]
  exact (refreshed.sources.entries source).spent_eq order

theorem pendingOf_of_get (held : gate.sources[source]? = some state) :
    gate.pendingOf source = state.pending := by
  simp [pendingOf, held]

theorem charged_pendingOf (gate : PreAuthGate) (state : SourceState) (now : Nat) :
    (gate.charged source state now).pendingOf other =
      if source = other then state.pending.insert gate.nextId now else gate.pendingOf other := by
  simp only [pendingOf, charged, get_insert]
  split <;> rfl

theorem Bounded.refreshed (bounded : Bounded gate) (refreshed : Refreshed now gate next) :
    Bounded next := by
  refine ⟨?_, fun source => ?_, ?_⟩
  · rw [refreshed.limits, refreshed.pendingTotal]
    exact bounded.total
  · rw [refreshed.limits, refreshed.pendingOf_eq]
    exact bounded.perSource source
  · rw [refreshed.limits]
    exact refreshed.sources.size bounded.tracked

theorem Bounded.charged (bounded : Bounded gate)
    (chargeable : Chargeable now gate next source state) :
    Bounded (next.charged source state now) := by
  have before := bounded.refreshed chargeable.toRefreshed
  have sameLimits : (next.charged source state now).limits = gate.limits := chargeable.limits
  refine ⟨?_, fun other => ?_, ?_⟩
  · rw [sameLimits]
    exact le_trans (Nat.min_le_left _ _) chargeable.totalRoom
  · rw [sameLimits, charged_pendingOf]
    split
    · exact le_trans ExtTreeMap.size_insert_le chargeable.pendingRoom
    · have others := before.perSource other
      rwa [chargeable.limits] at others
  · have present : source ∈ next.sources :=
      (mem_iff_get next.sources source).mpr ⟨state, chargeable.held⟩
    simp only [PreAuthGate.charged, ExtTreeMap.size_insert,
      if_pos (ExtTreeMap.contains_iff_mem.mpr present)]
    exact before.tracked

end

theorem completed_cases (gate : PreAuthGate) (slot : HandshakeSlot) :
    gate.completed slot = gate ∨
      ∃ state, gate.sources[slot.source]? = some state ∧ slot.id ∈ state.pending ∧
        gate.completed slot = { gate with
          sources := gate.sources.insert slot.source
            { state with pending := state.pending.erase slot.id }
          pendingTotal := gate.pendingTotal - 1 } := by
  unfold completed
  split
  · exact .inl rfl
  next state found =>
    split
    next held => exact .inr ⟨state, found, held, rfl⟩
    · exact .inl rfl

theorem completed_pendingOf (gate : PreAuthGate) :
    (gate.completed slot).pendingOf source = gate.pendingOf source ∨
      (gate.completed slot).pendingOf source = (gate.pendingOf source).erase slot.id := by
  rcases completed_cases gate slot with same | ⟨state, found, -, after⟩
  · rw [same]
    exact .inl rfl
  · rw [after]
    simp only [pendingOf, get_insert]
    split
    next same =>
      subst same
      rw [found]
      exact .inr rfl
    · exact .inl rfl

theorem Bounded.completed (bounded : Bounded gate) (slot : HandshakeSlot) :
    Bounded (gate.completed slot) := by
  have sameLimits : (gate.completed slot).limits = gate.limits := by
    rcases completed_cases gate slot with same | ⟨state, -, -, after⟩
    · rw [same]
    · rw [after]
  refine ⟨?_, fun source => ?_, ?_⟩
  · rw [sameLimits]
    rcases completed_cases gate slot with same | ⟨state, -, -, after⟩
    · rw [same]
      exact bounded.total
    · rw [after]
      exact le_trans (Nat.sub_le _ _) bounded.total
  · rw [sameLimits]
    rcases completed_pendingOf gate with same | erased
    · rw [same]
      exact bounded.perSource source
    · rw [erased]
      exact le_trans ExtTreeMap.size_erase_le (bounded.perSource source)
  · rw [sameLimits]
    rcases completed_cases gate slot with same | ⟨state, found, -, after⟩
    · rw [same]
      exact bounded.tracked
    · have present : slot.source ∈ gate.sources :=
        (mem_iff_get gate.sources slot.source).mpr ⟨state, found⟩
      rw [after]
      simp only [ExtTreeMap.size_insert, if_pos (ExtTreeMap.contains_iff_mem.mpr present)]
      exact bounded.tracked

theorem Bounded.new (limits : PreAuthLimits) : Bounded (.new limits) :=
  ⟨Nat.zero_le _, by simp [PreAuthGate.new, pendingOf], by simp [PreAuthGate.new]⟩

end PreAuthGate

namespace PreAuthRun

open PreAuthGate

variable {text : Ip.Text} {run : PreAuthRun} {source : String} {now : Nat}

variable {next : PreAuthGate} (last : Nat)

theorem step_handshake (bounded : Bounded run.gate) {motive : PreAuthRun → Prop}
    (refused : ∀ next, Refreshed now run.gate next → motive { run with gate := next })
    (admitted : ∀ next state, Chargeable now run.gate next (sourceBucket text source) state →
      motive ⟨next.charged (sourceBucket text source) state now,
        ⟨sourceBucket text source, now, state.windowStartMs, next.globalWindowStartMs⟩ ::
          run.admitted⟩) :
    motive (run.step text (.handshake source now)) := by
  have exit := admitHandshake_exit text run.gate source now bounded.tracked
  simp only [step]
  generalize run.gate.admitHandshake text source now = answer at exit ⊢
  cases exit with
  | refused denial refreshed => exact refused _ refreshed
  | admitted chargeable =>
    have result := admitted _ _ chargeable
    simpa [PreAuthGate.charged] using result

theorem step_bounded (bounded : Bounded run.gate) : Bounded (run.step text call).gate := by
  cases call with
  | handshake source now =>
    exact step_handshake (motive := fun after => Bounded after.gate) bounded
      (fun next refreshed => bounded.refreshed refreshed)
      (fun next state chargeable => bounded.charged chargeable)
  | completed slot => exact bounded.completed slot
  | setShuttingDown draining => exact ⟨bounded.total, bounded.perSource, bounded.tracked⟩

theorem runCalls_bounded {text : Ip.Text} {limits : PreAuthLimits} :
    Bounded (runCalls text limits calls).gate :=
  List.foldlRecOn calls (motive := fun run => Bounded run.gate) (step text) (.new limits)
    fun _ bounded _ _ => step_bounded bounded

structure Counted (run : PreAuthRun) : Prop where
  nextId : run.gate.nextId = min run.admitted.length u64Max
  ids : ∀ (source : String) (id : Nat), id ∈ run.gate.pendingOf source → id < run.admitted.length
  sum : run.gate.pendingTotal = run.gate.pendingSum

theorem Counted.refreshed (counted : Counted run) (refreshed : Refreshed now run.gate next) :
    Counted { run with gate := next } := by
  refine ⟨?_, fun source id member => ?_, ?_⟩
  · rw [refreshed.nextId]
    exact counted.nextId
  · rw [refreshed.pendingOf_eq] at member
    exact counted.ids source id member
  · rw [refreshed.pendingTotal, counted.sum]
    exact refreshed.sources.sum.symm

theorem Counted.charged (counted : Counted run) {state : SourceState}
    (chargeable : Chargeable now run.gate next source state)
    (fresh : run.admitted.length < 2 ^ 64) (admission : HandshakeAdmission) :
    Counted ⟨next.charged source state now, admission :: run.admitted⟩ := by
  have before := counted.refreshed chargeable.toRefreshed
  have ids : ∀ id ∈ state.pending, id < run.admitted.length := by
    intro id member
    rw [← pendingOf_of_get chargeable.held] at member
    exact before.ids source id member
  have nextId : next.nextId = run.admitted.length := by
    have nextId := before.nextId
    simp only [u64Max] at nextId
    omega
  have unused : next.nextId ∉ state.pending := by
    intro member
    have small := ids _ member
    omega
  refine ⟨?_, fun other id member => ?_, ?_⟩
  · simp [PreAuthGate.charged, nextId, add64]
  · rw [charged_pendingOf] at member
    split at member
    · rcases (mem_insert _ _ _ _).mp member with rfl | held
      · simp only [List.length_cons]
        omega
      · exact Nat.lt_succ_of_lt (ids id held)
    · exact Nat.lt_succ_of_lt (before.ids other id member)
  · have total := before.sum
    have limit := run.gate.limits.pendingTotal.2
    have room := chargeable.totalRoom
    simp only [PreAuthGate.pendingSum, PreAuthGate.charged, add64, u64Max,
      maxConfiguredLimit, total_insert, pendingCount] at total limit room ⊢
    rw [total_of_get pendingCount chargeable.held, pendingCount] at total
    rw [ExtTreeMap.size_insert, if_neg (by simpa using unused)]
    omega

theorem Counted.completed (counted : Counted run) (slot : HandshakeSlot) :
    Counted { run with gate := run.gate.completed slot } := by
  refine ⟨?_, fun source id member => ?_, ?_⟩
  · rcases completed_cases run.gate slot with same | ⟨state, -, -, after⟩
    · rw [same]
      exact counted.nextId
    · rw [after]
      exact counted.nextId
  · apply counted.ids source id
    rcases completed_pendingOf run.gate with same | erased
    · rwa [same] at member
    · rw [erased] at member
      exact ((mem_erase _ _ _).mp member).2
  · rcases completed_cases run.gate slot with same | ⟨state, found, held, after⟩
    · rw [same]
      exact counted.sum
    · have total := counted.sum
      have fewer := size_erase_lt held
      have size := ExtTreeMap.size_erase (t := state.pending) (k := slot.id)
      rw [if_pos (ExtTreeMap.contains_iff_mem.mpr held)] at size
      rw [after]
      simp only [PreAuthGate.pendingSum, total_insert, pendingCount] at total ⊢
      rw [total_of_get pendingCount found, pendingCount] at total
      omega

theorem step_admitted_length : run.admitted.length ≤ (run.step text call).admitted.length := by
  cases call with
  | handshake source now =>
    simp only [step]
    split
    · exact le_rfl
    · exact Nat.le_succ _
  | completed | setShuttingDown => exact le_rfl

theorem step_counted (bounded : Bounded run.gate) (counted : Counted run)
    (few : (run.step text call).admitted.length ≤ 2 ^ 64) : Counted (run.step text call) := by
  cases call with
  | handshake source now =>
    revert few
    refine step_handshake
      (motive := fun after => after.admitted.length ≤ 2 ^ 64 → Counted after) bounded
      (fun next refreshed _ => counted.refreshed refreshed)
      (fun next state chargeable few => counted.charged chargeable few _)
  | completed slot => exact counted.completed slot
  | setShuttingDown draining => exact ⟨counted.nextId, counted.ids, counted.sum⟩

theorem runCalls_append {text : Ip.Text} {limits : PreAuthLimits} :
    runCalls text limits (calls ++ [call]) = (runCalls text limits calls).step text call := by
  simp [runCalls]

theorem runCalls_counted {text : Ip.Text} {limits : PreAuthLimits}
    (few : (runCalls text limits calls).admitted.length ≤ 2 ^ 64) :
    Counted (runCalls text limits calls) := by
  induction calls using List.reverseRecOn with
  | nil =>
    exact ⟨rfl, by simp [runCalls, PreAuthGate.new, PreAuthGate.pendingOf],
      by simp [runCalls, PreAuthGate.new, PreAuthGate.pendingSum]⟩
  | append_singleton calls call ih =>
    rw [runCalls_append] at few ⊢
    exact step_counted runCalls_bounded
      (ih (le_trans step_admitted_length few)) few

def Charged (limits : PreAuthLimits) (latest : Nat) (log : List FixedWindow.Charge) :
    Option SourceState → Prop
  | some state => state.windowStartMs ≤ latest ∧
      FixedWindow.Opened limits.rateWindowMs limits.maxAttemptsPerWindow state.windowStartMs
        state.attemptsInWindow log
  | none => FixedWindow.Elapsed limits.rateWindowMs limits.maxAttemptsPerWindow latest log

section

variable {limits : PreAuthLimits} {latest : Nat} {log : List FixedWindow.Charge}
  {entry next : Option SourceState}

theorem Charged.kept (charged : Charged limits latest log entry) :
    FixedWindow.Kept limits.rateWindowMs limits.maxAttemptsPerWindow log := by
  cases entry with
  | none => exact charged.toKept
  | some state => exact charged.2.toKept

theorem Charged.mono (charged : Charged limits latest log entry) {later : Nat}
    (order : latest ≤ later) : Charged limits later log entry := by
  cases entry with
  | none => exact FixedWindow.Elapsed.mono charged order
  | some state => exact ⟨le_trans charged.1 order, charged.2⟩

theorem Charged.touched (charged : Charged limits now log entry) (early : now < u64Max) :
    Charged limits now log
      (some ((entry.getD {}).restartWindow now limits.rateWindowMs)) := by
  have positive := limits.rateWindow.1
  cases entry with
  | none =>
    simp only [Option.getD_none, SourceState.restartWindow, ge_iff_le,
      add64_le_iff early, Nat.zero_add]
    split
    · exact ⟨le_rfl, FixedWindow.Elapsed.restart charged positive⟩
    next running =>
      rw [FixedWindow.Elapsed.eq_nil charged (not_le.mp running)]
      exact ⟨Nat.zero_le now, .nil⟩
  | some state =>
    simp only [Option.getD_some, SourceState.restartWindow, ge_iff_le,
      add64_le_iff early]
    split
    next elapsed => exact ⟨le_rfl, (charged.2.elapse elapsed).restart positive⟩
    · exact charged

theorem Charged.renewed (charged : Charged limits latest log entry) (order : latest ≤ now)
    (early : now < u64Max)
    (renewed : SourceState.Renewed limits.rateWindowMs now entry next) :
    Charged limits now log next := by
  cases renewed with
  | same => exact charged.mono order
  | dropped dead =>
    refine (charged.mono order).2.elapse ?_
    exact (add64_le_iff early _ _).mp (SourceState.dead_iff.mp dead).2
  | touched => exact (charged.mono order).touched early

theorem running_iff (early : now < u64Max)
    (running : start = now ∨ now < add64 start limits.rateWindowMs) :
    now < start + limits.rateWindowMs := by
  have positive := limits.rateWindow.1
  rcases running with rfl | running
  · omega
  · by_contra elapsed
    have past := (add64_le_iff early start limits.rateWindowMs).mpr (not_lt.mp elapsed)
    omega

end

structure Windows (run : PreAuthRun) (latest : Nat) : Prop where
  globalStart : run.gate.globalWindowStartMs ≤ latest
  global : FixedWindow.Opened run.gate.limits.rateWindowMs
    run.gate.limits.maxGlobalAttemptsPerWindow run.gate.globalWindowStartMs
    run.gate.globalAttemptsInWindow run.globalCharges
  entries : ∀ source : String,
    Charged run.gate.limits latest (run.sourceCharges source) run.gate.sources[source]?

theorem sourceCharges_cons (gate : PreAuthGate) (admission : HandshakeAdmission)
    {admitted : List HandshakeAdmission} {source : String} :
    sourceCharges ⟨gate, admission :: admitted⟩ source =
      if admission.source = source then
        ⟨admission.time, admission.sourceWindow⟩ :: sourceCharges ⟨gate, admitted⟩ source
      else sourceCharges ⟨gate, admitted⟩ source := by
  unfold sourceCharges
  by_cases same : admission.source = source <;> simp [same]

theorem Windows.mono (windows : Windows run latest) (order : latest ≤ later) : Windows run later :=
  ⟨le_trans windows.globalStart order, windows.global,
    fun source => (windows.entries source).mono order⟩

theorem Windows.refreshed (windows : Windows run latest) (order : latest ≤ now)
    (early : now < u64Max) (refreshed : Refreshed now run.gate next) :
    Windows { run with gate := next } now := by
  have unchanged := windows.mono order
  have restarted : (run.gate.restartGlobalWindow now).globalWindowStartMs ≤ now ∧
      FixedWindow.Opened run.gate.limits.rateWindowMs
        run.gate.limits.maxGlobalAttemptsPerWindow
        (run.gate.restartGlobalWindow now).globalWindowStartMs
        (run.gate.restartGlobalWindow now).globalAttemptsInWindow run.globalCharges := by
    simp only [restartGlobalWindow, ge_iff_le, add64_le_iff early]
    split
    next elapsed =>
      exact ⟨le_rfl, (windows.global.elapse elapsed).restart run.gate.limits.rateWindow.1⟩
    · exact ⟨unchanged.globalStart, unchanged.global⟩
  refine ⟨?_, ?_, fun source => ?_⟩
  · rcases refreshed.global with ⟨start, -⟩ | ⟨start, -⟩
    · rw [start]
      exact unchanged.globalStart
    · rw [start]
      exact restarted.1
  · rw [refreshed.limits]
    rcases refreshed.global with ⟨start, attempts⟩ | ⟨start, attempts⟩
    · rw [start, attempts]
      exact unchanged.global
    · rw [start, attempts]
      exact restarted.2
  · rw [refreshed.limits]
    exact (windows.entries source).renewed order early (refreshed.sources.entries source)

theorem Windows.charged (windows : Windows run latest) (order : latest ≤ now)
    (early : now < u64Max) (chargeable : Chargeable now run.gate next source state) :
    Windows ⟨next.charged source state now,
      ⟨source, now, state.windowStartMs, next.globalWindowStartMs⟩ :: run.admitted⟩ now := by
  have before := windows.refreshed order early chargeable.toRefreshed
  have limits := chargeable.limits
  have spend : ∀ attempts most, attempts < most → most ≤ maxConfiguredAttempts →
      add32 attempts 1 = attempts + 1 := by
    intro attempts most room small
    unfold maxConfiguredAttempts at small
    unfold add32 u32Max
    omega
  refine ⟨before.globalStart, ?_, fun other => ?_⟩
  · have opened := before.global
    simp only [limits] at opened
    simp only [PreAuthGate.charged, limits,
      spend _ _ chargeable.globalRoom run.gate.limits.globalAttempts.2]
    exact opened.charge before.globalStart (running_iff early chargeable.globalRunning)
      chargeable.globalRoom
  · have entries := before.entries other
    simp only [limits] at entries
    simp only [PreAuthGate.charged, limits, get_insert, sourceCharges_cons]
    split
    next same =>
      subst same
      rw [chargeable.held] at entries
      refine ⟨entries.1, ?_⟩
      simp only [spend _ _ chargeable.room run.gate.limits.attempts.2]
      exact entries.2.charge entries.1 (running_iff early chargeable.running) chargeable.room
    · exact entries

theorem step_windows (bounded : Bounded run.gate) (windows : Windows run latest)
    (order : latest ≤ now) (early : now < u64Max) :
    Windows (run.step text (.handshake source now)) now :=
  step_handshake (motive := fun after => Windows after now) bounded
    (fun _ refreshed => windows.refreshed order early refreshed)
    (fun _ _ chargeable => windows.charged order early chargeable)

theorem Windows.completed (windows : Windows run latest) (slot : HandshakeSlot) :
    Windows { run with gate := run.gate.completed slot } latest := by
  rcases completed_cases run.gate slot with same | ⟨state, found, -, after⟩
  · rw [same]
    exact windows
  · rw [after]
    refine ⟨windows.globalStart, windows.global, fun source => ?_⟩
    have entries := windows.entries source
    simp only [get_insert]
    split
    next same =>
      subst same
      rw [found] at entries
      exact entries
    · exact entries

theorem runCalls_windows {text : Ip.Text} {limits : PreAuthLimits}
    (ordered : (callTimes calls).Pairwise (· ≤ ·)) (early : ∀ time ∈ callTimes calls, time < u64Max)
    (seen : ∀ time ∈ callTimes calls, time ≤ latest) :
    Windows (runCalls text limits calls) latest := by
  induction calls using List.reverseRecOn generalizing latest with
  | nil =>
    refine ⟨Nat.zero_le latest, .nil, fun source => ?_⟩
    simp only [runCalls, PreAuthGate.new, sourceCharges, List.foldl_nil,
      ExtTreeMap.getElem?_empty]
    exact .nil
  | append_singleton calls call ih =>
    simp only [callTimes, List.filterMap_append, List.pairwise_append, List.mem_append,
      List.mem_filterMap] at ordered early seen ih
    rw [runCalls_append]
    cases call with
    | handshake source now =>
      have times : ∀ time ∈ callTimes calls, time ≤ now := by
        intro time member
        exact ordered.2.2 time (List.mem_filterMap.mp member) now
          ⟨_, List.mem_singleton_self _, rfl⟩
      have here := ih ordered.1 (fun time earlier => early time (.inl earlier))
        (fun time earlier => times time (List.mem_filterMap.mpr earlier))
      exact (step_windows runCalls_bounded here le_rfl
        (early now (.inr ⟨_, List.mem_singleton_self _, rfl⟩))).mono
        (seen now (.inr ⟨_, List.mem_singleton_self _, rfl⟩))
    | completed slot =>
      exact (ih ordered.1 (fun time earlier => early time (.inl earlier))
        (fun time earlier => seen time (.inl earlier))).completed slot
    | setShuttingDown draining =>
      have here := ih ordered.1 (fun time earlier => early time (.inl earlier))
        (fun time earlier => seen time (.inl earlier))
      exact ⟨here.globalStart, here.global, here.entries⟩

theorem step_limits (bounded : Bounded run.gate) :
    (run.step text call).gate.limits = run.gate.limits := by
  cases call with
  | handshake source now =>
    exact step_handshake (motive := fun after => after.gate.limits = run.gate.limits) bounded
      (fun _ refreshed => refreshed.limits) (fun _ _ chargeable => chargeable.limits)
  | completed slot =>
    rcases completed_cases run.gate slot with same | ⟨_, -, -, after⟩
    · simp only [step, same]
    · simp only [step, after]
  | setShuttingDown draining => rfl

theorem runCalls_limits {text : Ip.Text} {limits : PreAuthLimits} :
    (runCalls text limits calls).gate.limits = limits := by
  induction calls using List.reverseRecOn with
  | nil => rfl
  | append_singleton calls call ih =>
    rw [runCalls_append, step_limits runCalls_bounded, ih]

open FixedWindow

/-- While the ids last the pending total is the sum, before the clock's last millisecond no
window is overspent, and always the ceilings hold and a refusal charges nothing. -/
theorem gate_accounting (text : Ip.Text) (limits : PreAuthLimits) (calls : List PreAuthCall)
    (ordered : (callTimes calls).Pairwise (· ≤ ·)) :
    let run := runCalls text limits calls
    (run.admitted.length ≤ 2 ^ 64 → run.gate.pendingTotal = run.gate.pendingSum) ∧
    run.gate.pendingTotal ≤ limits.maxPendingTotal ∧
    (∀ source : String, (run.gate.pendingOf source).size ≤ limits.maxPendingPerSource) ∧
    run.gate.sources.size ≤ limits.maxSources ∧
    ((∀ time ∈ callTimes calls, time < u64Max) →
      (∀ source : String,
        FixedWindow.Kept limits.rateWindowMs limits.maxAttemptsPerWindow
          (run.sourceCharges source) ∧
        ∀ charge ∈ run.sourceCharges source,
          within limits.rateWindowMs (run.sourceCharges source) charge.window ≤
            limits.maxAttemptsPerWindow) ∧
      FixedWindow.Kept limits.rateWindowMs limits.maxGlobalAttemptsPerWindow run.globalCharges ∧
      ∀ charge ∈ run.globalCharges,
        within limits.rateWindowMs run.globalCharges charge.window ≤
          limits.maxGlobalAttemptsPerWindow) ∧
    ∀ (source : String) (now : Nat) (denial : PreAuthDenial),
      (run.gate.admitHandshake text source now).2 = .error denial →
        (run.gate.admitHandshake text source now).1.pendingTotal = run.gate.pendingTotal ∧
        (∀ other : String, (run.gate.admitHandshake text source now).1.pendingOf other =
          run.gate.pendingOf other) ∧
        ∀ later, now ≤ later →
          (∀ other : String, (run.gate.admitHandshake text source now).1.spentBy other later =
            run.gate.spentBy other later) ∧
          (run.gate.admitHandshake text source now).1.globallySpent later =
            run.gate.globallySpent later := by
  intro run
  have sameLimits : run.gate.limits = limits := runCalls_limits
  have bounded : Bounded run.gate := runCalls_bounded
  refine ⟨fun few => (runCalls_counted few).sum, sameLimits ▸ bounded.total,
    fun source => sameLimits ▸ bounded.perSource source, sameLimits ▸ bounded.tracked,
    fun early => ?_, fun source now denial refused => ?_⟩
  · obtain ⟨latest, seen⟩ : ∃ latest, ∀ time ∈ callTimes calls, time ≤ latest :=
      ⟨_, fun time member => List.single_le_sum (fun _ _ => Nat.zero_le _) time member⟩
    have windows : Windows run latest := runCalls_windows ordered early seen
    have global := windows.global.toKept
    have sources := fun source : String => (windows.entries source).kept
    rw [sameLimits] at global sources
    exact ⟨fun source => ⟨sources source, fun _ member => (sources source).within_le member⟩,
      global, fun _ member => global.within_le member⟩
  · have exit := admitHandshake_exit text run.gate source now bounded.tracked
    generalize run.gate.admitHandshake text source now = answer at exit refused ⊢
    cases exit with
    | refused _ refreshed =>
      exact ⟨refreshed.pendingTotal, refreshed.pendingOf_eq, fun later order =>
        ⟨fun other => refreshed.spentBy_eq other order, refreshed.globallySpent_eq order⟩⟩
    | admitted _ => cases refused

def plainText : Ip.Text :=
  ⟨fun _ => none, fun _ => none, fun _ => none, fun _ => "", fun _ => ""⟩

def narrowLimits : PreAuthLimits where
  maxPendingTotal := 4
  maxPendingPerSource := 4
  handshakeTimeoutMs := 1
  maxSources := 1
  rateWindowMs := 1
  maxAttemptsPerWindow := 3
  maxGlobalAttemptsPerWindow := 3
  pendingTotal := by decide
  pendingPerSource := by decide
  sources := by decide
  handshakeTimeout := by decide
  rateWindow := by decide
  attempts := by decide
  globalAttempts := by decide
  pendingOrder := by decide
  attemptsOrder := by decide

theorem gate_accounting_sample :
    (callTimes [.handshake "left" 0, .handshake "right" 1]).Pairwise (· ≤ ·) ∧
    (runCalls plainText narrowLimits
      [.handshake "left" 0, .handshake "right" 1]).gate.sources.size ≤ 1 := by
  have ordered : (callTimes [.handshake "left" 0, .handshake "right" 1]).Pairwise (· ≤ ·) := by
    decide
  exact ⟨ordered, (gate_accounting plainText narrowLimits _ ordered).2.2.2.1⟩

def roundedGate (last : Nat) : PreAuthGate where
  limits := narrowLimits
  sources := (∅ : ExtTreeMap String SourceState).insert "left" ⟨∅, last, 1, last⟩
  pendingTotal := 0
  nextId := last + 1
  globalWindowStartMs := last
  globalAttemptsInWindow := 1
  shuttingDown := false

theorem step_handshake_gate (now : Nat) :
    (run.step text (.handshake source now)).gate =
      (run.gate.admitHandshake text source now).1 := by
  simp only [step]
  split
  next answer => rw [answer]
  next answer => rw [answer]

theorem step_completed_gate :
    (run.step text (.completed slot)).gate = run.gate.completed slot := rfl

theorem roundedGate_round (small : last + 2 ≤ u64Max) :
    ((roundedGate last).admitHandshake plainText "left" (last + 1)).1.completed
      ⟨"left", last + 1, last + 1⟩ = roundedGate (last + 1) := by
  have bucket : sourceBucket plainText "left" = "left" := rfl
  have size : ("left" : String).utf8ByteSize = 4 := by decide
  have elapsed : add64 last 1 ≤ last + 1 := Nat.min_le_left _ _
  have following : add64 (last + 1) 1 = last + 2 := Nat.min_eq_left small
  have first : add32 0 1 = 1 ∧ add64 0 1 = 1 := by decide
  simp [PreAuthGate.admitHandshake, bucket, size, roundedGate, narrowLimits, maxSourceBytes,
    restartGlobalWindow, elapsed, following, first, chargeSource, SourceState.restartWindow,
    PreAuthGate.charged, PreAuthGate.completed, insert_insert, erase_insert]

structure Rounds (last : Nat) (calls : List PreAuthCall) : Prop where
  ordered : (callTimes calls).Pairwise (· ≤ ·)
  early : ∀ time ∈ callTimes calls, time ≤ last

theorem Rounds.append {last : Nat} (rounds : Rounds last calls) (order : last ≤ later)
    (times : ∀ time ∈ callTimes more, time = later) : Rounds later (calls ++ more) := by
  have both : callTimes (calls ++ more) = callTimes calls ++ callTimes more :=
    List.filterMap_append
  constructor
  · rw [both, List.pairwise_append]
    refine ⟨rounds.ordered, List.pairwise_of_forall_mem_list fun first member second also => ?_,
      fun early before late now => ?_⟩
    · rw [times first member, times second also]
    · rw [times late now]
      exact (rounds.early early before).trans order
  · intro time member
    rw [both, List.mem_append] at member
    exact member.elim (fun before => (rounds.early time before).trans order)
      fun now => (times time now).le

theorem rounds_reach (small : last + 1 ≤ u64Max) : ∃ calls, Rounds last calls ∧
    (runCalls plainText narrowLimits calls).gate = roundedGate last := by
  induction last with
  | zero =>
    have bucket : sourceBucket plainText "left" = "left" := rfl
    have size : ("left" : String).utf8ByteSize = 4 := by decide
    have first : add32 0 1 = 1 ∧ add64 0 1 = 1 := by decide
    refine ⟨[.handshake "left" 0, .completed ⟨"left", 0, 0⟩], ⟨by decide, by decide⟩, ?_⟩
    simp [runCalls, step, PreAuthGate.new, makeRoomForSource, PreAuthGate.admitHandshake, bucket,
      size, roundedGate, narrowLimits, maxSourceBytes, restartGlobalWindow, first, chargeSource,
      SourceState.restartWindow, PreAuthGate.charged, PreAuthGate.completed, insert_insert,
      erase_insert]
  | succ last ih =>
    obtain ⟨calls, rounds, before⟩ := ih (by omega)
    refine ⟨calls ++ [.handshake "left" (last + 1), .completed ⟨"left", last + 1, last + 1⟩],
      rounds.append (Nat.le_succ last) (by simp [callTimes, PreAuthCall.time]), ?_⟩
    simp only [runCalls, List.foldl_append, List.foldl_cons, List.foldl_nil] at before ⊢
    rw [step_completed_gate, step_handshake_gate, before, roundedGate_round last small]

/-- The gate's counters stop at the end of their range. With the last id in use twice the
total is not the sum, and in the clock's last millisecond a window never fills. -/
theorem saturated_gate_miscounts :
    (∃ calls : List PreAuthCall, (callTimes calls).Pairwise (· ≤ ·) ∧
      (∀ time ∈ callTimes calls, time < u64Max) ∧
      (runCalls plainText narrowLimits calls).gate.pendingTotal ≠
        (runCalls plainText narrowLimits calls).gate.pendingSum) ∧
    ∃ calls : List PreAuthCall, (callTimes calls).Pairwise (· ≤ ·) ∧
      ∃ charge ∈ (runCalls plainText narrowLimits calls).sourceCharges "left",
        narrowLimits.maxAttemptsPerWindow < within narrowLimits.rateWindowMs
          ((runCalls plainText narrowLimits calls).sourceCharges "left") charge.window := by
  constructor
  · obtain ⟨last, top⟩ : ∃ last, last = u64Max - 1 := ⟨_, rfl⟩
    have small : last + 1 ≤ u64Max := by unfold u64Max at *; omega
    obtain ⟨calls, rounds, before⟩ := rounds_reach last small
    have late : Rounds last (calls ++ [.handshake "left" last, .handshake "left" last]) :=
      rounds.append le_rfl (by simp [callTimes, PreAuthCall.time])
    refine ⟨_, late.ordered, fun time member => lt_of_le_of_lt (late.early time member) small, ?_⟩
    simp only [runCalls, List.foldl_append, List.foldl_cons, List.foldl_nil] at before ⊢
    rw [step_handshake_gate, step_handshake_gate, before, top]
    decide +kernel
  · refine ⟨List.replicate 4 (.handshake "left" u64Max), by decide, ?_⟩
    refine ⟨⟨u64Max, u64Max⟩, ?_, ?_⟩
    · decide +kernel
    · decide +kernel

end PreAuthRun

end InterWeave
