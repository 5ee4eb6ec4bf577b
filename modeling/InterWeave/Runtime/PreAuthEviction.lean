import InterWeave.Runtime.PreAuth

/-!
Dropping idle sources of the pre-authentication gate. The gate answers as one with the same limits
and an unbounded table until it first lacks the capacity to account for a source; only the number
of sources it says it tracks tells the two apart.
-/

namespace InterWeave

open Std (ExtTreeMap)
open PreAuthRun (plainText narrowLimits)

inductive GateCall where
  | handshake (source : String) (now : Nat)
  | completed (slot : HandshakeSlot)
  | setShuttingDown (draining : Bool)
  | pending
  | trackedSources
  deriving DecidableEq

def GateCall.time : GateCall → Option Nat
  | .handshake _ now => some now
  | _ => none

inductive GateAnswer where
  | handshake (answer : Except PreAuthDenial HandshakeSlot)
  | done
  | count (number : Nat)
  deriving DecidableEq

namespace PreAuthGate

def admitUnbounded (text : Ip.Text) (gate : PreAuthGate) (source : String) (now : Nat) :
    PreAuthGate × Except PreAuthDenial HandshakeSlot :=
  let source := sourceBucket text source
  if gate.shuttingDown then (gate, .error .shuttingDown)
  else if source.utf8ByteSize = 0 ∨ source.utf8ByteSize > maxSourceBytes then
    (gate, .error .sourceNotAccountable)
  else if gate.pendingTotal ≥ gate.limits.maxPendingTotal then (gate, .error .tooManyPending)
  else
    let gate := gate.restartGlobalWindow now
    if gate.globalAttemptsInWindow ≥ gate.limits.maxGlobalAttemptsPerWindow then
      (gate, .error .globallyRateLimited)
    else gate.chargeSource source now

def perform (take : PreAuthGate → String → Nat → PreAuthGate × Except PreAuthDenial HandshakeSlot)
    (gate : PreAuthGate) : GateCall → PreAuthGate × GateAnswer
  | .handshake source now => ((take gate source now).1, .handshake (take gate source now).2)
  | .completed slot => (gate.completed slot, .done)
  | .setShuttingDown draining => ({ gate with shuttingDown := draining }, .done)
  | .pending => (gate, .count gate.pendingTotal)
  | .trackedSources => (gate, .count gate.sources.size)

def answers (take : PreAuthGate → String → Nat → PreAuthGate × Except PreAuthDenial HandshakeSlot)
    (gate : PreAuthGate) : List GateCall → List GateAnswer
  | [] => []
  | call :: rest => (gate.perform take call).2 :: (gate.perform take call).1.answers take rest

inductive Forgotten (window now : Nat) : Option SourceState → Option SourceState → Prop
  | same (entry : Option SourceState) : Forgotten window now entry entry
  | idle {state : SourceState} : state.isLiveAt now window = false →
      Forgotten window now none (some state)

def Forgets (now : Nat) (gate free : PreAuthGate) : Prop :=
  ∃ kept, free = { gate with sources := kept } ∧ ∀ source : String,
    Forgotten gate.limits.rateWindowMs now gate.sources[source]? kept[source]?

variable {now later : Nat} {gate free : PreAuthGate} {source : String} {text : Ip.Text}

theorem Forgotten.mono (forgotten : Forgotten window now entry kept) (order : now ≤ later) :
    Forgotten window later entry kept := by
  cases forgotten with
  | same => exact .same _
  | idle dead =>
    obtain ⟨empty, elapsed⟩ := SourceState.dead_iff.mp dead
    exact .idle (SourceState.dead_iff.mpr ⟨empty, elapsed.trans order⟩)

theorem Forgets.mono (forgets : Forgets now gate free) (order : now ≤ later) :
    Forgets later gate free := by
  obtain ⟨kept, rfl, entries⟩ := forgets
  exact ⟨kept, rfl, fun source => (entries source).mono order⟩

theorem Forgets.refl (now : Nat) (gate : PreAuthGate) : Forgets now gate gate :=
  ⟨gate.sources, rfl, fun _ => .same _⟩

theorem Forgets.restartGlobalWindow (forgets : Forgets now gate free) (later : Nat) :
    Forgets now (gate.restartGlobalWindow later) (free.restartGlobalWindow later) := by
  obtain ⟨kept, rfl, entries⟩ := forgets
  unfold PreAuthGate.restartGlobalWindow
  split <;> exact ⟨kept, rfl, entries⟩

theorem Forgotten.insert {sources kept : ExtTreeMap String SourceState}
    (entries : ∀ source : String, Forgotten window now sources[source]? kept[source]?)
    (source : String) (state : SourceState) (other : String) :
    Forgotten window now (sources.insert source state)[other]?
      (kept.insert source state)[other]? := by
  simp only [OrderedMap.get_insert]
  split
  · exact .same _
  · exact entries other

theorem chargeSource_of_idle
    (dead : (gate.sources[source]?.getD {}).isLiveAt now gate.limits.rateWindowMs = false) :
    gate.chargeSource source now =
      (gate.charged source { windowStartMs := now } now, .ok ⟨source, gate.nextId, now⟩) := by
  unfold chargeSource
  generalize gate.sources[source]?.getD {} = state at dead ⊢
  obtain ⟨empty, elapsed⟩ := SourceState.dead_iff.mp dead
  have pendingRoom : ¬state.pending.size ≥ gate.limits.maxPendingPerSource := by
    have := gate.limits.pendingPerSource.1
    rw [empty, ExtTreeMap.size_empty]
    omega
  have attemptsRoom : ¬(0 : Nat) ≥ gate.limits.maxAttemptsPerWindow := by
    have := gate.limits.attempts.1
    omega
  have restarted : state.restartWindow now gate.limits.rateWindowMs =
      { state with windowStartMs := now, attemptsInWindow := 0 } := if_pos elapsed
  simp only [if_neg pendingRoom, restarted]
  rw [if_neg attemptsRoom]
  simp only [charged, empty]

theorem chargeSource_forgets (forgets : Forgets now gate free) :
    Forgets now (gate.chargeSource source now).1 (free.chargeSource source now).1 ∧
      (free.chargeSource source now).2 = (gate.chargeSource source now).2 := by
  obtain ⟨kept, rfl, entries⟩ := forgets
  have entry := entries source
  generalize heldEq : gate.sources[source]? = held at entry
  generalize keptEq : kept[source]? = known at entry
  cases entry with
  | same =>
    unfold chargeSource
    simp only [heldEq, keptEq]
    split
    · exact ⟨⟨_, rfl, Forgotten.insert entries source _⟩, rfl⟩
    · split
      · exact ⟨⟨_, rfl, Forgotten.insert entries source _⟩, rfl⟩
      · exact ⟨⟨_, rfl, Forgotten.insert entries source _⟩, rfl⟩
  | @idle state dead =>
    obtain ⟨-, elapsed⟩ := SourceState.dead_iff.mp dead
    have unknown : (gate.sources[source]?.getD {}).isLiveAt now gate.limits.rateWindowMs =
        false := by
      rw [heldEq]
      refine SourceState.dead_iff.mpr ⟨rfl, le_trans ?_ elapsed⟩
      exact Saturating.add64_le_add64 (Nat.zero_le _) _
    have idle : (({ gate with sources := kept } : PreAuthGate).sources[source]?.getD {}).isLiveAt
        now gate.limits.rateWindowMs = false := by
      simp only [keptEq]
      exact dead
    rw [chargeSource_of_idle unknown, chargeSource_of_idle idle]
    exact ⟨⟨_, rfl, Forgotten.insert entries source _⟩, rfl⟩

theorem makeRoomForSource_forgets (forgets : Forgets now gate free) :
    Forgets now (gate.makeRoomForSource now).1 free := by
  unfold makeRoomForSource
  split
  · exact forgets
  · split
    next victim settled =>
      have member := Extremum.minByKey_mem settled
      simp only [List.mem_filter, Bool.not_eq_true'] at member
      have found : gate.sources[victim.1]? = some victim.2 :=
        ExtTreeMap.mem_toList_iff_getElem?_eq_some.mp member.1
      obtain ⟨kept, rfl, entries⟩ := forgets
      refine ⟨kept, rfl, fun source => ?_⟩
      rw [OrderedMap.get_erase]
      split
      next same =>
        have entry := entries source
        rw [← same, found] at entry
        rw [← same]
        generalize kept[victim.1]? = known at entry ⊢
        cases entry
        exact .idle member.2
      · exact entries source
    · exact forgets

theorem admitHandshake_forgets (text : Ip.Text) (source : String) (forgets : Forgets now gate free)
    (accounted : (gate.admitHandshake text source now).2 ≠ .error .noAccountingCapacity) :
    Forgets now (gate.admitHandshake text source now).1 (free.admitUnbounded text source now).1 ∧
      (free.admitUnbounded text source now).2 = (gate.admitHandshake text source now).2 := by
  have restarted := forgets.restartGlobalWindow now
  have flags : free.shuttingDown = gate.shuttingDown ∧ free.pendingTotal = gate.pendingTotal ∧
      free.limits = gate.limits := by
    obtain ⟨kept, rfl, -⟩ := forgets
    exact ⟨rfl, rfl, rfl⟩
  have counts : (free.restartGlobalWindow now).globalAttemptsInWindow =
        (gate.restartGlobalWindow now).globalAttemptsInWindow ∧
      (free.restartGlobalWindow now).limits = (gate.restartGlobalWindow now).limits := by
    obtain ⟨kept, same, -⟩ := restarted
    rw [same]
    exact ⟨rfl, rfl⟩
  unfold admitHandshake at accounted ⊢
  unfold admitUnbounded
  simp only [flags.1, flags.2.1, flags.2.2, counts.1, counts.2] at accounted ⊢
  split
  · exact ⟨forgets, rfl⟩
  · split
    · exact ⟨forgets, rfl⟩
    · split
      · exact ⟨forgets, rfl⟩
      · split
        · exact ⟨restarted, rfl⟩
        next open_ busy fits spare =>
          rw [if_neg open_, if_neg busy, if_neg fits, if_neg spare] at accounted
          split
          · exact chargeSource_forgets restarted
          next untracked =>
            have room := makeRoomForSource_forgets restarted
            rw [if_neg untracked] at accounted
            split
            next full =>
              rw [full] at accounted
              exact absurd rfl accounted
            next made =>
              rw [made] at room
              exact chargeSource_forgets room

theorem completed_forgets (forgets : Forgets now gate free) :
    Forgets now (gate.completed slot) (free.completed slot) := by
  obtain ⟨kept, rfl, entries⟩ := forgets
  have entry := entries slot.source
  unfold completed
  generalize heldEq : gate.sources[slot.source]? = held at entry
  generalize keptEq : kept[slot.source]? = known at entry
  cases entry with
  | same =>
    simp only
    cases held with
    | none => exact ⟨kept, rfl, entries⟩
    | some state =>
      simp only
      split
      · exact ⟨_, rfl, Forgotten.insert entries slot.source _⟩
      · exact ⟨kept, rfl, entries⟩
  | @idle state dead =>
    have none_pending : slot.id ∉ state.pending := by
      rw [(SourceState.dead_iff.mp dead).1]
      exact ExtTreeMap.not_mem_empty
    simp only [if_neg none_pending]
    exact ⟨kept, rfl, entries⟩

theorem answers_agree (forgets : Forgets now gate free)
    (ordered : (now :: calls.filterMap GateCall.time).Pairwise (· ≤ ·)) {index : Nat}
    (accounted : ∀ earlier ≤ index, (gate.answers (admitHandshake text) calls)[earlier]? ≠
      some (.handshake (.error .noAccountingCapacity)))
    (other : calls[index]? ≠ some .trackedSources) :
    (free.answers (admitUnbounded text) calls)[index]? =
      (gate.answers (admitHandshake text) calls)[index]? := by
  induction calls generalizing now gate free index with
  | nil => rfl
  | cons call rest ih =>
    have first := accounted 0 (Nat.zero_le _)
    simp only [answers, List.getElem?_cons_zero, ne_eq, Option.some.injEq] at first
    -- The call itself: the relation goes on, and the answers agree unless it asks for the size.
    obtain ⟨later, order, next, same⟩ : ∃ later, (later :: rest.filterMap
        GateCall.time).Pairwise (· ≤ ·) ∧
        Forgets later (gate.perform (admitHandshake text) call).1
          (free.perform (admitUnbounded text) call).1 ∧
        (call ≠ .trackedSources → (free.perform (admitUnbounded text) call).2 =
          (gate.perform (admitHandshake text) call).2) := by
      cases call with
      | handshake source time =>
        have reached : now ≤ time :=
          (List.pairwise_cons.mp ordered).1 time (by simp [GateCall.time])
        have answered := admitHandshake_forgets text source (forgets.mono reached)
          (fun same => first (by simp [perform, same]))
        exact ⟨time, (List.pairwise_cons.mp ordered).2, answered.1,
          fun _ => congrArg GateAnswer.handshake answered.2⟩
      | completed slot => exact ⟨now, ordered, completed_forgets forgets, fun _ => rfl⟩
      | setShuttingDown | pending =>
        obtain ⟨kept, rfl, entries⟩ := forgets
        exact ⟨now, ordered, ⟨kept, rfl, entries⟩, fun _ => rfl⟩
      | trackedSources => exact ⟨now, ordered, forgets, fun differs => absurd rfl differs⟩
    cases index with
    | zero =>
      simp only [answers, List.getElem?_cons_zero, Option.some.injEq]
      exact same fun asked => other (by simp [asked])
    | succ index =>
      simp only [answers, List.getElem?_cons_succ]
      refine ih next order (fun earlier bound => ?_) (by simpa using other)
      simpa [answers] using accounted (earlier + 1) (by omega)

/-- Until the gate first lacks accounting capacity it answers every call but the one for the size
of its table as a gate with an unbounded table does. -/
theorem eviction_unobservable (text : Ip.Text) (limits : PreAuthLimits) (calls : List GateCall)
    (ordered : (calls.filterMap GateCall.time).Pairwise (· ≤ ·)) (index : Nat)
    (accounted : ∀ earlier ≤ index,
      ((new limits).answers (admitHandshake text) calls)[earlier]? ≠
        some (.handshake (.error .noAccountingCapacity)))
    (other : calls[index]? ≠ some .trackedSources) :
    ((new limits).answers (admitUnbounded text) calls)[index]? =
      ((new limits).answers (admitHandshake text) calls)[index]? := by
  refine answers_agree (Forgets.refl 0 (new limits)) ?_ accounted other
  exact List.pairwise_cons.mpr ⟨fun _ _ => Nat.zero_le _, ordered⟩

def passing : List GateCall :=
  [.handshake "left" 0, .completed ⟨"left", 0, 0⟩, .handshake "right" 5, .trackedSources]

theorem eviction_unobservable_sample :
    ((new narrowLimits).answers (admitUnbounded plainText) passing)[2]? =
      ((new narrowLimits).answers (admitHandshake plainText) passing)[2]? :=
  eviction_unobservable plainText narrowLimits passing (by decide) 2 (by decide +kernel) (by decide)

/-- The number of tracked sources is where an eviction shows. -/
theorem eviction_seen_in_trackedSources : (passing.filterMap GateCall.time).Pairwise (· ≤ ·) ∧
    GateAnswer.handshake (.error .noAccountingCapacity) ∉
      (new narrowLimits).answers (admitHandshake plainText) passing ∧
    ((new narrowLimits).answers (admitHandshake plainText) passing)[3]? = some (.count 1) ∧
    ((new narrowLimits).answers (admitUnbounded plainText) passing)[3]? = some (.count 2) := by
  refine ⟨by decide, ?_, ?_, ?_⟩ <;> decide +kernel

end PreAuthGate

end InterWeave
