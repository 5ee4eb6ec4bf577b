import InterWeave.Runtime.Relay

/-!
One relay's retry ladder over a whole run: how often it failed since it last accepted, when
it is due again, and when a network addition brought that forward.
-/

namespace InterWeave.Relay

open Std (ExtTreeMap)
open Saturating OrderedMap

def ReservationState.due : ReservationState → Option Nat
  | .backoff untilMs _ => some untilMs
  | _ => none

inductive Move (relay : TransportIdentity) : Call → Option Candidate → Option Candidate → Prop where
  | unknown (call : Call) : Move relay call none none
  | kept (call : Call) {old new : Candidate} (state : new.state = old.state)
      (lifted : new.liftedAtMs = old.liftedAtMs) : Move relay call (some old) (some new)
  | offered (call : Call) (addresses : List String) (source : RelaySource) :
      Move relay call none (some ⟨addresses, source, .idle, none⟩)
  | asked (now : Nat) {old : Candidate} (due : old.state.isAskable now = true) :
      Move relay (.tick now) (some old)
        (some { old with state := .requested now old.state.attempts })
  | released (call : Call) {old : Candidate} (active : old.state.isActive = true) :
      Move relay call (some old) (some { old with state := .idle })

theorem Move.same {relay : TransportIdentity} (call : Call) (candidate : Option Candidate) :
    Move relay call candidate candidate := by
  cases candidate with
  | none => exact .unknown call
  | some old => exact .kept call rfl rfl

namespace ReservationManager

variable {manager : ReservationManager} {relay : TransportIdentity}

variable (other : TransportIdentity)

theorem get_put (candidate : Candidate) :
    (manager.put other candidate).candidates[relay]? =
      if other = relay then some candidate else manager.candidates[relay]? :=
  get_insert _ _ _ _

theorem put_move {call : Call} {other : TransportIdentity} {new : Candidate}
    (move : Move relay call manager.candidates[other]? (some new)) :
    Move relay call manager.candidates[relay]? (manager.put other new).candidates[relay]? := by
  rw [get_put]
  split
  next same => rwa [same] at move
  · exact Move.same call _

theorem Offer.move (offer : Offer manager next) (call : Call) :
    Move relay call manager.candidates[relay]? next.candidates[relay]? := by
  cases offer with
  | same => exact Move.same call _
  | fresh absent source room address =>
    refine put_move ?_
    rw [absent]
    exact .offered call [address] source
  | promoted found =>
    refine put_move ?_
    rw [found]
    exact .kept call rfl rfl
  | added found =>
    refine put_move ?_
    rw [found]
    exact .kept call rfl rfl

theorem networkAdded_get :
    (manager.networkAdded now gateHolds).1.candidates[relay]? = manager.candidates[relay]? ∨
      ∃ old untilMs attempts, manager.candidates[relay]? = some old ∧
        old.state = .backoff untilMs attempts ∧ now < untilMs ∧ gateHolds relay = false ∧
        (∀ before, old.liftedAtMs = some before → manager.config.retryMinMs ≤ now - before) ∧
        (manager.networkAdded now gateHolds).1.candidates[relay]? =
          some { old with state := .backoff now attempts, liftedAtMs := some now } := by
  rw [networkAdded, ExtTreeMap.getElem?_map]
  cases manager.candidates[relay]? with
  | none => exact .inl rfl
  | some old =>
    rw [Option.map_some, lift]
    split
    · exact .inl rfl
    next free =>
      rw [not_or] at free
      split
      next untilMs attempts backoff =>
        split
        next early =>
          refine .inr ⟨old, untilMs, attempts, rfl, backoff, early, by simpa using free.2,
            fun before lately => ?_, rfl⟩
          have rested := free.1
          rw [lately] at rested
          simpa using rested
        · exact .inl rfl
      · exact .inl rfl

theorem releaseOne_get (relay : TransportIdentity)
    (state : ReservationManager × List Action) (held : Held) :
    (releaseOne state held).1.candidates[relay]? = state.1.candidates[relay]? ∨
      ∃ old, state.1.candidates[relay]? = some old ∧ old.state.isActive = true ∧
        (releaseOne state held).1.candidates[relay]? = some { old with state := .idle } := by
  unfold releaseOne
  split
  · exact .inl rfl
  next old found =>
    split
    next active =>
      rw [get_put]
      split
      next same =>
        subst same
        exact .inr ⟨old, found, by rw [active]; rfl, rfl⟩
      · exact .inl rfl
    · exact .inl rfl

theorem releaseAll_get (helds : List Held) (state : ReservationManager × List Action) :
    (helds.foldl releaseOne state).1.candidates[relay]? = state.1.candidates[relay]? ∨
      ∃ old, state.1.candidates[relay]? = some old ∧ old.state.isActive = true ∧
        (helds.foldl releaseOne state).1.candidates[relay]? =
          some { old with state := .idle } := by
  induction helds generalizing state with
  | nil => exact .inl rfl
  | cons held rest ih =>
    rw [List.foldl_cons]
    rcases releaseOne_get relay state held with same | ⟨old, found, active, gone⟩
    · rw [← same]
      exact ih _
    · refine .inr ⟨old, found, active, ?_⟩
      rcases ih (releaseOne state held) with same | ⟨idle, present, stillActive, -⟩
      · rw [same, gone]
      · obtain rfl := Option.some.inj (gone.symm.trans present)
        cases stillActive

theorem releaseSurplus_get :
    manager.releaseSurplus.1.candidates[relay]? = manager.candidates[relay]? ∨
      ∃ old, manager.candidates[relay]? = some old ∧ old.state.isActive = true ∧
        manager.releaseSurplus.1.candidates[relay]? = some { old with state := .idle } := by
  unfold releaseSurplus
  split
  · exact .inl rfl
  · exact releaseAll_get _ _

theorem releaseSurplus_move (manager : ReservationManager) (relay : TransportIdentity)
    (call : Call) : Move relay call manager.candidates[relay]?
      manager.releaseSurplus.1.candidates[relay]? := by
  rcases releaseSurplus_get with same | ⟨old, found, active, gone⟩
  · rw [same]
    exact Move.same call _
  · rw [found, gone]
    exact .released call active

theorem nodup_toAsk : (manager.toAsk now).Nodup := by
  have keys : (manager.candidates.toList.map Prod.fst).Nodup := by
    rw [ExtTreeMap.map_fst_toList_eq_keys]
    exact ExtTreeMap.nodup_keys
  have listed : (manager.askable now).Nodup := by
    refine ((KeySort.sortByKey_perm _ _).map _).nodup_iff.mpr ?_
    exact keys.sublist (List.filter_sublist.map _)
  exact listed.sublist (List.take_sublist _ _)

theorem askOne_get (now : Nat) {state : ReservationManager × List Action}
    {other : TransportIdentity} {old : Candidate} (found : state.1.candidates[other]? = some old)
    (due : old.state.isAskable now = true) : (askOne now state other).1.candidates[relay]? =
      if other = relay then some { old with state := .requested now old.state.attempts }
      else state.1.candidates[relay]? := by
  simp only [askOne, found, get_put]
  cases held : old.state with
  | idle | backoff => rfl
  | requested since attempts =>
    rw [held] at due
    cases due
  | active since addresses =>
    rw [held] at due
    cases due

theorem askAll_get {relays : List TransportIdentity} (nodup : relays.Nodup)
    (state : ReservationManager × List Action)
    (due : ∀ other ∈ relays, ∃ old, state.1.candidates[other]? = some old ∧
      old.state.isAskable now = true) :
    (relays.foldl (askOne now) state).1.candidates[relay]? =
      if relay ∈ relays then
        state.1.candidates[relay]?.map fun old =>
          { old with state := .requested now old.state.attempts }
      else state.1.candidates[relay]? := by
  induction relays generalizing state with
  | nil => rfl
  | cons first rest ih =>
    obtain ⟨fresh, distinct⟩ := List.nodup_cons.mp nodup
    obtain ⟨old, found, askable⟩ := due first List.mem_cons_self
    have later : ∀ other ∈ rest, ∃ old, (askOne now state first).1.candidates[other]? =
        some old ∧ old.state.isAskable now = true := by
      intro other member
      rw [askOne_get now found askable, if_neg fun same : first = other => fresh (same ▸ member)]
      exact due other (List.mem_cons_of_mem _ member)
    rw [List.foldl_cons, ih distinct _ later, askOne_get now found askable]
    by_cases here : first = relay
    · subst here
      rw [if_neg fresh, if_pos rfl, if_pos List.mem_cons_self, found, Option.map_some]
    · have elsewhere : relay ∈ first :: rest ↔ relay ∈ rest := by
        simp [Ne.symm here]
      simp only [elsewhere, if_neg here]

theorem askDue_get (manager : ReservationManager) (relay : TransportIdentity) (now : Nat) :
    (manager.askDue now).1.candidates[relay]? =
      if relay ∈ manager.toAsk now then
        manager.candidates[relay]?.map fun old =>
          { old with state := .requested now old.state.attempts }
      else manager.candidates[relay]? :=
  askAll_get nodup_toAsk (manager, [])
    fun _ member => mem_askable.mp (List.mem_of_mem_take member)

theorem tick_move (manager : ReservationManager) (relay : TransportIdentity) (now : Nat) :
    Move relay (.tick now) manager.candidates[relay]?
      (manager.tick now).1.candidates[relay]? := by
  have asked := askDue_get manager relay now
  rw [tick_eq]
  by_cases member : relay ∈ manager.toAsk now
  · obtain ⟨old, found, due⟩ := mem_askable.mp (List.mem_of_mem_take member)
    rw [if_pos member, found, Option.map_some] at asked
    rcases releaseSurplus_get with
      same | ⟨other, present, active, -⟩
    · rw [same, asked, found]
      exact .asked now due
    · obtain rfl := Option.some.inj (asked.symm.trans present)
      cases active
  · rw [if_neg member] at asked
    have released := releaseSurplus_move (manager.askDue now).1 relay (.tick now)
    rw [asked] at released
    exact released

def due (manager : ReservationManager) (relay : TransportIdentity) : Option Nat :=
  manager.candidates[relay]?.bind fun candidate => candidate.state.due

end ReservationManager

/-- What happened to one relay since it was offered: its failures since it last accepted, and
the times a network addition made it due. -/
structure Ladder where
  failures : Nat := 0
  lifts : List Nat := []

def Ladder.note (ladder : Ladder) (manager : ReservationManager) (relay : TransportIdentity)
    (call : Call) : Ladder :=
  match call with
  | .recordAccepted other address now =>
    match (manager.recordAccepted other address now).2 with
    | .ok _ => if other = relay then { ladder with failures := 0 } else ladder
    | .error _ => ladder
  | .recordFailed other now jitter =>
    match (manager.recordFailed other now jitter).2 with
    | .ok _ =>
      if other = relay then { ladder with failures := ladder.failures + 1 } else ladder
    | .error _ => ladder
  | .networkAdded now gateHolds =>
    if (manager.networkAdded now gateHolds).1.due relay = manager.due relay then ladder
    else { ladder with lifts := ladder.lifts ++ [now] }
  | .forget other => if other = relay then {} else ladder
  | _ => ladder

structure Climb where
  manager : ReservationManager
  ladder : Ladder

namespace Climb

def step (relay : TransportIdentity) (climb : Climb) (call : Call) : Climb :=
  ⟨Relay.step climb.manager call, climb.ladder.note climb.manager relay call⟩

def after (manager : ReservationManager) (relay : TransportIdentity) (calls : List Call) : Climb :=
  calls.foldl (step relay) ⟨manager, {}⟩

theorem after_manager {manager : ReservationManager} {relay : TransportIdentity} :
    (after manager relay calls).manager = run manager calls := by
  induction calls using List.reverseRecOn with
  | nil => rfl
  | append_singleton calls call ih =>
    rw [after, run, List.foldl_append, List.foldl_append]
    exact congrArg (Relay.step · call) ih

end Climb

structure Candidate.On (candidate : Candidate) (config : ReservationConfig) (ladder : Ladder) :
    Prop where
  attempts : candidate.state.attempts = min ladder.failures u32Max
  lifted : candidate.liftedAtMs = ladder.lifts.getLast?
  rested : ladder.lifts.Pairwise fun first second => first + config.retryMinMs ≤ second
  fresh : candidate.state = .idle ∨ candidate.state.isActive = true → ladder.failures = 0

def OnLadder (config : ReservationConfig) (ladder : Ladder) : Option Candidate → Prop
  | none => ladder = {}
  | some candidate => candidate.On config ladder

theorem add32_min : add32 (min failures u32Max) 1 = min (failures + 1) u32Max := by
  unfold add32
  omega

section

variable {config : ReservationConfig} {ladder : Ladder} {candidate old : Candidate}

theorem Candidate.On.failed (on : old.On config ladder) (now jitter : Nat) :
    (ReservationManager.failed config old old.state.attempts now jitter).On config
      { ladder with failures := ladder.failures + 1 } := by
  refine ⟨?_, on.lifted, on.rested, ?_⟩
  · rw [on.attempts, ← add32_min]
    rfl
  · rintro (impossible | impossible) <;> cases impossible

theorem Candidate.On.accepted (on : old.On config ladder) (since : Nat) (addresses : List String) :
    Candidate.On { old with state := .active since addresses } config
      { ladder with failures := 0 } :=
  ⟨rfl, on.lifted, on.rested, fun _ => rfl⟩

theorem Candidate.On.lift (on : old.On config ladder) (positive : 0 < config.retryMinMs)
    {now untilMs attempts : Nat} (backoff : old.state = .backoff untilMs attempts)
    (rested : ∀ before, old.liftedAtMs = some before → config.retryMinMs ≤ now - before) :
    Candidate.On { old with state := .backoff now attempts, liftedAtMs := some now } config
      { ladder with lifts := ladder.lifts ++ [now] } := by
  refine ⟨?_, by simp, ?_, ?_⟩
  · have carried := on.attempts
    rw [backoff] at carried
    exact carried
  · rw [List.pairwise_append]
    refine ⟨on.rested, List.pairwise_singleton _ _, fun earlier listed later same => ?_⟩
    obtain rfl := List.mem_singleton.mp same
    cases last : ladder.lifts.getLast? with
    | none =>
      rw [List.getLast?_eq_none_iff.mp last] at listed
      cases listed
    | some latest =>
      have gap := rested latest (on.lifted.trans last)
      obtain ⟨front, split⟩ := List.getLast?_eq_some_iff.mp last
      have sorted := on.rested
      rw [split] at sorted listed
      rcases List.mem_append.mp listed with before | is
      · have order := (List.pairwise_append.mp sorted).2.2 earlier before latest (by simp)
        omega
      · obtain rfl := List.mem_singleton.mp is
        omega
  · rintro (impossible | impossible) <;> cases impossible

theorem Move.onLadder (move : Move relay call before after) (on : OnLadder config ladder before) :
    OnLadder config ladder after := by
  cases move with
  | unknown call => exact on
  | kept call state lifted =>
    exact ⟨state ▸ on.attempts, lifted.trans on.lifted, on.rested, state ▸ on.fresh⟩
  | offered call addresses source =>
    obtain rfl : ladder = {} := on
    exact ⟨rfl, rfl, List.Pairwise.nil, fun _ => rfl⟩
  | asked now due =>
    refine ⟨on.attempts, on.lifted, on.rested, ?_⟩
    rintro (impossible | impossible) <;> cases impossible
  | released call active =>
    have none := on.fresh (.inr active)
    refine ⟨?_, on.lifted, on.rested, fun _ => none⟩
    rw [none]
    rfl

end

open ReservationManager in
theorem OnLadder.step (positive : 0 < manager.config.retryMinMs)
    (on : OnLadder manager.config ladder manager.candidates[relay]?) (call : Call) :
    OnLadder manager.config (ladder.note manager relay call)
      (Relay.step manager call).candidates[relay]? := by
  cases call with
  | addStatic other address =>
    exact (addStatic_offer.move (.addStatic other address)).onLadder on
  | learn other address =>
    exact (learn_offer.move (.learn other address)).onLadder on
  | setDirectInbound state =>
    exact (releaseSurplus_move { manager with directInbound := state } relay
      (.setDirectInbound state)).onLadder on
  | tick now => exact (tick_move manager relay now).onLadder on
  | forget other =>
    simp only [Relay.step, Ladder.note, forget, get_erase]
    split
    · rfl
    · exact on
  | recordAccepted other address now =>
    have exit := recordAccepted_exit manager other address now
    simp only [Relay.step, Ladder.note]
    generalize manager.recordAccepted other address now = answer at exit ⊢
    cases exit with
    | refused reason => exact on
    | accepted found held gained fits =>
      simp only [get_put]
      split
      next same =>
        rw [← same, found] at on
        exact Candidate.On.accepted on _ _
      · exact on
  | recordFailed other now jitter =>
    have exit := recordFailed_exit manager other now jitter
    simp only [Relay.step, Ladder.note]
    generalize manager.recordFailed other now jitter = answer at exit ⊢
    cases exit with
    | refused reason => exact on
    | failed found =>
      simp only [get_put]
      split
      next same =>
        rw [← same, found] at on
        exact Candidate.On.failed on now jitter
      · exact on
  | networkAdded now gateHolds =>
    simp only [Relay.step, Ladder.note]
    rcases networkAdded_get with
      same | ⟨old, untilMs, attempts, found, backoff, early, -, rested, lifted⟩
    · rw [due, due, same, if_pos rfl]
      exact on
    · have sooner : (manager.networkAdded now gateHolds).1.due relay ≠ manager.due relay := by
        simp only [due, lifted, found, Option.bind_some, backoff, ReservationState.due]
        exact fun same => early.ne (Option.some.inj same)
      rw [if_neg sooner, lifted]
      rw [found] at on
      exact Candidate.On.lift on positive backoff rested

theorem retryMinMs_pos (built : ReservationManager.new config = .ok manager) :
    0 < config.retryMinMs := by
  unfold ReservationManager.new at built
  split at built
  · cases built
  · split at built
    · cases built
    · split at built
      · cases built
      next ladder => exact Nat.pos_of_ne_zero fun zero => ladder (.inl zero)

theorem after_onLadder (built : ReservationManager.new config = .ok manager) :
    OnLadder config (Climb.after manager relay calls).ladder
      (run manager calls).candidates[relay]? := by
  induction calls using List.reverseRecOn with
  | nil =>
    rw [new_eq built]
    simp [run, OnLadder, Climb.after]
  | append_singleton calls call ih =>
    have same : (run manager calls).config = config := (run_bounded built).sameConfig
    rw [← same] at ih
    have next := ih.step (same ▸ retryMinMs_pos built) call
    rw [same] at next
    rw [Climb.after, run, List.foldl_append, List.foldl_append]
    change OnLadder config ((Climb.after manager relay calls).ladder.note
      (Climb.after manager relay calls).manager relay call) _
    rw [Climb.after_manager]
    exact next

theorem retryDelayMs_min {config : ReservationConfig} :
    config.retryDelayMs (min failures u32Max) =
      min (mul64 config.retryMinMs (2 ^ min failures 20)) config.retryMaxMs := by
  have same : min (min failures u32Max) 20 = min failures 20 := by
    unfold u32Max
    omega
  rw [ReservationConfig.retryDelayMs, same]

theorem Move.due (move : Move relay call before after)
    (waiting : (before.bind fun candidate => candidate.state.due) = some untilMs) :
    (after.bind fun candidate => candidate.state.due) = some untilMs ∨
      ∃ now, call = .tick now ∧ untilMs ≤ now := by
  cases move with
  | unknown call => cases waiting
  | kept call state lifted =>
    rw [Option.bind_some] at waiting ⊢
    rw [state]
    exact .inl waiting
  | offered call addresses source => cases waiting
  | @asked now old due =>
    refine .inr ⟨now, rfl, ?_⟩
    rw [Option.bind_some] at waiting
    cases state : old.state with
    | backoff until' attempts =>
      rw [state] at waiting due
      obtain rfl := Option.some.inj waiting
      exact of_decide_eq_true due
    | idle | requested | active => rw [state] at waiting; cases waiting
  | @released call old active =>
    rw [Option.bind_some] at waiting
    cases state : old.state with
    | active since addresses => rw [state] at waiting; cases waiting
    | idle | requested | backoff => rw [state] at active; cases active

namespace ReservationManager

variable {manager : ReservationManager} {relay : TransportIdentity}

variable {untilMs : Nat}

theorem due_eq_some : manager.due relay = some untilMs ↔
    ∃ old attempts, manager.candidates[relay]? = some old ∧
      old.state = .backoff untilMs attempts := by
  rw [due, Option.bind_eq_some_iff]
  constructor
  · rintro ⟨old, found, waiting⟩
    cases state : old.state with
    | backoff until' attempts =>
      rw [state] at waiting
      obtain rfl := Option.some.inj waiting
      exact ⟨old, attempts, found, state⟩
    | idle | requested | active => rw [state] at waiting; cases waiting
  · rintro ⟨old, attempts, found, state⟩
    exact ⟨old, found, by rw [state]; rfl⟩

theorem tick_reserve_due (asked : Action.reserve relay addresses ∈ (manager.tick now).2)
    (waiting : manager.due relay = some untilMs) : untilMs ≤ now := by
  have listed := mem_reservedBy.mpr ⟨addresses, asked⟩
  rw [tick_reserved] at listed
  obtain ⟨candidate, found, askable⟩ := mem_askable.mp (List.mem_of_mem_take listed)
  obtain ⟨old, attempts, held, state⟩ := due_eq_some.mp waiting
  obtain rfl := Option.some.inj (found.symm.trans held)
  rw [state] at askable
  exact of_decide_eq_true askable

theorem due_of_get {other : ReservationManager}
    (same : other.candidates[relay]? = manager.candidates[relay]?) :
    other.due relay = manager.due relay := by
  rw [due, due, same]

theorem step_due (waiting : manager.due relay = some untilMs) :
    (step manager call).due relay = some untilMs ∨
      (∃ now, call = .tick now ∧ untilMs ≤ now) ∨
      (∃ now jitter, call = .recordFailed relay now jitter) ∨
      (∃ now gateHolds, call = .networkAdded now gateHolds ∧ now < untilMs ∧
        gateHolds relay = false ∧ (step manager call).due relay = some now) ∨
      call = .forget relay := by
  cases call with
  | addStatic other address =>
    exact ((addStatic_offer.move _).due waiting).imp_right .inl
  | learn other address =>
    exact ((learn_offer.move _).due waiting).imp_right .inl
  | setDirectInbound state =>
    exact ((releaseSurplus_move { manager with directInbound := state } relay
      (.setDirectInbound state)).due waiting).imp_right .inl
  | tick now => exact ((tick_move manager relay now).due waiting).imp_right .inl
  | forget other =>
    by_cases same : other = relay
    · exact .inr (.inr (.inr (.inr (congrArg Call.forget same))))
    · refine .inl ((due_of_get ?_).trans waiting)
      exact (get_erase _ _ _).trans (if_neg same)
  | recordAccepted other address now =>
    have exit := recordAccepted_exit manager other address now
    simp only [step]
    generalize manager.recordAccepted other address now = answer at exit ⊢
    refine .inl ?_
    cases exit with
    | refused reason => exact waiting
    | accepted found held gained fits =>
      by_cases same : other = relay
      · subst same
        obtain ⟨old, attempts, here, backoff⟩ := due_eq_some.mp waiting
        cases here.symm.trans found
        rw [backoff] at held
        rcases held with held | held <;> cases held
      · exact (due_of_get ((get_put other _).trans (if_neg same))).trans waiting
  | recordFailed other now jitter =>
    by_cases same : other = relay
    · exact .inr (.inr (.inl ⟨now, jitter, by rw [same]⟩))
    · have exit := recordFailed_exit manager other now jitter
      simp only [step]
      generalize manager.recordFailed other now jitter = answer at exit ⊢
      refine .inl ?_
      cases exit with
      | refused reason => exact waiting
      | failed found => exact (due_of_get ((get_put other _).trans (if_neg same))).trans waiting
  | networkAdded now gateHolds =>
    rcases networkAdded_get with
      same | ⟨old, held, attempts, found, backoff, early, free, -, lifted⟩
    · exact .inl ((due_of_get same).trans waiting)
    · rw [ReservationManager.due, found, Option.bind_some, backoff] at waiting
      obtain rfl := Option.some.inj waiting
      refine .inr (.inr (.inr (.inl ⟨now, gateHolds, rfl, early, free, ?_⟩)))
      exact due_eq_some.mpr ⟨_, attempts, lifted, rfl⟩

end ReservationManager

/-- A relay climbs its own ladder: it waits as long as its failures since it last accepted say,
and a network addition only shortens the wait, once in a while and with the gate's leave. -/
theorem relay_climbs_ladder (config : ReservationConfig) (manager : ReservationManager)
    (built : ReservationManager.new config = .ok manager) (calls : List Call)
    (relay : TransportIdentity) :
    let reached := run manager calls
    let ladder := (Climb.after manager relay calls).ladder
    (∀ now addresses untilMs, Action.reserve relay addresses ∈ (reached.tick now).2 →
      reached.due relay = some untilMs → untilMs ≤ now) ∧
    (∀ now jitter withdrawn, (reached.recordFailed relay now jitter).2 = .ok withdrawn →
      let delay := min (mul64 config.retryMinMs (2 ^ min ladder.failures 20)) config.retryMaxMs
      (reached.recordFailed relay now jitter).1.due relay =
        some (add64 (add64 now delay) (min jitter delay))) ∧
    (∀ call untilMs, reached.due relay = some untilMs →
      (step reached call).due relay = some untilMs ∨
        (∃ now, call = .tick now ∧ untilMs ≤ now) ∨
        (∃ now jitter, call = .recordFailed relay now jitter) ∨
        (∃ now gateHolds, call = .networkAdded now gateHolds ∧ now < untilMs ∧
          gateHolds relay = false ∧ (step reached call).due relay = some now) ∨
        call = .forget relay) ∧
    ladder.lifts.Pairwise fun first second => first + config.retryMinMs ≤ second := by
  intro reached ladder
  have on : OnLadder config ladder reached.candidates[relay]? := after_onLadder built
  refine ⟨fun _ _ _ => ReservationManager.tick_reserve_due, ?_,
    fun _ _ => ReservationManager.step_due, ?_⟩
  · intro now jitter withdrawn answer
    have exit := ReservationManager.recordFailed_exit reached relay now jitter
    generalize reached.recordFailed relay now jitter = result at exit answer ⊢
    cases exit with
    | refused reason => cases answer
    | failed found =>
      have same : reached.config = config := (run_bounded built).sameConfig
      rw [found] at on
      simp [ReservationManager.due, ReservationManager.get_put, same, Candidate.On.attempts on,
        ReservationManager.failed, ReservationState.due, retryDelayMs_min]
  · cases found : reached.candidates[relay]? with
    | none =>
      rw [found] at on
      have same : ladder = {} := on
      rw [same]
      exact List.Pairwise.nil
    | some old =>
      rw [found] at on
      exact Candidate.On.rested on

/-- Lifted after its first failure and asked again, it waits for the second step. -/
theorem relay_climbs_ladder_sample :
    ((run ⟨{}, ∅, .unknown⟩ [.addStatic (.numbered 0) "/ip4/192.0.2.1/tcp/4001", .tick 0,
      .recordFailed (.numbered 0) 100 0, .networkAdded 200 fun _ => false,
      .tick 200]).recordFailed (.numbered 0) 300 7).1.due (.numbered 0) = some 10307 :=
  ((relay_climbs_ladder {} ⟨{}, ∅, .unknown⟩ rfl
    [.addStatic (.numbered 0) "/ip4/192.0.2.1/tcp/4001", .tick 0, .recordFailed (.numbered 0) 100 0,
      .networkAdded 200 fun _ => false, .tick 200] (.numbered 0)).2.1 300 7 []
        (by decide +kernel)).trans (by decide +kernel)

end InterWeave.Relay
