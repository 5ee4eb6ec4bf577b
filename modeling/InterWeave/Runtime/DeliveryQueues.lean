import InterWeave.Lib.QueueLog
import InterWeave.Runtime.Broadcast

/-!
Runs of calls on the two kinds of delivery queue. A session's queue may drop its oldest event
and says so; an endpoint's queue refuses what it cannot hold.
-/

namespace InterWeave

open Std (ExtTreeMap)
open OrderedMap
open QueueLog

inductive SessionCall where
  | openQueue (session : String) (bound : Nat)
  | push (session : String) (event : BroadcastEvent)
  | setBound (bound : Nat)
  | drainUpTo (session : String) (limit : Nat)
  | close (session : String)
  deriving DecidableEq

namespace SessionCall

def session? : SessionCall → Option String
  | .openQueue session _ | .push session _ | .drainUpTo session _ | .close session => some session
  | .setBound _ => none

def aside : SessionCall → SessionQueue → SessionQueue
  | .setBound bound, queue => { queue with bound := bound }
  | _, queue => queue

def Bounded : SessionCall → Prop
  | .setBound bound => 1 ≤ bound
  | _ => True

instance : DecidablePred Bounded := fun call => by
  cases call <;> unfold Bounded <;> infer_instance

end SessionCall

namespace SessionQueues

def perform (queues : SessionQueues) : SessionCall → SessionQueues
  | .openQueue session bound => queues.openQueue session bound
  | .push session event => (queues.push session event).1
  | .setBound bound => queues.setBound bound
  | .drainUpTo session limit => (queues.drainUpTo session limit).1
  | .close session => (queues.close session).1

variable (queues : SessionQueues) (session other : String)

theorem get_openQueue : (queues.openQueue session bound).queues[other]? =
    if session = other then some ⟨[], max bound 1⟩ else queues.queues[other]? := by
  simp only [openQueue, get_insert]

theorem get_close : (queues.close session).1.queues[other]? =
    if session = other then none else queues.queues[other]? := by
  simp only [close, get_erase]

theorem get_setBound : (queues.setBound bound).queues[other]? =
    queues.queues[other]?.map fun queue => { queue with bound := bound } := by
  simp [setBound]

theorem get_drainUpTo : (queues.drainUpTo session limit).1.queues[other]? =
    if session = other then
      queues.queues[other]?.map fun queue => { queue with events := queue.events.drop limit }
    else queues.queues[other]? := by
  unfold drainUpTo
  by_cases same : session = other
  · subst same
    cases found : queues.queues[session]? with
    | none => simp [found]
    | some queue => simp
  · cases queues.queues[session]? with
    | none => simp [same]
    | some queue => simp [get_insert, same]

theorem drainUpTo_answer : (queues.drainUpTo session limit).2 =
    queues.queues[session]?.elim [] fun queue => queue.events.take limit := by
  unfold drainUpTo
  cases queues.queues[session]? <;> rfl

theorem push_answer : (queues.push session event).2 =
    queues.queues[session]?.elim (.error .notOpen) fun queue =>
      if queue.events.length ≥ queue.bound then .ok (.droppedOldest queue.bound)
      else .ok .queued := by
  unfold push
  cases queues.queues[session]? with
  | none => rfl
  | some queue =>
    by_cases full : queue.events.length ≥ queue.bound
    · simp [full]
    · simp [full]

theorem perform_other {queues : SessionQueues} {other : String} {call : SessionCall}
    (elsewhere : call.session? ≠ some other) :
    (queues.perform call).queues[other]? = queues.queues[other]?.map call.aside := by
  cases call with
  | setBound bound => exact get_setBound queues other
  | openQueue session bound =>
    rw [perform, get_openQueue, if_neg fun same => elsewhere (congrArg some same)]
    exact Option.map_id'.symm
  | push session event =>
    rw [perform, get_push, if_neg fun same => elsewhere (congrArg some same)]
    exact Option.map_id'.symm
  | drainUpTo session limit =>
    rw [perform, get_drainUpTo, if_neg fun same => elsewhere (congrArg some same)]
    exact Option.map_id'.symm
  | close session =>
    rw [perform, get_close, if_neg fun same => elsewhere (congrArg some same)]
    exact Option.map_id'.symm

end SessionQueues

structure SessionRun where
  queues : SessionQueues
  logs : String → Log BroadcastEvent

namespace SessionRun

variable {queue : SessionQueue}

def start : SessionRun := ⟨.new, fun _ => {}⟩

def noted (log : Log BroadcastEvent) (event : BroadcastEvent) :
    Except SessionDrop Pushed → Log BroadcastEvent
  | .ok .queued => log.push event
  | .ok (.droppedOldest _) => log.drop.push event
  | .error _ => log

def noteCall (run : SessionRun) : SessionCall → String → Log BroadcastEvent
  | .openQueue session _ => Function.update run.logs session {}
  | .push session event => Function.update run.logs session
      (noted (run.logs session) event (run.queues.push session event).2)
  | .drainUpTo session limit => Function.update run.logs session
      ((run.logs session).drain (run.queues.drainUpTo session limit).2)
  | .setBound _ | .close _ => run.logs

def step (run : SessionRun) (call : SessionCall) : SessionRun :=
  ⟨run.queues.perform call, run.noteCall call⟩

def after (calls : List SessionCall) : SessionRun := calls.foldl step start

structure Keeps (queue : SessionQueue) (log : Log BroadcastEvent) : Prop where
  bounded : 1 ≤ queue.bound
  accounts : log.Accounts queue.events

theorem Keeps.gains (keeps : Keeps queue log) (event : BroadcastEvent) :
    Keeps (queue.gains event)
      (noted log event (if queue.events.length ≥ queue.bound then .ok (.droppedOldest queue.bound)
        else .ok .queued)) := by
  have positive := keeps.bounded
  by_cases full : queue.events.length ≥ queue.bound
  · refine ⟨positive, ?_⟩
    simp only [full, SessionQueue.gains, if_true, noted]
    cases waiting : queue.events with
    | nil =>
      rw [waiting, List.length_nil] at full
      omega
    | cons oldest rest =>
      have accounts := keeps.accounts
      rw [waiting] at accounts
      exact accounts.drop.push event
  · refine ⟨positive, ?_⟩
    simp only [full, SessionQueue.gains, if_false, noted]
    exact keeps.accounts.push event

def Sound (run : SessionRun) : Prop :=
  ∀ session queue, run.queues.queues[session]? = some queue → Keeps queue (run.logs session)

theorem Sound.other {run : SessionRun} (sound : run.Sound) {call : SessionCall} {session : String}
    (elsewhere : call.session? ≠ some session) (bounded : call.Bounded)
    (found : (run.queues.perform call).queues[session]? = some queue) :
    Keeps queue (run.logs session) := by
  rw [SessionQueues.perform_other elsewhere] at found
  obtain ⟨old, held, rfl⟩ := Option.map_eq_some_iff.mp found
  have keeps := sound session old held
  cases call with
  | setBound bound => exact ⟨bounded, keeps.accounts⟩
  | openQueue | push | drainUpTo | close => exact keeps

theorem Sound.step {run : SessionRun} (sound : run.Sound) (bounded : call.Bounded) :
    (run.step call).Sound := by
  intro session queue found
  by_cases elsewhere : call.session? ≠ some session
  · have same : run.noteCall call session = run.logs session := by
      cases call with
      | openQueue _ _ => exact Function.update_of_ne (fun eq => elsewhere (by rw [eq]; rfl)) _ _
      | push | drainUpTo => exact Function.update_of_ne (fun eq => elsewhere (by rw [eq]; rfl)) _ _
      | setBound | close => rfl
    change Keeps queue (run.noteCall call session)
    rw [same]
    exact sound.other elsewhere bounded found
  · change (run.queues.perform call).queues[session]? = some queue at found
    change Keeps queue (run.noteCall call session)
    rw [not_not] at elsewhere
    cases call with
    | openQueue opened bound =>
      obtain rfl : opened = session := Option.some.inj elsewhere
      rw [SessionQueues.perform, SessionQueues.get_openQueue, if_pos rfl] at found
      obtain rfl := Option.some.inj found
      rw [noteCall, Function.update_self]
      exact ⟨Nat.le_max_right bound 1, Log.accounts_start⟩
    | push pushed event =>
      obtain rfl : pushed = session := Option.some.inj elsewhere
      rw [SessionQueues.perform, SessionQueues.get_push, if_pos rfl] at found
      obtain ⟨old, held, rfl⟩ := Option.map_eq_some_iff.mp found
      rw [noteCall, Function.update_self, SessionQueues.push_answer, held]
      exact (sound pushed old held).gains event
    | drainUpTo drained limit =>
      obtain rfl : drained = session := Option.some.inj elsewhere
      rw [SessionQueues.perform, SessionQueues.get_drainUpTo, if_pos rfl] at found
      obtain ⟨old, held, rfl⟩ := Option.map_eq_some_iff.mp found
      rw [noteCall, Function.update_self, SessionQueues.drainUpTo_answer, held]
      exact ⟨(sound drained old held).bounded, (sound drained old held).accounts.drain limit⟩
    | close closed =>
      obtain rfl : closed = session := Option.some.inj elsewhere
      rw [SessionQueues.perform, SessionQueues.get_close, if_pos rfl] at found
      cases found
    | setBound _ => cases elsewhere

theorem after_sound (bounded : ∀ call ∈ calls, call.Bounded) : (after calls).Sound := by
  induction calls using List.reverseRecOn with
  | nil =>
    intro session queue found
    simp [after, start, SessionQueues.new] at found
  | append_singleton calls call ih =>
    have earlier := ih fun other member => bounded other (by simp [member])
    rw [after, List.foldl_append]
    exact earlier.step (bounded call (by simp))

theorem Keeps.length_gains_le (keeps : Keeps queue log) (event : BroadcastEvent) :
    (queue.gains event).events.length ≤ max queue.bound queue.events.length := by
  have positive := keeps.bounded
  by_cases full : queue.events.length ≥ queue.bound
  · simp only [SessionQueue.gains, full, if_true, List.length_append, List.length_drop,
      List.length_singleton]
    omega
  · simp only [SessionQueue.gains, full, if_false, List.length_append, List.length_singleton]
    omega

end SessionRun

inductive EndpointCall where
  | openQueue (endpoint : EndpointId) (bound : Nat)
  | push (event : DirectEvent)
  | drainUpTo (endpoint : EndpointId) (limit : Nat)
  | close (endpoint : EndpointId)
  deriving DecidableEq

def EndpointCall.endpoint : EndpointCall → EndpointId
  | .openQueue endpoint _ | .drainUpTo endpoint _ | .close endpoint => endpoint
  | .push event => event.destinationEndpoint

namespace EndpointQueues

def perform (queues : EndpointQueues) : EndpointCall → EndpointQueues
  | .openQueue endpoint bound => queues.openQueue endpoint bound
  | .push event => (queues.push event).1
  | .drainUpTo endpoint limit => (queues.drainUpTo endpoint limit).1
  | .close endpoint => (queues.close endpoint).1

theorem perform_other {queues : EndpointQueues} (elsewhere : call.endpoint ≠ other) :
    (queues.perform call).queues[other]? = queues.queues[other]? := by
  cases call with
  | openQueue endpoint bound => exact (get_insert _ _ _ _).trans (if_neg elsewhere)
  | close endpoint => exact (get_erase _ _ _).trans (if_neg elsewhere)
  | push event =>
    rcases queues.push_cases event with ⟨refusal, refused⟩ | ⟨queue, -, -, taken⟩
    · rw [perform, refused]
    · rw [perform, taken]
      exact (get_insert _ _ _ _).trans (if_neg elsewhere)
  | drainUpTo endpoint limit =>
    simp only [perform, drainUpTo]
    cases queues.queues[endpoint]? with
    | none => rfl
    | some queue => exact (get_insert _ _ _ _).trans (if_neg elsewhere)

end EndpointQueues

structure EndpointRun where
  queues : EndpointQueues
  logs : EndpointId → Log DirectEvent

namespace EndpointRun

def start : EndpointRun := ⟨.new, fun _ => {}⟩

def noted (log : Log DirectEvent) (event : DirectEvent) : Except QueueRefusal Unit → Log DirectEvent
  | .ok () => log.push event
  | .error _ => log

def noteCall (run : EndpointRun) : EndpointCall → Log DirectEvent
  | .openQueue _ _ => {}
  | .push event =>
    noted (run.logs event.destinationEndpoint) event (run.queues.push event).2
  | .drainUpTo endpoint limit =>
    (run.logs endpoint).drain (run.queues.drainUpTo endpoint limit).2
  | .close endpoint => run.logs endpoint

def step (run : EndpointRun) (call : EndpointCall) : EndpointRun :=
  ⟨run.queues.perform call, Function.update run.logs call.endpoint (run.noteCall call)⟩

def after (calls : List EndpointCall) : EndpointRun := calls.foldl step start

structure Keeps (queue : Queue) (log : Log DirectEvent) : Prop where
  within : queue.events.length ≤ queue.bound
  lossless : log.dropped = 0
  accounts : log.Accounts queue.events

theorem Keeps.drain (keeps : Keeps queue log) (limit : Nat) :
    Keeps { queue with events := queue.events.drop limit }
      (log.drain (queue.events.take limit)) := by
  refine ⟨?_, keeps.lossless, keeps.accounts.drain limit⟩
  have within := keeps.within
  simp only [List.length_drop]
  omega

theorem Keeps.push (keeps : Keeps queue log) (room : queue.events.length < queue.bound)
    (event : DirectEvent) :
    Keeps { queue with events := queue.events ++ [event] } (log.push event) := by
  refine ⟨?_, keeps.lossless, keeps.accounts.push event⟩
  simp only [List.length_append, List.length_singleton]
  omega

def Sound (run : EndpointRun) : Prop :=
  ∀ endpoint queue, run.queues.queues[endpoint]? = some queue → Keeps queue (run.logs endpoint)

theorem Sound.step {run : EndpointRun} (sound : run.Sound) (call : EndpointCall) :
    (run.step call).Sound := by
  intro endpoint queue found
  simp only [EndpointRun.step] at found ⊢
  by_cases here : call.endpoint = endpoint
  · subst here
    rw [Function.update_self]
    cases call with
    | openQueue endpoint bound =>
      simp only [EndpointQueues.perform, EndpointQueues.openQueue, get_insert,
        EndpointCall.endpoint, if_true] at found
      obtain rfl := Option.some.inj found
      exact ⟨Nat.zero_le _, rfl, Log.accounts_start⟩
    | close endpoint =>
      simp only [EndpointQueues.perform, EndpointQueues.close, get_erase,
        EndpointCall.endpoint, if_true] at found
      cases found
    | push event =>
      rcases run.queues.push_cases event with ⟨refusal, refused⟩ | ⟨old, held, room, taken⟩
      · simp only [EndpointQueues.perform, noteCall, refused, noted] at found ⊢
        exact sound _ queue found
      · simp only [EndpointQueues.perform, noteCall, taken, noted, get_insert, if_true,
          EndpointCall.endpoint] at found ⊢
        obtain rfl := Option.some.inj found
        exact (sound _ old held).push room event
    | drainUpTo endpoint limit =>
      simp only [EndpointQueues.perform, noteCall, EndpointQueues.drainUpTo] at found ⊢
      cases held : run.queues.queues[endpoint]? with
      | none =>
        simp only [held] at found
        cases held.symm.trans found
      | some old =>
        simp only [held, get_insert, if_true, EndpointCall.endpoint] at found ⊢
        obtain rfl := Option.some.inj found
        exact (sound endpoint old held).drain limit
  · rw [Function.update_of_ne (Ne.symm here)]
    rw [EndpointQueues.perform_other here] at found
    exact sound endpoint queue found

theorem after_sound (calls : List EndpointCall) : (after calls).Sound := by
  induction calls using List.reverseRecOn with
  | nil =>
    intro endpoint queue found
    simp [after, start, EndpointQueues.new] at found
  | append_singleton calls call ih =>
    rw [after, List.foldl_append]
    exact ih.step call

end EndpointRun

/-- Every event handed to an open session queue waits in it, was drained or was reported
dropped; every event an endpoint queue accepted was drained or waits, in the order of
acceptance; and neither kind of call reaches past the queue it names. -/
theorem delivery_queues_conserve (calls : List SessionCall)
    (bounded : ∀ call ∈ calls, call.Bounded) (others : List EndpointCall) :
    (∀ session queue, (SessionRun.after calls).queues.queues[session]? = some queue →
      let log := (SessionRun.after calls).logs session
      (∃ gone lost, log.pushed = gone ++ queue.events ∧ Shuffle gone log.drained lost ∧
        lost.length = log.dropped) ∧
      log.dropped + log.drained.length + queue.events.length = log.pushed.length ∧
      ∀ event, ∃ pushed,
        ((SessionRun.after calls).queues.push session event).1.queues[session]? = some pushed ∧
          pushed.events.length ≤ max queue.bound queue.events.length) ∧
    (∀ endpoint queue, (EndpointRun.after others).queues.queues[endpoint]? = some queue →
      let log := (EndpointRun.after others).logs endpoint
      log.drained ++ queue.events = log.pushed ∧ queue.events.length ≤ queue.bound) ∧
    (∀ call session, SessionCall.session? call ≠ some session →
      ((SessionRun.after calls).queues.perform call).queues[session]? =
        (SessionRun.after calls).queues.queues[session]?.map call.aside) ∧
    ∀ call endpoint, EndpointCall.endpoint call ≠ endpoint →
      ((EndpointRun.after others).queues.perform call).queues[endpoint]? =
        (EndpointRun.after others).queues.queues[endpoint]? := by
  refine ⟨?_, ?_, fun _ _ elsewhere => SessionQueues.perform_other elsewhere,
    fun _ _ elsewhere => EndpointQueues.perform_other elsewhere⟩
  · intro session queue found
    have keeps := SessionRun.after_sound bounded session queue found
    refine ⟨keeps.accounts, keeps.accounts.balance, fun event => ?_⟩
    refine ⟨queue.gains event, ?_, keeps.length_gains_le event⟩
    rw [SessionQueues.get_push, if_pos rfl, found, Option.map_some]
  · intro endpoint queue found
    have keeps := EndpointRun.after_sound others endpoint queue found
    exact ⟨keeps.accounts.in_order keeps.lossless, keeps.within⟩

namespace DeliverySample

def event (id : UInt8) : BroadcastEvent := (BroadcastSample.call id 0).event

def calls : List SessionCall :=
  [.openQueue "human" 2, .push "human" (event 1), .push "human" (event 2), .setBound 1,
    .push "human" (event 3), .drainUpTo "human" 1]

end DeliverySample

open DeliverySample in
theorem delivery_queues_conserve_sample :
    (SessionRun.after calls).queues.queues["human"]? = some ⟨[event 3], 1⟩ ∧
      ((SessionRun.after calls).logs "human").dropped +
        ((SessionRun.after calls).logs "human").drained.length + 1 = 3 := by
  have found : (SessionRun.after calls).queues.queues["human"]? = some ⟨[event 3], 1⟩ := by
    decide +kernel
  exact ⟨found, ((delivery_queues_conserve calls (by decide) []).1 "human" _ found).2.1⟩

end InterWeave
