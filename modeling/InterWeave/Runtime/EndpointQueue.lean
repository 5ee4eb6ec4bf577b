import InterWeave.Api.Payload
import InterWeave.Lib.Saturating

/-!
`runtime::endpoint_queue`: one bounded queue of direct events for each leased
endpoint. A queue exists only between `open` and `close`.
-/

namespace InterWeave

open Std (ExtTreeMap)

structure DirectEvent where
  sourcePeer : TransportIdentity
  sourceEndpoint : EndpointId
  destinationEndpoint : EndpointId
  messageId : MessageId
  payload : Payload
  receivedAt : Nat
  deriving DecidableEq

inductive QueueRefusal where
  | full (bound : Nat)
  | notOpen
  deriving DecidableEq, Repr

structure Queue where
  events : List DirectEvent
  bound : Nat
  deriving DecidableEq

structure EndpointQueues where
  queues : ExtTreeMap EndpointId Queue

namespace EndpointQueues

def new : EndpointQueues := ⟨∅⟩

variable (queues : EndpointQueues) (endpoint : EndpointId)

def openQueue (bound : Nat) : EndpointQueues :=
  ⟨queues.queues.insert endpoint ⟨[], max bound 1⟩⟩

def close : EndpointQueues × Nat :=
  (⟨queues.queues.erase endpoint⟩,
    match queues.queues[endpoint]? with
    | none => 0
    | some queue => queue.events.length)

def push (event : DirectEvent) : EndpointQueues × Except QueueRefusal Unit :=
  match queues.queues[event.destinationEndpoint]? with
  | none => (queues, .error .notOpen)
  | some queue =>
    if queue.events.length ≥ queue.bound then (queues, .error (.full queue.bound))
    else
      (⟨queues.queues.insert event.destinationEndpoint
          { queue with events := queue.events ++ [event] }⟩, .ok ())

def drainUpTo (limit : Nat) : EndpointQueues × List DirectEvent :=
  match queues.queues[endpoint]? with
  | none => (queues, [])
  | some queue =>
    (⟨queues.queues.insert endpoint { queue with events := queue.events.drop limit }⟩,
      queue.events.take limit)

def drain : EndpointQueues × List DirectEvent :=
  queues.drainUpTo endpoint Saturating.u64Max

theorem push_cases (event : DirectEvent) :
    (∃ refusal, queues.push event = (queues, .error refusal)) ∨
      ∃ queue, queues.queues[event.destinationEndpoint]? = some queue ∧
        queue.events.length < queue.bound ∧
        queues.push event = (⟨queues.queues.insert event.destinationEndpoint
          { queue with events := queue.events ++ [event] }⟩, .ok ()) := by
  unfold push
  cases found : queues.queues[event.destinationEndpoint]? with
  | none => exact .inl ⟨_, rfl⟩
  | some queue =>
    by_cases full : queue.events.length ≥ queue.bound
    · exact .inl ⟨.full queue.bound, by simp [full]⟩
    · exact .inr ⟨queue, rfl, by omega, by simp [full]⟩

end EndpointQueues

end InterWeave
