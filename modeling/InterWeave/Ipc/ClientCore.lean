import InterWeave.Api.Payload

/-!
`ipc-client::connection`: what the callers, the writer and the reader of one connection share,
and the steps they take on it. Every operation of `Shared` holds its locks throughout, so one
operation is one step.
-/

namespace InterWeave.Ipc

open Std (ExtTreeMap)

inductive EndedBy where
  | writer
  | serverClose
  | reader
  deriving DecidableEq, Repr

/-- A waiting call's sender is written as the number of the call. -/
structure Shared where
  pending : ExtTreeMap String Nat
  ended : Option TransportError
  provisional : Bool
  closing : Bool
  uninvited : Bool

namespace Shared

def default : Shared := ⟨∅, none, false, false, false⟩

variable (shared : Shared)

/-- `Shared::ended`: a writer's provisional end is shown to nobody. -/
def shownEnd : Option TransportError :=
  if shared.provisional then none else shared.ended

def register (id : String) (answer : Nat) : Shared × Except TransportError Unit :=
  match shared.shownEnd with
  | some code => (shared, .error code)
  | none => ({ shared with pending := shared.pending.insert id answer }, .ok ())

def take (id : String) : Shared × Option Nat :=
  ({ shared with pending := shared.pending.erase id }, shared.pending[id]?)

/-- The first half of `Shared::end`: which code is recorded, and as what. -/
def recordEnd (code : TransportError) (clean : Bool) (endedBy : EndedBy) : Shared :=
  match shared.ended with
  | none =>
    { shared with
      uninvited := shared.uninvited || !(clean && shared.closing)
      ended := some code
      provisional := decide (endedBy = .writer) }
  | some _ =>
    if endedBy ≠ .writer ∧ shared.provisional = true then { shared with ended := some code }
    else shared

/-- `Shared::end`, with the calls it answers and the code they are given. -/
def finish (shared : Shared) (code : TransportError) (clean : Bool) (endedBy : EndedBy) :
    Shared × List (Nat × TransportError) :=
  let shared := shared.recordEnd code clean endedBy
  if endedBy ≠ .writer then
    ({ shared with provisional := false, pending := ∅ },
      shared.pending.toList.map fun entry => (entry.2, shared.ended.getD code))
  else (shared, [])

end Shared

inductive ClientEvent (Response : Type) where
  | registered (call : Nat)
  | refused (call : Nat) (code : TransportError)
  | answered (call : Nat) (answer : Except TransportError Response)
  | cancelled (call : Nat)
  | looked (code : Option TransportError)

/-- One connection: the calls so far, those between drawing an id and registering it, those whose
sender was dropped unsent, the response the reader has taken the sender for but not yet sent,
and the reader's own end. -/
structure Client (Response : Type) where
  shared : Shared
  calls : Nat
  drawn : Finset Nat
  dropped : Finset Nat
  hand : Option (Nat × Response)
  readerEnd : Option TransportError
  log : List (ClientEvent Response)

inductive ClientStep (Response : Type) where
  | draw
  | register (call : Nat)
  | cancel (call : Nat)
  | gone (call : Nat)
  | respond (id : String) (response : Response)
  | deliver
  | writerEnd
  | readerEnd (code : TransportError) (clean serverClose : Bool)
  | close
  | look

/-- The id `exchange` formats from its counter, a `u64` that wraps. -/
def requestId (call : Nat) : String :=
  "r" ++ toString (call % 2 ^ 64)

namespace Client

variable {Response : Type}

def new : Client Response := ⟨.default, 0, ∅, ∅, none, none, []⟩

variable (client : Client Response) (call : Nat)

def isRegistered : Bool :=
  client.log.any fun
    | .registered other => other = call
    | _ => false

def isCancelled : Bool :=
  client.log.any fun
    | .cancelled other => other = call
    | _ => false

def readerFree : Bool :=
  client.readerEnd.isNone && client.hand.isNone

def draw : Client Response :=
  { client with calls := client.calls + 1, drawn := insert client.calls client.drawn }

def register (client : Client Response) (call : Nat) : Client Response :=
  if call ∈ client.drawn then
    match client.shared.register (requestId call) call with
    | (shared, .ok ()) =>
      { client with
        shared := shared
        drawn := client.drawn.erase call
        -- The map drops a sender that still stands under the id.
        dropped := client.dropped ∪ client.shared.pending[requestId call]?.toFinset
        log := client.log ++ [.registered call] }
    | (shared, .error code) =>
      { client with
        shared := shared
        drawn := client.drawn.erase call
        log := client.log ++ [.refused call code] }
  else client

/-- `CancelOnDrop`: the caller is dropped while it waits, or returns with an error. -/
def cancel : Client Response :=
  if client.isRegistered call && !client.isCancelled call then
    { client with
      shared := (client.shared.take (requestId call)).1
      dropped := (client.dropped ∪ (client.shared.take (requestId call)).2.toFinset).erase call
      log := client.log ++ [.cancelled call] }
  else client

/-- `Connection::gone`: what a caller is told whose sender was dropped unsent. -/
def gone : Client Response :=
  if call ∈ client.dropped then
    { client with
      dropped := client.dropped.erase call
      log := client.log ++
        [.answered call (.error (client.shared.shownEnd.getD .backendUnavailable))] }
  else client

def respond (id : String) (response : Response) : Client Response :=
  if client.readerFree then
    { client with
      shared := (client.shared.take id).1
      hand := (client.shared.take id).2.map fun call => (call, response) }
  else client

def deliver : Client Response :=
  match client.hand with
  | none => client
  | some (call, response) =>
    { client with hand := none, log := client.log ++ [.answered call (.ok response)] }

def writerEnds : Client Response :=
  { client with shared := (client.shared.finish .backendUnavailable false .writer).1 }

def readerEnds (code : TransportError) (clean serverClose : Bool) : Client Response :=
  if client.readerFree then
    let (shared, answers) := client.shared.finish code clean
      (if serverClose then .serverClose else .reader)
    { client with
      shared := shared
      readerEnd := some code
      log := client.log ++ answers.map fun answer => .answered answer.1 (.error answer.2) }
  else client

def close : Client Response :=
  { client with shared := { client.shared with closing := true } }

def look : Client Response :=
  { client with log := client.log ++ [.looked client.shared.shownEnd] }

def step : ClientStep Response → Client Response
  | .draw => client.draw
  | .register call => client.register call
  | .cancel call => client.cancel call
  | .gone call => client.gone call
  | .respond id response => client.respond id response
  | .deliver => client.deliver
  | .writerEnd => client.writerEnds
  | .readerEnd code clean serverClose => client.readerEnds code clean serverClose
  | .close => client.close
  | .look => client.look

def run (steps : List (ClientStep Response)) : Client Response :=
  steps.foldl step client

end Client

end InterWeave.Ipc
