import InterWeave.Lib.Extremum
import InterWeave.Lib.FixedWindow
import InterWeave.Lib.Ip
import InterWeave.Lib.OrderedMap
import InterWeave.Lib.Saturating

/-!
`runtime::preauth`: the gate that bounds unauthenticated handshakes by source and in total.
-/

namespace InterWeave

open Std (ExtTreeMap)
open Saturating

def maxSourceBytes : Nat := 128
def maxConfiguredLimit : Nat := 65536
def maxConfiguredAttempts : Nat := 60000
def maxConfiguredDurationMs : Nat := 3600000

/-- The key a source is accounted under: a v4 address, the /64 of a v6 one, any other text
as it is. -/
def sourceBucket (text : Ip.Text) (source : String) : String :=
  match (text.parseSocket source).or (text.parse source) with
  | none => source
  | some (.v4 bits) => text.showV4 bits
  | some (.v6 bits) =>
    match Ip.toIpv4Mapped bits with
    | some mapped => text.showV4 mapped
    | none => text.showV6 (Ip.network64 bits) ++ "/64"

structure PreAuthLimitsBuilder where
  maxPendingTotal : Nat := 64
  maxPendingPerSource : Nat := 8
  handshakeTimeoutMs : Nat := 10000
  maxSources : Nat := 256
  rateWindowMs : Nat := 60000
  maxAttemptsPerWindow : Nat := 30
  maxGlobalAttemptsPerWindow : Nat := 600
  deriving DecidableEq, Repr

def WithinLimit (value most : Nat) : Prop := 0 < value ∧ value ≤ most

instance (value most : Nat) : Decidable (WithinLimit value most) := by
  unfold WithinLimit; infer_instance

/-- The limits that `PreAuthLimitsBuilder::build` accepts. -/
structure PreAuthLimits extends PreAuthLimitsBuilder where
  pendingTotal : WithinLimit maxPendingTotal maxConfiguredLimit
  pendingPerSource : WithinLimit maxPendingPerSource maxConfiguredLimit
  sources : WithinLimit maxSources maxConfiguredLimit
  handshakeTimeout : WithinLimit handshakeTimeoutMs maxConfiguredDurationMs
  rateWindow : WithinLimit rateWindowMs maxConfiguredDurationMs
  attempts : WithinLimit maxAttemptsPerWindow maxConfiguredAttempts
  globalAttempts : WithinLimit maxGlobalAttemptsPerWindow maxConfiguredAttempts
  pendingOrder : maxPendingPerSource ≤ maxPendingTotal
  attemptsOrder : maxAttemptsPerWindow ≤ maxGlobalAttemptsPerWindow

inductive PreAuthDenial where
  | tooManyPending
  | tooManyFromSource
  | rateLimited
  | globallyRateLimited
  | sourceNotAccountable
  | noAccountingCapacity
  | shuttingDown
  deriving DecidableEq, Repr

structure HandshakeSlot where
  source : String
  id : Nat
  startedAtMs : Nat
  deriving DecidableEq, Repr

structure SourceState where
  pending : ExtTreeMap Nat Nat := ∅
  windowStartMs : Nat := 0
  attemptsInWindow : Nat := 0
  lastTouchedMs : Nat := 0

namespace SourceState

def isLiveAt (state : SourceState) (now window : Nat) : Bool :=
  !state.pending.isEmpty || now < add64 state.windowStartMs window

def restartWindow (state : SourceState) (now window : Nat) : SourceState :=
  if now ≥ add64 state.windowStartMs window then
    { state with windowStartMs := now, attemptsInWindow := 0 }
  else state

end SourceState

structure PreAuthGate where
  limits : PreAuthLimits
  sources : ExtTreeMap String SourceState := ∅
  pendingTotal : Nat := 0
  nextId : Nat := 0
  globalWindowStartMs : Nat := 0
  globalAttemptsInWindow : Nat := 0
  shuttingDown : Bool := false

namespace PreAuthGate

def new (limits : PreAuthLimits) : PreAuthGate := { limits := limits }

variable (gate : PreAuthGate) (source : String) (now : Nat)

def restartGlobalWindow : PreAuthGate :=
  if now ≥ add64 gate.globalWindowStartMs gate.limits.rateWindowMs then
    { gate with globalWindowStartMs := now, globalAttemptsInWindow := 0 }
  else gate

def makeRoomForSource : PreAuthGate × Bool :=
  if gate.sources.size < gate.limits.maxSources then (gate, true)
  else
    match Extremum.minByKey (fun entry => entry.2.lastTouchedMs)
        (gate.sources.toList.filter fun entry =>
          !entry.2.isLiveAt now gate.limits.rateWindowMs) with
    | some victim => ({ gate with sources := gate.sources.erase victim.1 }, true)
    | none => (gate, false)

/-- A handshake of `source` is in flight, counted in every place. -/
def charged (state : SourceState) (now : Nat) : PreAuthGate :=
  { gate with
    sources := gate.sources.insert source
      { state with
        attemptsInWindow := add32 state.attemptsInWindow 1
        lastTouchedMs := now
        pending := state.pending.insert gate.nextId now }
    globalAttemptsInWindow := add32 gate.globalAttemptsInWindow 1
    nextId := add64 gate.nextId 1
    pendingTotal := add64 gate.pendingTotal 1 }

/-- The end of the Rust `admit`, on the entry of a source there is room for. -/
def chargeSource : PreAuthGate × Except PreAuthDenial HandshakeSlot :=
  let state := gate.sources[source]?.getD {}
  if state.pending.size ≥ gate.limits.maxPendingPerSource then
    ({ gate with sources := gate.sources.insert source state }, .error .tooManyFromSource)
  else
    let state := state.restartWindow now gate.limits.rateWindowMs
    if state.attemptsInWindow ≥ gate.limits.maxAttemptsPerWindow then
      ({ gate with sources := gate.sources.insert source state }, .error .rateLimited)
    else
      (gate.charged source state now, .ok ⟨source, gate.nextId, now⟩)

def admitHandshake (text : Ip.Text) (gate : PreAuthGate) (source : String) (now : Nat) :
    PreAuthGate × Except PreAuthDenial HandshakeSlot :=
  let source := sourceBucket text source
  if gate.shuttingDown then (gate, .error .shuttingDown)
  else if source.utf8ByteSize = 0 ∨ source.utf8ByteSize > maxSourceBytes then
    (gate, .error .sourceNotAccountable)
  else if gate.pendingTotal ≥ gate.limits.maxPendingTotal then (gate, .error .tooManyPending)
  else
    let gate := gate.restartGlobalWindow now
    if gate.globalAttemptsInWindow ≥ gate.limits.maxGlobalAttemptsPerWindow then
      (gate, .error .globallyRateLimited)
    else if source ∈ gate.sources then gate.chargeSource source now
    else
      match gate.makeRoomForSource now with
      | (gate, false) => (gate, .error .noAccountingCapacity)
      | (gate, true) => gate.chargeSource source now

def completed (slot : HandshakeSlot) : PreAuthGate :=
  match gate.sources[slot.source]? with
  | none => gate
  | some state =>
    if slot.id ∈ state.pending then
      { gate with
        sources := gate.sources.insert slot.source
          { state with pending := state.pending.erase slot.id }
        pendingTotal := gate.pendingTotal - 1 }
    else gate

def pendingOf : ExtTreeMap Nat Nat :=
  (gate.sources[source]?.getD {}).pending

def spentBy (time : Nat) : Nat :=
  ((gate.sources[source]?.getD {}).restartWindow time gate.limits.rateWindowMs).attemptsInWindow

def globallySpent (time : Nat) : Nat :=
  (gate.restartGlobalWindow time).globalAttemptsInWindow

end PreAuthGate

inductive PreAuthCall where
  | handshake (source : String) (now : Nat)
  | completed (slot : HandshakeSlot)
  | setShuttingDown (draining : Bool)

def PreAuthCall.time : PreAuthCall → Option Nat
  | .handshake _ now => some now
  | _ => none

/-- An admitted handshake, with the starts of the two windows it was charged to. -/
structure HandshakeAdmission where
  source : String
  time : Nat
  sourceWindow : Nat
  globalWindow : Nat

structure PreAuthRun where
  gate : PreAuthGate
  admitted : List HandshakeAdmission := []

namespace PreAuthRun

def step (text : Ip.Text) (run : PreAuthRun) : PreAuthCall → PreAuthRun
  | .handshake source now =>
    match run.gate.admitHandshake text source now with
    | (gate, .error _) => { run with gate := gate }
    | (gate, .ok slot) =>
      ⟨gate, ⟨slot.source, now, (gate.sources[slot.source]?.getD {}).windowStartMs,
        gate.globalWindowStartMs⟩ :: run.admitted⟩
  | .completed slot => { run with gate := run.gate.completed slot }
  | .setShuttingDown draining =>
    { run with gate := { run.gate with shuttingDown := draining } }

def runCalls (text : Ip.Text) (limits : PreAuthLimits) (calls : List PreAuthCall) : PreAuthRun :=
  calls.foldl (step text) { gate := .new limits }

def callTimes (calls : List PreAuthCall) : List Nat := calls.filterMap PreAuthCall.time

def sourceCharges (run : PreAuthRun) (source : String) : List FixedWindow.Charge :=
  (run.admitted.filter fun admission => admission.source = source).map fun admission =>
    ⟨admission.time, admission.sourceWindow⟩

def globalCharges (run : PreAuthRun) : List FixedWindow.Charge :=
  run.admitted.map fun admission => ⟨admission.time, admission.globalWindow⟩

end PreAuthRun

end InterWeave
