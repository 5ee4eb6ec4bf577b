import InterWeave.Api.Status
import InterWeave.Api.Trust
import InterWeave.Lib.OrderStat
import InterWeave.Lib.OrderedMap
import InterWeave.Lib.Saturating
import InterWeave.Runtime.ProbeAddress

/-!
`runtime::reachability`: the verdict on direct reachability, derived from what probe servers
said about each candidate address.
-/

namespace InterWeave.Reachability

open Std (ExtTreeMap)
open Saturating

def maxTrackedCandidates : Nat := 64

def maxServers : Nat := PeerTrustPolicy.maxAllowedPeers + InfrastructureSet.maxAllowedPeers

structure Config where
  requiredDistinctSuccesses : Nat := 2
  successEvidenceTtlMs : Nat := 900000

inductive ReachabilityError where
  | zeroBound (field : String)
  deriving DecidableEq, Repr

inductive RefusedReport where
  | unknownServer
  | untrackedAddress
  deriving DecidableEq, Repr

inductive Verdict where
  | unknown
  | verifiedPublic (verifiedAddresses : List String) (evidenceUntilMs : Nat)
  | notVerified (lastFailureAtMs : Option Nat)
  deriving DecidableEq, Repr

def Verdict.state : Verdict → DirectInboundState
  | .unknown => .unknown
  | .verifiedPublic _ _ => .verifiedPublic
  | .notVerified _ => .notVerified

def Verdict.verifiedAddresses : Verdict → List String
  | .verifiedPublic addresses _ => addresses
  | _ => []

structure ConnectivityChanged where
  before : Verdict
  after : Verdict
  deriving DecidableEq, Repr

def change (before after : Verdict) : Option ConnectivityChanged :=
  if before.state = after.state ∧
      before.verifiedAddresses.toFinset = after.verifiedAddresses.toFinset then none
  else some ⟨before, after⟩

inductive ProbeOutcome where
  | reachable
  | unreachable
  deriving DecidableEq, Repr

inductive ServerSource where
  | static
  | identify
  deriving DecidableEq, Repr

structure Evidence where
  successAtMs : Option Nat := none
  failureAtMs : Option Nat := none
  deriving DecidableEq, Repr

namespace Evidence

variable (evidence : Evidence) (ttl now : Nat)

def freshSuccess : Option Nat :=
  evidence.successAtMs.filter fun time => add64 time ttl > now

def freshFailure : Option Nat :=
  evidence.failureAtMs.filter fun time => add64 time ttl > now

def isFresh : Bool :=
  (evidence.freshSuccess ttl now).isSome || (evidence.freshFailure ttl now).isSome

def saysReachable : Bool :=
  (evidence.freshSuccess ttl now).isSome && (evidence.freshFailure ttl now).isNone

def isReversed : Bool :=
  (evidence.freshSuccess ttl now).isSome && (evidence.freshFailure ttl now).isSome

def saysUnreachable : Bool :=
  (evidence.freshFailure ttl now).isSome

end Evidence

@[ext]
structure EvidenceKey where
  address : String
  server : TransportIdentity

instance : LinearOrder EvidenceKey :=
  LinearOrder.lift' (fun key => toLex (key.address, key.server)) fun _ _ same =>
    EvidenceKey.ext (congrArg (fun pair => (ofLex pair).1) same)
      (congrArg (fun pair => (ofLex pair).2) same)

abbrev EvidenceMap := ExtTreeMap EvidenceKey Evidence

def voices (evidence : EvidenceMap) (address : String) : List (TransportIdentity × Evidence) :=
  evidence.toList.filterMap fun entry =>
    if entry.1.address = address then some (entry.1.server, entry.2) else none

structure Tally where
  sayingReachable : Finset TransportIdentity
  reversed : Finset TransportIdentity
  sayingUnreachable : Finset TransportIdentity
  lastUncontradicted : Nat
  quorumExpiries : List Nat

def serversWhere (test : Evidence → Bool) (voices : List (TransportIdentity × Evidence)) :
    Finset TransportIdentity :=
  (voices.filterMap fun voice => if test voice.2 then some voice.1 else none).toFinset

def Evidence.expiry (evidence : Evidence) (ttl now : Nat) : Option Nat :=
  (evidence.freshSuccess ttl now).map fun time => add64 time ttl

def tally (evidence : EvidenceMap) (ttl now : Nat) (address : String) : Tally where
  sayingReachable := serversWhere (·.saysReachable ttl now) (voices evidence address)
  reversed := serversWhere (·.isReversed ttl now) (voices evidence address)
  sayingUnreachable := serversWhere (·.saysUnreachable ttl now) (voices evidence address)
  lastUncontradicted := ((voices evidence address).filterMap fun voice =>
    if voice.2.saysReachable ttl now then voice.2.expiry ttl now else none).foldl max 0
  quorumExpiries := (voices evidence address).filterMap fun voice => voice.2.expiry ttl now

namespace Tally

def isVerified (tally : Tally) (threshold : Nat) (previously : Bool) : Bool :=
  let meetsThreshold := threshold ≤ tally.sayingReachable.card
  let holds := previously ∧ tally.sayingReachable ≠ ∅ ∧
    threshold ≤ tally.sayingReachable.card + tally.reversed.card
  (meetsThreshold ∨ holds) ∧ tally.sayingUnreachable.card < 2

def horizon (tally : Tally) (threshold : Nat) : Nat :=
  min (OrderStat.nthLargest tally.quorumExpiries (min threshold tally.quorumExpiries.length))
    tally.lastUncontradicted

end Tally

structure Manager where
  config : Config
  candidates : List String := []
  rejectedCandidates : Nat := 0
  truncatedCandidates : Nat := 0
  servers : ExtTreeMap TransportIdentity ServerSource := ∅
  evidence : EvidenceMap := ∅
  state : Verdict := .unknown

namespace Manager

def new (config : Config) : Except ReachabilityError Manager :=
  if config.requiredDistinctSuccesses = 0 then .error (.zeroBound "required_distinct_successes")
  else if config.successEvidenceTtlMs = 0 then .error (.zeroBound "success_evidence_ttl_ms")
  else .ok { config := config }

variable (manager : Manager) (server : TransportIdentity) (now : Nat) (address : String)

def tallyOf : Tally :=
  tally manager.evidence manager.config.successEvidenceTtlMs now address

def isVerifiedAt : Bool :=
  (manager.tallyOf now address).isVerified manager.config.requiredDistinctSuccesses
    (address ∈ manager.state.verifiedAddresses)

def freshFailures : List Nat :=
  manager.candidates.flatMap fun address =>
    (voices manager.evidence address).filterMap fun voice =>
      voice.2.freshFailure manager.config.successEvidenceTtlMs now

def derive : Verdict :=
  let verified := manager.candidates.filter fun address => manager.isVerifiedAt now address
  let evidenceUntil := (verified.map fun address =>
    (manager.tallyOf now address).horizon manager.config.requiredDistinctSuccesses).foldl min
      u64Max
  if verified ≠ [] then .verifiedPublic verified evidenceUntil
  else
    match manager.freshFailures now with
    | [] => .unknown
    | first :: rest => .notVerified (some (rest.foldl max first))

def prune : Manager :=
  { manager with evidence := manager.evidence.filter fun _ evidence =>
      evidence.isFresh manager.config.successEvidenceTtlMs now }

def rederived : Manager :=
  { manager.prune now with state := (manager.prune now).derive now }

def rederive : Manager × Option ConnectivityChanged :=
  (manager.rederived now, change manager.state (manager.rederived now).state)

structure Intake where
  accepted : List String := []
  seen : Finset String := ∅
  rejected : Nat := 0
  truncated : Nat := 0

def Intake.take (text : Ip.Text) (intake : Intake) (address : String) : Intake :=
  if ¬isProbeableAddress text address then { intake with rejected := intake.rejected + 1 }
  else if address ∈ intake.seen then intake
  else if intake.accepted.length < maxTrackedCandidates then
    { intake with accepted := intake.accepted ++ [address], seen := insert address intake.seen }
  else { intake with truncated := intake.truncated + 1, seen := insert address intake.seen }

def withCandidates (intake : Intake) : Manager :=
  { manager with
    rejectedCandidates := intake.rejected
    truncatedCandidates := intake.truncated
    candidates := intake.accepted
    evidence := manager.evidence.filter fun key _ => decide (key.address ∈ intake.accepted) }

def setCandidates (text : Ip.Text) (manager : Manager) (addresses : List String) (now : Nat) :
    Manager × Option ConnectivityChanged :=
  (manager.withCandidates (addresses.foldl (Intake.take text) {})).rederive now

def addServer (source : ServerSource) : Manager × Bool :=
  if server ∉ manager.servers ∧ manager.servers.size ≥ maxServers then (manager, false)
  else
    let slot := match manager.servers[server]? with
      | some .static => .static
      | some .identify | none => source
    ({ manager with servers := manager.servers.insert server slot }, true)

def withoutServer : Manager :=
  { manager with
    servers := manager.servers.erase server
    evidence := manager.evidence.filter fun key _ => decide (key.server ≠ server) }

def removeServer : Manager × Option ConnectivityChanged :=
  (manager.withoutServer server).rederive now

end Manager

def Evidence.heard (evidence : Evidence) (outcome : ProbeOutcome) (now : Nat) : Evidence :=
  match outcome with
  | .reachable => ⟨some now, none⟩
  | .unreachable =>
    { evidence with failureAtMs := some (match evidence.successAtMs with
      | some success => max success now
      | none => now) }

namespace Manager

variable (manager : Manager)

def hear (address : String) (server : TransportIdentity) (outcome : ProbeOutcome) (now : Nat) :
    Manager :=
  let key : EvidenceKey := ⟨address, server⟩
  let entry := manager.evidence[key]?.getD {}
  { manager with evidence := manager.evidence.insert key (entry.heard outcome now) }

def recordOutcome (address : String) (server : TransportIdentity) (outcome : ProbeOutcome)
    (now : Nat) :
    Manager × Except RefusedReport (Option ConnectivityChanged) :=
  if server ∉ manager.servers then (manager, .error .unknownServer)
  else if address ∉ manager.candidates then (manager, .error .untrackedAddress)
  else
    let answer := (manager.hear address server outcome now).rederive now
    (answer.1, .ok answer.2)

def expireEvidence (now : Nat) : Manager × Option ConnectivityChanged :=
  manager.rederive now

def networkChanged : Manager × Option ConnectivityChanged :=
  ({ manager with evidence := ∅, state := .unknown }, change manager.state .unknown)

end Manager

inductive Call where
  | setCandidates (addresses : List String) (now : Nat)
  | addServer (server : TransportIdentity) (source : ServerSource)
  | removeServer (server : TransportIdentity) (now : Nat)
  | recordOutcome (address : String) (server : TransportIdentity) (outcome : ProbeOutcome)
      (now : Nat)
  | expireEvidence (now : Nat)
  | networkChanged

structure Report where
  address : String
  server : TransportIdentity
  outcome : ProbeOutcome
  time : Nat

/-- A manager, the reports it took that nothing has withdrawn since, newest first, and the latest
time it derived a verdict at. -/
structure Run where
  manager : Manager
  reports : List Report := []
  clock : Nat := 0

namespace Run

def step (text : Ip.Text) (run : Run) : Call → Run
  | .setCandidates addresses now =>
    let manager := (run.manager.setCandidates text addresses now).1
    ⟨manager, run.reports.filter fun report => report.address ∈ manager.candidates,
      max run.clock now⟩
  | .addServer server source => { run with manager := (run.manager.addServer server source).1 }
  | .removeServer server now =>
    ⟨(run.manager.removeServer server now).1,
      run.reports.filter fun report => report.server ≠ server,
      max run.clock now⟩
  | .recordOutcome address server outcome now =>
    match run.manager.recordOutcome address server outcome now with
    | (manager, .ok _) =>
      ⟨manager, ⟨address, server, outcome, now⟩ :: run.reports, max run.clock now⟩
    | (manager, .error _) => { run with manager := manager }
  | .expireEvidence now =>
    { run with manager := (run.manager.expireEvidence now).1, clock := max run.clock now }
  | .networkChanged => { run with manager := run.manager.networkChanged.1, reports := [] }

def runCalls (text : Ip.Text) (manager : Manager) (calls : List Call) : Run :=
  calls.foldl (step text) { manager := manager }

def lastWord (run : Run) (address : String) (server : TransportIdentity) : Option Report :=
  run.reports.find? fun report => report.address = address ∧ report.server = server

end Run

def Call.derivesAt (manager : Manager) : Call → Option Nat
  | .setCandidates _ now | .removeServer _ now | .expireEvidence now => some now
  | .recordOutcome address server _ now =>
    if server ∈ manager.servers ∧ address ∈ manager.candidates then some now else none
  | .addServer _ _ | .networkChanged => none

end InterWeave.Reachability
