import InterWeave.Api.Identity
import InterWeave.Lib.SlidingWindow
import InterWeave.Runtime.ProbeAddress

/-!
`libp2p::probe_server`: the AutoNAT server behind its dial-back target rule and its three
budgets, around the vendored `autonat::v2::server::Behaviour`, and the part of the Swarm that
drives the two.
-/

namespace InterWeave.Probe

open Std (ExtTreeMap ExtTreeSet)

abbrev ConnectionId := Nat

def rateWindowMs : Nat := 60000
def inFlightHorizonMs : Nat := 60000
def maxPendingEvents : Nat := 64
def maxDecided : Nat := 64

structure ProbeBudgets where
  maxConcurrent : Nat := 8
  perClientPerMinute : Nat := 2
  globalPerMinute : Nat := 60
  deriving DecidableEq, Repr

inductive ProbeRefusal where
  | concurrentProbes
  | clientRate
  | globalRate
  | noAddress
  | notLiteralIp
  | sourceMismatch
  | sourceUnknown
  | notGlobal
  | unexpectedDial
  | refusedByGate
  deriving DecidableEq, Repr

inductive Protocol where
  | ip4 (bits : BitVec 32)
  | ip6 (bits : BitVec 128)
  | other (written : String)
  deriving DecidableEq, Repr

structure Multiaddr where
  components : List Protocol
  deriving DecidableEq, Repr

def Protocol.toString (text : Ip.Text) : Protocol → String
  | .ip4 bits => "/ip4/" ++ text.showV4 bits
  | .ip6 bits => "/ip6/" ++ text.showV6 bits
  | .other written => written

def Multiaddr.toString (text : Ip.Text) (address : Multiaddr) : String :=
  String.join (address.components.map (Protocol.toString text))

def literalIp (address : Multiaddr) : Option Ip.Address :=
  match address.components with
  | .ip4 bits :: _ => some (.v4 bits)
  | .ip6 bits :: _ => some (.v6 bits)
  | _ => none

inductive DialBackOutcome where
  | ok
  | dialError
  | dialBackError
  | notDialled
  deriving DecidableEq, Repr

/-- The crate's event on a finished request; `delivered` is its `result.is_ok()`. -/
structure Report where
  testedAddr : Multiaddr
  client : TransportIdentity
  dataAmount : Nat
  delivered : Bool
  dialBack : DialBackOutcome

structure DialOpts where
  connectionId : ConnectionId
  peerId : Option TransportIdentity
  addresses : List Multiaddr
  deriving DecidableEq

inductive Issued where
  | dial (opts : DialOpts)
  | report (event : Report)

structure Server where
  dialingDialBack : ExtTreeMap ConnectionId Multiaddr := ∅
  pendingEvents : List Issued := []

/-- What a connection handler says; a command comes with the id of the dial built for it. -/
inductive HandlerEvent where
  | command (addr : Multiaddr) (dial : ConnectionId)
  | statusUpdate (report : Report)
  | dialBackDone

namespace Server

variable (server : Server)

def onConnectionHandlerEvent (peer : TransportIdentity) : HandlerEvent → Server
  | .command addr dial =>
    { dialingDialBack := server.dialingDialBack.insert dial addr
      pendingEvents := server.pendingEvents ++ [.dial ⟨dial, some peer, [addr]⟩] }
  | .statusUpdate report =>
    { server with pendingEvents := server.pendingEvents ++ [.report report] }
  | .dialBackDone => server

def onDialFailure (id : ConnectionId) : Server :=
  { server with dialingDialBack := server.dialingDialBack.erase id }

def onEstablishedOutbound (id : ConnectionId) : Server :=
  { server with dialingDialBack := server.dialingDialBack.erase id }

end Server

inductive ServedOutcome where
  | ok
  | failed
  | unrecorded
  deriving DecidableEq, Repr

inductive Decision where
  | refused
  | dialFailed
  | refusedByGate
  | reached
  deriving DecidableEq, Repr

inductive ProbeServerEvent where
  | served (client : TransportIdentity) (address : Multiaddr) (outcome : ServedOutcome)
      (reached : Bool) (dataAmount : Nat)
  | refused (client : TransportIdentity) (address : Option Multiaddr) (reason : ProbeRefusal)
  deriving DecidableEq

structure ProbeCounters where
  servedOk : Nat := 0
  servedFailed : Nat := 0
  servedUnrecorded : Nat := 0
  refused : ProbeRefusal → Nat := fun _ => 0
  eventsDropped : Nat := 0

def ProbeCounters.count (counters : ProbeCounters) (reason : ProbeRefusal) : ProbeCounters :=
  { counters with
    refused := fun other => counters.refused other + if reason = other then 1 else 0 }

structure InFlight where
  client : TransportIdentity
  request : ConnectionId
  startedMs : Nat

structure Decided where
  client : TransportIdentity
  address : Option Multiaddr
  decision : Decision

structure ProbeServer where
  inner : Server := {}
  budgets : ProbeBudgets
  clockMs : Nat := 0
  sources : ExtTreeMap ConnectionId (TransportIdentity × Ip.Address) := ∅
  awaitingDial : List InFlight := []
  inFlight : ExtTreeMap ConnectionId InFlight := ∅
  perClient : ExtTreeMap TransportIdentity (List Nat) := ∅
  global : List Nat := []
  decided : List Decided := []
  targets : ExtTreeMap ConnectionId Multiaddr := ∅
  pending : List ProbeServerEvent := []
  counters : ProbeCounters := {}

inductive Polled where
  | event (event : ProbeServerEvent)
  | dial (opts : DialOpts)
  | pending

namespace ProbeServer

def new (budgets : ProbeBudgets) : ProbeServer := { budgets := budgets }

variable (server : ProbeServer) (text : Ip.Text) (client : TransportIdentity) (id : ConnectionId)

def flights : Nat := server.awaitingDial.length + server.inFlight.size

open SlidingWindow

def pruneWindows : ProbeServer :=
  { server with
    global := prune rateWindowMs server.clockMs server.global
    perClient := if server.clockMs < rateWindowMs then server.perClient else
      (server.perClient.map fun _ starts =>
        prune rateWindowMs server.clockMs starts).filter
          fun _ starts => !starts.isEmpty }

def tick (now : Nat) : ProbeServer :=
  let pruned := { server with clockMs := max server.clockMs now }.pruneWindows
  let horizon := pruned.clockMs - inFlightHorizonMs
  let flying := pruned.inFlight.filter fun _ flight => horizon ≤ flight.startedMs
  { pruned with
    inFlight := flying
    targets := pruned.targets.filter fun id _ => id ∈ flying
    awaitingDial := pruned.awaitingDial.filter fun flight => horizon ≤ flight.startedMs }

def refuse (address : Option Multiaddr) (reason : ProbeRefusal) : ProbeServer :=
  let counters := server.counters.count reason
  if maxPendingEvents ≤ server.pending.length then
    { server with counters := { counters with eventsDropped := counters.eventsDropped + 1 } }
  else
    { server with
      counters := counters
      pending := server.pending ++ [.refused client address reason] }

def decide (address : Option Multiaddr) (decision : Decision) : ProbeServer :=
  let kept := if maxDecided ≤ server.decided.length then server.decided.tail else server.decided
  { server with decided := kept ++ [⟨client, address, decision⟩] }

/-- Charges a start against all three budgets, or says which one refuses it. -/
def admitStart : ProbeServer × Except ProbeRefusal Unit :=
  let pruned := server.pruneWindows
  let mine := (pruned.perClient[client]?.getD []).length
  if pruned.budgets.maxConcurrent ≤ pruned.flights then (pruned, .error .concurrentProbes)
  else if pruned.budgets.perClientPerMinute ≤ mine then (pruned, .error .clientRate)
  else if pruned.budgets.globalPerMinute ≤ pruned.global.length then (pruned, .error .globalRate)
  else
    let starts := pruned.perClient[client]?.getD [] ++ [pruned.clockMs]
    ({ pruned with
        global := pruned.global ++ [pruned.clockMs]
        perClient := pruned.perClient.insert client starts },
      .ok ())

def checkAddress (source : Ip.Address) (address : Multiaddr) : Except ProbeRefusal Unit :=
  match literalHost text (address.toString text) with
  | none => .error .notLiteralIp
  | some ip =>
    if ip ≠ source then .error .sourceMismatch
    else if !isProbeableAddress text (address.toString text) then .error .notGlobal
    else .ok ()

def checkTarget (flight : InFlight) (addresses : List Multiaddr) : Except ProbeRefusal Unit :=
  if addresses.isEmpty then .error .noAddress
  else
    match server.sources[flight.request]? with
    | none => .error .sourceUnknown
    | some (_, source) => addresses.forM (checkAddress text source)

def handleEstablishedInboundConnection (peer : TransportIdentity) (remote : Multiaddr) :
    ProbeServer :=
  match literalIp remote with
  | some ip => { server with sources := server.sources.insert id (peer, ip) }
  | none => server

/-- Takes a dial-back out of flight, with the target it was let through to. -/
def land : ProbeServer :=
  { server with inFlight := server.inFlight.erase id, targets := server.targets.erase id }

def handleEstablishedOutboundConnection : ProbeServer :=
  let decided := match server.inFlight[id]? with
    | some flight => (server.land id).decide flight.client server.targets[id]? .reached
    | none => server
  { decided with inner := decided.inner.onEstablishedOutbound id }

def handlePendingOutboundConnection (addresses : List Multiaddr) :
    ProbeServer × Except ProbeRefusal Unit :=
  match server.inFlight[id]? with
  | none => (server, .ok ())
  | some flight =>
    let target := addresses.head?
    match server.checkTarget text flight addresses with
    | .error reason =>
      let grounded := { server with inFlight := server.inFlight.erase id }
      ((grounded.decide flight.client target .refused).refuse flight.client target reason,
        .error reason)
    | .ok () =>
      match target with
      | some target => ({ server with targets := server.targets.insert id target }, .ok ())
      | none => (server, .ok ())

def onConnectionClosed : ProbeServer :=
  { server with sources := server.sources.erase id }

def onDialFailure (server : ProbeServer) (id : ConnectionId) (denied : Bool) : ProbeServer :=
  let decided := match server.inFlight[id]? with
    | none => server
    | some flight =>
      let target := server.targets[id]?
      if denied then
        ((server.land id).decide flight.client target .refusedByGate).refuse flight.client
          target .refusedByGate
      else (server.land id).decide flight.client target .dialFailed
  { decided with inner := decided.inner.onDialFailure id }

def onConnectionHandlerEvent (server : ProbeServer) (peer : TransportIdentity)
    (id : ConnectionId) (event : HandlerEvent) : ProbeServer :=
  let forward := fun server : ProbeServer =>
    { server with inner := server.inner.onConnectionHandlerEvent peer event }
  match event with
  | .command _ _ =>
    match server.admitStart peer with
    | (charged, .ok ()) =>
      forward
        { charged with
          awaitingDial := charged.awaitingDial ++ [⟨peer, id, charged.clockMs⟩] }
    | (charged, .error reason) =>
      (charged.decide peer none .refused).refuse peer none reason
  | _ => forward server

/-- A dial that no request at the front of the queue accounts for. -/
def refuseDial (opts : DialOpts) (front : Option InFlight) : ProbeServer :=
  let counted := match opts.peerId.or (front.map InFlight.client) with
    | some client => server.refuse client none .unexpectedDial
    | none => { server with counters := server.counters.count .unexpectedDial }
  { counted with inner := counted.inner.onDialFailure opts.connectionId }

/-- The oldest decision on a report: of its client and address, else of its client alone. -/
def decisionIndex (event : Report) : Option Nat :=
  (server.decided.findIdx? fun kept =>
    kept.client = event.client ∧ kept.address = some event.testedAddr).or
      (server.decided.findIdx? fun kept => kept.client = event.client ∧ kept.address = none)

def served (server : ProbeServer) (event : Report) : ProbeServer × Option ProbeServerEvent :=
  let index := server.decisionIndex event
  let decision := index.bind fun index => server.decided[index]?.map Decided.decision
  let read := match index with
    | some index => { server with decided := server.decided.eraseIdx index }
    | none => server
  let counters := read.counters
  let report := fun outcome =>
    some (ProbeServerEvent.served event.client event.testedAddr outcome
      (decision = some .reached) event.dataAmount)
  match decision with
  | some .refused | some .refusedByGate => (read, none)
  | some .reached =>
    if event.delivered ∧ event.dialBack = .ok then
      ({ read with counters := { counters with servedOk := counters.servedOk + 1 } },
        report .ok)
    else
      ({ read with counters := { counters with servedFailed := counters.servedFailed + 1 } },
        report .failed)
  | some .dialFailed =>
    ({ read with counters := { counters with servedFailed := counters.servedFailed + 1 } },
      report .failed)
  | none =>
    ({ read with
        counters := { counters with servedUnrecorded := counters.servedUnrecorded + 1 } },
      report .unrecorded)

def pollInner (server : ProbeServer) : List Issued → ProbeServer × Polled
  | [] => ({ server with inner := { server.inner with pendingEvents := [] } }, .pending)
  | .dial opts :: rest =>
    match server.awaitingDial with
    | [] => (server.refuseDial opts none).pollInner rest
    | flight :: waiting =>
      let popped := { server with awaitingDial := waiting }
      if some flight.client = opts.peerId then
        ({ popped with
            inFlight := popped.inFlight.insert opts.connectionId flight
            inner := { popped.inner with pendingEvents := rest } },
          .dial opts)
      else (popped.refuseDial opts (some flight)).pollInner rest
  | .report event :: rest =>
    match server.served event with
    | (read, some event) =>
      ({ read with inner := { read.inner with pendingEvents := rest } }, .event event)
    | (read, none) => read.pollInner rest

def poll : ProbeServer × Polled :=
  match server.pending with
  | event :: rest => ({ server with pending := rest }, .event event)
  | [] => server.pollInner server.inner.pendingEvents

end ProbeServer

/-- An established connection; an inbound one has an observed address. -/
structure Link where
  peer : TransportIdentity
  observed : Option Multiaddr

/-- The Swarm as far as it drives the server: its established connections and every id it has
given to one. -/
structure Swarm where
  server : ProbeServer
  links : ExtTreeMap ConnectionId Link := ∅
  taken : ExtTreeSet ConnectionId := ∅

/-- What the Swarm and its driver do. The established hooks may run for a connection that another
behaviour then denies, and `gate` is whether the behaviours before the server admit a dial. -/
inductive SwarmEvent where
  | tick (now : Nat)
  | inbound (id : ConnectionId) (peer : TransportIdentity) (remote : Multiaddr) (kept : Bool)
  | outbound (id : ConnectionId) (peer : TransportIdentity) (kept : Bool)
  | closed (id : ConnectionId)
  | handler (id : ConnectionId) (event : HandlerEvent)
  | poll (gate : Bool)
  | otherDial (id : ConnectionId) (addresses : List Multiaddr)
  | dialFailure (id : ConnectionId) (denied : Bool)

namespace Swarm

variable (swarm : Swarm)

def establish (id : ConnectionId) (link : Link) (kept : Bool) : Swarm :=
  { swarm with
    links := if kept then swarm.links.insert id link else swarm.links
    taken := swarm.taken.insert id }

/-- The pending hooks of a dial, and the failure the Swarm reports when one of them denies it. -/
def dial (text : Ip.Text) (gate : Bool) (id : ConnectionId) (addresses : List Multiaddr) : Swarm :=
  if gate then
    match swarm.server.handlePendingOutboundConnection text id addresses with
    | (judged, .ok ()) => { swarm with server := judged }
    | (judged, .error _) => { swarm with server := judged.onDialFailure id true }
  else { swarm with server := swarm.server.onDialFailure id true }

/-- A connection id is given to one connection only, a handler speaks for the peer of its
connection, and a dial a poll returns is made in the same call. -/
def step (text : Ip.Text) : SwarmEvent → Swarm
  | .tick now => { swarm with server := swarm.server.tick now }
  | .inbound id peer remote kept =>
    if id ∈ swarm.taken then swarm
    else
      { swarm.establish id ⟨peer, some remote⟩ kept with
        server := swarm.server.handleEstablishedInboundConnection id peer remote }
  | .outbound id peer kept =>
    if id ∈ swarm.taken then swarm
    else
      { swarm.establish id ⟨peer, none⟩ kept with
        server := swarm.server.handleEstablishedOutboundConnection id }
  | .closed id =>
    { swarm with
      links := swarm.links.erase id
      server := swarm.server.onConnectionClosed id }
  | .handler id event =>
    match swarm.links[id]? with
    | none => swarm
    | some link =>
      { swarm with server := swarm.server.onConnectionHandlerEvent link.peer id event }
  | .poll gate =>
    match swarm.server.poll with
    | (polled, .dial opts) =>
      { swarm with server := polled }.dial text gate opts.connectionId opts.addresses
    | (polled, _) => { swarm with server := polled }
  | .otherDial id addresses => swarm.dial text true id addresses
  | .dialFailure id denied => { swarm with server := swarm.server.onDialFailure id denied }

end Swarm

end InterWeave.Probe
