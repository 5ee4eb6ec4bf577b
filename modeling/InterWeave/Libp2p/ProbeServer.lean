import InterWeave.Api.Identities
import InterWeave.Libp2p.ProbeServerCore

/-!
The probe server is no reflector: over every sequence of what the Swarm and the driver do, its
three budgets hold, a refused request costs nothing, and a dial-back it lets through goes to the
address its client was seen at.
-/

namespace InterWeave.Probe

open Std (ExtTreeMap ExtTreeSet)

variable {text : Ip.Text}

namespace ProbeServer

variable {flight : InFlight}

def Holds (server : ProbeServer) (flight : InFlight) : Prop :=
  flight ∈ server.awaitingDial ∨ ∃ id : ConnectionId, server.inFlight[id]? = some flight

def mine (server : ProbeServer) (client : TransportIdentity) : List Nat :=
  server.perClient[client]?.getD []

structure Settles (before after : ProbeServer) : Prop where
  budgets : after.budgets = before.budgets
  clock : after.clockMs = before.clockMs
  sources : after.sources = before.sources
  global : after.global = before.global
  perClient : after.perClient = before.perClient
  flights : after.flights ≤ before.flights
  holds : ∀ flight, after.Holds flight → before.Holds flight

variable {server before middle after : ProbeServer}

theorem Settles.refl (server : ProbeServer) : server.Settles server :=
  ⟨rfl, rfl, rfl, rfl, rfl, le_rfl, fun _ held => held⟩

theorem Settles.trans (first : before.Settles middle) (second : middle.Settles after) :
    before.Settles after where
  budgets := second.budgets.trans first.budgets
  clock := second.clock.trans first.clock
  sources := second.sources.trans first.sources
  global := second.global.trans first.global
  perClient := second.perClient.trans first.perClient
  flights := second.flights.trans first.flights
  holds := fun flight held => first.holds flight (second.holds flight held)

theorem refuse_settles : server.Settles (server.refuse client address reason) := by
  unfold refuse
  split <;> exact ⟨rfl, rfl, rfl, rfl, rfl, le_rfl, fun _ held => held⟩

theorem decide_settles : server.Settles (server.decide client address decision) :=
  ⟨rfl, rfl, rfl, rfl, rfl, le_rfl, fun _ held => held⟩

theorem withInner_settles (server : ProbeServer) (inner : Server) :
    server.Settles { server with inner := inner } :=
  ⟨rfl, rfl, rfl, rfl, rfl, le_rfl, fun _ held => held⟩

theorem withTargets_settles {targets : ExtTreeMap ConnectionId Multiaddr} :
    server.Settles { server with targets := targets } :=
  ⟨rfl, rfl, rfl, rfl, rfl, le_rfl, fun _ held => held⟩

theorem holds_of_erase {id : ConnectionId}
    (held : Holds { server with inFlight := server.inFlight.erase id } flight) :
    server.Holds flight := by
  rcases held with waiting | ⟨other, found⟩
  · exact .inl waiting
  · refine .inr ⟨other, ?_⟩
    simp only [ExtTreeMap.getElem?_erase] at found
    split at found
    · cases found
    · exact found

theorem erase_settles (id : ConnectionId) :
    server.Settles { server with inFlight := server.inFlight.erase id } :=
  ⟨rfl, rfl, rfl, rfl, rfl, Nat.add_le_add_left ExtTreeMap.size_erase_le _,
    fun _ held => holds_of_erase held⟩

theorem land_settles {id : ConnectionId} : server.Settles (server.land id) :=
  (erase_settles id).trans withTargets_settles

theorem handleEstablishedOutboundConnection_settles (server : ProbeServer) (id : ConnectionId) :
    server.Settles (server.handleEstablishedOutboundConnection id) := by
  unfold handleEstablishedOutboundConnection
  refine Settles.trans ?_ (withInner_settles _ _)
  split
  · exact land_settles.trans decide_settles
  · exact .refl server

theorem onDialFailure_settles {id : ConnectionId} :
    server.Settles (server.onDialFailure id denied) := by
  unfold onDialFailure
  refine Settles.trans ?_ (withInner_settles _ _)
  split
  · exact .refl server
  · split
    · exact (land_settles.trans decide_settles).trans
        refuse_settles
    · exact land_settles.trans decide_settles

theorem handlePendingOutboundConnection_settles (server : ProbeServer) (text : Ip.Text)
    (id : ConnectionId) (addresses : List Multiaddr) :
    server.Settles (server.handlePendingOutboundConnection text id addresses).1 := by
  unfold handlePendingOutboundConnection
  split
  · exact .refl server
  · simp only
    split
    · exact ((erase_settles id).trans decide_settles).trans
        refuse_settles
    · split
      · exact withTargets_settles
      · exact .refl server

theorem refuseDial_settles (server : ProbeServer) (opts : DialOpts) (front : Option InFlight) :
    server.Settles (server.refuseDial opts front) := by
  unfold refuseDial
  refine Settles.trans ?_ (withInner_settles _ _)
  split
  · exact refuse_settles
  · exact ⟨rfl, rfl, rfl, rfl, rfl, le_rfl, fun _ held => held⟩

theorem served_settles (server : ProbeServer) (event : Report) :
    server.Settles (server.served event).1 := by
  unfold served
  cases server.decisionIndex event with
  | none => exact ⟨rfl, rfl, rfl, rfl, rfl, le_rfl, fun _ held => held⟩
  | some index =>
    simp only
    split
    · exact ⟨rfl, rfl, rfl, rfl, rfl, le_rfl, fun _ held => held⟩
    · exact ⟨rfl, rfl, rfl, rfl, rfl, le_rfl, fun _ held => held⟩
    · split <;> exact ⟨rfl, rfl, rfl, rfl, rfl, le_rfl, fun _ held => held⟩
    · exact ⟨rfl, rfl, rfl, rfl, rfl, le_rfl, fun _ held => held⟩
    · exact ⟨rfl, rfl, rfl, rfl, rfl, le_rfl, fun _ held => held⟩

theorem pop_settles (queued : server.awaitingDial = flight :: waiting) :
    server.Settles { server with awaitingDial := waiting } := by
  refine ⟨rfl, rfl, rfl, rfl, rfl, ?_, ?_⟩
  · simp [flights, queued]
  · rintro other (waits | flies)
    · exact .inl (by rw [queued]; exact List.mem_cons_of_mem _ waits)
    · exact .inr flies

theorem pair_settles (queued : server.awaitingDial = flight :: waiting) (id : ConnectionId) :
    server.Settles
      { server with
        awaitingDial := waiting
        inFlight := server.inFlight.insert id flight } := by
  refine ⟨rfl, rfl, rfl, rfl, rfl, ?_, ?_⟩
  · have grown : (server.inFlight.insert id flight).size ≤ server.inFlight.size + 1 :=
      ExtTreeMap.size_insert_le
    simp only [flights, queued, List.length_cons]
    omega
  · rintro other (waits | ⟨place, found⟩)
    · exact .inl (by rw [queued]; exact List.mem_cons_of_mem _ waits)
    · simp only [ExtTreeMap.getElem?_insert] at found
      split at found
      · cases found
        exact .inl (by rw [queued]; exact List.mem_cons_self)
      · exact .inr ⟨place, found⟩

theorem pollInner_settles (server : ProbeServer) (issued : List Issued) :
    server.Settles (server.pollInner issued).1 := by
  induction issued generalizing server with
  | nil => exact withInner_settles _ _
  | cons first rest ih =>
    cases first with
    | dial opts =>
      rw [pollInner]
      split
      · exact (refuseDial_settles _ _ _).trans (ih _)
      next flight waiting queued =>
        simp only
        split
        · exact (pair_settles queued opts.connectionId).trans (withInner_settles _ _)
        · exact ((pop_settles queued).trans (refuseDial_settles _ _ _)).trans (ih _)
    | report event =>
      have read := served_settles server event
      rw [pollInner]
      split
      next found => exact (found ▸ read).trans (withInner_settles _ _)
      next found => exact (found ▸ read).trans (ih _)

theorem poll_settles (server : ProbeServer) : server.Settles server.poll.1 := by
  unfold poll
  split
  · exact ⟨rfl, rfl, rfl, rfl, rfl, le_rfl, fun _ held => held⟩
  · exact pollInner_settles _ _

theorem pollInner_dial (returned : server.pollInner issued = (polled, .dial opts)) :
    ∃ flight, polled.inFlight[opts.connectionId]? = some flight ∧
      opts.peerId = some flight.client := by
  induction issued generalizing server with
  | nil => cases returned
  | cons first rest ih =>
    cases first with
    | dial own =>
      rw [pollInner] at returned
      split at returned
      · exact ih returned
      next flight waiting queued =>
        simp only at returned
        split at returned
        next same =>
          cases returned
          exact ⟨flight, ExtTreeMap.getElem?_insert_self, same.symm⟩
        · exact ih returned
    | report event =>
      rw [pollInner] at returned
      split at returned
      · cases returned
      · exact ih returned

theorem poll_dial (returned : server.poll = (polled, .dial opts)) :
    ∃ flight, polled.inFlight[opts.connectionId]? = some flight ∧
      opts.peerId = some flight.client := by
  unfold poll at returned
  split at returned
  · cases returned
  · exact pollInner_dial returned

theorem pruneWindows_global :
    server.pruneWindows.global =
      SlidingWindow.prune rateWindowMs server.clockMs server.global := rfl

theorem pruneWindows_mine :
    server.pruneWindows.mine client =
      SlidingWindow.prune rateWindowMs server.clockMs (server.mine client) := by
  unfold mine pruneWindows
  by_cases early : server.clockMs < rateWindowMs
  · simp [early, SlidingWindow.prune]
  · simp only [early, ↓reduceIte, ExtTreeMap.getElem?_filter', ExtTreeMap.getElem?_map]
    cases server.perClient[client]? with
    | none => simp [SlidingWindow.prune, early]
    | some starts =>
      simp only [Option.map_some, Option.filter_some, Option.getD_some]
      cases SlidingWindow.prune rateWindowMs server.clockMs starts <;> rfl

def verdict (server : ProbeServer) (client : TransportIdentity) : Except ProbeRefusal Unit :=
  let recent := SlidingWindow.prune rateWindowMs server.clockMs
  if server.budgets.maxConcurrent ≤ server.flights then .error .concurrentProbes
  else if server.budgets.perClientPerMinute ≤ (recent (server.mine client)).length then
    .error .clientRate
  else if server.budgets.globalPerMinute ≤ (recent server.global).length then .error .globalRate
  else .ok ()

def charge (server : ProbeServer) (client : TransportIdentity) : ProbeServer :=
  { server with
    global := server.global ++ [server.clockMs]
    perClient := server.perClient.insert client (server.mine client ++ [server.clockMs]) }

theorem admitStart_eq :
    server.admitStart client =
      match server.verdict client with
      | .ok () => (server.pruneWindows.charge client, .ok ())
      | .error reason => (server.pruneWindows, .error reason) := by
  unfold verdict
  simp only [← pruneWindows_mine]
  unfold admitStart
  by_cases busy : server.budgets.maxConcurrent ≤ server.flights
  · rw [if_pos busy]
    exact if_pos busy
  · rw [if_neg busy]
    refine (if_neg busy).trans ?_
    by_cases much : server.budgets.perClientPerMinute ≤ (server.pruneWindows.mine client).length
    · rw [if_pos much]
      exact if_pos much
    · rw [if_neg much]
      refine (if_neg much).trans ?_
      rw [← pruneWindows_global]
      by_cases full : server.budgets.globalPerMinute ≤ server.pruneWindows.global.length
      · rw [if_pos full]
        exact if_pos full
      · rw [if_neg full]
        exact if_neg full

theorem verdict_ok (fine : server.verdict client = .ok ()) :
    server.flights < server.budgets.maxConcurrent ∧
    (server.pruneWindows.mine client).length < server.budgets.perClientPerMinute ∧
    server.pruneWindows.global.length < server.budgets.globalPerMinute := by
  unfold verdict at fine
  simp only [← pruneWindows_mine] at fine
  split at fine
  · cases fine
  · split at fine
    · cases fine
    · split at fine
      · cases fine
      next free little room => exact ⟨by omega, by omega, Nat.lt_of_not_le room⟩

theorem verdict_pruned {pruned : ProbeServer} (budgets : pruned.budgets = server.budgets)
    (clock : pruned.clockMs = server.clockMs) (flights : pruned.flights = server.flights)
    (global : pruned.global = server.pruneWindows.global)
    (perClient : pruned.perClient = server.pruneWindows.perClient) :
    pruned.verdict client = server.verdict client := by
  have own : pruned.mine client =
      SlidingWindow.prune rateWindowMs server.clockMs (server.mine client) := by
    rw [← pruneWindows_mine, mine, mine, perClient]
  unfold verdict
  rw [budgets, clock, flights, own, global]
  simp only [pruneWindows, SlidingWindow.prune_prune]

def queue (server : ProbeServer) (peer : TransportIdentity) (id : ConnectionId) : ProbeServer :=
  { server.pruneWindows.charge peer with
    awaitingDial := server.awaitingDial ++ [⟨peer, id, server.clockMs⟩] }

theorem onCommand_started (fine : server.verdict peer = .ok ()) {id : ConnectionId} :
    (server.queue peer id).Settles
      (server.onConnectionHandlerEvent peer id (.command addr dial)) := by
  unfold onConnectionHandlerEvent
  simp only [admitStart_eq, fine]
  exact withInner_settles (server.queue peer id) _

theorem onCommand_refused (refused : server.verdict peer = .error reason) {id : ConnectionId} :
    server.onConnectionHandlerEvent peer id (.command addr dial) =
      (server.pruneWindows.decide peer none .refused).refuse peer none reason := by
  unfold onConnectionHandlerEvent
  simp only [admitStart_eq, refused]

theorem charge_mine :
    (server.charge client).mine other =
      if client = other then server.mine client ++ [server.clockMs] else server.mine other := by
  unfold charge mine
  simp only [ExtTreeMap.getElem?_insert, compare_eq_iff_eq]
  split <;> rfl

end ProbeServer

structure Start where
  client : TransportIdentity
  time : Nat

def timesOf (starts : List Start) (client : TransportIdentity) : List Nat :=
  (starts.filter fun start => start.client = client).map Start.time

theorem timesOf_append_one :
    timesOf (starts ++ [start]) client =
      if start.client = client then timesOf starts client ++ [start.time]
      else timesOf starts client := by
  unfold timesOf
  rw [List.filter_append]
  by_cases same : start.client = client <;> simp [same]

structure Run where
  swarm : Swarm
  starts : List Start

namespace Run

def startsOf (run : Run) : SwarmEvent → List Start
  | .handler id (.command _ _) =>
    match run.swarm.links[id]? with
    | none => []
    | some link =>
      match (run.swarm.server.admitStart link.peer).2 with
      | .ok () => [⟨link.peer, run.swarm.server.clockMs⟩]
      | .error _ => []
  | _ => []

def step (text : Ip.Text) (run : Run) (event : SwarmEvent) : Run where
  swarm := run.swarm.step text event
  starts := run.starts ++ run.startsOf event

def new (budgets : ProbeBudgets) : Run where
  swarm := { server := .new budgets }
  starts := []

def runOf (text : Ip.Text) (budgets : ProbeBudgets) (events : List SwarmEvent) : Run :=
  events.foldl (step text) (new budgets)

structure Budgeted (budgets : ProbeBudgets) (server : ProbeServer) (starts : List Start) :
    Prop where
  agreed : server.budgets = budgets
  flights : server.flights ≤ budgets.maxConcurrent
  global : SlidingWindow.Follows rateWindowMs server.clockMs (starts.map Start.time) server.global
  perClient : ∀ client, SlidingWindow.Follows rateWindowMs server.clockMs (timesOf starts client)
    (server.mine client)
  globalKept : SlidingWindow.Kept rateWindowMs budgets.globalPerMinute (starts.map Start.time)
  clientKept : ∀ client,
    SlidingWindow.Kept rateWindowMs budgets.perClientPerMinute (timesOf starts client)

variable {budgets : ProbeBudgets} {server after : ProbeServer} {starts : List Start}

theorem Budgeted.new (budgets : ProbeBudgets) : Budgeted budgets (.new budgets) [] where
  agreed := rfl
  flights := by simp [ProbeServer.new, ProbeServer.flights]
  global := .nil
  perClient := fun client => by
    simpa [ProbeServer.new, ProbeServer.mine, timesOf] using SlidingWindow.Follows.nil
  globalKept := .nil
  clientKept := fun _ => .nil

section

variable (budgeted : Budgeted budgets server starts)

include budgeted

theorem Budgeted.settle (settles : server.Settles after) : Budgeted budgets after starts where
  agreed := settles.budgets.trans budgeted.agreed
  flights := settles.flights.trans budgeted.flights
  global := by rw [settles.clock, settles.global]; exact budgeted.global
  perClient := fun client => by
    rw [settles.clock, ProbeServer.mine, settles.perClient]
    exact budgeted.perClient client
  globalKept := budgeted.globalKept
  clientKept := budgeted.clientKept

theorem Budgeted.pruneWindows :
    Budgeted budgets server.pruneWindows starts where
  agreed := budgeted.agreed
  flights := budgeted.flights
  global := budgeted.global.prune
  perClient := fun client => by
    rw [ProbeServer.pruneWindows_mine]
    exact (budgeted.perClient client).prune
  globalKept := budgeted.globalKept
  clientKept := budgeted.clientKept

theorem Budgeted.withClock (order : server.clockMs ≤ later) :
    Budgeted budgets { server with clockMs := later } starts where
  agreed := budgeted.agreed
  flights := budgeted.flights
  global := budgeted.global.advance order
  perClient := fun client => (budgeted.perClient client).advance order
  globalKept := budgeted.globalKept
  clientKept := budgeted.clientKept

theorem Budgeted.tick (now : Nat) : Budgeted budgets (server.tick now) starts := by
  have pruned := (budgeted.withClock (le_max_left server.clockMs now)).pruneWindows
  refine ⟨pruned.agreed, le_trans ?_ pruned.flights, pruned.global, pruned.perClient,
    pruned.globalKept, pruned.clientKept⟩
  exact Nat.add_le_add (List.length_filter_le _ _) ExtTreeMap.size_filter_le_size

theorem Budgeted.start {client : TransportIdentity} (fine : server.verdict client = .ok ())
    (flight : InFlight) :
    Budgeted budgets
      { server.pruneWindows.charge client with
        awaitingDial := server.awaitingDial ++ [flight] }
      (starts ++ [⟨client, server.clockMs⟩]) := by
  obtain ⟨free, little, room⟩ := ProbeServer.verdict_ok fine
  have pruned := budgeted.pruneWindows
  rw [budgeted.agreed] at free little room
  refine ⟨pruned.agreed, ?_, ?_, ?_, ?_, ?_⟩
  · have counted : (server.awaitingDial ++ [flight]).length + server.inFlight.size =
        server.flights + 1 := by
      simp only [ProbeServer.flights, List.length_append, List.length_singleton]
      omega
    exact counted.trans_le free
  · rw [List.map_append]
    exact pruned.global.start
  · intro other
    change SlidingWindow.Follows _ _ _ ((server.pruneWindows.charge client).mine other)
    rw [ProbeServer.charge_mine, timesOf_append_one]
    split
    next same =>
      rw [← same]
      exact (pruned.perClient client).start
    · exact pruned.perClient other
  · rw [List.map_append]
    exact pruned.globalKept.start pruned.global room
  · intro other
    rw [timesOf_append_one]
    split
    next same =>
      rw [← same]
      exact (pruned.clientKept client).start (pruned.perClient client) little
    · exact pruned.clientKept other

end

theorem startsOf_command {run : Run} {id : ConnectionId}
    (linked : run.swarm.links[id]? = some link) :
    run.startsOf (.handler id (.command addr dial)) =
      match run.swarm.server.verdict link.peer with
      | .ok () => [⟨link.peer, run.swarm.server.clockMs⟩]
      | .error _ => [] := by
  simp only [startsOf, linked, ProbeServer.admitStart_eq]
  cases run.swarm.server.verdict link.peer <;> rfl

theorem dial_settles (swarm : Swarm) (text : Ip.Text) (gate : Bool) (id : ConnectionId)
    (addresses : List Multiaddr) :
    swarm.server.Settles (swarm.dial text gate id addresses).server := by
  have judged := swarm.server.handlePendingOutboundConnection_settles text id addresses
  unfold Swarm.dial
  split
  · split
    next found =>
      rw [found] at judged
      exact judged
    next found =>
      rw [found] at judged
      exact judged.trans ProbeServer.onDialFailure_settles
  · exact ProbeServer.onDialFailure_settles

theorem poll_step_settles {swarm : Swarm} (text : Ip.Text) :
    swarm.server.Settles (swarm.step text (.poll gate)).server := by
  have polled := swarm.server.poll_settles
  simp only [Swarm.step]
  split
  next after opts found =>
    rw [found] at polled
    exact polled.trans (dial_settles { swarm with server := after } text gate _ _)
  next found =>
    rw [found] at polled
    exact polled

theorem step_budgeted (text : Ip.Text) {run : Run}
    (budgeted : Budgeted budgets run.swarm.server run.starts) :
    Budgeted budgets (run.step text event).swarm.server (run.step text event).starts := by
  -- Only a request can lengthen the log of starts.
  have quiet : ∀ after : ProbeServer, run.swarm.server.Settles after →
      Budgeted budgets after (run.starts ++ []) := by
    intro after settles
    rw [List.append_nil]
    exact budgeted.settle settles
  cases event with
  | tick now =>
    change Budgeted budgets (run.swarm.server.tick now) (run.starts ++ [])
    rw [List.append_nil]
    exact budgeted.tick now
  | inbound id peer remote kept =>
    change Budgeted budgets (run.swarm.step text (.inbound id peer remote kept)).server
      (run.starts ++ [])
    rw [List.append_nil]
    simp only [Swarm.step]
    split
    · exact budgeted
    · unfold ProbeServer.handleEstablishedInboundConnection
      split
      · exact ⟨budgeted.agreed, budgeted.flights, budgeted.global, budgeted.perClient,
          budgeted.globalKept, budgeted.clientKept⟩
      · exact budgeted
  | outbound id peer kept =>
    refine quiet (run.swarm.step text (.outbound id peer kept)).server ?_
    simp only [Swarm.step]
    split
    · exact .refl _
    · exact ProbeServer.handleEstablishedOutboundConnection_settles _ _
  | closed id =>
    change Budgeted budgets (run.swarm.server.onConnectionClosed id) (run.starts ++ [])
    rw [List.append_nil]
    exact ⟨budgeted.agreed, budgeted.flights, budgeted.global, budgeted.perClient,
      budgeted.globalKept, budgeted.clientKept⟩
  | handler id event =>
    change Budgeted budgets (run.swarm.step text (.handler id event)).server
      (run.starts ++ run.startsOf (.handler id event))
    cases linked : run.swarm.links[id]? with
    | none =>
      have none_started : run.startsOf (.handler id event) = [] := by
        cases event <;> simp [startsOf, linked]
      rw [none_started]
      refine quiet _ ?_
      simp only [Swarm.step, linked]
      exact .refl _
    | some link =>
      simp only [Swarm.step, linked]
      cases event with
      | command addr dial =>
        rw [startsOf_command linked]
        cases judged : run.swarm.server.verdict link.peer with
        | ok =>
          exact (budgeted.start judged _).settle
            (ProbeServer.onCommand_started judged)
        | error reason =>
          rw [ProbeServer.onCommand_refused judged, List.append_nil]
          exact (budgeted.pruneWindows.settle ProbeServer.decide_settles).settle
            ProbeServer.refuse_settles
      | statusUpdate | dialBackDone => exact quiet _ (ProbeServer.withInner_settles _ _)
  | poll gate => exact quiet _ (poll_step_settles text)
  | otherDial id addresses => exact quiet _ (dial_settles _ text true id addresses)
  | dialFailure id denied => exact quiet _ ProbeServer.onDialFailure_settles

end Run

def Link.SeenAt (link : Link) (ip : Ip.Address) : Prop :=
  ∃ remote, link.observed = some remote ∧ literalIp remote = some ip

/-- Every observed source is that of the connection it is filed under, and every counted request
names a connection of its client for as long as that connection has a source. -/
structure Sourced (swarm : Swarm) : Prop where
  taken : ∀ id ∈ swarm.server.sources, id ∈ swarm.taken
  links : ∀ (id : ConnectionId) link, swarm.links[id]? = some link → id ∈ swarm.taken ∧
    ∀ peer ip, swarm.server.sources[id]? = some (peer, ip) → link.SeenAt ip
  flights : ∀ flight, swarm.server.Holds flight → flight.request ∈ swarm.taken ∧
    (flight.request ∈ swarm.server.sources →
      ∃ link, swarm.links[flight.request]? = some link ∧ link.peer = flight.client)

namespace Sourced

variable {swarm : Swarm} {after : ProbeServer}

section

variable (sourced : Sourced swarm)

include sourced

theorem withServer (sources : after.sources = swarm.server.sources)
    (holds : ∀ flight, after.Holds flight → swarm.server.Holds flight) :
    Sourced { swarm with server := after } := by
  refine ⟨?_, ?_, ?_⟩
  · simpa only [sources] using sourced.taken
  · simpa only [sources] using sourced.links
  · intro flight held
    simpa only [sources] using sourced.flights flight (holds flight held)

theorem settle (settles : swarm.server.Settles after) : Sourced { swarm with server := after } :=
  sourced.withServer settles.sources settles.holds

theorem establish {id : ConnectionId} (fresh : id ∉ swarm.taken) (kept : Bool)
    (others : ∀ other : ConnectionId, other ≠ id → after.sources[other]? =
      swarm.server.sources[other]?)
    (own : ∀ peer ip, after.sources[id]? = some (peer, ip) → link.SeenAt ip)
    (holds : ∀ flight, after.Holds flight → swarm.server.Holds flight) :
    Sourced { swarm.establish id link kept with server := after } := by
  have linksElsewhere : ∀ other : ConnectionId, other ≠ id →
      (swarm.establish id link kept).links[other]? = swarm.links[other]? := by
    intro other different
    unfold Swarm.establish
    cases kept with
    | false => rfl
    | true => simp [ExtTreeMap.getElem?_insert, Ne.symm different]
  have takenOf : ∀ other, other ∈ swarm.taken → other ∈ (swarm.establish id link kept).taken :=
    fun other member => ExtTreeSet.mem_insert.mpr (.inr member)
  refine ⟨?_, ?_, ?_⟩
  · intro other member
    by_cases same : other = id
    · exact ExtTreeSet.mem_insert.mpr (.inl (by rw [same]; simp))
    · refine takenOf other (sourced.taken other ?_)
      rwa [← ExtTreeMap.isSome_getElem?_iff_mem, ← others other same,
        ExtTreeMap.isSome_getElem?_iff_mem]
  · intro other found linked
    by_cases same : other = id
    · subst same
      refine ⟨ExtTreeSet.mem_insert.mpr (.inl (by simp)), ?_⟩
      cases kept with
      | false => exact absurd (sourced.links other found linked).1 fresh
      | true =>
        have itself : link = found := by simpa [Swarm.establish] using linked
        exact itself ▸ own
    · rw [linksElsewhere other same] at linked
      obtain ⟨known, seen⟩ := sourced.links other found linked
      exact ⟨takenOf other known, fun peer ip source => seen peer ip (others other same ▸ source)⟩
  · intro flight held
    obtain ⟨known, owner⟩ := sourced.flights flight (holds flight held)
    have same : flight.request ≠ id := fun equal => fresh (equal ▸ known)
    refine ⟨takenOf _ known, fun member => ?_⟩
    rw [linksElsewhere _ same]
    refine owner ?_
    rwa [← ExtTreeMap.isSome_getElem?_iff_mem, ← others _ same,
      ExtTreeMap.isSome_getElem?_iff_mem]

theorem close (id : ConnectionId) :
    Sourced
      { swarm with
        links := swarm.links.erase id
        server := swarm.server.onConnectionClosed id } := by
  refine ⟨?_, ?_, ?_⟩
  · intro other member
    exact sourced.taken other (ExtTreeMap.mem_of_mem_erase member)
  · intro other link linked
    simp only [ExtTreeMap.getElem?_erase] at linked
    split at linked
    · cases linked
    next different =>
      obtain ⟨known, seen⟩ := sourced.links other link linked
      refine ⟨known, fun peer ip source => seen peer ip ?_⟩
      simpa only [ProbeServer.onConnectionClosed, ExtTreeMap.getElem?_erase, different,
        ↓reduceIte] using source
  · intro flight held
    obtain ⟨known, owner⟩ := sourced.flights flight held
    refine ⟨known, fun member => ?_⟩
    obtain ⟨different, present⟩ := ExtTreeMap.mem_erase.mp member
    simp only [ExtTreeMap.getElem?_erase, different, ↓reduceIte]
    exact owner present

theorem start {id : ConnectionId} {link : Link} (linked : swarm.links[id]? = some link) :
    Sourced { swarm with server := swarm.server.queue link.peer id } := by
  refine ⟨sourced.taken, sourced.links, ?_⟩
  rintro flight (waiting | flying)
  · rcases List.mem_append.mp waiting with before | new
    · exact sourced.flights flight (.inl before)
    · rw [List.mem_singleton.mp new]
      exact ⟨(sourced.links id link linked).1, fun _ => ⟨link, linked, rfl⟩⟩
  · exact sourced.flights flight (.inr flying)

theorem tick (now : Nat) : Sourced { swarm with server := swarm.server.tick now } := by
  refine sourced.withServer rfl ?_
  rintro flight (waiting | ⟨id, flying⟩)
  · exact .inl (List.mem_of_mem_filter waiting)
  · simp only [ProbeServer.tick, ProbeServer.pruneWindows, ExtTreeMap.getElem?_filter',
      Option.filter_eq_some_iff] at flying
    exact .inr ⟨id, flying.1⟩

theorem handler (text : Ip.Text) (id : ConnectionId) (event : HandlerEvent) :
    Sourced (swarm.step text (.handler id event)) := by
  cases linked : swarm.links[id]? with
  | none =>
    simp only [Swarm.step, linked]
    exact sourced
  | some link =>
    simp only [Swarm.step, linked]
    cases event with
    | command addr dial =>
      cases judged : swarm.server.verdict link.peer with
      | ok =>
        exact (sourced.start linked).settle
          (ProbeServer.onCommand_started judged)
      | error reason =>
        rw [ProbeServer.onCommand_refused judged]
        have pruned : Sourced { swarm with server := swarm.server.pruneWindows } :=
          sourced.withServer rfl fun _ held => held
        exact pruned.settle (ProbeServer.decide_settles.trans
          ProbeServer.refuse_settles)
    | statusUpdate | dialBackDone => exact sourced.settle (ProbeServer.withInner_settles _ _)

theorem inbound (text : Ip.Text) (id : ConnectionId) (peer : TransportIdentity)
    (remote : Multiaddr) (kept : Bool) :
    Sourced (swarm.step text (.inbound id peer remote kept)) := by
  simp only [Swarm.step]
  split
  · exact sourced
  next fresh =>
    have absent : id ∉ swarm.server.sources := fun member => fresh (sourced.taken id member)
    unfold ProbeServer.handleEstablishedInboundConnection
    split
    next ip literal =>
      refine sourced.establish fresh kept ?_ ?_ fun _ held => held
      · intro other different
        simp [ExtTreeMap.getElem?_insert, Ne.symm different]
      · intro owner found source
        rw [ExtTreeMap.getElem?_insert_self] at source
        cases source
        exact ⟨remote, rfl, literal⟩
    · refine sourced.establish fresh kept (fun _ _ => rfl) ?_ fun _ held => held
      intro owner found source
      rw [ExtTreeMap.getElem?_eq_none absent] at source
      cases source

theorem dial (text : Ip.Text) (gate : Bool) (id : ConnectionId) (addresses : List Multiaddr) :
    Sourced (swarm.dial text gate id addresses) := by
  have settled := sourced.settle (Run.dial_settles swarm text gate id addresses)
  have framed : swarm.dial text gate id addresses =
      { swarm with server := (swarm.dial text gate id addresses).server } := by
    unfold Swarm.dial
    split
    · split <;> rfl
    · rfl
  rw [framed]
  exact settled

theorem poll (text : Ip.Text) (gate : Bool) : Sourced (swarm.step text (.poll gate)) := by
  have polled := sourced.settle swarm.server.poll_settles
  simp only [Swarm.step]
  split
  next after opts found =>
    rw [found] at polled
    exact polled.dial text gate _ _
  next found =>
    rw [found] at polled
    exact polled

theorem step (text : Ip.Text) (event : SwarmEvent) : Sourced (swarm.step text event) := by
  cases event with
  | tick now => exact sourced.tick now
  | inbound id peer remote kept => exact sourced.inbound text id peer remote kept
  | outbound id peer kept =>
    simp only [Swarm.step]
    split
    · exact sourced
    next fresh =>
      have settles := swarm.server.handleEstablishedOutboundConnection_settles id
      refine sourced.establish fresh kept (fun _ _ => by rw [settles.sources]) ?_ settles.holds
      intro owner found source
      have absent : id ∉ swarm.server.sources := fun member => fresh (sourced.taken id member)
      rw [settles.sources, ExtTreeMap.getElem?_eq_none absent] at source
      cases source
  | closed id => exact sourced.close id
  | handler id event => exact sourced.handler text id event
  | poll gate => exact sourced.poll text gate
  | otherDial id addresses => exact sourced.dial text true id addresses
  | dialFailure id denied =>
    exact sourced.settle ProbeServer.onDialFailure_settles

end

theorem new (budgets : ProbeBudgets) : Sourced { server := .new budgets } := by
  refine ⟨?_, ?_, ?_⟩
  · intro id member
    exact absurd member ExtTreeMap.not_mem_empty
  · intro id link linked
    simp at linked
  · rintro flight (waiting | ⟨id, flying⟩)
    · cases waiting
    · simp [ProbeServer.new] at flying

end Sourced

def Swarm.AimsAt (swarm : Swarm) (text : Ip.Text) (client : TransportIdentity)
    (addresses : List Multiaddr) : Prop :=
  ∃ (id : ConnectionId) (link : Link) (ip : Ip.Address), swarm.links[id]? = some link ∧
    link.peer = client ∧ link.SeenAt ip ∧
    ∀ address ∈ addresses, literalHost text (address.toString text) = some ip ∧
      isProbeableAddress text (address.toString text) = true

def Swarm.letsThrough (swarm : Swarm) (text : Ip.Text) : Option DialOpts :=
  match swarm.server.poll with
  | (polled, .dial opts) =>
    match (polled.handlePendingOutboundConnection text opts.connectionId opts.addresses).2 with
    | .ok () => some opts
    | .error _ => none
  | _ => none

theorem checkAddress_ok (fine : ProbeServer.checkAddress text source address = .ok ()) :
    literalHost text (address.toString text) = some source ∧
      isProbeableAddress text (address.toString text) = true := by
  unfold ProbeServer.checkAddress at fine
  split at fine
  · cases fine
  next ip literal =>
    split at fine
    · cases fine
    next same =>
      split at fine
      · cases fine
      next probeable =>
        refine ⟨?_, by simpa using probeable⟩
        rw [literal, not_not.mp same]

theorem forM_ok {addresses : List Multiaddr}
    (fine : addresses.forM (ProbeServer.checkAddress text source) = .ok ()) :
    ∀ address ∈ addresses, ProbeServer.checkAddress text source address = .ok () := by
  induction addresses with
  | nil => simp
  | cons first rest ih =>
    cases judged : ProbeServer.checkAddress text source first with
    | error reason =>
      simp only [List.forM, judged] at fine
      cases fine
    | ok =>
      simp only [List.forM, judged] at fine
      intro address member
      rcases List.mem_cons.mp member with same | later
      · rw [same, judged]
      · exact ih fine address later

theorem Sourced.aims (sourced : Sourced swarm) {id : ConnectionId}
    (flying : swarm.server.inFlight[id]? = some flight)
    (passed : (swarm.server.handlePendingOutboundConnection text id addresses).2 = .ok ()) :
    swarm.AimsAt text flight.client addresses := by
  have checked : swarm.server.checkTarget text flight addresses = .ok () := by
    simp only [ProbeServer.handlePendingOutboundConnection, flying] at passed
    split at passed
    · cases passed
    next fine => exact fine
  unfold ProbeServer.checkTarget at checked
  split at checked
  · cases checked
  · split at checked
    · cases checked
    next owner ip source =>
      obtain ⟨-, named⟩ := sourced.flights flight (.inr ⟨id, flying⟩)
      obtain ⟨link, linked, mine⟩ :=
        named (ExtTreeMap.mem_iff_isSome_getElem?.mpr (by simp [source]))
      refine ⟨flight.request, link, ip, linked, mine, ?_, ?_⟩
      · exact (sourced.links _ link linked).2 owner ip source
      · intro address member
        exact checkAddress_ok (forM_ok checked address member)

theorem Sourced.letsThrough (sourced : Sourced swarm)
    (through : swarm.letsThrough text = some opts) :
    ∃ client, opts.peerId = some client ∧ swarm.AimsAt text client opts.addresses := by
  unfold Swarm.letsThrough at through
  split at through
  next polled own found =>
    split at through
    next passed =>
      cases through
      obtain ⟨flight, flying, peer⟩ := ProbeServer.poll_dial found
      have settled := sourced.settle (found ▸ swarm.server.poll_settles)
      exact ⟨flight.client, peer, settled.aims flying passed⟩
    · cases through
  · cases through

namespace Run

variable (text : Ip.Text) (budgets : ProbeBudgets) (events : List SwarmEvent)

theorem runOf_append (event : SwarmEvent) :
    runOf text budgets (events ++ [event]) = (runOf text budgets events).step text event := by
  simp [runOf]

theorem runOf_budgeted :
    Budgeted budgets (runOf text budgets events).swarm.server
      (runOf text budgets events).starts := by
  induction events using List.reverseRecOn with
  | nil => exact Budgeted.new budgets
  | append_singleton events event ih =>
    rw [runOf_append]
    exact step_budgeted text ih

theorem runOf_sourced : Sourced (runOf text budgets events).swarm := by
  induction events using List.reverseRecOn with
  | nil => exact Sourced.new budgets
  | append_singleton events event ih =>
    rw [runOf_append]
    exact ih.step text event

def Refuses (run : Run) (id : ConnectionId) : Prop :=
  ∃ link reason, run.swarm.links[id]? = some link ∧
    (run.swarm.server.admitStart link.peer).2 = .error reason

structure SpendsNothing (run after : Run) : Prop where
  starts : after.starts = run.starts
  awaitingDial : after.swarm.server.awaitingDial = run.swarm.server.awaitingDial
  inFlight : after.swarm.server.inFlight = run.swarm.server.inFlight
  clock : after.swarm.server.clockMs = run.swarm.server.clockMs
  global : after.swarm.server.global =
    SlidingWindow.prune rateWindowMs run.swarm.server.clockMs run.swarm.server.global
  mine : ∀ client, after.swarm.server.mine client =
    SlidingWindow.prune rateWindowMs run.swarm.server.clockMs (run.swarm.server.mine client)
  answers : ∀ client, (after.swarm.server.admitStart client).2 =
    (run.swarm.server.admitStart client).2

theorem admitStart_answer {server : ProbeServer} {client : TransportIdentity} :
    (server.admitStart client).2 = server.verdict client := by
  rw [ProbeServer.admitStart_eq]
  cases server.verdict client <;> rfl

theorem refused_spendsNothing {run : Run} {id : ConnectionId} (refuses : run.Refuses id) :
    run.SpendsNothing (run.step text (.handler id (.command addr dial))) := by
  obtain ⟨link, reason, linked, refused⟩ := refuses
  rw [admitStart_answer] at refused
  have next : (run.step text (.handler id (.command addr dial))).swarm.server =
      (run.swarm.server.pruneWindows.decide link.peer none .refused).refuse link.peer none
        reason := by
    simp only [step, Swarm.step, linked, ProbeServer.onCommand_refused refused]
  have same : run.swarm.server.pruneWindows.Settles
      (run.step text (.handler id (.command addr dial))).swarm.server :=
    next ▸ ProbeServer.decide_settles.trans ProbeServer.refuse_settles
  refine ⟨?_, ?_, ?_, same.clock, same.global, fun client => ?_, fun client => ?_⟩
  · simp [step, startsOf_command linked, refused]
  · rw [next]
    unfold ProbeServer.refuse
    split <;> rfl
  · rw [next]
    unfold ProbeServer.refuse
    split <;> rfl
  · rw [← ProbeServer.pruneWindows_mine, ProbeServer.mine, ProbeServer.mine, same.perClient]
  · rw [admitStart_answer, admitStart_answer]
    refine ProbeServer.verdict_pruned same.budgets same.clock ?_
      same.global same.perClient
    rw [next]
    unfold ProbeServer.refuse
    split <;> rfl

/-- A probe server cannot be used as a reflector. -/
theorem no_reflector (text : Ip.Text) (budgets : ProbeBudgets) (events : List SwarmEvent) :
    (runOf text budgets events).swarm.server.flights ≤ budgets.maxConcurrent ∧
    (∀ client opens, SlidingWindow.within rateWindowMs opens
      (timesOf (runOf text budgets events).starts client) ≤ budgets.perClientPerMinute) ∧
    (∀ opens, SlidingWindow.within rateWindowMs opens
      ((runOf text budgets events).starts.map Start.time) ≤ budgets.globalPerMinute) ∧
    (∀ id addr dial, (runOf text budgets events).Refuses id →
      (runOf text budgets events).SpendsNothing
        ((runOf text budgets events).step text (.handler id (.command addr dial)))) ∧
    (∀ opts, (runOf text budgets events).swarm.letsThrough text = some opts →
      ∃ client, opts.peerId = some client ∧
        (runOf text budgets events).swarm.AimsAt text client opts.addresses) ∧
    ∀ (id : ConnectionId) flight addresses,
      (runOf text budgets events).swarm.server.inFlight[id]? = some flight →
      ((runOf text budgets events).swarm.server.handlePendingOutboundConnection text id
        addresses).2 = .ok () →
      (runOf text budgets events).swarm.AimsAt text flight.client addresses := by
  have budgeted := runOf_budgeted text budgets events
  have sourced := runOf_sourced text budgets events
  generalize runOf text budgets events = run at budgeted sourced ⊢
  exact ⟨budgeted.flights, budgeted.clientKept, budgeted.globalKept,
    fun id addr dial refuses => refused_spendsNothing text refuses,
    fun opts through => sourced.letsThrough through,
    fun id flight addresses flying passed => sourced.aims flying passed⟩

def oneHost : Ip.Text where
  parseV4 := fun source => if source = "8.8.8.8" then some 0x08080808#32 else none
  parseV6 := fun _ => none
  parseSocket := fun _ => none
  showV4 := fun _ => "8.8.8.8"
  showV6 := fun _ => ""

def seenFrom : Multiaddr := ⟨[.ip4 0x08080808#32, .other "/tcp/4001"]⟩

def asked : List SwarmEvent :=
  [.inbound 0 (.numbered 0) seenFrom true, .handler 0 (.command seenFrom 1)]

theorem no_reflector_sample :
    (runOf oneHost {} asked).swarm.letsThrough oneHost = some ⟨1, some (.numbered 0), [seenFrom]⟩ ∧
    ∃ client, some (TransportIdentity.numbered 0) = some client ∧
      (runOf oneHost {} asked).swarm.AimsAt oneHost client [seenFrom] := by
  have through : (runOf oneHost {} asked).swarm.letsThrough oneHost =
      some ⟨1, some (.numbered 0), [seenFrom]⟩ := by
    decide +kernel
  exact ⟨through, (no_reflector oneHost {} asked).2.2.2.2.1 _ through⟩

end Run

end InterWeave.Probe
