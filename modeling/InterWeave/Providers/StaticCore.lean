import InterWeave.Api.Discovery

/-!
`discovery::static`: configured bootstrap entries as a discovery provider, and the view that a
consumer builds from the events it is handed.
-/

namespace InterWeave.StaticBootstrap

open Std (ExtTreeMap ExtTreeSet)

def sourceName : String := "static-bootstrap"
def maxEntries : Nat := 64
def maxPendingEvents : Nat := 2 * maxEntries

structure StaticEntry where
  peerId : TransportIdentity
  address : String

abbrev Table := ExtTreeMap TransportIdentity (ExtTreeSet String)

/-- A queued event with what `emitted` held for its peer before it was queued. -/
structure Queued where
  event : DiscoveryEvent
  before : Option (ExtTreeSet String)

namespace Queued

def isHealth (queued : Queued) : Bool :=
  match queued.event with
  | .healthChanged _ _ => true
  | _ => false

def peer (queued : Queued) : Option TransportIdentity :=
  match queued.event with
  | .candidateObserved candidate => some candidate.peerId
  | .candidateExpired peerId _ _ => some peerId
  | .healthChanged _ _ => none

end Queued

structure StaticBootstrapDiscovery where
  entries : Table
  emitted : Table := ∅
  started : Bool := false
  stopped : Bool := false
  pending : List Queued := []

def observed (peerId : TransportIdentity) (addresses : ExtTreeSet String) (now : Nat) :
    DiscoveryEvent :=
  .candidateObserved
    { peerId := peerId
      addresses := addresses
      source := sourceName
      observedAt := now
      expiresAt := none
      protocolObservations := ∅ }

def group (entries : List StaticEntry) : Table :=
  entries.foldl
    (fun grouped entry =>
      grouped.insert entry.peerId ((grouped[entry.peerId]?.getD ∅).insert entry.address)) ∅

def retraction (entries : Table) (peerId : TransportIdentity) (addresses : ExtTreeSet String) :
    Option Queued :=
  match entries[peerId]? with
  | none => some ⟨.candidateExpired peerId sourceName ∅, some addresses⟩
  | some kept =>
    let dropped := addresses \ kept
    if dropped.isEmpty then none
    else some ⟨.candidateExpired peerId sourceName dropped, some addresses⟩

variable (emitted : Table)

def observation (now : Nat) (peerId : TransportIdentity) (addresses : ExtTreeSet String) :
    Option Queued :=
  if emitted[peerId]? = some addresses then none
  else some ⟨observed peerId addresses now, emitted[peerId]?⟩

/-- The difference between what the consumer was told and what is configured. -/
def difference (entries emitted : Table) (now : Nat) : List Queued :=
  emitted.toList.filterMap (fun entry => retraction entries entry.1 entry.2) ++
    entries.toList.filterMap fun entry => observation emitted now entry.1 entry.2

def advance (queued : Queued) : Table :=
  match queued.event with
  | .candidateObserved candidate => emitted.insert candidate.peerId candidate.addresses
  | .candidateExpired peerId _ addresses =>
    if addresses.isEmpty then emitted.erase peerId
    else
      match emitted[peerId]? with
      | some held => emitted.insert peerId (held.filter fun address => address ∉ addresses)
      | none => emitted
  | .healthChanged _ _ => emitted

/-- The oldest events that are not about health, up to a number, and the rest. -/
def trim : Nat → List Queued → List Queued × List Queued
  | _, [] => ([], [])
  | 0, kept => ([], kept)
  | excess + 1, queued :: rest =>
    if queued.isHealth then
      let (dropped, kept) := trim (excess + 1) rest
      (dropped, queued :: kept)
    else
      let (dropped, kept) := trim excess rest
      (queued :: dropped, kept)

def undo (queued : Queued) : Table :=
  match queued.peer with
  | none => emitted
  | some peerId =>
    match queued.before with
    | some addresses => emitted.insert peerId addresses
    | none => emitted.erase peerId

namespace StaticBootstrapDiscovery

def new (entries : List StaticEntry) : Except DiscoveryError StaticBootstrapDiscovery :=
  if entries.length > maxEntries then
    .error (.tooManyItems "entries" entries.length maxEntries)
  else .ok { entries := group entries }

variable (provider : StaticBootstrapDiscovery) (now : Nat)

def enforcePendingBound : StaticBootstrapDiscovery :=
  if provider.pending.length ≤ maxPendingEvents then provider
  else
    let (dropped, kept) := trim (provider.pending.length - maxPendingEvents) provider.pending
    { provider with
      pending := kept
      emitted := dropped.reverse.foldl undo provider.emitted }

def refresh : StaticBootstrapDiscovery :=
  let queued := difference provider.entries provider.emitted now
  { provider with
    emitted := queued.foldl advance provider.emitted
    pending := provider.pending ++ queued }.enforcePendingBound

def setEntries (entries : List StaticEntry) (now : Nat) :
    StaticBootstrapDiscovery × Except DiscoveryError Unit :=
  match new entries with
  | .error reason => (provider, .error reason)
  | .ok replacement =>
    let replaced := { provider with entries := replacement.entries }
    if replaced.started ∧ ¬replaced.stopped then (replaced.refresh now, .ok ())
    else (replaced, .ok ())

def start (provider : StaticBootstrapDiscovery) (now : Nat) :
    StaticBootstrapDiscovery × Except ProviderError Unit :=
  if provider.started then (provider, .error .alreadyStarted)
  else
    let healthy : Queued := ⟨.healthChanged sourceName .healthy, none⟩
    let started := { provider with started := true, pending := provider.pending ++ [healthy] }
    (started.refresh now, .ok ())

def drainEvents (max : Nat) : StaticBootstrapDiscovery × List DiscoveryEvent :=
  if ¬provider.started ∨ provider.stopped then (provider, [])
  else
    let refreshed := provider.refresh now
    ({ refreshed with pending := refreshed.pending.drop max },
      (refreshed.pending.take max).map Queued.event)

end StaticBootstrapDiscovery

abbrev View := TransportIdentity → ExtTreeSet String

def View.set (view : View) (peer : TransportIdentity) (addresses : ExtTreeSet String) : View :=
  fun other => if peer = other then addresses else view other

/-- An observation adds its addresses to the peer; an expiry removes the ones it names, or all of
the peer's when it names none. -/
def View.receive (view : View) : DiscoveryEvent → View
  | .candidateObserved candidate =>
    view.set candidate.peerId (view candidate.peerId ∪ candidate.addresses)
  | .candidateExpired peerId _ addresses =>
    view.set peerId (if addresses.isEmpty then ∅ else view peerId \ addresses)
  | .healthChanged _ _ => view

inductive Call where
  | setEntries (entries : List StaticEntry) (now : Nat)
  | drain (now max : Nat)

structure Run where
  provider : StaticBootstrapDiscovery
  view : View

namespace Run

def start (provider : StaticBootstrapDiscovery) (now : Nat) : Run where
  provider := (provider.start now).1
  view := fun _ => ∅

def step (run : Run) : Call → Run
  | .setEntries entries now => { run with provider := (run.provider.setEntries entries now).1 }
  | .drain now max =>
    let (provider, events) := run.provider.drainEvents now max
    ⟨provider, events.foldl View.receive run.view⟩

def after (run : Run) (calls : List Call) : Run :=
  calls.foldl step run

end Run

end InterWeave.StaticBootstrap
