import InterWeave.Runtime.DialSystem

/-!
What the operations of the gate answer when nothing interferes, and the network of the
sample runs.
-/

namespace InterWeave

open Concurrent

def World.put (world : World) (id : ManagerId) (shared : Shared) : World :=
  Function.update world id shared

theorem World.put_put (world : World) (id : ManagerId) (shared changed : Shared) :
    (world.put id shared).put id changed = world.put id changed :=
  Function.update_idem _ _ _

def Shared.perform (shared : Shared) : (op : Op) → op.Ans × Shared
  | .load _ counter => (shared.counters counter, shared)
  | .compareExchangeWeak _ counter current new =>
    if shared.counters counter = current then (.ok (), shared.setCounter counter new)
    else (.error (shared.counters counter), shared)
  | .fetchSub _ counter amount =>
    ((), shared.setCounter counter
      ((shared.counters counter + counterRange - amount) % counterRange))
  | .loadShuttingDown _ => (shared.shuttingDown, shared)
  | .storeShuttingDown _ => ((), { shared with shuttingDown := true })
  | .upgradeManager _ =>
    if shared.alive then (true, { shared with borrowed := shared.borrowed + 1 })
    else (false, shared)
  | .dropManagerRef _ => ((), { shared with borrowed := shared.borrowed - 1 })
  | .dropManager _ => ((), { shared with managed := false })
  | .readCurrent _ => (some shared.current, shared)
  | .readPublished _ => (shared.current, shared)
  | .writePublished _ next => ((), shared.install next)

theorem Shared.perform_exec (shared : Shared) (op : Op) :
    shared.Exec op (shared.perform op).1 (shared.perform op).2 := by
  cases op with
  | compareExchangeWeak manager counter current new =>
    by_cases seen : shared.counters counter = current
    · simp only [perform, seen, ↓reduceIte]
      exact .exchanged seen
    · simp only [perform, seen, ↓reduceIte]
      exact .exchangeFailed
  | upgradeManager manager =>
    by_cases alive : shared.alive = true
    · simp only [perform, alive, ↓reduceIte]
      exact .upgraded alive
    · simp only [perform, alive, Bool.false_eq_true, ↓reduceIte]
      exact .upgradeFailed (Bool.eq_false_iff.mpr alive)
  | _ => constructor

def World.perform (world : World) (op : Op) : op.Ans × World :=
  let (ans, shared) := (world op.manager).perform op
  (ans, world.put op.manager shared)

theorem World.perform_exec (world : World) (op : Op) :
    world.Exec op (world.perform op).1 (world.perform op).2 :=
  ⟨_, Shared.perform_exec _ _, rfl⟩

def PolicySnapshot.ticket (snapshot : PolicySnapshot) (request : DialRequest) (nowMs : Nat) :
    DialTicket where
  manager := snapshot.manager
  outcomeReserved := request.peer.isSome
  origin := request.origin
  peer := request.peer
  address := request.address
  settled := false
  connectionKept := false
  admittedAtMs := nowMs

namespace DialSample

def setup : Setup where
  managers := {0, 1}
  policy := fun _ => { ConnectionPolicy.new 8 8 with maxAddresses := 1 }
  maxPendingDials := fun _ => 8
  fresh := fun _ => ⟨rfl, rfl, rfl⟩
  small := fun _ => by decide

def remote : TransportIdentity :=
  ⟨"12D3KooWAAAAAAAAAAAAAAAAAAAAAAAAAAAAAAAAAAAAAAAAAAAA", by decide +kernel⟩

def trust : TrustSources :=
  .new ⟨{remote}, none, by decide, by simp⟩ .default

def trusting : ConnectionManager :=
  ((setup.manager 0).withTrust trust).nextRevision

end DialSample

end InterWeave
