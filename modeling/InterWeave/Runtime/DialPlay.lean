import InterWeave.Runtime.DialAlone

/-!
Runs of the gate that can be played. What is at rest stands in a row, each operation has the
answer it gets where no exchange fails without a reason, and a list of moves says which
thread goes on.
-/

namespace InterWeave

open Concurrent

namespace Dial

/-- A pool whose managers, tickets and slots at rest stand in a row. -/
structure Table where
  world : World
  managers : List ConnectionManager
  tickets : List DialTicket
  slots : List ConnectionSlot
  threads : List (Thread Op Op.Ans Task TaskResult)
  next : Nat

/-- A dial begins through a snapshot so many revisions old, a call by the first manager, with the
first ticket where it settles one, or a thread goes on. -/
inductive Move where
  | admitDial (manager : ManagerId) (age : Nat) (request : DialRequest) (nowMs : Nat)
  | manage (call : Call) (plain : call.ticket = none ∧ call.slot = none)
  | settle (call : DialTicket → Call)
      (settles : ∀ ticket, (call ticket).ticket = some ticket ∧ (call ticket).slot = none)
  | dropManager
  | turn (index : Nat)

namespace Table

variable (table : Table)

def config : Config Op Op.Ans World Rest Task TaskResult :=
  ⟨table.world, ⟨table.managers, table.tickets, table.slots⟩, table.threads, table.next⟩

def begun (task : Task) : Label Op Op.Ans Task TaskResult × Table :=
  (.start table.next task, { table with
    threads := ⟨table.next, task, body task⟩ :: table.threads
    next := table.next + 1 })

def putBack : TaskResult → Table
  | .admitted (.ok ticket) | .rebound ticket _ => { table with tickets := ticket :: table.tickets }
  | .admitted (.error _) | .dropped => table
  | .managed manager (.slot (some slot)) =>
    { table with managers := manager :: table.managers, slots := slot :: table.slots }
  | .managed manager _ => { table with managers := manager :: table.managers }

def move : Move → Option (Label Op Op.Ans Task TaskResult × Table)
  | .admitDial manager age request nowMs =>
    match (table.world manager).installed[age]? with
    | none => none
    | some snapshot =>
      if snapshot.manager = manager then some (table.begun (.admitDial snapshot request nowMs))
      else none
  | .manage call _ =>
    match table.managers with
    | [] => none
    | manager :: managers => some ({ table with managers := managers }.begun (.manage manager call))
  | .settle call _ =>
    match table.managers, table.tickets with
    | manager :: managers, ticket :: tickets =>
      some ({ table with managers := managers, tickets := tickets }.begun
        (.manage manager (call ticket)))
    | _, _ => none
  | .dropManager =>
    match table.managers with
    | [] => none
    | manager :: managers => some ({ table with managers := managers }.begun (.dropManager manager))
  | .turn index =>
    match table.threads[index]? with
    | none => none
    | some ⟨id, _, .ret result⟩ =>
      some (.finish id result,
        { table with threads := table.threads.eraseIdx index }.putBack result)
    | some ⟨id, task, prog⟩ =>
      (prog.proceed World.perform table.world).map fun (event, later, changed) =>
        (.act id event, { table with
          world := changed
          threads := table.threads.set index ⟨id, task, later⟩ })

/-- The moves one after the other; one that cannot be made is passed over. -/
def play (table : Table) : List Move → List (Label Op Op.Ans Task TaskResult) × Table
  | [] => ([], table)
  | first :: later =>
    match table.move first with
    | none => table.play later
    | some (label, after) =>
      let (labels, last) := after.play later
      (label :: labels, last)

variable {table} {after : Table} {label : Label Op Op.Ans Task TaskResult}

theorem putBack_config (result : TaskResult) : (table.putBack result).config =
    { table.config with rest := Dial.putBack table.config.rest result } := by
  cases result with
  | admitted answer => cases answer <;> rfl
  | dropped | rebound => rfl
  | managed manager reply =>
    cases reply with
    | slot answer => cases answer <;> rfl
    | _ => rfl

theorem threads_split {threads : List (Thread Op Op.Ans Task TaskResult)}
    (found : threads[index]? = some thread) :
    ∃ before after, threads = before ++ thread :: after ∧ before.length = index := by
  obtain ⟨within, rfl⟩ := List.getElem?_eq_some_iff.mp found
  exact ⟨threads.take index, threads.drop (index + 1), by simp, by simp; omega⟩

theorem move_step {move : Move} (moved : table.move move = some (label, after)) :
    Step system table.config label after.config := by
  obtain ⟨world, managers, tickets, slots, threads, next⟩ := table
  cases move with
  | admitDial manager age request nowMs =>
    simp only [Table.move] at moved
    split at moved
    · cases moved
    next snapshot found =>
      split at moved
      next own =>
        cases moved
        exact .start (.admitDial (own ▸ List.mem_of_getElem? found))
      · cases moved
  | manage call plain =>
    cases managers with
    | nil => cases moved
    | cons manager managers =>
      cases moved
      have taken := @Begin.manage world ⟨managers, tickets, slots⟩ manager call
      rw [plain.1, plain.2] at taken
      exact .start taken
  | settle call settles =>
    cases managers with
    | nil => cases moved
    | cons manager managers =>
      cases tickets with
      | nil => cases moved
      | cons ticket tickets =>
        cases moved
        have taken := @Begin.manage world ⟨managers, tickets, slots⟩ manager (call ticket)
        rw [(settles ticket).1, (settles ticket).2] at taken
        exact .start taken
  | dropManager =>
    cases managers with
    | nil => cases moved
    | cons manager managers =>
      cases moved
      exact .start (@Begin.dropManager world ⟨managers, tickets, slots⟩ manager)
  | turn index =>
    simp only [Table.move] at moved
    split at moved
    · cases moved
    next id task result found =>
      cases moved
      rw [putBack_config]
      obtain ⟨before, after, rfl, rfl⟩ := threads_split found
      have same : (before ++ ⟨id, task, .ret result⟩ :: after).eraseIdx before.length =
          before ++ after := by simp [List.eraseIdx_append_of_length_le]
      simp only [config, same]
      exact .finish
    next id task prog working found =>
      obtain ⟨⟨event, later, changed⟩, stepped, made⟩ := Option.map_eq_some_iff.mp moved
      cases made
      obtain ⟨advanced, executed⟩ := Prog.proceed_step World.perform_exec stepped
      obtain ⟨before, after, rfl, rfl⟩ := threads_split found
      have same : (before ++ ⟨id, task, prog⟩ :: after).set before.length ⟨id, task, later⟩ =
          before ++ ⟨id, task, later⟩ :: after := by simp
      simp only [config, same]
      exact .act advanced executed

theorem play_cons {first : Move} (moved : table.move first = some (label, after))
    (later : List Move) :
    table.play (first :: later) = (label :: (after.play later).1, (after.play later).2) := by
  rw [play, moved]

theorem play_run (table : Table) (moves : List Move) :
    Run system table.config (table.play moves).1 (table.play moves).2.config := by
  induction moves generalizing table with
  | nil => exact .nil
  | cons first later ih =>
    rw [play]
    split
    · exact ih table
    next moved => exact (Run.snoc .nil (move_step moved)).append (ih _)

end Table

end Dial

namespace DialSample

open Dial

def roomy : Setup where
  managers := {0, 1}
  policy := fun _ => .new 8 8
  maxPendingDials := fun _ => 8
  fresh := fun _ => ⟨rfl, rfl, rfl⟩
  small := fun _ => by decide

def opening (setup : Setup) : Table :=
  ⟨setup.shared, [setup.manager 0, setup.manager 1], [], [], [], 0⟩

def entrust (trust : TrustSources) : Move :=
  .manage (.setTrust trust []) ⟨rfl, rfl⟩

def dial (address : String) (nowMs : Nat) : Move :=
  .admitDial 0 0 ⟨some remote, address, .manual⟩ nowMs

/-- As many steps of the thread that began last as it can need. -/
def through : List Move :=
  List.replicate 40 (.turn 0)

variable {labels : List (Label Op Op.Ans Task TaskResult)}

def started (labels : List (Label Op Op.Ans Task TaskResult)) : List (Nat × Task) :=
  labels.filterMap fun
    | .start thread task => some (thread, task)
    | _ => none

theorem mem_started (thread : Nat) :
    (thread, task) ∈ started labels ↔ .start thread task ∈ labels := by
  constructor
  · intro member
    obtain ⟨label, inLabels, same⟩ := List.mem_filterMap.mp member
    cases label <;> cases same
    exact inLabels
  · intro member
    exact List.mem_filterMap.mpr ⟨_, member, rfl⟩

def admissions (labels : List (Label Op Op.Ans Task TaskResult)) :
    List (Nat × Except DialDenial DialTicket) :=
  labels.filterMap fun
    | .finish thread (.admitted answer) => some (thread, answer)
    | _ => none

theorem mem_admissions (member : (thread, answer) ∈ admissions labels) :
    .finish thread (.admitted answer) ∈ labels := by
  obtain ⟨label, inLabels, same⟩ := List.mem_filterMap.mp member
  split at same
  · cases same
    exact inLabels
  · cases same

end DialSample

end InterWeave
