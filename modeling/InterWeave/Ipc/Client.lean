import InterWeave.Ipc.ClientCore
import InterWeave.Lib.OrderedMap

/-!
Every call of a connection ends, once, and all callers are told the reader's code. A registered
call has one place: it waits in the table, is in the reader's hand, has a sender that was dropped,
or has its answer.
-/

namespace InterWeave.Ipc

open Std (ExtTreeMap)
open OrderedMap

namespace Client

variable {Response : Type}

def answerTo (call : Nat) : ClientEvent Response → Option (Except TransportError Response)
  | .answered other answer => if other = call then some answer else none
  | _ => none

def answersTo (call : Nat) (log : List (ClientEvent Response)) :
    List (Except TransportError Response) :=
  log.filterMap (answerTo call)

def shownCode : ClientEvent Response → Option TransportError
  | .refused _ code => some code
  | .answered _ (.error code) => some code
  | .looked code => code
  | _ => none

@[simp]
theorem answersTo_append :
    answersTo call (first ++ second) = answersTo call first ++ answersTo call second :=
  List.filterMap_append

theorem length_answersTo_answered {log : List (ClientEvent Response)} {call : Nat} :
    (answersTo other (log ++ [.answered call answer])).length =
      (answersTo other log).length + if call = other then 1 else 0 := by
  rw [answersTo_append, List.length_append]
  by_cases same : call = other <;> simp [answersTo, answerTo, same]

theorem any_iff_mem {log : List (ClientEvent Response)} {test : ClientEvent Response → Bool}
    {event : ClientEvent Response} (only : ∀ other, test other = true ↔ other = event) :
    log.any test = true ↔ event ∈ log := by
  simp [List.any_eq_true, only]

theorem isRegistered_iff {client : Client Response} :
    client.isRegistered call = true ↔ .registered call ∈ client.log :=
  any_iff_mem fun other => by cases other <;> simp

theorem isCancelled_iff {client : Client Response} :
    client.isCancelled call = true ↔ .cancelled call ∈ client.log :=
  any_iff_mem fun other => by cases other <;> simp

theorem requestId_injective (firstSmall : first < 2 ^ 64) (secondSmall : second < 2 ^ 64)
    (same : requestId first = requestId second) :
    first = second := by
  unfold requestId at same
  have numbers : first % 2 ^ 64 = second % 2 ^ 64 := by
    simpa using same
  rwa [Nat.mod_eq_of_lt firstSmall, Nat.mod_eq_of_lt secondSmall] at numbers

theorem readerFree_iff {client : Client Response} :
    client.readerFree = true ↔ client.readerEnd = none ∧ client.hand = none := by
  simp [readerFree]

/-- The connection once a call waits under its id. -/
def enrol (client : Client Response) (call : Nat) : Client Response :=
  { client with
    shared := { client.shared with pending := client.shared.pending.insert (requestId call) call }
    drawn := client.drawn.erase call
    dropped := client.dropped ∪ client.shared.pending[requestId call]?.toFinset
    log := client.log ++ [.registered call] }

/-- The connection once a call is cancelled. -/
def withdraw (client : Client Response) (call : Nat) : Client Response :=
  { client with
    shared := (client.shared.take (requestId call)).1
    dropped := (client.dropped ∪ client.shared.pending[requestId call]?.toFinset).erase call
    log := client.log ++ [.cancelled call] }

/-- What a step does; a step whose guard does not hold does nothing. -/
inductive Exit (client : Client Response) : ClientStep Response → Client Response → Prop
  | same {step : ClientStep Response} : Exit client step client
  | drawn : Exit client .draw client.draw
  | registered (member : call ∈ client.drawn) (unended : client.shared.shownEnd = none) :
      Exit client (.register call) (client.enrol call)
  | refused (shown : client.shared.shownEnd = some code) :
      Exit client (.register call)
        { client with
          drawn := client.drawn.erase call
          log := client.log ++ [.refused call code] }
  | cancelled (known : .registered call ∈ client.log) :
      Exit client (.cancel call) (client.withdraw call)
  | gone (member : call ∈ client.dropped) :
      Exit client (.gone call)
        { client with
          dropped := client.dropped.erase call
          log := client.log ++
            [.answered call (.error (client.shared.shownEnd.getD .backendUnavailable))] }
  | responded {id : String} (unended : client.readerEnd = none) (idle : client.hand = none) :
      Exit client (.respond id response)
        { client with
          shared := (client.shared.take id).1
          hand := client.shared.pending[id]?.map fun call => (call, response) }
  | delivered (held : client.hand = some (call, response)) :
      Exit client .deliver
        { client with hand := none, log := client.log ++ [.answered call (.ok response)] }
  | writerEnded : Exit client .writerEnd client.writerEnds
  | readerEnded (unended : client.readerEnd = none) (idle : client.hand = none) :
      Exit client (.readerEnd code clean serverClose) (client.readerEnds code clean serverClose)
  | closed : Exit client .close client.close
  | looked : Exit client .look client.look

theorem step_exit (client : Client Response) (step : ClientStep Response) :
    Exit client step (client.step step) := by
  cases step with
  | draw => exact .drawn
  | register call =>
    simp only [Client.step, Client.register, Shared.register]
    split
    next member =>
      cases shown : client.shared.shownEnd with
      | none => exact .registered member shown
      | some code => exact .refused shown
    · exact .same
  | cancel call =>
    simp only [Client.step, Client.cancel]
    split
    next guarded => exact .cancelled (isRegistered_iff.mp (by simp_all))
    · exact .same
  | gone call =>
    simp only [Client.step, Client.gone]
    split
    next member => exact .gone member
    · exact .same
  | respond id response =>
    simp only [Client.step, Client.respond]
    split
    next free =>
      obtain ⟨unended, idle⟩ := readerFree_iff.mp free
      exact .responded unended idle
    · exact .same
  | deliver =>
    simp only [Client.step, Client.deliver]
    split
    · exact .same
    next held => exact .delivered held
  | writerEnd => exact .writerEnded
  | readerEnd code clean serverClose =>
    by_cases free : client.readerFree = true
    · obtain ⟨unended, idle⟩ := readerFree_iff.mp free
      exact .readerEnded unended idle
    · simp only [Client.step, Client.readerEnds, if_neg free]
      exact .same
  | close => exact .closed
  | look => exact .looked

def placesIn (pending : ExtTreeMap String Nat) (hand : Option (Nat × Response))
    (dropped : Finset Nat) (log : List (ClientEvent Response)) (call : Nat) : Nat :=
  (if pending[requestId call]? = some call then 1 else 0) +
    (if hand.map Prod.fst = some call then 1 else 0) + (if call ∈ dropped then 1 else 0) +
    (answersTo call log).length

/-- How many places a call has. -/
def places (client : Client Response) (call : Nat) : Nat :=
  placesIn client.shared.pending client.hand client.dropped client.log call

structure Placed (client : Client Response) : Prop where
  drawn : ∀ call ∈ client.drawn, call < client.calls ∧ .registered call ∉ client.log
  registered : ∀ call, .registered call ∈ client.log → call < client.calls
  named : ∀ id call, client.shared.pending[id]? = some call → id = requestId call
  once : ∀ call, client.places call ≤ 1
  known : ∀ call, client.places call ≠ 0 → .registered call ∈ client.log
  somewhere : client.calls ≤ 2 ^ 64 → ∀ call, .registered call ∈ client.log →
    .cancelled call ∉ client.log → client.places call ≠ 0
  intact : client.calls ≤ 2 ^ 64 → client.dropped = ∅

section

variable {client next : Client Response} {call other : Nat} {id : String}

/-- Calls change places, and a call that is cancelled may lose its own. -/
structure Moves (client next : Client Response) : Prop where
  calls : next.calls = client.calls
  drawn : next.drawn ⊆ client.drawn
  registered : ∀ call, .registered call ∈ next.log ↔ .registered call ∈ client.log
  pending : ∀ (id : String) call, next.shared.pending[id]? = some call →
    client.shared.pending[id]? = some call
  places : ∀ call, next.places call ≤ client.places call
  kept : ∀ call, .cancelled call ∉ next.log →
    next.places call = client.places call ∧ .cancelled call ∉ client.log
  dropped : client.calls ≤ 2 ^ 64 → next.dropped ⊆ client.dropped

theorem Placed.moves (placed : client.Placed) (moves : Moves client next) : next.Placed where
  drawn := by
    intro call member
    rw [moves.calls, moves.registered]
    exact placed.drawn call (moves.drawn member)
  registered := by
    intro call known
    rw [moves.calls]
    exact placed.registered call ((moves.registered call).mp known)
  named := fun id call found => placed.named id call (moves.pending id call found)
  once := fun call => (moves.places call).trans (placed.once call)
  known := by
    intro call some
    have before := moves.places call
    exact (moves.registered call).mpr (placed.known call (by omega))
  somewhere := by
    intro few call known uncancelled
    rw [moves.calls] at few
    obtain ⟨same, before⟩ := moves.kept call uncancelled
    rw [same]
    exact placed.somewhere few call ((moves.registered call).mp known) before
  intact := by
    intro few
    rw [moves.calls] at few
    exact Finset.subset_empty.mp (placed.intact few ▸ moves.dropped few)

section

variable (placed : client.Placed)

include placed

theorem Placed.places_eq_zero (unknown : .registered call ∉ client.log) :
    client.places call = 0 := by
  by_contra some
  exact unknown (placed.known call some)

theorem Placed.places_of_pending (found : client.shared.pending[id]? = some call) :
    client.places call = 1 := by
  have here := placed.named id call found
  have once := placed.once call
  simp only [places, placesIn, ← here, found, if_true] at once ⊢
  omega

/-- Two calls under one id can only be told apart by the counter coming round. -/
theorem Placed.alone (few : client.calls ≤ 2 ^ 64) (small : call < client.calls)
    (found : client.shared.pending[requestId call]? = some other) : other = call := by
  have known := placed.known other (by rw [placed.places_of_pending found]; decide)
  have otherSmall := placed.registered other known
  exact (requestId_injective (by omega) (by omega) (placed.named _ _ found)).symm

/-- Whoever leaves the table from under an id. -/
theorem Placed.erase_place (id : String) (other : Nat) :
    (if (client.shared.pending.erase id)[requestId other]? = some other then 1 else 0) +
      (if client.shared.pending[id]? = some other then 1 else 0) =
    if client.shared.pending[requestId other]? = some other then 1 else 0 := by
  rw [get_erase]
  by_cases here : id = requestId other
  · simp [here]
  · have absent : client.shared.pending[id]? ≠ some other :=
      fun found => here (placed.named id other found)
    simp [here, absent]

theorem Placed.drop_place (id : String) (other : Nat) :
    (if other ∈ client.dropped ∪ client.shared.pending[id]?.toFinset then 1 else 0) =
      (if other ∈ client.dropped then 1 else 0) +
        if client.shared.pending[id]? = some other then 1 else 0 := by
  by_cases found : client.shared.pending[id]? = some other
  · have here := placed.named id other found
    have once := placed.once other
    have absent : other ∉ client.dropped := by
      intro member
      simp only [places, placesIn, ← here, found, member, if_true] at once
      omega
    simp [found, absent]
  · simp [found]

end

theorem Placed.draw (placed : client.Placed) : client.draw.Placed :=
  { placed with
    drawn := by
      intro call member
      rcases Finset.mem_insert.mp member with rfl | old
      · exact ⟨Nat.lt_succ_self _, fun known => absurd (placed.registered _ known) (lt_irrefl _)⟩
      · exact (placed.drawn call old).imp_left Nat.lt_succ_of_lt
    registered := fun call known => Nat.lt_succ_of_lt (placed.registered call known)
    somewhere := fun few => placed.somewhere (Nat.le_of_succ_le few)
    intact := fun few => placed.intact (Nat.le_of_succ_le few) }

theorem Placed.places_enrol (placed : client.Placed) (nowhere : client.places call = 0)
    (other : Nat) :
    (client.enrol call).places other = if other = call then 1 else client.places other := by
  have silent : answersTo other (client.log ++ [.registered call]) =
      answersTo other client.log := by
    simp [answersTo, answerTo]
  have dropped := placed.drop_place (requestId call) other
  have left := placed.erase_place (requestId call) other
  simp only [places, enrol] at nowhere ⊢
  simp only [placesIn, get_insert, get_erase, silent, dropped] at nowhere left ⊢
  by_cases same : other = call
  · subst same
    simp only [if_true]
    omega
  · by_cases here : requestId call = requestId other
    · simp only [here, same, Ne.symm same, Option.some.injEq, if_true, if_false,
        reduceCtorEq] at left ⊢
      omega
    · simp only [here, same, if_false] at left ⊢
      omega

theorem Placed.enrol (placed : client.Placed) (member : call ∈ client.drawn) :
    (client.enrol call).Placed := by
  obtain ⟨small, unknown⟩ := placed.drawn call member
  have nowhere := placed.places_eq_zero unknown
  have places := placed.places_enrol nowhere
  have known : ∀ other, .registered other ∈ (client.enrol call).log ↔
      .registered other ∈ client.log ∨ other = call := by
    intro other
    simp [Client.enrol]
  refine ⟨fun other held => ?_, fun other registered => ?_, fun id other found => ?_,
    fun other => ?_, fun other some => ?_, fun few other registered uncancelled => ?_,
    fun few => ?_⟩
  · obtain ⟨apart, before⟩ := Finset.mem_erase.mp held
    rw [known]
    exact (placed.drawn other before).imp_right fun absent => not_or.mpr ⟨absent, apart⟩
  · rcases (known other).mp registered with old | rfl
    · exact placed.registered other old
    · exact small
  · simp only [Client.enrol, get_insert] at found
    split at found
    next here =>
      cases found
      exact here.symm
    · exact placed.named id other found
  · rw [places]
    split
    · exact le_rfl
    · exact placed.once other
  · rw [places] at some
    split at some
    next same => exact (known other).mpr (.inr same)
    · exact (known other).mpr (.inl (placed.known other some))
  · rw [places]
    split
    · exact Nat.one_ne_zero
    next apart =>
      exact placed.somewhere few other (((known other).mp registered).resolve_right apart)
        fun cancelled => uncancelled (List.mem_append_left _ cancelled)
  · have nobody : client.shared.pending[requestId call]? = none := by
      refine Option.eq_none_iff_forall_not_mem.mpr fun other found => ?_
      have one := placed.places_of_pending found
      rw [placed.alone few small found, nowhere] at one
      cases one
    simp [Client.enrol, placed.intact few, nobody]

/-- A move in which no call loses its place. -/
theorem Moves.of_places {events : List (ClientEvent Response)} (calls : next.calls = client.calls)
    (drawn : next.drawn ⊆ client.drawn) (log : next.log = client.log ++ events)
    (nobody : ∀ event ∈ events, ∀ call, event ≠ .registered call)
    (pending : ∀ (id : String) call, next.shared.pending[id]? = some call →
      client.shared.pending[id]? = some call)
    (dropped : next.dropped ⊆ client.dropped)
    (places : ∀ call, next.places call = client.places call) : Moves client next where
  calls := calls
  drawn := drawn
  registered := by
    intro call
    rw [log, List.mem_append, or_iff_left fun member => nobody _ member call rfl]
  pending := pending
  places := fun call => (places call).le
  kept := by
    intro call uncancelled
    rw [log] at uncancelled
    exact ⟨places call, fun cancelled => uncancelled (List.mem_append_left _ cancelled)⟩
  dropped := fun _ => dropped

theorem places_note {event : ClientEvent Response} (silent : ∀ other, answerTo other event = none)
    {pending : ExtTreeMap String Nat} {hand : Option (Nat × Response)}
    {dropped : Finset Nat} {log : List (ClientEvent Response)} :
    placesIn pending hand dropped (log ++ [event]) call =
      placesIn pending hand dropped log call := by
  simp [placesIn, answersTo, silent call]

theorem moves_note {event : ClientEvent Response} {drawn : Finset Nat}
    (fewer : drawn ⊆ client.drawn) (nobody : ∀ other, event ≠ .registered other)
    (silent : ∀ other, answerTo other event = none) :
    Moves client { client with drawn := drawn, log := client.log ++ [event] } :=
  .of_places rfl fewer rfl (List.forall_mem_singleton.mpr nobody) (fun _ _ found => found)
    (Finset.Subset.refl _) fun _ => places_note silent

theorem pending_erase {pending : ExtTreeMap String Nat} {id other : String}
    (found : (pending.erase id)[other]? = some call) : pending[other]? = some call := by
  rw [get_erase] at found
  split at found
  · cases found
  · exact found

theorem Placed.places_withdraw (placed : client.Placed) (call other : Nat) :
    (client.withdraw call).places other ≤ client.places other ∧
      (other ≠ call → (client.withdraw call).places other = client.places other) := by
  have left := placed.erase_place (requestId call) other
  have dropped := placed.drop_place (requestId call) other
  simp only [places, withdraw, Shared.take]
  rw [places_note fun _ => rfl]
  simp only [placesIn, Finset.mem_erase]
  by_cases same : other = call
  · simp only [same, ne_eq, not_true_eq_false, false_and, if_false, false_implies, and_true]
      at left ⊢
    omega
  · simp only [same, ne_eq, not_false_eq_true, true_and, true_implies, dropped]
    omega

theorem Placed.moves_withdraw (placed : client.Placed) (known : .registered call ∈ client.log) :
    Moves client (client.withdraw call) := by
  refine ⟨rfl, Finset.Subset.refl _, fun other => by simp [withdraw],
    fun _ _ found => pending_erase found, fun other => (placed.places_withdraw call other).1,
    fun other uncancelled => ?_, fun few other member => ?_⟩
  · have apart : other ≠ call := by
      rintro rfl
      exact uncancelled (by simp [withdraw])
    exact ⟨(placed.places_withdraw call other).2 apart,
      fun cancelled => uncancelled (List.mem_append_left _ cancelled)⟩
  · obtain ⟨apart, inside⟩ := Finset.mem_erase.mp member
    refine (Finset.mem_union.mp inside).resolve_right fun taken => apart ?_
    exact placed.alone few (placed.registered call known) (by simpa using taken)

theorem Placed.moves_respond (placed : client.Placed) (idle : client.hand = none)
    (response : Response) :
    Moves client
      { client with
        shared := (client.shared.take id).1
        hand := client.shared.pending[id]?.map fun call => (call, response) } := by
  refine .of_places rfl (Finset.Subset.refl _) (List.append_nil _).symm (by simp)
    (fun _ _ found => pending_erase found) (Finset.Subset.refl _) fun other => ?_
  have left := placed.erase_place id other
  have taken : (client.shared.pending[id]?.map fun call => (call, response)).map Prod.fst =
      client.shared.pending[id]? := by
    simp [Function.comp_def]
  simp only [places, Shared.take]
  simp only [placesIn, idle, taken, Option.map_none, reduceCtorEq, if_false]
  omega

theorem moves_deliver (held : client.hand = some (call, response)) :
    Moves client
      { client with hand := none, log := client.log ++ [.answered call (.ok response)] } := by
  refine .of_places rfl (Finset.Subset.refl _) rfl (by simp) (fun _ _ found => found)
    (Finset.Subset.refl _) fun other => ?_
  simp only [places]
  simp only [placesIn, held, length_answersTo_answered, Option.map_some, Option.some.injEq,
    Option.map_none, reduceCtorEq, if_false]
  omega

theorem moves_gone (member : call ∈ client.dropped) :
    Moves client
      { client with
        dropped := client.dropped.erase call, log := client.log ++ [.answered call answer] } := by
  refine .of_places rfl (Finset.Subset.refl _) rfl (by simp) (fun _ _ found => found)
    (Finset.erase_subset _ _) fun other => ?_
  simp only [places]
  simp only [placesIn, length_answersTo_answered, Finset.mem_erase]
  by_cases same : other = call
  · simp only [same, ne_eq, not_true_eq_false, false_and, member, if_true, if_false]
    omega
  · simp only [same, Ne.symm same, ne_eq, not_false_eq_true, true_and, if_false]
    omega

theorem recordEnd_pending {shared : Shared} :
    (shared.recordEnd code clean endedBy).pending = shared.pending := by
  unfold Shared.recordEnd
  split
  · rfl
  · split
    · rfl
    · rfl

theorem moves_writerEnds : Moves client client.writerEnds := by
  have same : client.writerEnds.shared.pending = client.shared.pending := recordEnd_pending
  refine .of_places rfl (Finset.Subset.refl _) (List.append_nil _).symm (by simp)
    (fun _ _ found => same ▸ found) (Finset.Subset.refl _) fun other => ?_
  rw [places, same]
  rfl

theorem Placed.answersTo_drained (placed : client.Placed) (call : Nat) (code : TransportError) :
    answersTo call (client.shared.pending.toList.map fun entry =>
        (.answered entry.2 (.error code) : ClientEvent Response)) =
      if client.shared.pending[requestId call]? = some call then [.error code] else [] := by
  have single : ∀ entry ∈ client.shared.pending.toList,
      answerTo call (.answered entry.2 (.error code) : ClientEvent Response) =
        if entry == (requestId call, call) then some (.error code) else none := by
    rintro ⟨id, other⟩ member
    have named := placed.named id other (ExtTreeMap.mem_toList_iff_getElem?_eq_some.mp member)
    by_cases same : other = call <;> simp [answerTo, named, same]
  rw [answersTo, List.filterMap_map]
  refine (List.filterMap_congr single).trans ?_
  rw [← List.filterMap_filter, List.filter_beq, (toList_nodup _).count]
  split <;> simp_all

/-- A code a caller is shown is the reader's, or tells a caller whose sender was displaced. -/
def Explained (client : Client Response) (event : ClientEvent Response) : Prop :=
  ∀ code, shownCode event = some code → client.readerEnd = some code ∨
    2 ^ 64 < client.calls ∧ ∃ call, event = .answered call (.error .backendUnavailable)

structure Ended (client : Client Response) : Prop where
  running : client.readerEnd = none → client.shared.shownEnd = none
  closed : ∀ code, client.readerEnd = some code → client.shared.ended = some code ∧
    client.shared.provisional = false ∧ client.shared.pending = ∅ ∧ client.hand = none
  codes : ∀ event ∈ client.log, client.Explained event

section

variable (ended : client.Ended)

include ended

theorem Ended.shownEnd : client.shared.shownEnd = client.readerEnd := by
  cases ending : client.readerEnd with
  | none => exact ended.running ending
  | some code =>
    obtain ⟨recorded, final, -⟩ := ended.closed code ending
    simp [Shared.shownEnd, recorded, final]

theorem Ended.note (explained : client.Explained event) :
    ∀ other ∈ client.log ++ [event], client.Explained other :=
  List.forall_mem_append.mpr ⟨ended.codes, List.forall_mem_singleton.mpr explained⟩

end

theorem recordEnd_writer (shared : Shared) (code : TransportError) (clean : Bool) :
    (shared.ended = none ∧ (shared.recordEnd code clean .writer).provisional = true) ∨
      shared.recordEnd code clean .writer = shared := by
  unfold Shared.recordEnd
  cases ended : shared.ended with
  | none => exact .inl ⟨rfl, rfl⟩
  | some other => exact .inr (if_neg (by simp))

theorem recordEnd_reader {shared : Shared} (shown : shared.shownEnd = none) (code : TransportError)
    (clean : Bool) (notWriter : endedBy ≠ .writer) :
    (shared.recordEnd code clean endedBy).ended = some code := by
  unfold Shared.recordEnd
  cases ended : shared.ended with
  | none => rfl
  | some other =>
    have provisional : shared.provisional = true := by
      by_contra final
      simp [Shared.shownEnd, final, ended] at shown
    simp [provisional, notWriter, not_false_eq_true, and_self]

theorem finish_reader {shared : Shared} (shown : shared.shownEnd = none) (code : TransportError)
    (clean serverClose : Bool) :
    ∃ ended, shared.finish code clean (if serverClose then .serverClose else .reader) =
        (ended, shared.pending.toList.map fun entry => (entry.2, code)) ∧
      ended.ended = some code ∧ ended.provisional = false ∧ ended.pending = ∅ := by
  have notWriter : (if serverClose then EndedBy.serverClose else .reader) ≠ .writer := by
    cases serverClose <;> decide
  have recorded := recordEnd_reader shown code clean notWriter
  unfold Shared.finish
  simp only [if_pos notWriter, recordEnd_pending, recorded, Option.getD_some]
  exact ⟨_, rfl, rfl, rfl, rfl⟩

structure Consistent (client : Client Response) : Prop where
  placed : client.Placed
  ended : client.Ended

section

variable (consistent : client.Consistent)

include consistent

theorem Consistent.readerEnds_eq (unended : client.readerEnd = none) (idle : client.hand = none)
    (code : TransportError) (clean serverClose : Bool) :
    ∃ ended, client.readerEnds code clean serverClose =
        { client with
          shared := ended
          readerEnd := some code
          log := client.log ++ client.shared.pending.toList.map fun entry =>
            .answered entry.2 (.error code) } ∧
      ended.ended = some code ∧ ended.provisional = false ∧ ended.pending = ∅ := by
  obtain ⟨ended, answer, rest⟩ :=
    finish_reader (consistent.ended.running unended) code clean serverClose
  refine ⟨ended, ?_, rest⟩
  simp [Client.readerEnds, readerFree, unended, idle, answer]

theorem Consistent.readerEnds (unended : client.readerEnd = none) (idle : client.hand = none)
    (code : TransportError) (clean serverClose : Bool) :
    (client.readerEnds code clean serverClose).Consistent := by
  obtain ⟨ended, answer, recorded, final, empty⟩ :=
    consistent.readerEnds_eq unended idle code clean serverClose
  rw [answer]
  refine ⟨consistent.placed.moves (.of_places rfl (Finset.Subset.refl _) rfl
    (by simp +contextual [eq_comm]) ?_ (Finset.Subset.refl _) ?_), nofun, ?_,
    List.forall_mem_append.mpr ⟨?_, ?_⟩⟩
  · intro id call found
    rw [empty] at found
    simp at found
  · intro call
    simp only [places, empty]
    simp only [placesIn, answersTo_append, consistent.placed.answersTo_drained, List.length_append,
      apply_ite List.length, List.length_singleton, List.length_nil, ExtTreeMap.getElem?_empty,
      reduceCtorEq, if_false]
    omega
  · rintro other same
    cases same
    exact ⟨recorded, final, empty, idle⟩
  · intro event old other shows
    rcases consistent.ended.codes event old other shows with early | displaced
    · rw [unended] at early
      cases early
    · exact .inr displaced
  · rintro event new other shows
    obtain ⟨entry, -, rfl⟩ := List.mem_map.mp new
    exact .inl (congrArg some (Option.some.inj shows))

theorem Consistent.writerEnds : client.writerEnds.Consistent := by
  obtain ⟨placed, ended⟩ := consistent
  refine ⟨placed.moves moves_writerEnds, fun unended => ?_, fun code ending => ?_, ended.codes⟩
  · change (client.shared.recordEnd _ _ .writer).shownEnd = none
    rcases recordEnd_writer client.shared .backendUnavailable false with ⟨-, hidden⟩ | kept
    · simp [Shared.shownEnd, hidden]
    · rw [kept]
      exact ended.running unended
  · obtain ⟨recorded, rest⟩ := ended.closed code ending
    change (client.shared.recordEnd _ _ .writer).ended = _ ∧
      (client.shared.recordEnd _ _ .writer).provisional = _ ∧
      (client.shared.recordEnd _ _ .writer).pending = _ ∧ _
    rcases recordEnd_writer client.shared .backendUnavailable false with ⟨none, -⟩ | kept
    · rw [none] at recorded
      cases recorded
    · rw [kept]
      exact ⟨recorded, rest⟩

theorem Consistent.exit {step : ClientStep Response} (exit : Exit client step next) :
    next.Consistent := by
  obtain ⟨placed, ended⟩ := consistent
  cases exit with
  | same => exact ⟨placed, ended⟩
  | drawn =>
    exact ⟨placed.draw, ended.running, ended.closed, fun event member code shows =>
      (ended.codes event member code shows).imp_right (.imp_left Nat.lt_succ_of_lt)⟩
  | registered member unended =>
    refine ⟨placed.enrol member, fun _ => unended, fun code ending => ?_, ended.note nofun⟩
    cases (ended.shownEnd.symm.trans unended).symm.trans ending
  | refused shown =>
    refine ⟨placed.moves (moves_note (Finset.erase_subset _ _) (by simp) fun _ => rfl),
      ended.running, ended.closed, ended.note fun code shows => .inl ?_⟩
    exact ended.shownEnd.symm.trans (shown.trans shows)
  | cancelled known =>
    refine ⟨placed.moves (placed.moves_withdraw known), ended.running, fun code ending => ?_,
      ended.note nofun⟩
    obtain ⟨recorded, final, empty, idle⟩ := ended.closed code ending
    refine ⟨recorded, final, ?_, idle⟩
    change client.shared.pending.erase _ = ∅
    rw [empty]
    exact erase_of_get_none (by simp)
  | @gone call member =>
    refine ⟨placed.moves (moves_gone member), ended.running, ended.closed,
      ended.note fun code told => ?_⟩
    have many : 2 ^ 64 < client.calls := by
      by_contra few
      rw [placed.intact (by omega)] at member
      exact Finset.notMem_empty call member
    rw [shownCode, ended.shownEnd, Option.some.injEq] at told
    cases ending : client.readerEnd with
    | none => exact .inr ⟨many, call, by rw [ended.shownEnd, ending]; rfl⟩
    | some final => exact .inl (by rw [← told, ending]; rfl)
  | responded unended idle =>
    refine ⟨placed.moves (placed.moves_respond idle _), ended.running, fun code ending => ?_,
      ended.codes⟩
    cases unended.symm.trans ending
  | delivered held =>
    refine ⟨placed.moves (moves_deliver held), ended.running, fun code ending => ?_,
      ended.note nofun⟩
    obtain ⟨recorded, final, empty, -⟩ := ended.closed code ending
    exact ⟨recorded, final, empty, rfl⟩
  | writerEnded => exact Consistent.writerEnds ⟨placed, ended⟩
  | readerEnded unended idle => exact Consistent.readerEnds ⟨placed, ended⟩ unended idle _ _ _
  | closed =>
    exact ⟨⟨placed.drawn, placed.registered, placed.named, placed.once, placed.known,
      placed.somewhere, placed.intact⟩, ended.running, ended.closed, ended.codes⟩
  | looked =>
    refine ⟨placed.moves (moves_note (Finset.Subset.refl _) (by simp) fun _ => rfl),
      ended.running, ended.closed, ended.note fun code shows => .inl ?_⟩
    exact ended.shownEnd.symm.trans shows

theorem Consistent.step (step : ClientStep Response) : (client.step step).Consistent :=
  consistent.exit (step_exit client step)

theorem Consistent.run (steps : List (ClientStep Response)) : (client.run steps).Consistent :=
  List.foldlRecOn steps (motive := Consistent) Client.step consistent
    fun _ reached step _ => reached.step step

end

theorem consistent_new : (new : Client Response).Consistent := by
  have nowhere : ∀ call, (new : Client Response).places call = 0 := by
    intro call
    simp [places, placesIn, new, Shared.default, answersTo]
  refine ⟨⟨?_, nofun, ?_, fun call => (nowhere call).le.trans (Nat.zero_le 1),
    fun call some => absurd (nowhere call) some, fun _ _ => nofun, fun _ => rfl⟩,
    fun _ => rfl, nofun, nofun⟩
  · intro call member
    simp [new] at member
  · intro id call found
    simp [new, Shared.default] at found

section

variable (consistent : client.Consistent) (ending : client.readerEnd = some code)

include consistent ending

theorem Consistent.writerEnds_eq : client.writerEnds = client := by
  have recorded := (consistent.ended.closed code ending).1
  unfold Client.writerEnds Shared.finish
  rcases recordEnd_writer client.shared .backendUnavailable false with ⟨none, -⟩ | kept
  · rw [none] at recorded
    cases recorded
  · rw [kept]
    rfl

theorem Consistent.after_end (step : ClientStep Response) :
    (client.step step).readerEnd = some code ∧
      ∀ call, .registered call ∈ (client.step step).log → .registered call ∈ client.log := by
  have shown := consistent.ended.shownEnd.trans ending
  have same := consistent.writerEnds_eq ending
  have exit := step_exit client step
  generalize client.step step = next at exit ⊢
  cases exit with
  | same | drawn | closed => exact ⟨ending, fun _ member => member⟩
  | registered _ unended => cases unended.symm.trans shown
  | responded unended | readerEnded unended => cases unended.symm.trans ending
  | writerEnded => exact ⟨ending, fun _ member => same ▸ member⟩
  | refused | gone | delivered => exact ⟨ending, fun _ member => by simpa using member⟩
  | cancelled => exact ⟨ending, fun _ member => by simpa [withdraw] using member⟩
  | looked => exact ⟨ending, fun _ member => by simpa [Client.look] using member⟩

theorem Consistent.run_after_end (steps : List (ClientStep Response)) :
    (client.run steps).readerEnd = some code ∧
      ∀ call, .registered call ∈ (client.run steps).log → .registered call ∈ client.log := by
  induction steps generalizing client with
  | nil => exact ⟨ending, fun _ member => member⟩
  | cons step rest ih =>
    obtain ⟨stays, nobody⟩ := consistent.after_end ending step
    obtain ⟨final, later⟩ := ih (consistent.step step) stays
    exact ⟨final, fun call member => nobody call (later call member)⟩

theorem Consistent.answer (few : client.calls ≤ 2 ^ 64)
    (registered : .registered call ∈ client.log) (uncancelled : .cancelled call ∉ client.log) :
    ∃ answer, answersTo call client.log = [answer] := by
  obtain ⟨-, -, empty, idle⟩ := consistent.ended.closed code ending
  have some := consistent.placed.somewhere few call registered uncancelled
  have once := consistent.placed.once call
  have none := consistent.placed.intact few
  simp [places, placesIn, empty, idle, none] at some once
  exact List.length_eq_one_iff.mp (le_antisymm once (List.length_pos_of_ne_nil some))

end

theorem answered_of_mem {log : List (ClientEvent Response)} (given : answer ∈ answersTo call log) :
    .answered call answer ∈ log := by
  obtain ⟨event, member, answers⟩ := List.mem_filterMap.mp given
  cases event with
  | answered owner told =>
    simp only [answerTo] at answers
    split at answers
    next same =>
      cases answers
      exact same ▸ member
    · cases answers
  | registered | refused | cancelled | looked => cases answers

section

variable {step : ClientStep Response} {response : Response} (consistent : client.Consistent)

include consistent

theorem Consistent.answer_code (few : client.calls ≤ 2 ^ 64)
    (given : Except.error code ∈ answersTo call client.log) : client.readerEnd = some code :=
  (consistent.ended.codes _ (answered_of_mem given) code rfl).resolve_right
    fun ⟨many, _⟩ => by omega

theorem Consistent.step_hand (held : (client.step step).hand = some (call, response)) :
    client.hand = some (call, response) ∨ step = .respond (requestId call) response := by
  have exit := step_exit client step
  generalize client.step step = next at exit held
  cases exit with
  | @responded _ id unended idle =>
    obtain ⟨taken, found, same⟩ := Option.map_eq_some_iff.mp held
    cases same
    exact .inr (by rw [consistent.placed.named id call found])
  | delivered => cases held
  | readerEnded unended idle =>
    obtain ⟨ended, answer, -⟩ := consistent.readerEnds_eq unended idle _ _ _
    rw [answer] at held
    exact .inl held
  | same | drawn | registered | refused | cancelled | gone | writerEnded | closed | looked =>
    exact .inl held

theorem Consistent.step_response
    (answered : .answered call (.ok response) ∈ (client.step step).log) :
    .answered call (.ok response) ∈ client.log ∨ client.hand = some (call, response) := by
  have exit := step_exit client step
  generalize client.step step = next at exit answered
  cases exit with
  | delivered held =>
    rcases List.mem_append.mp answered with old | new
    · exact .inl old
    · cases List.mem_singleton.mp new
      exact .inr held
  | readerEnded unended idle =>
    obtain ⟨ended, answer, -⟩ := consistent.readerEnds_eq unended idle _ _ _
    rw [answer] at answered
    exact .inl (by simpa using answered)
  | same | drawn | responded | writerEnded | closed => exact .inl answered
  | registered | refused | cancelled | gone | looked =>
    exact .inl (by simpa [enrol, withdraw, Client.look] using answered)

end

end

/-- Every response that is handed to a call came under the id of that call. -/
theorem run_responses (steps : List (ClientStep Response)) :
    (∀ call response, ((new : Client Response).run steps).hand = some (call, response) →
      .respond (requestId call) response ∈ steps) ∧
    ∀ call response, .answered call (.ok response) ∈ ((new : Client Response).run steps).log →
      .respond (requestId call) response ∈ steps := by
  induction steps using List.reverseRecOn with
  | nil => exact ⟨nofun, nofun⟩
  | append_singleton steps step ih =>
    have next : (new : Client Response).run (steps ++ [step]) =
        ((new : Client Response).run steps).step step := List.foldl_concat ..
    rw [next]
    refine ⟨fun call response held => ?_, fun call response answered => ?_⟩
    · rcases (consistent_new.run steps).step_hand held with before | rfl
      · exact List.mem_append_left _ (ih.1 call response before)
      · simp
    · refine List.mem_append_left _ ?_
      exact ((consistent_new.run steps).step_response answered).elim (ih.2 call response)
        (ih.1 call response)

/-- Calls end once, with their own response or with the one code the reader ended with, for a
connection whose counter of ids has not come round. After that a caller can be displaced, and is
told that the backend is gone; every other code that is shown is the reader's. -/
theorem client_calls_end (Response : Type) (steps : List (ClientStep Response)) :
    let client := (new : Client Response).run steps
    (∀ call, (answersTo call client.log).length ≤ 1) ∧
    (∀ code call, client.readerEnd = some code → client.calls ≤ 2 ^ 64 →
      .registered call ∈ client.log → .cancelled call ∉ client.log →
        (∃ response, .respond (requestId call) response ∈ steps ∧
          answersTo call client.log = [.ok response]) ∨
          answersTo call client.log = [.error code]) ∧
    (∀ event ∈ client.log, ∀ code, shownCode event = some code →
      client.readerEnd = some code ∨ 2 ^ 64 < client.calls ∧
        ∃ call, event = .answered call (.error .backendUnavailable)) ∧
    (∀ code more, client.readerEnd = some code →
      (client.run more).readerEnd = some code ∧
        ∀ call, .registered call ∈ (client.run more).log → .registered call ∈ client.log) ∧
    ∀ code, client.readerEnd = some code → client.writerEnds = client := by
  intro client
  have consistent : client.Consistent := consistent_new.run steps
  refine ⟨fun call => ?_, ?_, consistent.ended.codes, ?_, ?_⟩
  · have once := consistent.placed.once call
    simp only [places, placesIn] at once
    omega
  · intro code call ending few registered notCancelled
    obtain ⟨answer, only⟩ := consistent.answer ending few registered notCancelled
    have given : answer ∈ answersTo call client.log := only ▸ List.mem_singleton_self _
    cases answer with
    | ok response =>
      exact .inl ⟨response, (run_responses steps).2 call response (answered_of_mem given), only⟩
    | error other =>
      have same := consistent.answer_code few given
      rw [ending] at same
      cases same
      exact .inr only
  · intro code more ending
    exact consistent.run_after_end ending more
  · intro code ending
    exact consistent.writerEnds_eq ending

def bothEnds : List (ClientStep Nat) :=
  [.draw, .draw, .register 0, .writerEnd, .register 1, .respond "r1" 7, .deliver,
    .readerEnd .timeout false false]

/-- One call is answered by its response, the other by the reader's code and not the writer's. -/
theorem client_calls_end_sample :
    let client := (new : Client Nat).run bothEnds
    answersTo 0 client.log = [.error .timeout] ∧
      ∃ response, .respond "r1" response ∈ bothEnds ∧ answersTo 1 client.log = [.ok response] := by
  intro client
  have ends := (client_calls_end Nat bothEnds).2.1 .timeout
  have uncancelled : ∀ call, client.isCancelled call = false → .cancelled call ∉ client.log := by
    intro call none cancelled
    rw [isCancelled_iff.mpr cancelled] at none
    cases none
  constructor
  · rcases ends 0 (by decide +kernel) (by decide +kernel) (isRegistered_iff.mp (by decide +kernel))
      (uncancelled 0 (by decide +kernel)) with ⟨response, -, answered⟩ | answered
    · have told :
          (answersTo 0 ((new : Client Nat).run bothEnds).log).map Except.isOk = [false] := by
        decide +kernel
      rw [answered] at told
      cases told
    · exact answered
  · rcases ends 1 (by decide +kernel) (by decide +kernel) (isRegistered_iff.mp (by decide +kernel))
      (uncancelled 1 (by decide +kernel)) with answered | answered
    · exact answered
    · exact absurd (congrArg (List.map Except.isOk) answered) (by decide +kernel)

def firstPending : Shared :=
  ⟨(∅ : ExtTreeMap String Nat).insert (requestId 0) 0, none, false, false, false⟩

structure Rounded (rounds : Nat) (client : Client Unit) : Prop where
  fields : ∃ log, client = ⟨firstPending, rounds + 1, ∅, ∅, none, none, log⟩
  registered : .registered 0 ∈ client.log
  uncancelled : .cancelled 0 ∉ client.log
  unanswered : answersTo 0 client.log = []

theorem run_round (small : rounds + 1 < 2 ^ 64) {log : List (ClientEvent Unit)} :
    (Client.mk firstPending (rounds + 1) ∅ ∅ none none log).run [.draw, .register (rounds + 1),
        .respond (requestId (rounds + 1)) (), .deliver] =
      ⟨firstPending, rounds + 2, ∅, ∅, none, none,
        log ++ [.registered (rounds + 1), .answered (rounds + 1) (.ok ())]⟩ := by
  have apart : requestId 0 ≠ requestId (rounds + 1) := by
    intro clash
    have := requestId_injective (by decide) small clash
    omega
  have absent : ((∅ : ExtTreeMap String Nat).insert (requestId 0) 0)[requestId (rounds + 1)]? =
      none := by
    rw [get_insert, if_neg apart]
    simp
  simp [run, step, draw, register, Shared.register, Shared.shownEnd, respond, readerFree,
    Shared.take, deliver, firstPending, erase_insert, erase_of_get_none absent, absent]

theorem Rounded.next (rounded : Rounded rounds client) (small : rounds + 1 < 2 ^ 64) :
    Rounded (rounds + 1) (client.run [.draw, .register (rounds + 1),
      .respond (requestId (rounds + 1)) (), .deliver]) := by
  obtain ⟨⟨log, rfl⟩, registered, uncancelled, unanswered⟩ := rounded
  rw [run_round small]
  refine ⟨⟨_, rfl⟩, List.mem_append_left _ registered, ?_, ?_⟩
  · simpa using uncancelled
  · change answersTo 0 (log ++ _) = []
    rw [answersTo_append]
    simpa [answersTo, answerTo] using unanswered

theorem rounded (rounds : Nat) (small : rounds < 2 ^ 64) :
    ∃ steps, Rounded rounds ((new : Client Unit).run steps) := by
  induction rounds with
  | zero =>
    refine ⟨[.draw, .register 0], ⟨[.registered 0], rfl⟩, List.mem_singleton_self _, ?_, rfl⟩
    exact fun member => by cases List.mem_singleton.mp member
  | succ rounds ih =>
    obtain ⟨steps, reached⟩ := ih (by omega)
    refine ⟨steps ++ [.draw, .register (rounds + 1), .respond (requestId (rounds + 1)) (),
      .deliver], ?_⟩
    unfold run
    rw [List.foldl_append]
    exact reached.next small

/-- When the counter of ids comes round, a call takes the place of one that still waits under
its id, and that one is told that the backend is gone while the connection goes on. -/
theorem reused_id_displaces :
    ∃ steps : List (ClientStep Unit),
      let client := (new : Client Unit).run steps
      client.readerEnd = some .timeout ∧ .registered 0 ∈ client.log ∧
        .cancelled 0 ∉ client.log ∧ answersTo 0 client.log = [.error .backendUnavailable] := by
  obtain ⟨steps, ⟨log, reached⟩, registered, uncancelled, unanswered⟩ :=
    rounded (2 ^ 64 - 1) (by decide)
  refine ⟨steps ++ [.draw, .register (2 ^ 64), .gone 0, .readerEnd .timeout false false], ?_⟩
  have same : requestId 18446744073709551616 = requestId 0 := rfl
  let client := (((new : Client Unit).run steps).draw.register (2 ^ 64)).gone 0
  have consistent : client.Consistent :=
    (((consistent_new.run steps).step .draw).step (.register (2 ^ 64))).step (.gone 0)
  have state : client = ⟨⟨firstPending.pending.insert (requestId 0) (2 ^ 64), none, false, false,
      false⟩, 2 ^ 64 + 1, ∅, ∅, none, none,
      log ++ [.registered (2 ^ 64), .answered 0 (.error .backendUnavailable)]⟩ := by
    change ((((new : Client Unit).run steps).draw).register (2 ^ 64)).gone 0 = _
    rw [reached]
    simp [draw, register, gone, Shared.register, Shared.shownEnd, firstPending, same]
  have replaced : client.shared.pending[requestId 0]? ≠ some 0 := by
    rw [state]
    simp
  have logged : client.log =
      log ++ [.registered (2 ^ 64), .answered 0 (.error .backendUnavailable)] := by rw [state]
  rw [reached] at registered uncancelled unanswered
  obtain ⟨ended, answer, -⟩ :=
    consistent.readerEnds_eq (by rw [state]) (by rw [state]) .timeout false false
  have final : (new : Client Unit).run (steps ++ [.draw, .register (2 ^ 64), .gone 0,
      .readerEnd .timeout false false]) = client.readerEnds .timeout false false := by
    unfold run
    rw [List.foldl_append]
    rfl
  simp only [final, answer]
  refine ⟨trivial, ?_, ?_, ?_⟩
  · rw [logged]
    simp [registered]
  · rw [logged]
    simpa using uncancelled
  · have before : answersTo 0 log = [] := unanswered
    rw [answersTo_append, consistent.placed.answersTo_drained, if_neg replaced, logged,
      answersTo_append, before]
    rfl

end Client

end InterWeave.Ipc
