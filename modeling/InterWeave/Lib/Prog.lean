import Mathlib

/-!
Programs of one thread over atomic operations. A program returns, performs an
operation and goes on with its answer, or spins: it repeats an operation on a word until
an answer ends the loop.
-/

namespace Concurrent

inductive Prog (Op : Type) (Ans : Op → Type) (α : Type) : Type where
  | ret (value : α)
  | call (op : Op) (next : Ans op → Prog Op Ans α)
  | spin (word : Nat) (op : Nat → Op) (retry : (word : Nat) → Ans (op word) → Option Nat)
      (exit : (word : Nat) → Ans (op word) → Prog Op Ans α)

structure Event (Op : Type) (Ans : Op → Type) where
  op : Op
  ans : Ans op

variable {Op : Type} {Ans : Op → Type} {α β : Type}

namespace Prog

def bind : Prog Op Ans α → (α → Prog Op Ans β) → Prog Op Ans β
  | .ret value, rest => rest value
  | .call op next, rest => .call op fun ans => (next ans).bind rest
  | .spin word op retry exit, rest =>
    .spin word op retry fun word ans => (exit word ans).bind rest

instance : Monad (Prog Op Ans) where
  pure := .ret
  bind := .bind

def perform (op : Op) : Prog Op Ans (Ans op) := .call op .ret

@[simp]
theorem pure_eq : (pure value : Prog Op Ans α) = .ret value := rfl

@[simp]
theorem bind_eq (prog : Prog Op Ans α) (rest : α → Prog Op Ans β) :
    prog >>= rest = prog.bind rest := rfl

@[simp]
theorem ret_bind (value : α) (rest : α → Prog Op Ans β) : (ret value).bind rest = rest value := rfl

@[simp]
theorem map_eq (change : α → β) (prog : Prog Op Ans α) :
    change <$> prog = prog.bind fun value => .ret (change value) := rfl

@[simp]
theorem perform_bind (op : Op) (rest : Ans op → Prog Op Ans β) :
    (perform op).bind rest = .call op rest := rfl

theorem bind_assoc {γ : Type} (prog : Prog Op Ans α) (first : α → Prog Op Ans β)
    (second : β → Prog Op Ans γ) :
    (prog.bind first).bind second = prog.bind fun value => (first value).bind second := by
  induction prog with
  | ret value => rfl
  | call op next ih => simp only [bind, ih]
  | spin word op retry exit ih => simp only [bind, ih]

theorem bind_ret (prog : Prog Op Ans α) : prog.bind .ret = prog := by
  induction prog with
  | ret value => rfl
  | call op next ih => simp only [bind, ih]
  | spin word op retry exit ih => simp only [bind, ih]

inductive Advance : Prog Op Ans α → Event Op Ans → Prog Op Ans α → Prop
  | call {op : Op} {next : Ans op → Prog Op Ans α} (ans : Ans op) :
      Advance (.call op next) ⟨op, ans⟩ (next ans)
  | again {word after : Nat} {op : Nat → Op} {retry : (word : Nat) → Ans (op word) → Option Nat}
      {exit : (word : Nat) → Ans (op word) → Prog Op Ans α} {ans : Ans (op word)}
      (retried : retry word ans = some after) :
      Advance (.spin word op retry exit) ⟨op word, ans⟩ (.spin after op retry exit)
  | leave {word : Nat} {op : Nat → Op} {retry : (word : Nat) → Ans (op word) → Option Nat}
      {exit : (word : Nat) → Ans (op word) → Prog Op Ans α} {ans : Ans (op word)}
      (ended : retry word ans = none) :
      Advance (.spin word op retry exit) ⟨op word, ans⟩ (exit word ans)

inductive Path : Prog Op Ans α → List (Event Op Ans) → Prog Op Ans α → Prop
  | nil (prog : Prog Op Ans α) : Path prog [] prog
  | cons {prog middle last : Prog Op Ans α} {event : Event Op Ans} {events : List (Event Op Ans)}
      (first : Advance prog event middle) (later : Path middle events last) :
      Path prog (event :: events) last

theorem Path.append (first : Path prog events middle) (second : Path middle later last) :
    Path prog (events ++ later) last := by
  induction first with
  | nil => exact second
  | cons step _ ih => exact .cons step (ih second)

theorem Advance.unique (first : Advance prog event left) (second : Advance prog event right) :
    left = right := by
  cases first with
  | call ans => cases second; rfl
  | again retried =>
    cases second with
    | again other => rw [retried] at other; cases other; rfl
    | leave ended => rw [retried] at ended; cases ended
  | leave ended =>
    cases second with
    | again retried => rw [ended] at retried; cases retried
    | leave _ => rfl

theorem Path.unique (first : Path prog events left) (second : Path prog events right) :
    left = right := by
  induction first with
  | nil => cases second; rfl
  | cons step _ ih =>
    obtain ⟨⟩ | ⟨other, tail⟩ := second
    cases step.unique other
    exact ih tail

theorem Advance.bind (step : Advance prog event middle) (rest : α → Prog Op Ans β) :
    Advance (prog.bind rest) event (middle.bind rest) := by
  cases step with
  | call ans => exact .call ans
  | again retried => exact .again retried
  | leave ended => exact .leave ended

theorem Path.bind (path : Path prog events middle) (rest : α → Prog Op Ans β) :
    Path (prog.bind rest) events (middle.bind rest) := by
  induction path with
  | nil => exact .nil _
  | cons step _ ih => exact .cons (step.bind rest) ih

theorem Advance.of_bind {rest : α → Prog Op Ans β} (step : Advance (prog.bind rest) event last) :
    (∃ value, prog = .ret value) ∨
      ∃ middle, Advance prog event middle ∧ last = middle.bind rest := by
  cases prog with
  | ret value => exact .inl ⟨value, rfl⟩
  | call op next =>
    obtain ⟨ans⟩ := step
    exact .inr ⟨next ans, .call ans, rfl⟩
  | spin word op retry exit =>
    cases step with
    | again retried => exact .inr ⟨_, .again retried, rfl⟩
    | leave ended => exact .inr ⟨_, .leave ended, rfl⟩

theorem Path.of_bind (path : Path (prog.bind rest) events (.ret result)) :
    ∃ value first second, events = first ++ second ∧ Path prog first (.ret value) ∧
      Path (rest value) second (.ret result) := by
  induction events generalizing prog with
  | nil =>
    cases prog with
    | ret value => exact ⟨value, [], [], rfl, .nil _, path⟩
    | call | spin => cases path
  | cons event events ih =>
    obtain ⟨⟩ | ⟨step, tail⟩ := path
    rcases step.of_bind with ⟨value, rfl⟩ | ⟨middle, inner, rfl⟩
    · exact ⟨value, [], _, rfl, .nil _, .cons step tail⟩
    · obtain ⟨value, first, second, rfl, before, after⟩ := ih tail
      exact ⟨value, event :: first, second, rfl, .cons inner before, after⟩

theorem Path.of_ret (path : Path (.ret value : Prog Op Ans α) events (.ret result)) :
    events = [] ∧ value = result := by
  cases path with
  | nil => exact ⟨rfl, rfl⟩
  | cons step _ => cases step

theorem Path.of_call (path : Path (.call op next) events (.ret result)) :
    ∃ ans later, events = ⟨op, ans⟩ :: later ∧ Path (next ans) later (.ret result) := by
  cases path with
  | cons step later =>
    cases step with
    | call ans => exact ⟨ans, _, rfl, later⟩

inductive Only (allowed : Op → Prop) : Prog Op Ans α → Prop
  | ret (value : α) : Only allowed (.ret value)
  | call {op : Op} {next : Ans op → Prog Op Ans α} (isAllowed : allowed op)
      (each : ∀ ans, Only allowed (next ans)) : Only allowed (.call op next)
  | spin {word : Nat} {op : Nat → Op} {retry : (word : Nat) → Ans (op word) → Option Nat}
      {exit : (word : Nat) → Ans (op word) → Prog Op Ans α} (isAllowed : ∀ word, allowed (op word))
      (each : ∀ word ans, Only allowed (exit word ans)) : Only allowed (.spin word op retry exit)

theorem Only.bind (first : Only allowed prog) (second : ∀ value, Only allowed (rest value)) :
    Only allowed (prog.bind rest) := by
  induction first with
  | ret value => exact second value
  | call isAllowed _ ih => exact .call isAllowed ih
  | spin isAllowed _ ih => exact .spin isAllowed ih

theorem Only.path (only : Only allowed prog) (path : Path prog events last) :
    Only allowed last ∧ ∀ event ∈ events, allowed event.op := by
  induction path with
  | nil => exact ⟨only, by simp⟩
  | cons step _ ih =>
    cases step with
    | call ans =>
      cases only with | call isAllowed each =>
      exact ⟨(ih (each ans)).1, List.forall_mem_cons.mpr ⟨isAllowed, (ih (each ans)).2⟩⟩
    | again retried =>
      cases only with | spin isAllowed each =>
      have later := ih (.spin isAllowed each)
      exact ⟨later.1, List.forall_mem_cons.mpr ⟨isAllowed _, later.2⟩⟩
    | leave ended =>
      cases only with | spin isAllowed each =>
      have later := ih (each _ _)
      exact ⟨later.1, List.forall_mem_cons.mpr ⟨isAllowed _, later.2⟩⟩

inductive Spinless : Prog Op Ans α → Prop
  | ret (value : α) : Spinless (.ret value)
  | call {op : Op} {next : Ans op → Prog Op Ans α} (each : ∀ ans, Spinless (next ans)) :
      Spinless (.call op next)

theorem Spinless.bind (first : Spinless prog) (second : ∀ value, Spinless (rest value)) :
    Spinless (prog.bind rest) := by
  induction first with
  | ret value => exact second value
  | call _ ih => exact .call ih

def Gives (post : α → Prop) (prog : Prog Op Ans α) : Prop :=
  ∀ events value, Path prog events (.ret value) → post value

theorem Gives.ret (holds : post value) :
    Gives post (.ret value : Prog Op Ans α) := by
  intro events result path
  obtain ⟨-, rfl⟩ := path.of_ret
  exact holds

theorem Gives.bind (first : Gives middle prog)
    (second : ∀ value, middle value → Gives post (rest value)) : Gives post (prog.bind rest) := by
  intro events result path
  obtain ⟨value, before, after, -, toValue, toResult⟩ := path.of_bind
  exact second value (first before value toValue) after result toResult

theorem Gives.after (prog : Prog Op Ans α) (second : ∀ value, Gives post (rest value)) :
    Gives post (prog.bind rest) :=
  Gives.bind (fun _ _ _ => trivial : Gives (fun _ => True) prog) fun value _ => second value

theorem Gives.mono (gives : Gives post prog) (implies : ∀ value, post value → weaker value) :
    Gives weaker prog :=
  fun events value path => implies value (gives events value path)

theorem Gives.map (gives : Gives (fun value => post (change value)) prog) :
    Gives post (change <$> prog) :=
  gives.bind fun _ holds => .ret holds

def Must (wanted : Op → Prop) (prog : Prog Op Ans α) : Prop :=
  ∀ events value, Path prog events (.ret value) → ∃ event ∈ events, wanted event.op

theorem Must.here (isWanted : wanted op) : Must wanted (.call op next) := by
  intro events value path
  obtain ⟨ans, later, rfl, -⟩ := path.of_call
  exact ⟨_, List.mem_cons_self, isWanted⟩

theorem Must.bind (first : Must wanted prog) (rest : α → Prog Op Ans β) :
    Must wanted (prog.bind rest) := by
  intro events result path
  obtain ⟨value, before, after, rfl, toValue, -⟩ := path.of_bind
  obtain ⟨event, member, isWanted⟩ := first before value toValue
  exact ⟨event, List.mem_append_left _ member, isWanted⟩

theorem Must.after (gives : Gives post prog)
    (second : ∀ value, post value → Must wanted (rest value)) : Must wanted (prog.bind rest) := by
  intro events result path
  obtain ⟨value, before, after, rfl, toValue, toResult⟩ := path.of_bind
  obtain ⟨event, member, isWanted⟩ := second value (gives before value toValue) after
    result toResult
  exact ⟨event, List.mem_append_right _ member, isWanted⟩

end Prog

/-- The rules a thread keeps to: the state it accounts for may change in silence, and with
each operation. It is entitled to answers that are `possible`. -/
structure Protocol (Op : Type) (Ans : Op → Type) (σ : Type) where
  possible : (op : Op) → Ans op → Prop
  silent : σ → σ → Prop
  move : σ → (op : Op) → Ans op → σ → Prop
  refl : ∀ state, silent state state
  trans : ∀ {first second third}, silent first second → silent second third → silent first third

variable {σ : Type} (protocol : Protocol Op Ans σ)

/-- Whatever the possible answers, the program keeps to the protocol from this state on, and returns
only in a state the postcondition allows. A loop does so under some invariant. -/
def Follows (post : α → σ → Prop) : Prog Op Ans α → σ → Prop
  | .ret value, state => ∃ last, protocol.silent state last ∧ post value last
  | .call op next, state => ∃ ready, protocol.silent state ready ∧
      ∀ ans, protocol.possible op ans →
        ∃ after, protocol.move ready op ans after ∧ Follows post (next ans) after
  | .spin word op retry exit, state => ∃ ready, protocol.silent state ready ∧
      ∃ holds : Nat → σ → Prop, holds word ready ∧
        ∀ word state, holds word state → ∀ ans, protocol.possible (op word) ans →
          ∃ after, protocol.move state (op word) ans after ∧
            match retry word ans with
            | some again => holds again after
            | none => Follows post (exit word ans) after

variable {protocol} {post : α → σ → Prop}

theorem Follows.silent (quiet : protocol.silent state ready)
    (follows : Follows protocol post prog ready) :
    Follows protocol post prog state := by
  cases prog with
  | ret | call | spin =>
    obtain ⟨last, more, held⟩ := follows
    exact ⟨last, protocol.trans quiet more, held⟩

theorem Follows.of_eq (same : state = other) (follows : Follows protocol post prog other) :
    Follows protocol post prog state :=
  same ▸ follows

theorem Follows.ret (held : post value state) :
    Follows protocol post (.ret value) state :=
  ⟨state, protocol.refl state, held⟩

theorem Follows.call {op : Op} {next : Ans op → Prog Op Ans α} {state : σ}
    (each : ∀ ans, protocol.possible op ans → ∃ after, protocol.move state op ans after ∧
      Follows protocol post (next ans) after) :
    Follows protocol post (.call op next) state :=
  ⟨state, protocol.refl state, each⟩

theorem Follows.spin (holds : Nat → σ → Prop) (start : holds word state)
    (each : ∀ word state, holds word state → ∀ ans, protocol.possible (op word) ans →
      ∃ after, protocol.move state (op word) ans after ∧
        match retry word ans with
        | some again => holds again after
        | none => Follows protocol post (exit word ans) after) :
    Follows protocol post (.spin word op retry exit) state :=
  ⟨state, protocol.refl state, holds, start, each⟩

theorem Follows.returned (follows : Follows protocol post (.ret value) state) :
    ∃ last, protocol.silent state last ∧ post value last :=
  follows

theorem Follows.then (follows : Follows protocol post prog state)
    (continues : ∀ value middle, post value middle → Follows protocol last (rest value) middle) :
    Follows protocol last (prog.bind rest) state := by
  induction prog generalizing state with
  | ret value =>
    obtain ⟨ready, quiet, held⟩ := follows
    exact (continues value ready held).silent quiet
  | call op next ih =>
    obtain ⟨ready, quiet, each⟩ := follows
    refine ⟨ready, quiet, fun ans possible => ?_⟩
    obtain ⟨after, moved, tail⟩ := each ans possible
    exact ⟨after, moved, ih ans tail⟩
  | spin word op retry exit ih =>
    obtain ⟨ready, quiet, holds, start, each⟩ := follows
    refine ⟨ready, quiet, holds, start, fun word state held ans possible => ?_⟩
    obtain ⟨after, moved, tail⟩ := each word state held ans possible
    refine ⟨after, moved, ?_⟩
    split at tail
    · exact tail
    · exact ih word ans tail

theorem Follows.mono (implies : ∀ value state, post value state → weaker value state)
    (follows : Follows protocol post prog state) : Follows protocol weaker prog state := by
  rw [← prog.bind_ret]
  exact follows.then fun value state held => .ret (implies value state held)

theorem Follows.advance (follows : Follows protocol post prog state)
    (step : prog.Advance ⟨op, ans⟩ next) (possible : protocol.possible op ans) :
    ∃ ready after, protocol.silent state ready ∧ protocol.move ready op ans after ∧
      Follows protocol post next after := by
  cases step with
  | call ans =>
    obtain ⟨ready, quiet, each⟩ := follows
    obtain ⟨after, moved, tail⟩ := each ans possible
    exact ⟨ready, after, quiet, moved, tail⟩
  | again retried =>
    obtain ⟨ready, quiet, holds, start, each⟩ := follows
    obtain ⟨after, moved, tail⟩ := each _ _ start _ possible
    rw [retried] at tail
    exact ⟨ready, after, quiet, moved, after, protocol.refl after, holds, tail, each⟩
  | leave ended =>
    obtain ⟨ready, quiet, holds, start, each⟩ := follows
    obtain ⟨after, moved, tail⟩ := each _ _ start _ possible
    rw [ended] at tail
    exact ⟨ready, after, quiet, moved, tail⟩

variable (protocol) in
inductive Protocol.Develops : σ → List (Event Op Ans) → σ → Prop
  | nil {state last : σ} (quiet : protocol.silent state last) : Develops state [] last
  | cons {state ready after last : σ} {op : Op} {ans : Ans op} {events : List (Event Op Ans)}
      (quiet : protocol.silent state ready) (moved : protocol.move ready op ans after)
      (later : Develops after events last) : Develops state (⟨op, ans⟩ :: events) last

theorem Follows.path (follows : Follows protocol post prog state) (path : prog.Path events last)
    (possible : ∀ event ∈ events, protocol.possible event.op event.ans) :
    ∃ after, protocol.Develops state events after ∧ Follows protocol post last after := by
  induction path generalizing state with
  | nil => exact ⟨state, .nil (protocol.refl state), follows⟩
  | cons step _ ih =>
    obtain ⟨ready, after, quiet, moved, tail⟩ :=
      follows.advance step (possible _ List.mem_cons_self)
    obtain ⟨final, develops, held⟩ :=
      ih tail fun event member => possible event (by simp [member])
    exact ⟨final, .cons quiet moved develops, held⟩

theorem Follows.result (follows : Follows protocol post prog state)
    (path : prog.Path events (.ret value))
    (possible : ∀ event ∈ events, protocol.possible event.op event.ans) :
    ∃ last, protocol.Develops state events last ∧ post value last := by
  obtain ⟨after, develops, held⟩ := follows.path path possible
  obtain ⟨last, quiet, holds⟩ := held.returned
  refine ⟨last, ?_, holds⟩
  clear follows path possible held
  induction develops with
  | nil first => exact .nil (protocol.trans first quiet)
  | cons first moved _ ih => exact .cons first moved (ih quiet)

structure Protocol.Local [Add σ] (protocol : Protocol Op Ans σ) : Prop where
  silent : ∀ {state after : σ} (spare : σ), protocol.silent state after →
    protocol.silent (state + spare) (after + spare)
  move : ∀ {state after : σ} {op : Op} {ans : Ans op} (spare : σ),
    protocol.move state op ans after →
    protocol.move (state + spare) op ans (after + spare)

theorem Follows.frame [Add σ] (isLocal : protocol.Local)
    (follows : Follows protocol post prog state) (spare : σ) :
    Follows protocol (fun value last => ∃ own, last = own + spare ∧ post value own) prog
      (state + spare) := by
  induction prog generalizing state with
  | ret value =>
    obtain ⟨last, quiet, held⟩ := follows
    exact ⟨last + spare, isLocal.silent spare quiet, last, rfl, held⟩
  | call op next ih =>
    obtain ⟨ready, quiet, each⟩ := follows
    refine ⟨ready + spare, isLocal.silent spare quiet, fun ans possible => ?_⟩
    obtain ⟨after, moved, tail⟩ := each ans possible
    exact ⟨after + spare, isLocal.move spare moved, ih ans tail⟩
  | spin word op retry exit ih =>
    obtain ⟨ready, quiet, holds, start, each⟩ := follows
    refine ⟨ready + spare, isLocal.silent spare quiet,
      fun word state => ∃ own, state = own + spare ∧ holds word own, ⟨ready, rfl, start⟩, ?_⟩
    rintro word _ ⟨own, rfl, held⟩ ans possible
    obtain ⟨after, moved, tail⟩ := each word own held ans possible
    refine ⟨after + spare, isLocal.move spare moved, ?_⟩
    split at tail
    · exact ⟨after, rfl, tail⟩
    · exact ih word ans tail

theorem Follows.share [Add σ] (isLocal : protocol.Local)
    (follows : Follows protocol post prog state)
    (continues : ∀ value own, post value own → Follows protocol last (rest value) (own + spare)) :
    Follows protocol last (prog.bind rest) (state + spare) := by
  refine (follows.frame isLocal spare).then ?_
  rintro value _ ⟨own, rfl, held⟩
  exact continues value own held

attribute [irreducible] Follows

end Concurrent
