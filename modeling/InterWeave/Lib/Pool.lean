import InterWeave.Lib.Prog

/-!
A pool of threads over one shared world. What no thread works on lies at rest: a thread
takes from it when it starts and puts its result back when it ends. Steps of different
threads interleave freely.
-/

namespace Concurrent

variable {id next : Nat}

structure System (Op : Type) (Ans : Op → Type) (World Rest Task Result : Type) where
  exec : World → (op : Op) → Ans op → World → Prop
  body : Task → Prog Op Ans Result
  start : World → Rest → Task → Rest → Prop
  finish : Rest → Result → Rest

structure Thread (Op : Type) (Ans : Op → Type) (Task Result : Type) where
  id : Nat
  task : Task
  prog : Prog Op Ans Result

structure Config (Op : Type) (Ans : Op → Type) (World Rest Task Result : Type) where
  world : World
  rest : Rest
  threads : List (Thread Op Ans Task Result)
  next : Nat

inductive Label (Op : Type) (Ans : Op → Type) (Task Result : Type) where
  | start (id : Nat) (task : Task)
  | act (id : Nat) (event : Event Op Ans)
  | finish (id : Nat) (result : Result)

variable {Op : Type} {Ans : Op → Type} {World Rest Task Result : Type}
  (sys : System Op Ans World Rest Task Result)

inductive Step : Config Op Ans World Rest Task Result → Label Op Ans Task Result →
    Config Op Ans World Rest Task Result → Prop
  | start {world : World} {rest left : Rest} {task : Task}
      {threads : List (Thread Op Ans Task Result)} {next : Nat}
      (taken : sys.start world rest task left) :
      Step ⟨world, rest, threads, next⟩ (.start next task)
        ⟨world, left, ⟨next, task, sys.body task⟩ :: threads, next + 1⟩
  | act {world changed : World} {rest : Rest} {before after : List (Thread Op Ans Task Result)}
      {next id : Nat} {task : Task} {prog later : Prog Op Ans Result} {op : Op} {ans : Ans op}
      (advanced : prog.Advance ⟨op, ans⟩ later) (executed : sys.exec world op ans changed) :
      Step ⟨world, rest, before ++ ⟨id, task, prog⟩ :: after, next⟩ (.act id ⟨op, ans⟩)
        ⟨changed, rest, before ++ ⟨id, task, later⟩ :: after, next⟩
  | finish {world : World} {rest : Rest} {before after : List (Thread Op Ans Task Result)}
      {next id : Nat} {task : Task} {result : Result} :
      Step ⟨world, rest, before ++ ⟨id, task, .ret result⟩ :: after, next⟩ (.finish id result)
        ⟨world, sys.finish rest result, before ++ after, next⟩

inductive Run (first : Config Op Ans World Rest Task Result) :
    List (Label Op Ans Task Result) → Config Op Ans World Rest Task Result → Prop
  | nil : Run first [] first
  | snoc {labels : List (Label Op Ans Task Result)} {label : Label Op Ans Task Result}
      {middle last : Config Op Ans World Rest Task Result}
      (run : Run first labels middle) (step : Step sys middle label last) :
      Run first (labels ++ [label]) last

variable {sys}

theorem Run.append (before : Run sys first labels middle) (after : Run sys middle later last) :
    Run sys first (labels ++ later) last := by
  induction after with
  | nil => simpa using before
  | snoc _ step ih => rw [← List.append_assoc]; exact ih.snoc step

theorem Run.world (reach : World → World → Prop) (refl : ∀ world, reach world world)
    (trans : ∀ {one two three}, reach one two → reach two three → reach one three)
    (exec : ∀ {world op ans changed}, sys.exec world op ans changed → reach world changed)
    (run : Run sys first labels last) : reach first.world last.world := by
  induction run with
  | nil => exact refl _
  | snoc _ step ih =>
    cases step with
    | start _ => exact ih
    | act _ executed => exact trans ih (exec executed)
    | finish => exact ih

theorem Run.at (run : Run sys first labels last) (taken : label ∈ labels) :
    ∃ before after here next, labels = before ++ label :: after ∧ Run sys first before here ∧
      Step sys here label next ∧ Run sys next after last := by
  induction run with
  | nil => cases taken
  | @snoc labels other middle last run step ih =>
    rcases List.mem_append.mp taken with older | isLast
    · obtain ⟨before, after, here, next, rfl, toHere, stepped, fromNext⟩ := ih older
      exact ⟨before, after ++ [other], here, next, by simp, toHere, stepped, fromNext.snoc step⟩
    · cases List.mem_singleton.mp isLast
      exact ⟨labels, [], middle, last, rfl, run, step, .nil⟩

section Contract

/-- What the shared world must satisfy given all that is owned, and what a task brings
along and leaves behind of it. -/
structure Contract (Op : Type) (Ans : Op → Type) (World Rest Task Result σ : Type) where
  protocol : Protocol Op Ans σ
  inv : World → σ → Prop
  sound : Rest → Prop
  owns : Rest → σ
  fits : Task → Prop
  brings : Task → σ
  leaves : Task → Result → σ → Prop

variable {σ : Type} [AddCommMonoid σ]
  {contract : Contract Op Ans World Rest Task Result σ} {permitted : Task → Prop}

variable (sys contract permitted) in
structure Contract.Kept : Prop where
  body : ∀ task, contract.fits task →
    Follows contract.protocol (contract.leaves task) (sys.body task) (contract.brings task)
  possible : ∀ {world changed op ans owned}, contract.inv world owned →
    sys.exec world op ans changed → contract.protocol.possible op ans
  exec : ∀ {world changed op ans own after others}, contract.inv world (own + others) →
    contract.protocol.move own op ans after → sys.exec world op ans changed →
    contract.inv changed (after + others)
  silent : ∀ {world own after others}, contract.inv world (own + others) →
    contract.protocol.silent own after → contract.inv world (after + others)
  start : ∀ {world rest task left others}, contract.sound rest → permitted task →
    sys.start world rest task left → contract.inv world (contract.owns rest + others) →
    contract.sound left ∧ contract.fits task ∧
      contract.inv world (contract.owns left + (contract.brings task + others))
  finish : ∀ {world rest task result own others}, contract.sound rest → contract.fits task →
    contract.leaves task result own → contract.inv world (contract.owns rest + (own + others)) →
    contract.sound (sys.finish rest result) ∧
      contract.inv world (contract.owns (sys.finish rest result) + others)

variable (contract) in
/-- Each thread keeps to the protocol from what it owns, and all that is owned together
satisfies the invariant. -/
def Contract.Covers (config : Config Op Ans World Rest Task Result) : Prop :=
  contract.sound config.rest ∧
    ∃ owned : List (Thread Op Ans Task Result × σ),
      owned.map Prod.fst = config.threads ∧
      (∀ entry ∈ owned, contract.fits entry.1.task ∧
        Follows contract.protocol (contract.leaves entry.1.task) entry.1.prog entry.2) ∧
      contract.inv config.world (contract.owns config.rest + (owned.map Prod.snd).sum)

def Label.Permitted (permitted : Task → Prop) : Label Op Ans Task Result → Prop
  | .start _ task => permitted task
  | .act _ _ | .finish _ _ => True

theorem Contract.Covers.focus
    (covers : contract.Covers ⟨world, rest, before ++ ⟨id, task, prog⟩ :: later, next⟩) :
    contract.sound rest ∧ contract.fits task ∧ ∃ own others,
      Follows contract.protocol (contract.leaves task) prog own ∧
      contract.inv world (own + (contract.owns rest + others)) ∧
      (∀ {changed after progAfter},
        Follows contract.protocol (contract.leaves task) progAfter after →
        contract.inv changed (after + (contract.owns rest + others)) →
        contract.Covers ⟨changed, rest, before ++ ⟨id, task, progAfter⟩ :: later, next⟩) ∧
      ∀ {left}, contract.sound left → contract.inv world (contract.owns left + others) →
        contract.Covers ⟨world, left, before ++ later, next⟩ := by
  obtain ⟨sound, owned, listed, each, inv⟩ := covers
  obtain ⟨ownedBefore, ownedFrom, rfl, listedBefore, listedFrom⟩ :=
    List.map_eq_append_iff.mp listed
  obtain ⟨⟨thread, own⟩, ownedLater, rfl, listedHere, listedLater⟩ :=
    List.map_eq_cons_iff.mp listedFrom
  simp only at listedHere
  subst listedHere
  obtain ⟨fits, follows⟩ := each (⟨id, task, prog⟩, own) (by simp)
  have eachOther : ∀ entry ∈ ownedBefore ++ ownedLater, contract.fits entry.1.task ∧
      Follows contract.protocol (contract.leaves entry.1.task) entry.1.prog entry.2 := by
    intro entry member
    exact each entry (by
      simp only [List.mem_append, List.mem_cons] at member ⊢
      exact member.imp_right .inr)
  refine ⟨sound, fits, own, (ownedBefore.map Prod.snd).sum + (ownedLater.map Prod.snd).sum,
    follows, ?_, ?_, ?_⟩
  · simpa [add_assoc, add_comm, add_left_comm] using inv
  · intro changed after progAfter followsAfter invAfter
    refine ⟨sound, ownedBefore ++ (⟨id, task, progAfter⟩, after) :: ownedLater,
      by simp [listedBefore, listedLater], ?_, ?_⟩
    · intro entry member
      rcases List.mem_append.mp member with older | here
      · exact eachOther entry (by simp [older])
      · rcases List.mem_cons.mp here with rfl | younger
        · exact ⟨fits, followsAfter⟩
        · exact eachOther entry (by simp [younger])
    · simpa [add_assoc, add_comm, add_left_comm] using invAfter
  · intro left soundLeft invLeft
    exact ⟨soundLeft, ownedBefore ++ ownedLater, by simp [listedBefore, listedLater], eachOther,
      by simpa using invLeft⟩

theorem Contract.Kept.step (kept : contract.Kept sys permitted) (covers : contract.Covers config)
    (step : Step sys config label after) (allowed : label.Permitted permitted) :
    contract.Covers after := by
  cases step with
  | @start world rest left task threads next taken =>
    obtain ⟨sound, owned, listed, each, inv⟩ := covers
    obtain ⟨soundLeft, fits, invLeft⟩ := kept.start sound allowed taken inv
    refine ⟨soundLeft, (⟨next, task, sys.body task⟩, contract.brings task) :: owned,
      congrArg (_ :: ·) listed, ?_, by simpa using invLeft⟩
    intro entry member
    rcases List.mem_cons.mp member with rfl | older
    · exact ⟨fits, kept.body task fits⟩
    · exact each entry older
  | act advanced executed =>
    obtain ⟨-, -, own, others, follows, inv, acted, -⟩ := covers.focus
    obtain ⟨ready, ownAfter, quiet, moved, followsAfter⟩ :=
      follows.advance advanced (kept.possible inv executed)
    exact acted followsAfter (kept.exec (kept.silent inv quiet) moved executed)
  | finish =>
    obtain ⟨sound, fits, own, others, follows, inv, -, ended⟩ := covers.focus
    obtain ⟨last, quiet, held⟩ := follows.returned
    have settled := kept.silent inv quiet
    rw [add_left_comm] at settled
    obtain ⟨soundAfter, invAfter⟩ := kept.finish sound fits held settled
    exact ended soundAfter invAfter

theorem Contract.Kept.act (kept : contract.Kept sys permitted)
    {config after : Config Op Ans World Rest Task Result} {op : Op} {ans : Ans op}
    (covers : contract.Covers config) (step : Step sys config (.act id ⟨op, ans⟩) after) :
    ∃ own moved others, contract.inv config.world (own + others) ∧
      contract.protocol.move own op ans moved ∧ contract.inv after.world (moved + others) := by
  obtain _ | ⟨advanced, executed⟩ | _ := step
  obtain ⟨-, -, own, others, follows, inv, -, -⟩ := covers.focus
  obtain ⟨ready, ownAfter, quiet, moved, -⟩ := follows.advance advanced (kept.possible inv executed)
  have settled := kept.silent inv quiet
  exact ⟨ready, ownAfter, _, settled, moved, kept.exec settled moved executed⟩

theorem Contract.Kept.run (kept : contract.Kept sys permitted) (covers : contract.Covers first)
    (run : Run sys first labels last) (allowed : ∀ label ∈ labels, label.Permitted permitted) :
    contract.Covers last := by
  induction run with
  | nil => exact covers
  | snoc _ step ih =>
    exact kept.step (ih fun label member => allowed label (by simp [member])) step
      (allowed _ (by simp))

variable (contract) in
def Contract.Grants : Label Op Ans Task Result → Prop
  | .start _ task => contract.fits task
  | .act _ event => contract.protocol.possible event.op event.ans
  | .finish _ _ => True

theorem Contract.Kept.grants (kept : contract.Kept sys permitted) (covers : contract.Covers first)
    (run : Run sys first labels last) (allowed : ∀ label ∈ labels, label.Permitted permitted) :
    ∀ label ∈ labels, contract.Grants label := by
  induction run with
  | nil => simp
  | snoc before step ih =>
    have allowedBefore := fun label member => allowed label (List.mem_append_left _ member)
    have here := allowed _ (List.mem_append_right _ List.mem_cons_self)
    obtain ⟨sound, owned, listed, each, inv⟩ := kept.run covers before allowedBefore
    refine List.forall_mem_append.mpr ⟨ih allowedBefore, List.forall_mem_singleton.mpr ?_⟩
    cases step with
    | start taken => exact (kept.start sound here taken inv).2.1
    | act _ executed => exact kept.possible inv executed
    | finish => trivial

end Contract

section Paths

def eventsOf (id : Nat) : List (Label Op Ans Task Result) → List (Event Op Ans)
  | [] => []
  | .act other event :: rest =>
    if other = id then event :: eventsOf id rest else eventsOf id rest
  | .start _ _ :: rest | .finish _ _ :: rest => eventsOf id rest

theorem eventsOf_append (id : Nat) (first second : List (Label Op Ans Task Result)) :
    eventsOf id (first ++ second) = eventsOf id first ++ eventsOf id second := by
  induction first with
  | nil => rfl
  | cons label rest ih =>
    cases label with
    | start | finish => exact ih
    | act other event =>
      simp only [List.cons_append, eventsOf]
      split
      · rw [ih]; rfl
      · exact ih

theorem eventsOf_act_self : eventsOf id [(.act id event : Label Op Ans Task Result)] = [event] := by
  simp [eventsOf]

theorem eventsOf_act_other (distinct : other ≠ id) :
    eventsOf id [(.act other event : Label Op Ans Task Result)] = [] := by
  simp [eventsOf, distinct]

theorem eventsOf_map_act (events : List (Event Op Ans)) :
    eventsOf id (events.map (.act id : _ → Label Op Ans Task Result)) = events := by
  induction events with
  | nil => rfl
  | cons event rest ih => simp [eventsOf, ih]

def Label.thread : Label Op Ans Task Result → Nat
  | .start id _ | .act id _ | .finish id _ => id

def labelsOf (id : Nat) (labels : List (Label Op Ans Task Result)) :
    List (Label Op Ans Task Result) :=
  labels.filter fun label => label.thread = id

def threadsOf (id : Nat) (threads : List (Thread Op Ans Task Result)) :
    List (Thread Op Ans Task Result) :=
  threads.filter fun thread => thread.id = id

theorem labelsOf_concat (labels : List (Label Op Ans Task Result))
    (label : Label Op Ans Task Result) : labelsOf id (labels ++ [label]) =
      labelsOf id labels ++ if label.thread = id then [label] else [] := by
  by_cases here : label.thread = id <;> simp [labelsOf, here]

theorem threadsOf_middle (before after : List (Thread Op Ans Task Result))
    (thread : Thread Op Ans Task Result) : threadsOf id (before ++ thread :: after) =
      threadsOf id before ++ ((if thread.id = id then [thread] else []) ++ threadsOf id after) := by
  by_cases here : thread.id = id <;> simp [threadsOf, here]

theorem eventsOf_labelsOf (labels : List (Label Op Ans Task Result)) :
    eventsOf id (labelsOf id labels) = eventsOf id labels := by
  induction labels with
  | nil => rfl
  | cons label rest ih =>
    by_cases here : label.thread = id
    · rw [labelsOf, List.filter_cons_of_pos (by simpa using here), ← labelsOf]
      cases label <;> simp [eventsOf, ih]
    · rw [labelsOf, List.filter_cons_of_neg (by simpa using here), ← labelsOf, ih]
      cases label <;> simp_all [eventsOf, Label.thread]

variable (sys) in
/-- What the labels say of the thread with a number, and the threads at work under it. -/
inductive Life (next id : Nat) (own : List (Label Op Ans Task Result))
    (mine : List (Thread Op Ans Task Result)) : Prop
  | unborn (above : next ≤ id) (silent : own = []) (nobody : mine = [])
  | running {task : Task} {prog : Prog Op Ans Result} {events : List (Event Op Ans)}
      (lower : id < next) (path : (sys.body task).Path events prog)
      (began : own = .start id task :: events.map (.act id)) (alone : mine = [⟨id, task, prog⟩])
  | finished {task : Task} {result : Result} {events : List (Event Op Ans)}
      (lower : id < next) (path : (sys.body task).Path events (.ret result))
      (whole : own = .start id task :: (events.map (.act id) ++ [.finish id result]))
      (gone : mine = [])

variable (sys) in
/-- How the labels of a run account for the threads: numbers are given out once, and what a
thread performed is a path of its task. -/
def Traced (labels : List (Label Op Ans Task Result))
    (config : Config Op Ans World Rest Task Result) : Prop :=
  ∀ id, Life sys config.next id (labelsOf id labels) (threadsOf id config.threads)

section

variable {labels : List (Label Op Ans Task Result)} {rest : Rest} {task : Task} {world : World}
  {before after threads : List (Thread Op Ans Task Result)}

theorem Traced.start (traced : Traced sys labels ⟨world, rest, threads, next⟩) :
    Traced sys (labels ++ [.start next task])
      ⟨world, left, ⟨next, task, sys.body task⟩ :: threads, next + 1⟩ := by
  intro id
  have mine := @threadsOf_middle id _ _ _ _ [] threads ⟨next, task, sys.body task⟩
  dsimp only [List.nil_append] at mine ⊢
  rw [labelsOf_concat, mine]
  by_cases here : next = id
  · subst here
    cases traced next with
    | unborn _ silent nobody =>
      dsimp only at nobody
      refine .running (Nat.lt_succ_self next) (.nil (sys.body task)) ?_ ?_
      · simp [silent, Label.thread]
      · rw [nobody, if_pos rfl, threadsOf, List.filter_nil, List.nil_append, List.append_nil]
    | running lower | finished lower => exact absurd lower (Nat.lt_irrefl next)
  · simp only [Label.thread, here, if_false, List.append_nil]
    cases traced id with
    | unborn above silent nobody => exact .unborn (Nat.lt_of_le_of_ne above here) silent nobody
    | running lower path began alone => exact .running (Nat.lt_succ_of_lt lower) path began alone
    | finished lower path whole gone => exact .finished (Nat.lt_succ_of_lt lower) path whole gone

theorem Life.middle
    (life : Life sys next id own (threadsOf id (before ++ ⟨id, task, prog⟩ :: after))) :
    ∃ events, own = .start id task :: events.map (.act id) ∧ id < next ∧
      (sys.body task).Path events prog ∧ threadsOf id before = [] ∧ threadsOf id after = [] := by
  rw [threadsOf_middle, if_pos rfl] at life
  cases life with
  | unborn _ _ none | finished _ _ _ none => simp at none
  | @running task prog events lower path began alone =>
    obtain ⟨none, ⟨rfl, rfl⟩, nobody⟩ : _ = [] ∧ _ ∧ _ = [] := by
      simpa [List.append_eq_singleton_iff] using alone
    exact ⟨events, began, lower, path, none, nobody⟩

theorem Traced.act {event : Event Op Ans}
    (traced : Traced sys labels ⟨world, rest, before ++ ⟨id, task, prog⟩ :: after, next⟩)
    (advanced : prog.Advance event later) :
    Traced sys (labels ++ [.act id event])
      ⟨changed, rest, before ++ ⟨id, task, later⟩ :: after, next⟩ := by
  intro other
  by_cases here : id = other
  · subst here
    obtain ⟨events, own, lower, path, none, nobody⟩ := (traced id).middle
    exact .running lower (path.append (.cons advanced (.nil _)))
      (by simp [labelsOf_concat, own, Label.thread]) (by simp [threadsOf_middle, none, nobody])
  · simpa [labelsOf_concat, threadsOf_middle, Label.thread, here] using traced other

theorem Traced.finish
    (traced : Traced sys labels ⟨world, rest, before ++ ⟨id, task, .ret result⟩ :: after, next⟩) :
    Traced sys (labels ++ [.finish id result]) ⟨world, left, before ++ after, next⟩ := by
  intro other
  have joined : threadsOf other (before ++ after) =
      threadsOf other before ++ threadsOf other after := List.filter_append ..
  by_cases here : id = other
  · subst here
    obtain ⟨events, own, lower, path, none, nobody⟩ := (traced id).middle
    exact .finished lower path (by simp [labelsOf_concat, own, Label.thread])
      (by simp [joined, none, nobody])
  · simpa [labelsOf_concat, threadsOf_middle, joined, Label.thread, here] using traced other

end

theorem Run.traced {world : World} (run : Run sys ⟨world, rest, [], 0⟩ labels last) :
    Traced sys labels last := by
  induction run with
  | nil => exact fun id => .unborn (Nat.zero_le id) rfl rfl
  | snoc _ step ih =>
    cases step with
    | start _ => exact ih.start
    | act advanced _ => exact ih.act advanced
    | finish => exact ih.finish

section

variable {labels : List (Label Op Ans Task Result)} {config : Config Op Ans World Rest Task Result}
  (traced : Traced sys labels config)

include traced

theorem Traced.fresh (id : Nat) (above : config.next ≤ id) : eventsOf id labels = [] := by
  rw [← eventsOf_labelsOf]
  cases traced id with
  | unborn _ silent => rw [silent, eventsOf]
  | running lower | finished lower => omega

theorem Traced.started (id : Nat) (task : Task) (began : .start id task ∈ labels) :
    (∃ prog, (sys.body task).Path (eventsOf id labels) prog) ∧
      ∀ other, .start id other ∈ labels → task = other := by
  have own : ∀ other, .start id other ∈ labels → .start id other ∈ labelsOf id labels := by
    simp [labelsOf, Label.thread]
  have here := own task began
  rw [← eventsOf_labelsOf]
  cases traced id with
  | unborn _ silent => simp [silent] at here
  | running _ path starts | finished _ path starts =>
    rw [starts] at own here ⊢
    obtain rfl : task = _ := by simpa using here
    exact ⟨⟨_, by simpa [eventsOf, eventsOf_append, eventsOf_map_act] using path⟩,
      fun other also => by simpa [eq_comm] using own other also⟩

theorem Traced.running (thread : Thread Op Ans Task Result) (member : thread ∈ config.threads) :
    .start thread.id thread.task ∈ labels ∧
      (sys.body thread.task).Path (eventsOf thread.id labels) thread.prog := by
  obtain ⟨id, task, prog⟩ := thread
  have here : ⟨id, task, prog⟩ ∈ threadsOf id config.threads := by simp [threadsOf, member]
  have sub : labelsOf id labels ⊆ labels := List.filter_subset_self _
  rw [← eventsOf_labelsOf]
  cases traced id with
  | unborn _ _ none | finished _ _ _ none => simp [none] at here
  | running _ path own alone =>
    rw [alone, List.mem_singleton] at here
    cases here
    rw [own] at sub ⊢
    exact ⟨sub List.mem_cons_self, by simpa [eventsOf, eventsOf_map_act] using path⟩

theorem Traced.finished (id : Nat) (result : Result) (ended : .finish id result ∈ labels) :
    ∃ task, .start id task ∈ labels ∧ (sys.body task).Path (eventsOf id labels) (.ret result) := by
  have here : .finish id result ∈ labelsOf id labels := by simp [labelsOf, Label.thread, ended]
  have sub : labelsOf id labels ⊆ labels := List.filter_subset_self _
  rw [← eventsOf_labelsOf]
  cases traced id with
  | unborn _ silent => simp [silent] at here
  | running _ _ own => simp [own] at here
  | @finished task value _ _ path own =>
    rw [own] at here sub ⊢
    obtain rfl : result = value := by simpa using here
    refine ⟨task, sub List.mem_cons_self, ?_⟩
    simpa [eventsOf, eventsOf_append, eventsOf_map_act] using path

end

theorem Run.pause {world : World} (run : Run sys ⟨world, rest, [], 0⟩ labels last)
    (began : .start id task ∈ labels) (events : eventsOf id labels = first ++ second) :
    ∃ before after middle, labels = before ++ after ∧
      Run sys ⟨world, rest, [], 0⟩ before middle ∧ Run sys middle after last ∧
      .start id task ∈ before ∧ eventsOf id before = first ∧
      ∃ thread ∈ middle.threads, thread.id = id := by
  induction run generalizing second with
  | nil => simp at began
  | @snoc labels label middle last run step ih =>
    -- Either the halt lies before the last step, or the last step led to it.
    have earlier : ∀ second, .start id task ∈ labels → eventsOf id labels = first ++ second →
        ∃ before after halt, labels ++ [label] = before ++ after ∧
          Run sys ⟨world, rest, [], 0⟩ before halt ∧ Run sys halt after last ∧
          .start id task ∈ before ∧ eventsOf id before = first ∧
          ∃ thread ∈ halt.threads, thread.id = id := by
      intro second began events
      obtain ⟨before, after, halt, rfl, toHalt, fromHalt, kept⟩ := ih began events
      exact ⟨before, after ++ [label], halt, by simp, toHalt, fromHalt.snoc step, kept⟩
    cases step with
    | @start _ _ _ body _ next taken =>
      by_cases older : .start id task ∈ labels
      · refine earlier second older ?_
        simpa [eventsOf_append, eventsOf] using events
      · have isNext : id = next ∧ task = body := by simpa [older] using began
        obtain ⟨rfl, rfl⟩ := isNext
        have none := run.traced.fresh id (Nat.le_refl id)
        have firstNil : first = [] := by
          simp [eventsOf_append, eventsOf, none] at events
          exact events.1
        refine ⟨_, [], _, by simp, run.snoc (.start taken), .nil, began, ?_, _,
          List.mem_cons_self, rfl⟩
        rw [firstNil, eventsOf_append, none]
        rfl
    | @act _ _ _ _ _ _ other _ _ _ op ans advanced executed =>
      have older : .start id task ∈ labels := by simpa using began
      by_cases here : other = id
      · subst here
        rw [eventsOf_append, eventsOf_act_self] at events
        rcases List.eq_nil_or_concat second with rfl | ⟨front, tail, rfl⟩
        · refine ⟨_, [], _, by simp, run.snoc (.act advanced executed), .nil, began, ?_, _,
            List.mem_append_right _ List.mem_cons_self, rfl⟩
          rw [eventsOf_append, eventsOf_act_self]
          simpa using events
        · refine earlier front older ?_
          rw [List.concat_eq_append, ← List.append_assoc] at events
          exact (List.append_inj' events rfl).1
      · refine earlier second older ?_
        rw [eventsOf_append, eventsOf_act_other here] at events
        simpa using events
    | finish =>
      refine earlier second (by simpa using began) ?_
      simpa [eventsOf_append, eventsOf] using events

variable {σ : Type} [AddCommMonoid σ] {contract : Contract Op Ans World Rest Task Result σ}
  {permitted : Task → Prop}

theorem mem_of_eventsOf (member : event ∈ eventsOf id labels) : .act id event ∈ labels := by
  induction labels with
  | nil => cases member
  | cons label rest ih =>
    cases label with
    | start | finish => exact List.mem_cons_of_mem _ (ih member)
    | act other performed =>
      simp only [eventsOf] at member
      split at member
      next same =>
        rcases List.mem_cons.mp member with rfl | later
        · exact same ▸ List.mem_cons_self
        · exact List.mem_cons_of_mem _ (ih later)
      · exact List.mem_cons_of_mem _ (ih member)

theorem Run.performed (run : Run sys first labels last) (performed : event ∈ eventsOf id labels) :
    ∃ before after here next, labels = before ++ .act id event :: after ∧
      Run sys first before here ∧ sys.exec here.world event.op event.ans next.world ∧
      Run sys next after last := by
  obtain ⟨before, after, here, next, split, toHere, step, fromNext⟩ :=
    run.at (mem_of_eventsOf performed)
  obtain _ | ⟨_, executed⟩ | _ := step
  exact ⟨before, after, _, _, split, toHere, executed, fromNext⟩

theorem Run.whole {world : World} {here next last : Config Op Ans World Rest Task Result}
    (before : Run sys ⟨world, rest, [], 0⟩ labels here) (step : Step sys here (.start id task) next)
    (after : Run sys next later last) (ended : .finish id result ∈ later) :
    (sys.body task).Path (eventsOf id later) (.ret result) := by
  have traced := ((before.snoc step).append after).traced
  obtain ⟨other, began, path⟩ :=
    traced.finished id result (List.mem_append_right _ ended)
  obtain rfl := (traced.started id other began).2 task (by simp)
  have none : eventsOf id labels = [] := by
    cases step with
    | start _ => exact before.traced.fresh id (Nat.le_refl id)
  rw [eventsOf_append, eventsOf_append, none] at path
  exact path

theorem Contract.Kept.finished (kept : contract.Kept sys permitted)
    (covers : contract.Covers ⟨world, rest, [], 0⟩) (run : Run sys ⟨world, rest, [], 0⟩ labels last)
    (allowed : ∀ label ∈ labels, label.Permitted permitted) (began : .start id task ∈ labels)
    (ended : .finish id result ∈ labels) :
    ∃ state, contract.protocol.Develops (contract.brings task) (eventsOf id labels) state ∧
      contract.leaves task result state := by
  have grants := kept.grants covers run allowed
  obtain ⟨other, started, path⟩ := run.traced.finished id result ended
  obtain rfl := (run.traced.started id task began).2 other started
  exact (kept.body task (grants _ began)).result path fun event member =>
    grants _ (mem_of_eventsOf member)

end Paths

section Alone

variable {α : Type} {exec : World → (op : Op) → Ans op → World → Prop}

inductive Alone (exec : World → (op : Op) → Ans op → World → Prop) :
    World → Prog Op Ans α → List (Event Op Ans) → α → World → Prop
  | ret {world : World} (value : α) : Alone exec world (.ret value) [] value world
  | step {world changed last : World} {prog later : Prog Op Ans α} {op : Op} {ans : Ans op}
      {events : List (Event Op Ans)} {value : α} (advanced : prog.Advance ⟨op, ans⟩ later)
      (executed : exec world op ans changed) (rest : Alone exec changed later events value last) :
      Alone exec world prog (⟨op, ans⟩ :: events) value last

theorem Alone.path (alone : Alone exec world prog events value last) :
    prog.Path events (.ret value) := by
  induction alone with
  | ret value => exact .nil _
  | step advanced _ _ ih => exact .cons advanced ih

def Ends (exec : World → (op : Op) → Ans op → World → Prop) (world : World)
    (prog : Prog Op Ans α) (value : α) (last : World) : Prop :=
  ∃ events, Alone exec world prog events value last

theorem Ends.ret (value : α) : Ends exec world (.ret value : Prog Op Ans α) value world :=
  ⟨[], .ret value⟩

theorem Ends.call {world changed last : World} {op : Op} {ans : Ans op}
    {next : Ans op → Prog Op Ans α} {value : α} (executed : exec world op ans changed)
    (tail : Ends exec changed (next ans) value last) :
    Ends exec world (.call op next) value last := by
  obtain ⟨events, alone⟩ := tail
  exact ⟨_, .step (.call ans) executed alone⟩

theorem Step.head (advanced : prog.Advance ⟨op, ans⟩ later)
    (executed : sys.exec world op ans changed) :
    Step sys ⟨world, rest, ⟨id, task, prog⟩ :: threads, next⟩ (.act id ⟨op, ans⟩)
      ⟨changed, rest, ⟨id, task, later⟩ :: threads, next⟩ := by
  have step : Step sys ⟨world, rest, [] ++ ⟨id, task, prog⟩ :: threads, next⟩ (.act id ⟨op, ans⟩)
      ⟨changed, rest, [] ++ ⟨id, task, later⟩ :: threads, next⟩ := .act advanced executed
  exact step

theorem Alone.run (alone : Alone sys.exec world prog events result last) :
    Run sys ⟨world, rest, ⟨id, task, prog⟩ :: threads, next⟩ (events.map (.act id))
      ⟨last, rest, ⟨id, task, .ret result⟩ :: threads, next⟩ := by
  induction alone with
  | ret value => exact .nil
  | step advanced executed _ ih => exact (Run.snoc .nil (.head advanced executed)).append ih

theorem Prog.Spinless.ends (spinless : prog.Spinless)
    (enabled : ∀ world op, ∃ ans changed, exec world op ans changed) (world : World) :
    ∃ value last, Ends exec world prog value last := by
  induction spinless generalizing world with
  | ret value => exact ⟨value, world, .ret value⟩
  | @call op next _ ih =>
    obtain ⟨ans, changed, executed⟩ := enabled world op
    obtain ⟨value, last, ends⟩ := ih ans changed
    exact ⟨value, last, .call executed ends⟩

theorem Step.completes {here next : Config Op Ans World Rest Task Result}
    (step : Step sys here (.start id task) next) (spinless : (sys.body task).Spinless)
    (enabled : ∀ world op, ∃ ans changed, sys.exec world op ans changed) :
    ∃ labels last result, Run sys next labels last ∧ .finish id result ∈ labels := by
  cases step with
  | @start world _ left _ threads id taken =>
    obtain ⟨result, last, events, alone⟩ := spinless.ends enabled world
    have final : Step sys ⟨last, left, [] ++ ⟨id, task, .ret result⟩ :: threads, id + 1⟩
        (.finish id result) ⟨last, sys.finish left result, [] ++ threads, id + 1⟩ := .finish
    exact ⟨_, _, result, alone.run.snoc final, by simp⟩

section

variable (perform : World → (op : Op) → Ans op × World)

/-- The next step of a program, where each operation has one answer. -/
def Prog.proceed (world : World) : Prog Op Ans α → Option (Event Op Ans × Prog Op Ans α × World)
  | .ret _ => none
  | .call op rest =>
    let (ans, changed) := perform world op
    some (⟨op, ans⟩, rest ans, changed)
  | .spin word op retry exit =>
    let (ans, changed) := perform world (op word)
    match retry word ans with
    | some after => some (⟨op word, ans⟩, .spin after op retry exit, changed)
    | none => some (⟨op word, ans⟩, exit word ans, changed)

/-- Where a program ends that has the world to itself and leaves every loop at once. -/
def Prog.alone : Prog Op Ans α → World → Option (α × World)
  | .ret value, world => some (value, world)
  | .call op rest, world =>
    let (ans, changed) := perform world op
    (rest ans).alone changed
  | .spin word op retry exit, world =>
    let (ans, changed) := perform world (op word)
    match retry word ans with
    | some _ => none
    | none => (exit word ans).alone changed

variable {perform}

theorem Prog.proceed_step (performs : ∀ world op, exec world op (perform world op).1
    (perform world op).2) {prog later : Prog Op Ans α}
    (stepped : prog.proceed perform world = some (event, later, changed)) :
    prog.Advance event later ∧ exec world event.op event.ans changed := by
  cases prog with
  | ret value => cases stepped
  | call op rest =>
    cases stepped
    exact ⟨.call _, performs world op⟩
  | spin word op retry exit =>
    simp only [proceed] at stepped
    split at stepped
    next retried =>
      cases stepped
      exact ⟨.again retried, performs world _⟩
    next ended =>
      cases stepped
      exact ⟨.leave ended, performs world _⟩

theorem Prog.alone_ends (performs : ∀ world op, exec world op (perform world op).1
    (perform world op).2) {prog : Prog Op Ans α}
    (ended : prog.alone perform world = some (value, last)) : Ends exec world prog value last := by
  induction prog generalizing world with
  | ret value =>
    cases ended
    exact .ret _
  | call op rest ih => exact .call (performs world op) (ih _ ended)
  | spin word op retry exit ih =>
    simp only [alone] at ended
    split at ended
    next retried => cases ended
    next left =>
      obtain ⟨events, alone⟩ := ih _ _ ended
      exact ⟨_, .step (.leave left) (performs world _) alone⟩

end

end Alone

end Concurrent
