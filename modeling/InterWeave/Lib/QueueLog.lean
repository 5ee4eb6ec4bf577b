import Mathlib.Data.List.Basic

/-!
What a bounded queue owes the items given to it: each of them waits, was taken out, or was
dropped and reported, and those that wait are the newest in a row.
-/

namespace QueueLog

variable {α : Type*}

inductive Shuffle : List α → List α → List α → Prop
  | nil : Shuffle [] [] []
  | left {whole left right} (item : α) :
      Shuffle whole left right → Shuffle (whole ++ [item]) (left ++ [item]) right
  | right {whole left right} (item : α) :
      Shuffle whole left right → Shuffle (whole ++ [item]) left (right ++ [item])

theorem Shuffle.length_eq {whole left right : List α} (shuffle : Shuffle whole left right) :
    whole.length = left.length + right.length := by
  induction shuffle with
  | nil => rfl
  | left item _ ih => simp only [List.length_append, ih]; omega
  | right item _ ih => simp only [List.length_append, ih]; omega

theorem Shuffle.append_left {whole left right : List α} (shuffle : Shuffle whole left right)
    (items : List α) : Shuffle (whole ++ items) (left ++ items) right := by
  induction items generalizing whole left with
  | nil => simpa using shuffle
  | cons item items ih =>
    have longer := ih (shuffle.left item)
    simpa using longer

theorem Shuffle.eq_left {whole left : List α} (shuffle : Shuffle whole left []) : whole = left := by
  generalize none : ([] : List α) = right at shuffle
  induction shuffle with
  | nil => rfl
  | left item _ ih => rw [ih none]
  | right item _ _ => simp at none

/-- What a queue was told and answered: the items it took, those taken out of it, and how
many it reported dropped. -/
structure Log (α : Type*) where
  pushed : List α := []
  drained : List α := []
  dropped : Nat := 0

namespace Log

def push (log : Log α) (item : α) : Log α := { log with pushed := log.pushed ++ [item] }

def drop (log : Log α) : Log α := { log with dropped := log.dropped + 1 }

def drain (log : Log α) (items : List α) : Log α := { log with drained := log.drained ++ items }

/-- What waits is the end of what was pushed; what came before it was taken out in order,
apart from as many items as were reported dropped. -/
def Accounts (log : Log α) (waiting : List α) : Prop :=
  ∃ gone lost, log.pushed = gone ++ waiting ∧ Shuffle gone log.drained lost ∧
    lost.length = log.dropped

variable {log : Log α} {waiting : List α}

theorem accounts_start : Accounts ({} : Log α) [] := ⟨[], [], rfl, .nil, rfl⟩

theorem Accounts.push (accounts : log.Accounts waiting) (item : α) :
    (log.push item).Accounts (waiting ++ [item]) := by
  obtain ⟨gone, lost, pushed, shuffle, count⟩ := accounts
  exact ⟨gone, lost, by simp [Log.push, pushed], shuffle, count⟩

theorem Accounts.drop (accounts : log.Accounts (oldest :: waiting)) :
    log.drop.Accounts waiting := by
  obtain ⟨gone, lost, pushed, shuffle, count⟩ := accounts
  exact ⟨gone ++ [oldest], lost ++ [oldest], by simp [Log.drop, pushed], shuffle.right oldest,
    by simp [Log.drop, count]⟩

theorem Accounts.drain (accounts : log.Accounts waiting) (limit : Nat) :
    (log.drain (waiting.take limit)).Accounts (waiting.drop limit) := by
  obtain ⟨gone, lost, pushed, shuffle, count⟩ := accounts
  exact ⟨gone ++ waiting.take limit, lost, by simp [Log.drain, pushed],
    shuffle.append_left (waiting.take limit), count⟩

theorem Accounts.balance (accounts : log.Accounts waiting) :
    log.dropped + log.drained.length + waiting.length = log.pushed.length := by
  obtain ⟨gone, lost, pushed, shuffle, count⟩ := accounts
  have total := shuffle.length_eq
  simp only [pushed, List.length_append]
  omega

theorem Accounts.in_order (accounts : log.Accounts waiting) (lossless : log.dropped = 0) :
    log.drained ++ waiting = log.pushed := by
  obtain ⟨gone, lost, pushed, shuffle, count⟩ := accounts
  rw [lossless, List.length_eq_zero_iff] at count
  subst count
  rw [pushed, shuffle.eq_left]

end Log

end QueueLog
