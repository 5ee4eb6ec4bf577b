import Mathlib

/-!
A queue of recent starts as a rate limit. A start leaves the queue at its front once it is a
whole span old and a new one enters while the queue is short, so no stretch of time of that
length holds more starts than the limit.
-/

namespace SlidingWindow

def prune (span clock : Nat) (queue : List Nat) : List Nat :=
  if clock < span then queue else queue.dropWhile (· ≤ clock - span)

def within (span opens : Nat) (log : List Nat) : Nat :=
  log.countP fun start => opens ≤ start ∧ start < opens + span

def Kept (span limit : Nat) (log : List Nat) : Prop :=
  ∀ opens, within span opens log ≤ limit

structure Follows (span clock : Nat) (log queue : List Nat) : Prop where
  past : ∀ start ∈ log, start ≤ clock
  split : ∃ old, log = old ++ queue ∧ ∀ start ∈ old, start + span ≤ clock

variable {span clock later limit : Nat} {log queue : List Nat}

theorem prune_prune (span clock : Nat) (queue : List Nat) :
    prune span clock (prune span clock queue) = prune span clock queue := by
  by_cases early : clock < span
  · simp [prune, early]
  · simp [prune, early, List.dropWhile_idempotent]

theorem Kept.nil : Kept span limit [] := fun _ => Nat.zero_le _

theorem Follows.nil : Follows span clock [] [] :=
  ⟨by simp, [], rfl, by simp⟩

section

variable (follows : Follows span clock log queue)

include follows

theorem Follows.advance (order : clock ≤ later) : Follows span later log queue := by
  obtain ⟨past, old, whole, gone⟩ := follows
  exact ⟨fun start member => (past start member).trans order, old, whole,
    fun start member => (gone start member).trans order⟩

theorem Follows.prune : Follows span clock log (prune span clock queue) := by
  obtain ⟨past, old, whole, gone⟩ := follows
  refine ⟨past, ?_⟩
  unfold SlidingWindow.prune
  split
  · exact ⟨old, whole, gone⟩
  next elapsed =>
    refine ⟨old ++ queue.takeWhile (· ≤ clock - span), ?_, ?_⟩
    · rw [List.append_assoc, List.takeWhile_append_dropWhile, whole]
    · intro start member
      rcases List.mem_append.mp member with before | dropped
      · exact gone start before
      · have old : start ≤ clock - span := by simpa using List.mem_takeWhile_imp dropped
        omega

theorem Follows.start : Follows span clock (log ++ [clock]) (queue ++ [clock]) := by
  obtain ⟨past, old, whole, gone⟩ := follows
  refine ⟨?_, old, by rw [whole, List.append_assoc], gone⟩
  intro start member
  rcases List.mem_append.mp member with before | new
  · exact past start before
  · rw [List.mem_singleton.mp new]

theorem Follows.within_le (present : clock < opens + span) :
    within span opens log ≤ queue.length := by
  obtain ⟨-, old, whole, gone⟩ := follows
  have none_old : within span opens old = 0 := by
    refine List.countP_eq_zero.mpr fun start member => ?_
    have := gone start member
    simp only [decide_eq_true_eq]
    omega
  calc within span opens log
      = within span opens old + within span opens queue := by
        rw [whole, within, List.countP_append]
        rfl
    _ = within span opens queue := by rw [none_old, Nat.zero_add]
    _ ≤ queue.length := List.countP_le_length

end

theorem Kept.start (kept : Kept span limit log) (follows : Follows span clock log queue)
    (short : queue.length < limit) : Kept span limit (log ++ [clock]) := by
  intro opens
  have parts : within span opens (log ++ [clock]) =
      within span opens log + within span opens [clock] := List.countP_append ..
  by_cases present : opens ≤ clock ∧ clock < opens + span
  · have earlier := follows.within_le present.2
    have one : within span opens [clock] ≤ 1 := List.countP_le_length
    omega
  · have absent : within span opens [clock] = 0 := by simp [within, present]
    have := kept opens
    omega

end SlidingWindow
