import Mathlib

/-!
Budgets per window, where a window opens at the first use after the last one elapsed and
every use is charged to the window open at that time.
-/

namespace FixedWindow

structure Charge where
  time : Nat
  window : Nat
  deriving DecidableEq, Repr

def spent (log : List Charge) (window : Nat) : Nat :=
  log.countP fun charge => charge.window = window

def within (length : Nat) (log : List Charge) (window : Nat) : Nat :=
  log.countP fun charge => window ≤ charge.time ∧ charge.time < window + length

structure Kept (length most : Nat) (log : List Charge) : Prop where
  inside : ∀ charge ∈ log, charge.window ≤ charge.time ∧ charge.time < charge.window + length
  apart : ∀ first ∈ log, ∀ second ∈ log, first.window = second.window ∨
    first.window + length ≤ second.window ∨ second.window + length ≤ first.window
  bounded : ∀ window, spent log window ≤ most

structure Opened (length most start attempts : Nat) (log : List Charge) : Prop
    extends Kept length most log where
  latest : ∀ charge ∈ log, charge.window = start ∨ charge.window + length ≤ start
  current : spent log start = attempts

structure Elapsed (length most now : Nat) (log : List Charge) : Prop
    extends Kept length most log where
  over_by : ∀ charge ∈ log, charge.window + length ≤ now

variable {length most start attempts now : Nat} {log : List Charge}

theorem Kept.nil : Kept length most [] := ⟨by simp, by simp, by simp [spent]⟩

theorem Opened.nil : Opened length most start 0 [] := ⟨.nil, by simp, by simp [spent]⟩

theorem Elapsed.nil : Elapsed length most now [] := ⟨.nil, by simp⟩

theorem Elapsed.mono (elapsed : Elapsed length most now log) (order : now ≤ later) :
    Elapsed length most later log :=
  ⟨elapsed.toKept, fun charge member => le_trans (elapsed.over_by charge member) order⟩

theorem Elapsed.eq_nil (elapsed : Elapsed length most now log) (early : now < length) :
    log = [] := by
  refine List.eq_nil_iff_forall_not_mem.mpr fun charge member => ?_
  have past := elapsed.over_by charge member
  omega

theorem Opened.elapse (opened : Opened length most start attempts log)
    (past : start + length ≤ now) : Elapsed length most now log := by
  refine ⟨opened.toKept, fun charge member => ?_⟩
  rcases opened.latest charge member with same | before
  · omega
  · omega

theorem Elapsed.restart (elapsed : Elapsed length most now log) (positive : 0 < length) :
    Opened length most now 0 log := by
  refine ⟨elapsed.toKept, fun charge member => .inr (elapsed.over_by charge member), ?_⟩
  refine List.countP_eq_zero.mpr fun charge member => ?_
  have past := elapsed.over_by charge member
  simp only [decide_eq_true_eq]
  omega

theorem Opened.charge (opened : Opened length most start attempts log) (began : start ≤ now)
    (running : now < start + length) (room : attempts < most) :
    Opened length most start (attempts + 1) (⟨now, start⟩ :: log) where
  inside := by
    intro charge member
    rcases List.mem_cons.mp member with rfl | member
    · exact ⟨began, running⟩
    · exact opened.inside charge member
  apart := by
    intro first firstIn second secondIn
    rcases List.mem_cons.mp firstIn with rfl | firstIn <;>
      rcases List.mem_cons.mp secondIn with rfl | secondIn
    · exact .inl rfl
    · rcases opened.latest second secondIn with same | before
      · exact .inl same.symm
      · exact .inr (.inr before)
    · rcases opened.latest first firstIn with same | before
      · exact .inl same
      · exact .inr (.inl before)
    · exact opened.apart first firstIn second secondIn
  bounded := by
    intro window
    have before := opened.bounded window
    have current := opened.current
    simp only [spent, List.countP_cons, decide_eq_true_eq] at before current ⊢
    split
    next same => subst same; omega
    · omega
  latest := by
    intro charge member
    rcases List.mem_cons.mp member with rfl | member
    · exact .inl rfl
    · exact opened.latest charge member
  current := by
    have current := opened.current
    simp only [spent] at current ⊢
    simp [current]

theorem Kept.within_le (kept : Kept length most log) (member : charge ∈ log) :
    within length log charge.window ≤ most := by
  refine le_trans (List.countP_mono_left fun other otherIn inInterval => ?_)
    (kept.bounded charge.window)
  have interval := kept.inside other otherIn
  simp only [decide_eq_true_eq] at inInterval ⊢
  rcases kept.apart other otherIn charge member with same | before | after
  · exact same
  · omega
  · omega

end FixedWindow
