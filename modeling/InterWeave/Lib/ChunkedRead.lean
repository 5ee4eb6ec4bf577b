import Mathlib

/-!
Reading a stream in chunks under a ceiling. A source hands out its content a piece at a time, in
pieces of any size up to the room it is given, and ends cleanly or with a failure.
-/

namespace ChunkedRead

structure Source (α : Type) where
  content : List α
  clean : Bool
  /-- How much a read at a position takes, before it is cut to the room. -/
  pace : Nat → Nat → Nat

inductive Outcome (α : Type) where
  | complete (content : List α)
  | exceeded
  | broken
  deriving DecidableEq, Repr

variable {α : Type}

def Source.read (source : Source α) (position room : Nat) : Option (List α) :=
  let rest := source.content.drop position
  if rest.isEmpty then if source.clean then some [] else none
  else some (rest.take (min room (max 1 (source.pace position room))))

/-- Reads until the source ends or more than `limit` items came, never asking for more than one
item past the limit. -/
def readBounded (source : Source α) (chunk limit : Nat) : Nat → List α → Outcome α
  | 0, _ => .broken
  | fuel + 1, out =>
    let room := min chunk (limit + 1 - out.length)
    match if room = 0 then some [] else source.read out.length room with
    | none => .broken
    | some [] => .complete out
    | some (first :: more) =>
      let grown := out ++ first :: more
      if grown.length > limit then .exceeded
      else readBounded source chunk limit fuel grown

def read (source : Source α) (chunk limit : Nat) : Outcome α :=
  readBounded source chunk limit (limit + 2) []

def Source.outcome (source : Source α) (limit : Nat) : Outcome α :=
  if source.content.length > limit then .exceeded
  else if source.clean then .complete source.content
  else .broken

theorem Source.read_of_left {source : Source α} (whole : source.content = out ++ rest)
    (left : rest ≠ []) (positive : 0 < room) :
    ∃ first more later, source.read out.length room = some (first :: more) ∧
      rest = first :: more ++ later := by
  obtain ⟨first, tail, rfl⟩ := List.exists_cons_of_ne_nil left
  obtain ⟨count, size⟩ : ∃ count, min room (max 1 (source.pace out.length room)) = count + 1 :=
    Nat.exists_eq_succ_of_ne_zero (by omega)
  refine ⟨first, tail.take count, tail.drop count, ?_, ?_⟩
  · simp [Source.read, whole, size]
  · rw [List.cons_append, List.take_append_drop]

theorem readBounded_eq (source : Source α) (positive : 0 < chunk) (fuel : Nat) (out rest : List α)
    (whole : source.content = out ++ rest) (within : out.length ≤ limit)
    (enough : limit + 1 < fuel + out.length) :
    readBounded source chunk limit fuel out = source.outcome limit := by
  induction fuel generalizing out rest with
  | zero => omega
  | succ fuel ih =>
    have room : 0 < min chunk (limit + 1 - out.length) := by omega
    rw [readBounded, if_neg (Nat.ne_of_gt room)]
    by_cases left : rest = []
    · subst left
      rw [List.append_nil] at whole
      subst whole
      have ended : (source.content.drop source.content.length).isEmpty = true := by simp
      simp only [Source.read, ended, if_true, Source.outcome, if_neg (Nat.not_lt.mpr within)]
      cases source.clean with
      | true => rfl
      | false => rfl
    · obtain ⟨first, more, later, found, split⟩ := Source.read_of_left whole left room
      have grown : source.content = (out ++ first :: more) ++ later := by
        rw [whole, split, List.append_assoc]
      simp only [found]
      split
      next beyond =>
        rw [Source.outcome, if_pos]
        rw [grown, List.length_append]
        omega
      next inside =>
        refine ih _ later grown (Nat.le_of_not_lt inside) ?_
        rw [List.length_append, List.length_cons]
        omega

theorem read_eq (source : Source α) (limit : Nat) (positive : 0 < chunk) :
    read source chunk limit = source.outcome limit :=
  readBounded_eq source positive _ [] source.content rfl (Nat.zero_le _) (by simp)

end ChunkedRead
