import InterWeave.Lib.Watermark

/-!
Forward-only marks that are kept with an owner while the owner is there and spilled into a
common table when it leaves. The threshold of an owner's label is the greater of the two,
and as long as the common table has room a departure moves thresholds without lowering one.
-/

section

open Std (ExtTreeMap)
open Watermark (mark pour Within)

@[ext]
structure Owned (P L : Type) where
  owner : P
  label : L

instance {P L : Type} [LinearOrder P] [LinearOrder L] : LinearOrder (Owned P L) :=
  LinearOrder.lift' (fun key => toLex (key.owner, key.label)) fun _ _ same =>
    Owned.ext (congrArg (fun pair => (ofLex pair).1) same)
      (congrArg (fun pair => (ofLex pair).2) same)

structure MarkBook (P L : Type) [LinearOrder P] [LinearOrder L] where
  live : P → ExtTreeMap L Nat
  spilled : ExtTreeMap (Owned P L) Nat

namespace MarkBook

variable {P L : Type} [LinearOrder P] [LinearOrder L]

def threshold (book : MarkBook P L) (key : Owned P L) : Nat :=
  max (mark book.spilled key) (mark (book.live key.owner) key.label)

def depart (book : MarkBook P L) (owner : P) : MarkBook P L where
  live := fun other => if owner = other then ∅ else book.live other
  spilled := pour (fun label => ⟨owner, label⟩) (book.live owner).toList book.spilled

def withLive (book : MarkBook P L) (owner : P) (marks : ExtTreeMap L Nat) : MarkBook P L where
  live := fun other => if owner = other then marks else book.live other
  spilled := book.spilled

/-- No threshold has fallen, the spilled marks belong to the given keys, and no live mark is
new. -/
structure Advances (book after : MarkBook P L) (keys : Finset (Owned P L)) : Prop where
  within : Within after.spilled keys
  rises : ∀ key, book.threshold key ≤ after.threshold key
  live : ∀ owner, ∀ label ∈ after.live owner, label ∈ book.live owner

variable {book after : MarkBook P L} {owner : P} {keys : Finset (Owned P L)}

theorem Advances.refl (inside : Within book.spilled keys) : book.Advances book keys :=
  ⟨inside, fun _ => le_rfl, fun _ _ member => member⟩

theorem Advances.trans (first : book.Advances after keys) (second : after.Advances final keys) :
    book.Advances final keys :=
  ⟨second.within, fun key => (first.rises key).trans (second.rises key),
    fun owner label member => first.live owner label (second.live owner label member)⟩

omit [LinearOrder P] [LinearOrder L] in
theorem owned_injective : Function.Injective fun label : L => Owned.mk owner label :=
  fun _ _ same => congrArg Owned.label same

theorem depart_advances (inside : Within book.spilled keys)
    (named : ∀ label ∈ book.live owner, ⟨owner, label⟩ ∈ keys) :
    book.Advances (book.depart owner) keys := by
  refine ⟨?_, ?_, ?_⟩
  · refine inside.pour ?_
    rintro ⟨label, value⟩ listed
    apply named label
    rw [OrderedMap.mem_iff_get]
    exact ⟨value, ExtTreeMap.mem_toList_iff_getElem?_eq_some.mp listed⟩
  · rintro ⟨other, label⟩
    simp only [threshold, depart]
    by_cases same : owner = other
    · subst same
      rw [if_pos rfl, Watermark.mark_pour_toList (book.live owner) owned_injective label]
      exact le_max_left _ _
    · rw [if_neg same, Watermark.mark_pour_of_unnamed]
      rintro ⟨_, _⟩ _ alike
      exact same (congrArg Owned.owner alike)
  · intro other label member
    rw [depart] at member
    dsimp only at member
    split at member
    · simp at member
    · exact member

/-- The marks that were raised in turn: each is at or below its threshold, and marks are
kept only of what was raised. -/
structure Follows (book : MarkBook P L) (heard : List (Owned P L × Nat))
    (gone : Finset (Owned P L)) : Prop where
  floor : ∀ item ∈ heard, item.2 ≤ book.threshold item.1
  spilled : Within book.spilled gone
  spoken : ∀ owner, ∀ label ∈ book.live owner, ∃ item ∈ heard, item.1 = ⟨owner, label⟩

variable {heard more : List (Owned P L × Nat)} {gone : Finset (Owned P L)}

theorem follows_empty : Follows ⟨fun _ => ∅, ∅⟩ ([] : List (Owned P L × Nat)) ∅ :=
  ⟨by simp, Watermark.within_empty, by simp⟩

theorem Follows.advance (follows : book.Follows heard gone)
    (advances : book.Advances after keys) : after.Follows heard keys :=
  ⟨fun item listed => (follows.floor item listed).trans (advances.rises _), advances.within,
    fun owner label member => follows.spoken owner label (advances.live owner label member)⟩

theorem Follows.raise (follows : book.Follows heard gone)
    (rises : ∀ label, mark (book.live owner) label ≤ mark marks label)
    (above : ∀ item ∈ more, item.2 ≤ (book.withLive owner marks).threshold item.1)
    (named : ∀ label ∈ marks, ∃ item ∈ heard ++ more, item.1 = ⟨owner, label⟩) :
    (book.withLive owner marks).Follows (heard ++ more) gone := by
  refine ⟨?_, follows.spilled, ?_⟩
  · intro item listed
    rcases List.mem_append.mp listed with earlier | now
    · refine (follows.floor item earlier).trans ?_
      rw [threshold, threshold, withLive]
      refine max_le_max le_rfl ?_
      dsimp only
      split
      next same => exact same ▸ rises item.1.label
      · exact le_rfl
    · exact above item now
  · intro other label member
    rw [withLive] at member
    dsimp only at member
    split at member
    next same =>
      subst same
      exact named label member
    · obtain ⟨item, listed, same⟩ := follows.spoken other label member
      exact ⟨item, List.mem_append_left _ listed, same⟩

end MarkBook

end
