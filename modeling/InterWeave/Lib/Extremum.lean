import Mathlib

/-!
The element a scan settles on: the first least one or the last greatest one, as
iterators that return `min_by_key` and `max_by_key` do.
-/

namespace Extremum

variable {α κ : Type} [LinearOrder κ]

variable (key : α → κ) (best : Option α) (candidate : α)

def minStep : Option α :=
  match best with
  | none => some candidate
  | some held => if key candidate < key held then some candidate else some held

def maxStep : Option α :=
  match best with
  | none => some candidate
  | some held => if key candidate < key held then some held else some candidate

def minByKey (items : List α) : Option α :=
  items.foldl (minStep key) none

def maxByKey (items : List α) : Option α :=
  items.foldl (maxStep key) none

theorem foldl_mem {step : Option α → α → Option α}
    (chooses : ∀ best candidate, step best candidate = some candidate ∨
      ∃ held, best = some held ∧ step best candidate = some held) {items : List α} (best : Option α)
    {found : α} (settled : items.foldl step best = some found) :
    best = some found ∨ found ∈ items := by
  induction items generalizing best with
  | nil => exact .inl settled
  | cons item rest ih =>
    rcases ih _ settled with here | later
    · rcases chooses best item with new | ⟨held, isHeld, kept⟩
      · rw [new] at here
        cases here
        exact .inr List.mem_cons_self
      · rw [kept] at here
        cases here
        exact .inl isHeld
    · exact .inr (List.mem_cons_of_mem item later)

theorem foldl_isSome {step : Option α → α → Option α}
    (chooses : ∀ best candidate, step best candidate = some candidate ∨
      ∃ held, best = some held ∧ step best candidate = some held)
    (items : List α) (best : Option α) (some : best.isSome = true ∨ items ≠ []) :
    (items.foldl step best).isSome = true := by
  induction items generalizing best with
  | nil => simpa using some
  | cons item rest ih =>
    refine ih _ (.inl ?_)
    rcases chooses best item with new | ⟨held, -, kept⟩
    · simp [new]
    · simp [kept]

theorem minStep_chooses :
    minStep key best candidate = some candidate ∨
      ∃ held, best = some held ∧ minStep key best candidate = some held := by
  cases best with
  | none => exact .inl rfl
  | some held =>
    by_cases less : key candidate < key held
    · exact .inl (by simp [minStep, less])
    · exact .inr ⟨held, rfl, by simp [minStep, less]⟩

theorem maxStep_chooses :
    maxStep key best candidate = some candidate ∨
      ∃ held, best = some held ∧ maxStep key best candidate = some held := by
  cases best with
  | none => exact .inl rfl
  | some held =>
    by_cases less : key candidate < key held
    · exact .inr ⟨held, rfl, by simp [maxStep, less]⟩
    · exact .inl (by simp [maxStep, less])

theorem minByKey_mem {key : α → κ} {items : List α} {found : α}
    (settled : minByKey key items = some found) : found ∈ items := by
  rcases foldl_mem (minStep_chooses key) none settled with impossible | member
  · cases impossible
  · exact member

theorem maxByKey_mem {key : α → κ} {items : List α} {found : α}
    (settled : maxByKey key items = some found) : found ∈ items := by
  rcases foldl_mem (maxStep_chooses key) none settled with impossible | member
  · cases impossible
  · exact member

theorem minStep_le {key : α → κ} {best : Option α} {candidate chosen : α}
    (settled : minStep key best candidate = some chosen) :
    key chosen ≤ key candidate ∧ ∀ held, best = some held → key chosen ≤ key held := by
  cases best with
  | none =>
    cases settled
    exact ⟨le_rfl, fun _ impossible => by cases impossible⟩
  | some held =>
    rw [minStep] at settled
    split at settled
    next less =>
      cases settled
      exact ⟨le_rfl, fun _ same => by cases same; exact less.le⟩
    next notLess =>
      cases settled
      exact ⟨not_lt.mp notLess, fun _ same => by cases same; exact le_rfl⟩

theorem le_maxStep {key : α → κ} {best : Option α} {candidate chosen : α}
    (settled : maxStep key best candidate = some chosen) :
    key candidate ≤ key chosen ∧ ∀ held, best = some held → key held ≤ key chosen := by
  cases best with
  | none =>
    cases settled
    exact ⟨le_rfl, fun _ impossible => by cases impossible⟩
  | some held =>
    rw [maxStep] at settled
    split at settled
    next less =>
      cases settled
      exact ⟨less.le, fun _ same => by cases same; exact le_rfl⟩
    next notLess =>
      cases settled
      exact ⟨le_rfl, fun _ same => by cases same; exact not_lt.mp notLess⟩

/-- A scan whose every choice is at least as good as what it passes over settles on one of the
best. -/
theorem foldl_best {step : Option α → α → Option α} (better : α → α → Prop)
    (refl : ∀ item, better item item)
    (trans : ∀ {one two three}, better one two → better two three → better one three)
    (chooses : ∀ best candidate, step best candidate = some candidate ∨
      ∃ held, best = some held ∧ step best candidate = some held)
    (prefers : ∀ {best candidate chosen}, step best candidate = some chosen →
      better chosen candidate ∧ ∀ held, best = some held → better chosen held)
    (items : List α) (best : Option α) {found : α}
    (settled : items.foldl step best = some found) :
    (∀ item ∈ items, better found item) ∧ ∀ held, best = some held → better found held := by
  induction items generalizing best with
  | nil =>
    refine ⟨by simp, ?_⟩
    intro held same
    cases settled.symm.trans same
    exact refl _
  | cons item rest ih =>
    obtain ⟨later, here⟩ := ih _ settled
    obtain ⟨chosen, isChosen⟩ : ∃ chosen, step best item = some chosen := by
      rcases chooses best item with new | ⟨held, -, kept⟩
      · exact ⟨item, new⟩
      · exact ⟨held, kept⟩
    have preferred := here chosen isChosen
    have least := prefers isChosen
    constructor
    · intro other member
      rcases List.mem_cons.mp member with rfl | inRest
      · exact trans preferred least.1
      · exact later other inRest
    · exact fun held same => trans preferred (least.2 held same)

theorem minByKey_le {key : α → κ} {items : List α} {found : α}
    (settled : minByKey key items = some found) {item : α} (member : item ∈ items) :
    key found ≤ key item :=
  (foldl_best (fun one two => key one ≤ key two) (fun _ => le_rfl) le_trans (minStep_chooses key)
    minStep_le items none settled).1 item member

theorem le_maxByKey {key : α → κ} {items : List α} {found : α}
    (settled : maxByKey key items = some found) {item : α} (member : item ∈ items) :
    key item ≤ key found :=
  (foldl_best (fun one two => key two ≤ key one) (fun _ => le_rfl)
    (fun first second => le_trans second first) (maxStep_chooses key) le_maxStep items none
    settled).1 item member

theorem maxByKey_eq_some {key : α → κ} (injective : Function.Injective key) {items : List α}
    {greatest : α} (member : greatest ∈ items) (most : ∀ item ∈ items, key item ≤ key greatest) :
    maxByKey key items = some greatest := by
  have found := foldl_isSome (maxStep_chooses key) items none (.inr (List.ne_nil_of_mem member))
  obtain ⟨chosen, isChosen⟩ := Option.isSome_iff_exists.mp found
  have same : key chosen = key greatest :=
    le_antisymm (most chosen (maxByKey_mem isChosen)) (le_maxByKey isChosen member)
  exact isChosen.trans (congrArg some (injective same))

theorem minByKey_eq_none {key : α → κ} {items : List α} :
    minByKey key items = none ↔ items = [] := by
  constructor
  · intro nothing
    by_contra some
    have found := foldl_isSome (minStep_chooses key) items none (.inr some)
    rw [minByKey] at nothing
    simp [nothing] at found
  · rintro rfl
    rfl

end Extremum
