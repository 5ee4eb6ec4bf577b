import InterWeave.Lib.KeySort
import InterWeave.Lib.Saturating

/-!
Reading a table in pages that resume after the key of the last row returned. The table may change
between two pages. A page is cut by a number of rows and by their size, and always holds the
first row that is left.
-/

namespace KeysetPage

structure Limits where
  maxRecords : Nat
  maxBytes : Nat
  records : 0 < maxRecords
  bytes : 0 < maxBytes

variable {ρ κ : Type} [LinearOrder κ]

variable (key : ρ → κ) (size : ρ → Nat) (limits : Limits) (rows : List ρ) (after : κ)

open KeySort

def rest : List ρ :=
  sortByKey key (rows.filter fun row => after < key row)

def cut (size : ρ → Nat) (limits : Limits) (taken : List ρ) (bytes : Nat) : List ρ → List ρ × Bool
  | [] => (taken, false)
  | row :: later =>
    if !taken.isEmpty && (decide (taken.length ≥ limits.maxRecords) ||
        decide (Saturating.add64 bytes (size row) > limits.maxBytes)) then (taken, true)
    else cut size limits (taken ++ [row]) (Saturating.add64 bytes (size row)) later

def page (fetch : Nat) (rows : List ρ) (after : κ) : List ρ × Bool :=
  cut size limits [] 0 ((rest key rows after).take fetch)

theorem cut_spec (taken : List ρ) (bytes : Nat) (within : taken.length ≤ limits.maxRecords) :
    ∃ front back, rows = front ++ back ∧
      cut size limits taken bytes rows = (taken ++ front, !back.isEmpty) ∧
      (taken ++ front).length ≤ limits.maxRecords ∧ (taken = [] → rows ≠ [] → front ≠ []) := by
  induction rows generalizing taken bytes with
  | nil => exact ⟨[], [], rfl, by simp [cut], by simpa using within, fun _ some => absurd rfl some⟩
  | cons row later ih =>
    rw [cut]
    split
    next full =>
      refine ⟨[], row :: later, rfl, by simp, by simpa using within, fun none _ => ?_⟩
      simp [none] at full
    next room =>
      have grown : (taken ++ [row]).length ≤ limits.maxRecords := by
        rw [List.length_append, List.length_singleton]
        cases taken with
        | nil => exact limits.records
        | cons first more =>
          simp only [List.isEmpty_cons, Bool.not_false, Bool.true_and, Bool.or_eq_true,
            decide_eq_true_eq, not_or, Nat.not_le] at room
          omega
      obtain ⟨front, back, split, result, bound, -⟩ := ih (taken ++ [row]) _ grown
      refine ⟨row :: front, back, by rw [split]; rfl, ?_, ?_, fun _ _ => List.cons_ne_nil _ _⟩
      · rw [result, List.append_assoc]
        rfl
      · rwa [List.append_assoc] at bound

theorem page_spec {fetch : Nat} {rows : List ρ} {after : κ}
    (enough : limits.maxRecords < fetch ∨ rows.length ≤ fetch) :
    ∃ front back, rest key rows after = front ++ back ∧
      page key size limits fetch rows after = (front, !back.isEmpty) ∧
      (rest key rows after ≠ [] → front ≠ []) := by
  obtain ⟨front, back, split, result, bound, some⟩ :=
    cut_spec size limits ((rest key rows after).take fetch) [] 0 (Nat.zero_le _)
  have whole := List.take_append_drop fetch (rest key rows after)
  rw [List.nil_append] at result bound
  refine ⟨front, back ++ (rest key rows after).drop fetch, ?_, ?_, ?_⟩
  · rw [← List.append_assoc, ← split, whole]
  · rw [page, result]
    cases back with
    | cons first more => rfl
    | nil =>
      have none : (rest key rows after).drop fetch = [] := by
        rw [List.drop_eq_nil_iff]
        by_contra left
        have size := congrArg List.length split
        rw [List.append_nil, List.length_take] at size
        have total : (rest key rows after).length ≤ rows.length := by
          rw [rest, length_sortByKey]
          exact List.length_filter_le _ _
        omega
      rw [none]
      rfl
  · intro left
    refine some rfl fun empty => ?_
    rw [List.take_eq_nil_iff] at empty
    rcases empty with zero | empty
    · rcases enough with enough | enough
      · omega
      · have none : rows = [] := List.length_eq_zero_iff.mp (by omega)
        exact absurd (by rw [none]; rfl) left
    · exact left empty

theorem mem_rest {key : ρ → κ} {rows : List ρ} {after : κ} {row : ρ} :
    row ∈ rest key rows after ↔ row ∈ rows ∧ after < key row := by
  rw [rest, mem_sortByKey, List.mem_filter, decide_eq_true_eq]

theorem rest_sorted {key : ρ → κ} {rows : List ρ} (distinct : (rows.map key).Nodup) (after : κ) :
    (rest key rows after).Pairwise fun first second => key first < key second := by
  have apart : (rest key rows after).Pairwise fun first second => key first ≠ key second := by
    have filtered : ((rows.filter fun row => after < key row).map key).Nodup :=
      distinct.sublist (List.filter_sublist.map key)
    have permuted := (sortByKey_perm key (rows.filter fun row => after < key row)).map key
    exact List.pairwise_map.mp (permuted.nodup_iff.mpr filtered)
  exact ((sortByKey_pairwise key _).and apart).imp fun both =>
    lt_of_le_of_ne both.1 both.2

structure Snapshot (ρ : Type) where
  rows : List ρ
  limits : Limits
  fetch : Nat

def resume (front : List ρ) : κ :=
  match front.getLast? with
  | some row => key row
  | none => after

/-- The rows of the pages of a walk and, once it came to an end, the snapshots it did not need. -/
def walk (key : ρ → κ) (size : ρ → Nat) :
    κ → List (Snapshot ρ) → List ρ × Option (List (Snapshot ρ))
  | _, [] => ([], none)
  | after, now :: later =>
    match page key size now.limits now.fetch now.rows after with
    | (front, false) => (front, some later)
    | (front, true) =>
      let (items, unused) := walk key size (resume key after front) later
      (front ++ items, unused)

structure Snapshot.Sound (key : ρ → κ) (now : Snapshot ρ) : Prop where
  distinct : (now.rows.map key).Nodup
  enough : now.limits.maxRecords < now.fetch ∨ now.rows.length ≤ now.fetch

theorem page_cases {key : ρ → κ} (size : ρ → Nat) {now : Snapshot ρ} (sound : now.Sound key)
    (after : κ) :
    page key size now.limits now.fetch now.rows after = (rest key now.rows after, false) ∨
      ∃ front last back,
        page key size now.limits now.fetch now.rows after = (front ++ [last], true) ∧
        rest key now.rows after = front ++ [last] ++ back ∧ back ≠ [] := by
  obtain ⟨front, back, split, result, some⟩ := page_spec key size now.limits sound.enough
  cases back with
  | nil =>
    left
    rw [result, split, List.append_nil]
    rfl
  | cons first more =>
    right
    have filled : front ≠ [] := some (by rw [split]; simp)
    obtain ⟨start, last, rfl⟩ := List.eq_nil_or_concat front |>.resolve_left filled
    rw [List.concat_eq_append] at result split
    exact ⟨start, last, first :: more, result, split, List.cons_ne_nil _ _⟩

omit [LinearOrder κ] in
theorem resume_append : resume key after (front ++ [last]) = key last := by
  simp [resume]

theorem walk_cons_ended {key : ρ → κ} {size : ρ → Nat} {after : κ} {now : Snapshot ρ}
    {later : List (Snapshot ρ)} {front : List ρ}
    (result : page key size now.limits now.fetch now.rows after = (front, false)) :
    walk key size after (now :: later) = (front, some later) := by
  rw [walk, result]

theorem walk_cons_more {key : ρ → κ} {size : ρ → Nat} {after : κ} {now : Snapshot ρ}
    {later : List (Snapshot ρ)} {front : List ρ} {last : ρ}
    (result : page key size now.limits now.fetch now.rows after = (front ++ [last], true)) :
    walk key size after (now :: later) =
      (front ++ [last] ++ (walk key size (key last) later).1,
        (walk key size (key last) later).2) := by
  rw [walk, result]
  simp only [resume_append]

theorem walk_sorted {key : ρ → κ} (size : ρ → Nat) (sound : ∀ now ∈ snapshots, now.Sound key)
    (after : κ) :
    ((walk key size after snapshots).1.Pairwise fun first second => key first < key second) ∧
      ∀ row ∈ (walk key size after snapshots).1, after < key row := by
  induction snapshots generalizing after with
  | nil => exact ⟨List.Pairwise.nil, nofun⟩
  | cons now later ih =>
    have here := sound now List.mem_cons_self
    have sorted := rest_sorted here.distinct after
    rcases page_cases size here after with ended | ⟨front, last, back, more, split, -⟩
    · rw [walk_cons_ended ended]
      exact ⟨sorted, fun row listed => (mem_rest.mp listed).2⟩
    · obtain ⟨ordered, beyond⟩ :=
        ih (fun next listed => sound next (List.mem_cons_of_mem _ listed)) (key last)
      rw [split] at sorted
      have shown := (List.pairwise_append.mp sorted).1
      have above : ∀ row ∈ front ++ [last], after < key row := fun row listed =>
        (mem_rest.mp (split ▸ List.mem_append_left _ listed)).2
      have upTo : ∀ row ∈ front ++ [last], key row ≤ key last := by
        intro row listed
        rcases List.mem_append.mp listed with listed | listed
        · exact ((List.pairwise_append.mp shown).2.2 row listed last (by simp)).le
        · rw [List.mem_singleton.mp listed]
      rw [walk_cons_more more]
      refine ⟨List.pairwise_append.mpr ⟨shown, ordered, ?_⟩, ?_⟩
      · exact fun row listed next following =>
          (upTo row listed).trans_lt (beyond next following)
      · intro row listed
        rcases List.mem_append.mp listed with listed | listed
        · exact above row listed
        · exact (above last (by simp)).trans (beyond row listed)

theorem walk_complete {key : ρ → κ} (size : ρ → Nat) (sound : ∀ now ∈ snapshots, now.Sound key)
    (after : κ) (ended : (walk key size after snapshots).2.isSome) (ahead : after < place)
    (stays : ∀ now ∈ snapshots, place ∈ now.rows.map key) :
    place ∈ (walk key size after snapshots).1.map key := by
  induction snapshots generalizing after with
  | nil => cases ended
  | cons now later ih =>
    have here := sound now List.mem_cons_self
    obtain ⟨row, held, rfl⟩ := List.mem_map.mp (stays now List.mem_cons_self)
    have listed : row ∈ rest key now.rows after := mem_rest.mpr ⟨held, ahead⟩
    rcases page_cases size here after with done | ⟨front, last, back, more, split, -⟩
    · rw [walk_cons_ended done]
      exact List.mem_map_of_mem listed
    · have sorted := rest_sorted here.distinct after
      rw [split] at sorted listed
      rw [walk_cons_more more] at ended ⊢
      rw [List.map_append, List.mem_append]
      rcases List.mem_append.mp listed with shown | left
      · exact .inl (List.mem_map_of_mem shown)
      · right
        have beyond : key last < key row :=
          (List.pairwise_append.mp sorted).2.2 last (by simp) row left
        exact ih (fun next listed => sound next (List.mem_cons_of_mem _ listed)) (key last)
          ended beyond fun next listed => stays next (List.mem_cons_of_mem _ listed)

theorem walk_sub {key : ρ → κ} (size : ρ → Nat) (sound : ∀ now ∈ snapshots, now.Sound key)
    (after : κ) : ∀ row ∈ (walk key size after snapshots).1, ∃ now ∈ snapshots, row ∈ now.rows := by
  induction snapshots generalizing after with
  | nil => exact nofun
  | cons now later ih =>
    intro row listed
    rcases page_cases size (sound now List.mem_cons_self) after with
      done | ⟨front, last, back, more, split, -⟩
    · rw [walk_cons_ended done] at listed
      exact ⟨now, List.mem_cons_self, (mem_rest.mp listed).1⟩
    · rw [walk_cons_more more] at listed
      rcases List.mem_append.mp listed with listed | listed
      · have held : row ∈ rest key now.rows after := split ▸ List.mem_append_left _ listed
        exact ⟨now, List.mem_cons_self, (mem_rest.mp held).1⟩
      · obtain ⟨next, following, held⟩ :=
          ih (fun next listed => sound next (List.mem_cons_of_mem _ listed)) _ row listed
        exact ⟨next, List.mem_cons_of_mem _ following, held⟩

def left : Nat :=
  (rows.map key).countP (after < ·)

theorem left_eq_length_rest : left key rows after = (rest key rows after).length := by
  rw [left, rest, length_sortByKey, List.countP_map, List.countP_eq_length_filter]
  rfl

theorem left_lt {key : ρ → κ} {rows : List ρ} {after place : κ} (held : place ∈ rows.map key)
    (ahead : after < place) : left key rows place < left key rows after := by
  have parts := List.countP_eq_countP_filter_add (rows.map key) (after < ·) (place < ·)
  have kept : ((rows.map key).filter (place < ·)).countP (after < ·) = left key rows place := by
    refine Eq.trans (List.countP_eq_length.mpr fun other listed => ?_)
      (List.countP_eq_length_filter).symm
    have beyond := of_decide_eq_true (List.mem_filter.mp listed).2
    exact decide_eq_true (ahead.trans beyond)
  have passed : 0 < ((rows.map key).filter fun other => !decide (place < other)).countP
      (after < ·) :=
    List.countP_pos_iff.mpr ⟨place, List.mem_filter.mpr ⟨held, by simp⟩, decide_eq_true ahead⟩
  rw [kept] at parts
  have whole : left key rows after = (rows.map key).countP (after < ·) := rfl
  omega

/-- While no key comes to the table, a walk ends within a page for every row that is left and one
more. -/
theorem walk_ends {key : ρ → κ} (size : ρ → Nat) (now : Snapshot ρ) (later : List (Snapshot ρ))
    (sound : ∀ next ∈ now :: later, next.Sound key) (after : κ)
    (shrinks : (now :: later).IsChain fun first second =>
      second.rows.map key ⊆ first.rows.map key)
    (enough : left key now.rows after ≤ later.length) :
    ∃ unused, (walk key size after (now :: later)).2 = some unused ∧ unused <:+ later ∧
      later.length ≤ unused.length + left key now.rows after := by
  induction later generalizing now after with
  | nil =>
    rcases page_cases size (sound now List.mem_cons_self) after with
      done | ⟨front, last, back, more, split, filled⟩
    · rw [walk_cons_ended done]
      exact ⟨[], rfl, List.suffix_refl _, Nat.zero_le _⟩
    · rw [left_eq_length_rest, split] at enough
      simp at enough
  | cons next later ih =>
    have here := sound now List.mem_cons_self
    rcases page_cases size here after with done | ⟨front, last, back, more, split, filled⟩
    · rw [walk_cons_ended done]
      exact ⟨next :: later, rfl, List.suffix_refl _, Nat.le_add_right _ _⟩
    · rw [walk_cons_more more]
      obtain ⟨step, chain⟩ := List.isChain_cons_cons.mp shrinks
      have following := sound next (List.mem_cons_of_mem _ List.mem_cons_self)
      have fewer : left key next.rows (key last) ≤ left key now.rows (key last) :=
        (List.subperm_of_subset following.distinct step).countP_le _
      have passed : left key now.rows (key last) < left key now.rows after := by
        have inside : last ∈ rest key now.rows after := split ▸ by simp
        obtain ⟨held, lower⟩ := mem_rest.mp inside
        exact left_lt (List.mem_map_of_mem held) lower
      rw [List.length_cons] at enough
      obtain ⟨unused, ended, part, bound⟩ := ih next
        (fun other listed => sound other (List.mem_cons_of_mem _ listed)) (key last) chain
        (by omega)
      refine ⟨unused, ended, part.trans (List.suffix_cons _ _), ?_⟩
      rw [List.length_cons]
      omega

end KeysetPage
