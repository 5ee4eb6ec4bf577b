import InterWeave.Api.Identities
import InterWeave.Human.PagesCore
import InterWeave.Lib.Fallible

/-!
Following the cursors of the paged reads visits every row that stays once, in the order of time
and row id, while other rows come and go between the pages.
-/

namespace InterWeave.Human

open Std (ExtTreeMap)
open Fallible (bind_eq_ok map_eq_ok)
open OrderedMap

variable (now : Moment)

def Cursor.Before (first second : Cursor) : Prop :=
  first.sortKey < second.sortKey ∨
    first.sortKey = second.sortKey ∧ first.rowId < second.rowId

namespace Reader

variable {ρ τ σ : Type} (reader : Reader ρ τ)

def Lawful : Prop :=
  ∀ id row item, reader.parse id row = .ok item →
    0 ≤ reader.time row ∧ reader.place item = ⟨(reader.time row).toNat, id⟩

structure Readable (table : AutoTable ρ) : Prop where
  ids : ∀ id ∈ table.rows, 0 < id ∧ id ≤ i64Max
  times : ∀ (id : RowId) row, table.rows[id]? = some row → reader.time row ≤ i64Max
  parses : ∀ (id : RowId) row, table.rows[id]? = some row → ∃ item, reader.parse id row = .ok item

structure Walked (tables : List (AutoTable ρ)) (items : List τ) (ended : Bool) : Prop where
  increasing : items.Pairwise fun first second =>
    (reader.place first).Before (reader.place second)
  stored : ∀ item ∈ items, ∃ table ∈ tables, ∃ row,
    table.rows[(reader.place item).rowId]? = some row ∧
      reader.parse (reader.place item).rowId row = .ok item
  once : ended = true → ∀ (id : RowId) (time : Int),
    (∀ table ∈ tables, ∃ row, table.rows[id]? = some row ∧ reader.time row = time) →
      ∃ item, items.filter (fun item => (reader.place item).rowId = id) = [item]

def Shrinks (before after : AutoTable ρ) : Prop :=
  ∀ (id : RowId) row, after.rows[id]? = some row →
    ∃ held, before.rows[id]? = some held ∧ reader.time held = reader.time row

def Reads (entry : RowId × ρ) (item : τ) : Prop :=
  reader.parse entry.1 entry.2 = .ok item

def start : Option Cursor → Int ×ₗ Int
  | none => toLex (-1, -1)
  | some cursor => toLex ((cursor.sortKey : Int), (cursor.rowId : Int))

def snapshot (table : AutoTable ρ) (limits : PageLimits) : KeysetPage.Snapshot (RowId × ρ) :=
  ⟨table.rows.toList, limits, PageLimits.fetch limits⟩

variable {reader}

theorem start_place (lawful : reader.Lawful) (read : reader.Reads entry item) :
    start (some (reader.place item)) = reader.key entry := by
  obtain ⟨nonneg, placed⟩ := lawful _ _ _ read
  simp [start, key, placed, nonneg]

theorem start_lt_start : start (some first) < start (some second) ↔ first.Before second := by
  simp [start, Cursor.Before, Prod.Lex.toLex_lt_toLex]

theorem fill_eq (limits : PageLimits) (rows taken : List (RowId × ρ)) (items : List τ)
    (bytes : Nat) (read : taken.Forall₂ reader.Reads items)
    (parses : ∀ entry ∈ rows, ∃ item, reader.Reads entry item) :
    ∃ filled, reader.fill limits items bytes rows =
        .ok (filled, (KeysetPage.cut reader.size limits taken bytes rows).2) ∧
      (KeysetPage.cut reader.size limits taken bytes rows).1.Forall₂ reader.Reads filled := by
  induction rows generalizing taken items bytes with
  | nil => exact ⟨items, rfl, read⟩
  | cons entry later ih =>
    have same : taken.isEmpty = items.isEmpty := by cases read <;> rfl
    rw [fill, KeysetPage.cut, same, read.length_eq]
    split
    · exact ⟨items, rfl, read⟩
    · obtain ⟨item, parsed⟩ := parses entry List.mem_cons_self
      have grown : (taken ++ [entry]).Forall₂ reader.Reads (items ++ [item]) :=
        List.rel_append read (.cons parsed .nil)
      rw [show reader.parse entry.1 entry.2 = .ok item from parsed]
      exact ih _ _ _ grown fun other listed => parses other (List.mem_cons_of_mem _ listed)

theorem cursorBounds_start (fits : ∀ cursor ∈ after, cursor.sortKey ≤ i64Max) :
    ∃ bounds, cursorBounds after = .ok bounds ∧ toLex bounds = start after := by
  cases after with
  | none => exact ⟨_, rfl, rfl⟩
  | some cursor =>
    refine ⟨_, ?_, rfl⟩
    rw [cursorBounds, sqlTimestamp, if_pos (fits cursor rfl)]
    rfl

theorem page_eq (readable : reader.Readable table)
    (fits : ∀ cursor ∈ after, cursor.sortKey ≤ i64Max) (limits : PageLimits)
    (cut : KeysetPage.page reader.key reader.size limits (PageLimits.fetch limits)
      table.rows.toList (start after) = (front, more)) :
    ∃ items, front.Forall₂ reader.Reads items ∧ reader.page table after limits =
      .ok ⟨items, if more then some ((items.getLast?.map reader.place).getD ⟨0, 0⟩) else none⟩ := by
  obtain ⟨bounds, bounded, same⟩ := cursorBounds_start fits
  have parses : ∀ entry ∈ (KeysetPage.rest reader.key table.rows.toList (start after)).take
      (PageLimits.fetch limits), ∃ item, reader.Reads entry item := by
    intro entry listed
    have held := (KeysetPage.mem_rest.mp (List.mem_of_mem_take listed)).1
    exact readable.parses _ _ (ExtTreeMap.mem_toList_iff_getElem?_eq_some.mp held)
  obtain ⟨items, filled, read⟩ := fill_eq limits _ [] [] 0 .nil parses
  rw [KeysetPage.page] at cut
  rw [cut] at filled read
  refine ⟨items, read, ?_⟩
  rw [page, bounded]
  simp only [bind, Except.bind, same, filled]
  rfl

theorem key_nodup {table : AutoTable ρ} : (table.rows.toList.map reader.key).Nodup := by
  have ids : (table.rows.toList.map Prod.fst).Nodup := by
    rw [ExtTreeMap.map_fst_toList_eq_keys]
    exact ExtTreeMap.nodup_keys
  refine List.Nodup.of_map (fun place => (ofLex place).2) ?_
  rw [List.map_map]
  have cast := ids.map (Nat.cast_injective (R := Int))
  rwa [List.map_map] at cast

theorem length_le_i64Max (readable : reader.Readable table) :
    table.rows.toList.length ≤ i64Max := by
  have within : table.rows.keys ⊆ List.range' 1 i64Max := by
    intro id listed
    have bounds := readable.ids id (ExtTreeMap.mem_keys.mp listed)
    rw [List.mem_range'_1]
    omega
  have counted := (List.subperm_of_subset ExtTreeMap.nodup_keys within).length_le
  rwa [List.length_range', ← ExtTreeMap.map_fst_toList_eq_keys, List.length_map] at counted

theorem snapshot_sound (readable : reader.Readable table) (limits : PageLimits) :
    (snapshot table limits).Sound reader.key where
  distinct := key_nodup
  enough := by
    have counted := length_le_i64Max readable
    simp only [snapshot, PageLimits.fetch, Saturating.add64, Saturating.u64Max]
    unfold i64Max at *
    omega

theorem reads_keys (lawful : reader.Lawful) {rows : List (RowId × ρ)}
    (read : rows.Forall₂ reader.Reads items) :
    rows.map reader.key = items.map fun item => start (some (reader.place item)) := by
  induction read with
  | nil => rfl
  | cons parsed _ ih => rw [List.map_cons, List.map_cons, ih, start_place lawful parsed]

theorem reads_mem {rows : List (RowId × ρ)} (read : rows.Forall₂ reader.Reads items)
    (listed : item ∈ items) :
    ∃ entry ∈ rows, reader.Reads entry item := by
  induction read with
  | nil => cases listed
  | cons parsed _ ih =>
    rcases List.mem_cons.mp listed with rfl | later
    · exact ⟨_, List.mem_cons_self, parsed⟩
    · obtain ⟨entry, held, found⟩ := ih later
      exact ⟨entry, List.mem_cons_of_mem _ held, found⟩

def pageOf (reader : Reader ρ τ) (view : σ → AutoTable ρ) (limitsOf : σ → PageLimits) (now : σ)
    (after : Option Cursor) : Except StoreError (Page τ Cursor) :=
  reader.page (view now) after (limitsOf now)

def snapshots (view : σ → AutoTable ρ) (limitsOf : σ → PageLimits) (moments : List σ) :
    List (KeysetPage.Snapshot (RowId × ρ)) :=
  moments.map fun now => snapshot (view now) (limitsOf now)

theorem followPages_eq (lawful : reader.Lawful) (view : σ → AutoTable ρ)
    (limitsOf : σ → PageLimits) (moments : List σ)
    (readable : ∀ now ∈ moments, reader.Readable (view now)) (after : Option Cursor)
    (fits : ∀ cursor ∈ after, cursor.sortKey ≤ i64Max) :
    ∃ items unused,
      followPages (reader.pageOf view limitsOf) after moments = .ok (items, unused) ∧
      (KeysetPage.walk reader.key reader.size (start after)
        (snapshots view limitsOf moments)).1.Forall₂ reader.Reads items ∧
      (KeysetPage.walk reader.key reader.size (start after) (snapshots view limitsOf moments)).2 =
        unused.map (snapshots view limitsOf) ∧
      ∀ later ∈ unused, later <:+ moments := by
  induction moments generalizing after with
  | nil => exact ⟨[], none, rfl, .nil, rfl, nofun⟩
  | cons now later ih =>
    have here := readable now List.mem_cons_self
    rw [snapshots, List.map_cons]
    rcases KeysetPage.page_cases reader.size (snapshot_sound here (limitsOf now)) (start after)
      with ended | ⟨front, last, back, more, split, -⟩
    · obtain ⟨items, read, result⟩ := page_eq here fits (limitsOf now) ended
      refine ⟨items, some later, ?_, ?_⟩
      · rw [followPages, pageOf, result]
        rfl
      · rw [KeysetPage.walk_cons_ended ended]
        exact ⟨read, rfl, fun _ same => Option.some.inj same ▸ List.suffix_cons now later⟩
    · obtain ⟨items, read, result⟩ := page_eq here fits (limitsOf now) more
      obtain ⟨shown, item, rfl⟩ : ∃ shown item, items = shown ++ [item] := by
        rcases List.eq_nil_or_concat items with rfl | ⟨shown, item, rfl⟩
        · simp at read
        · exact ⟨shown, item, List.concat_eq_append⟩
      have parsed : reader.Reads last item := by
        have reversed := List.rel_reverse read
        rw [List.reverse_append, List.reverse_append] at reversed
        exact (List.forall₂_cons.mp reversed).1
      have held : (view now).rows[last.1]? = some last.2 := by
        have inside : last ∈ KeysetPage.rest reader.key (view now).rows.toList (start after) :=
          split ▸ by simp
        exact ExtTreeMap.mem_toList_iff_getElem?_eq_some.mp (KeysetPage.mem_rest.mp inside).1
      have small : ∀ cursor ∈ some (reader.place item), cursor.sortKey ≤ i64Max := by
        intro cursor same
        cases same
        rw [(lawful _ _ _ parsed).2, Int.toNat_le]
        exact here.times _ _ held
      obtain ⟨others, unused, followed, following, rest, part⟩ :=
        ih (fun next listed => readable next (List.mem_cons_of_mem _ listed)) _ small
      rw [start_place lawful parsed] at following rest
      refine ⟨shown ++ [item] ++ others, unused, ?_, ?_⟩
      · rw [followPages, pageOf, result]
        simp [followed]
      · rw [KeysetPage.walk_cons_more more]
        exact ⟨List.rel_append read following, rest,
          fun left same => (part left same).trans (List.suffix_cons now later)⟩

theorem start_none_lt (lawful : reader.Lawful) (read : reader.Reads entry item) :
    start none < reader.key entry := by
  have nonneg := (lawful _ _ _ read).1
  rw [start, key, Prod.Lex.toLex_lt_toLex]
  exact .inl (by omega)

theorem mem_key {table : AutoTable ρ} {place : Int ×ₗ Int} :
    place ∈ table.rows.toList.map reader.key ↔
      ∃ (id : RowId) (row : ρ), table.rows[id]? = some row ∧
        toLex (reader.time row, (id : Int)) = place := by
  rw [List.mem_map]
  constructor
  · rintro ⟨⟨id, row⟩, listed, same⟩
    exact ⟨id, row, ExtTreeMap.mem_toList_iff_getElem?_eq_some.mp listed, same⟩
  · rintro ⟨id, row, held, same⟩
    exact ⟨(id, row), ExtTreeMap.mem_toList_iff_getElem?_eq_some.mpr held, same⟩

theorem only_at_place {items : List τ} {id : RowId} {place : Cursor}
    (increasing : items.Pairwise fun first second =>
      (reader.place first).Before (reader.place second))
    (placed : ∀ item ∈ items, (reader.place item).rowId = id → reader.place item = place)
    (visited : ∃ item ∈ items, (reader.place item).rowId = id) :
    ∃ item, items.filter (fun item => (reader.place item).rowId = id) = [item] := by
  obtain ⟨item, listed, here⟩ := visited
  have among : item ∈ items.filter fun item => (reader.place item).rowId = id := by
    simp [listed, here]
  have apart := increasing.filter fun item => (reader.place item).rowId = id
  match found : items.filter fun item => (reader.place item).rowId = id with
  | [] => simp [found] at among
  | [only] => exact ⟨only, rfl⟩
  | first :: second :: more =>
    have both : ∀ other ∈ first :: second :: more, reader.place other = place := by
      intro other inside
      rw [← found, List.mem_filter, decide_eq_true_eq] at inside
      exact placed other inside.1 inside.2
    rw [found] at apart
    have before := (List.pairwise_cons.mp apart).1 second List.mem_cons_self
    rw [both first (by simp), both second (by simp)] at before
    simp [Cursor.Before] at before

theorem snapshots_sound (limitsOf : σ → PageLimits)
    (readable : ∀ now ∈ moments, reader.Readable (view now)) :
    ∀ snapped ∈ snapshots view limitsOf moments, snapped.Sound reader.key := by
  intro snapped listed
  obtain ⟨now, inside, rfl⟩ := List.mem_map.mp listed
  exact snapshot_sound (readable now inside) _

theorem followPages_walked (lawful : reader.Lawful) (view : σ → AutoTable ρ)
    (limitsOf : σ → PageLimits) (moments : List σ)
    (readable : ∀ now ∈ moments, reader.Readable (view now))
    (followed : followPages (reader.pageOf view limitsOf) none moments = .ok (items, unused)) :
    reader.Walked (moments.map view) items unused.isSome := by
  obtain ⟨others, left, again, read, rest, -⟩ :=
    followPages_eq lawful view limitsOf moments readable none nofun
  obtain ⟨rfl, rfl⟩ := Prod.mk.inj (Except.ok.inj (followed.symm.trans again))
  have sound := snapshots_sound limitsOf readable
  have keys := reads_keys lawful read
  have increasing : items.Pairwise fun first second =>
      (reader.place first).Before (reader.place second) := by
    have sorted := (KeysetPage.walk_sorted reader.size sound (start none)).1
    rw [← List.pairwise_map (f := reader.key) (R := (· < ·)), keys, List.pairwise_map] at sorted
    exact sorted.imp start_lt_start.mp
  have stored : ∀ item ∈ items, ∃ table ∈ moments.map view, ∃ row,
      table.rows[(reader.place item).rowId]? = some row ∧
        reader.parse (reader.place item).rowId row = .ok item := by
    intro item listed
    obtain ⟨entry, walked, parsed⟩ := reads_mem read listed
    obtain ⟨snapped, among, held⟩ := KeysetPage.walk_sub reader.size sound _ entry walked
    obtain ⟨now, inside, rfl⟩ := List.mem_map.mp among
    refine ⟨view now, List.mem_map_of_mem inside, entry.2, ?_⟩
    rw [(lawful _ _ _ parsed).2]
    exact ⟨ExtTreeMap.mem_toList_iff_getElem?_eq_some.mp held, parsed⟩
  refine ⟨increasing, stored, fun ended id time stays => ?_⟩
  have timed : ∀ item ∈ items, (reader.place item).rowId = id →
      reader.place item = ⟨time.toNat, id⟩ := by
    rintro item listed rfl
    obtain ⟨table, among, row, held, parsed⟩ := stored item listed
    obtain ⟨same, found, timed⟩ := stays table among
    cases Option.some.inj (held.symm.trans found)
    exact timed ▸ (lawful _ _ _ parsed).2
  have visited : ∃ item ∈ items, (reader.place item).rowId = id := by
    have met : (snapshots view limitsOf moments) ≠ [] := by
      intro none
      rw [none] at rest
      cases unused with
      | none => cases ended
      | some left => cases rest
    obtain ⟨snapped, some⟩ := List.exists_mem_of_ne_nil _ met
    obtain ⟨now, inside, -⟩ := List.mem_map.mp some
    obtain ⟨row, held, timed⟩ := stays _ (List.mem_map_of_mem inside)
    obtain ⟨item, parsed⟩ := (readable now inside).parses id row held
    have ahead : start none < reader.key (id, row) := start_none_lt lawful parsed
    have complete := KeysetPage.walk_complete reader.size sound (start none)
      (by rw [rest, Option.isSome_map]; exact ended) ahead (by
        intro snapped listed
        obtain ⟨next, following, rfl⟩ := List.mem_map.mp listed
        obtain ⟨other, found, same⟩ := stays _ (List.mem_map_of_mem following)
        exact mem_key.mpr ⟨id, other, found, by rw [key, same, timed]⟩)
    rw [keys, List.mem_map] at complete
    obtain ⟨shown, listed, same⟩ := complete
    refine ⟨shown, listed, ?_⟩
    have ids := congrArg (fun place => (ofLex place).2) same
    exact Int.ofNat.inj ids
  exact only_at_place increasing timed visited

theorem followPages_ends (lawful : reader.Lawful) (now : σ)
    (readable : ∀ next ∈ now :: later, reader.Readable (view next))
    (shrinks : (now :: later).IsChain fun first second => reader.Shrinks (view first) (view second))
    (enough : (view now).rows.size ≤ later.length) :
    ∃ items unused,
      followPages (reader.pageOf view limitsOf) none (now :: later) = .ok (items, some unused) ∧
      unused <:+ later ∧ later.length ≤ unused.length + (view now).rows.size := by
  obtain ⟨items, unused, followed, -, rest, part⟩ :=
    followPages_eq lawful view limitsOf (now :: later) readable none nofun
  have few : KeysetPage.left reader.key (view now).rows.toList (start none) ≤
      (view now).rows.size := by
    rw [← ExtTreeMap.length_toList, ← List.length_map (f := reader.key)]
    exact List.countP_le_length
  have chain : (snapshots view limitsOf (now :: later)).IsChain fun first second =>
      second.rows.map reader.key ⊆ first.rows.map reader.key := by
    refine List.isChain_map_of_isChain _ (fun first second fewer place listed => ?_) shrinks
    obtain ⟨id, row, held, same⟩ := mem_key.mp listed
    obtain ⟨other, found, timed⟩ := fewer id row held
    exact mem_key.mpr ⟨id, other, found, timed ▸ same⟩
  obtain ⟨left, ended, following, bound⟩ := KeysetPage.walk_ends reader.size
    (snapshot (view now) (limitsOf now)) (snapshots view limitsOf later)
    (snapshots_sound limitsOf readable) (start none) chain
    (by rw [snapshots, List.length_map]; exact few.trans enough)
  obtain ⟨unused, rfl, rfl⟩ := Option.map_eq_some_iff.mp (rest.symm.trans ended)
  have shorter := following.length_le
  simp only [snapshots, List.length_map] at bound shorter
  refine ⟨items, unused, followed, ?_, bound.trans (Nat.add_le_add_left few _)⟩
  rcases List.suffix_cons_iff.mp (part unused rfl) with whole | part
  · rw [whole, List.length_cons] at shorter
    omega
  · exact part

end Reader

theorem storedMs_eq_ok : storedMs field value = .ok time ↔ 0 ≤ value ∧ value.toNat = time := by
  rw [storedMs]
  split
  next nonneg => simp [nonneg]
  next negative => simp [negative]

theorem pendingReader_lawful : pendingReader.Lawful := by
  intro id row item parsed
  simp only [pendingReader, pendingFrom, bind_eq_ok, storedMs_eq_ok] at parsed
  obtain ⟨_, -, _, -, _, -, _, -, created, ⟨nonneg, rfl⟩, _, -, _, -, built⟩ := parsed
  cases built
  exact ⟨nonneg, rfl⟩

theorem storedFrom_place {id : RowId} (parsed : storedFrom id row readAt keptAt = .ok item) :
    0 ≤ row.receivedAt ∧
      (⟨item.receivedAt, item.rowId⟩ : Cursor) = ⟨row.receivedAt.toNat, id⟩ := by
  simp only [storedFrom, bind_eq_ok, storedMs_eq_ok] at parsed
  obtain ⟨_, -, _, -, _, -, received, ⟨nonneg, rfl⟩, _, -, _, -, built⟩ := parsed
  cases built
  exact ⟨nonneg, rfl⟩

theorem unreadReader_lawful : unreadReader.Lawful := fun _ _ _ parsed => storedFrom_place parsed

theorem keptReader_lawful : keptReader.Lawful := fun _ _ _ parsed => storedFrom_place parsed

open HumanStore

theorem backup_kept :
    now.backup (some ⟨.kept, within⟩) =
      (now.kept within).map fun page =>
        ⟨page.items, page.next.map fun within => ⟨.kept, some within⟩⟩ := by
  simp only [Moment.backup, backupEligiblePage, Option.getD_some, Moment.kept]
  cases now.1.keptInboundPage within now.2 <;> rfl

theorem backup_unread (position : after.getD ⟨.unread, none⟩ = ⟨.unread, within⟩) :
    now.backup after =
      (now.unread within).map fun page =>
        ⟨page.items, some ⟨if page.next.isSome then .unread else .kept, page.next⟩⟩ := by
  rw [Moment.backup, backupEligiblePage, position, Moment.unread]
  cases now.1.unreadInboundPage within now.2 <;> rfl

theorem followPages_kept :
    followPages Moment.backup (some ⟨.kept, within⟩) moments =
      followPages Moment.kept within moments := by
  induction moments generalizing within with
  | nil => rfl
  | cons now later ih =>
    rw [followPages, followPages, backup_kept]
    cases now.kept within with
    | error reason => rfl
    | ok page =>
      obtain ⟨items, next⟩ := page
      cases next with
      | none => rfl
      | some next =>
        simp only [Except.map, Option.map_some]
        rw [ih]

theorem followPages_backup (position : after.getD ⟨.unread, none⟩ = ⟨.unread, within⟩) :
    followPages Moment.backup after moments =
      match followPages Moment.unread within moments with
      | .error reason => .error reason
      | .ok (items, none) => .ok (items, none)
      | .ok (items, some later) =>
        (walkKept later).map fun kept => (items ++ kept.1, kept.2) := by
  induction moments generalizing after within with
  | nil => rfl
  | cons now later ih =>
    rw [followPages, followPages, backup_unread now position]
    cases now.unread within with
    | error reason => rfl
    | ok page =>
      obtain ⟨items, next⟩ := page
      cases next with
      | none =>
        simp only [Except.map, Option.isSome_none, Bool.false_eq_true, if_false]
        rw [followPages_kept, walkKept]
        cases followPages Moment.kept none later <;> rfl
      | some next =>
        simp only [Except.map]
        rw [ih rfl]
        cases followPages Moment.unread (some next) later with
        | error reason => rfl
        | ok followed =>
          obtain ⟨more, unused⟩ := followed
          cases unused with
          | none => rfl
          | some left =>
            cases found : walkKept left with
            | error reason => simp [Except.map, found]
            | ok kept => simp [Except.map, found]

theorem walkBackup_unfinished (unread : walkUnread moments = .ok (items, none)) :
    walkBackup moments = .ok (items, none) := by
  rw [walkUnread] at unread
  rw [walkBackup, followPages_backup rfl, unread]

theorem walkBackup_append (unread : walkUnread moments = .ok (items, some later))
    (kept : walkKept later = .ok (rest, unused)) :
    walkBackup moments = .ok (items ++ rest, unused) := by
  rw [walkUnread] at unread
  rw [walkBackup, followPages_backup rfl, unread]
  simp only [kept, Except.map]

structure Reader.Visits {ρ τ : Type} (reader : Reader ρ τ) (view : HumanStore → AutoTable ρ)
    (moments : List Moment) (walked : Except StoreError (List τ × Option (List Moment))) :
    Prop where
  returns : ∃ items unused, walked = .ok (items, unused) ∧
    reader.Walked (moments.map fun now => view now.1) items unused.isSome
  ends : ∀ now ∈ moments.head?,
    (moments.IsChain fun first second => reader.Shrinks (view first.1) (view second.1)) →
      (view now.1).rows.size < moments.length →
        ∃ items unused, walked = .ok (items, some unused)

theorem Reader.visits {ρ τ : Type} {reader : Reader ρ τ} (lawful : reader.Lawful)
    (view : HumanStore → AutoTable ρ) (moments : List Moment)
    (readable : ∀ now ∈ moments, reader.Readable (view now.1)) :
    reader.Visits view moments
      (followPages (reader.pageOf (fun now : Moment => view now.1) Prod.snd) none moments) where
  returns := by
    obtain ⟨items, unused, followed, -⟩ :=
      followPages_eq lawful (fun now : Moment => view now.1) Prod.snd moments readable none nofun
    exact ⟨items, unused, followed, followPages_walked lawful _ _ moments readable followed⟩
  ends := by
    intro now first shrinks enough
    cases moments with
    | nil => cases first
    | cons start later =>
      cases Option.some.inj first
      obtain ⟨items, unused, followed, -⟩ := followPages_ends lawful now readable shrinks
        (Nat.le_of_lt_succ enough)
      exact ⟨items, unused, followed⟩

section

variable {ρ τ : Type} {reader : Reader ρ τ}

theorem Reader.Walked.mono (walked : reader.Walked tables items ended) (sub : tables ⊆ more)
    (only : last = true → ended = true) : reader.Walked more items last where
  increasing := walked.increasing
  stored := by
    intro item listed
    obtain ⟨table, among, found⟩ := walked.stored item listed
    exact ⟨table, sub among, found⟩
  once := fun done id time stays =>
    walked.once (only done) id time fun table among => stays table (sub among)

theorem Reader.walked_nil : reader.Walked tables [] false :=
  ⟨.nil, nofun, nofun⟩

theorem Reader.Shrinks.trans (step : reader.Shrinks first second)
    (next : reader.Shrinks second third) :
    reader.Shrinks first third := by
  intro id row held
  obtain ⟨middle, found, same⟩ := next id row held
  obtain ⟨start, earlier, timed⟩ := step id middle found
  exact ⟨start, earlier, timed.trans same⟩

theorem Reader.Shrinks.size_le (step : reader.Shrinks before after) :
    after.rows.size ≤ before.rows.size := by
  have within : after.rows.keys ⊆ before.rows.keys := by
    intro id listed
    obtain ⟨row, held⟩ := (mem_iff_get _ _).mp (ExtTreeMap.mem_keys.mp listed)
    obtain ⟨other, found, -⟩ := step id row held
    exact ExtTreeMap.mem_keys.mpr ((mem_iff_get _ _).mpr ⟨other, found⟩)
  have counted := (List.subperm_of_subset ExtTreeMap.nodup_keys within).length_le
  rwa [ExtTreeMap.length_keys, ExtTreeMap.length_keys] at counted

theorem Reader.shrinks_pairwise {view : HumanStore → AutoTable ρ} {moments : List Moment} :
    (moments.IsChain fun first second => reader.Shrinks (view first.1) (view second.1)) ↔
      moments.Pairwise fun first second => reader.Shrinks (view first.1) (view second.1) := by
  have transitive : IsTrans Moment fun first second =>
      reader.Shrinks (view first.1) (view second.1) := ⟨fun _ _ _ => Reader.Shrinks.trans⟩
  exact List.isChain_iff_pairwise

end

theorem walkBackup_returns {moments : List Moment}
    (unreadable : ∀ now ∈ moments, unreadReader.Readable now.1.unread)
    (keepable : ∀ now ∈ moments, keptReader.Readable now.1.kept) :
    ∃ unread kept unused, walkBackup moments = .ok (unread ++ kept, unused) ∧
      unreadReader.Walked (moments.map fun now => now.1.unread) unread unused.isSome ∧
      keptReader.Walked (moments.map fun now => now.1.kept) kept unused.isSome := by
  obtain ⟨items, unused, followed, -, -, part⟩ := Reader.followPages_eq unreadReader_lawful
    (fun now : Moment => now.1.unread) Prod.snd moments unreadable none nofun
  have walked := Reader.followPages_walked unreadReader_lawful _ _ moments unreadable followed
  cases unused with
  | none =>
    refine ⟨items, [], none, ?_, walked, Reader.walked_nil⟩
    rw [List.append_nil]
    exact walkBackup_unfinished followed
  | some later =>
    have sub := (part later rfl).subset
    have able : ∀ now ∈ later, keptReader.Readable now.1.kept := fun now listed =>
      keepable now (sub listed)
    obtain ⟨kept, left, again, -⟩ := Reader.followPages_eq keptReader_lawful
      (fun now : Moment => now.1.kept) Prod.snd later able none nofun
    have following := Reader.followPages_walked keptReader_lawful _ _ later able again
    exact ⟨items, kept, left, walkBackup_append followed again,
      walked.mono (List.Subset.refl _) fun _ => rfl, following.mono (List.map_subset _ sub) id⟩

theorem walkBackup_ends (unreadable : ∀ next ∈ now :: later, unreadReader.Readable next.1.unread)
    (keepable : ∀ next ∈ now :: later, keptReader.Readable next.1.kept)
    (fewer : (now :: later).IsChain fun first second =>
      unreadReader.Shrinks first.1.unread second.1.unread)
    (smaller : (now :: later).IsChain fun first second =>
      keptReader.Shrinks first.1.kept second.1.kept)
    (enough : now.1.unread.rows.size + now.1.kept.rows.size < later.length) :
    ∃ items unused, walkBackup (now :: later) = .ok (items, some unused) := by
  obtain ⟨items, unused, followed, part, bound⟩ :=
    Reader.followPages_ends unreadReader_lawful now unreadable fewer (by omega)
  cases unused with
  | nil =>
    rw [List.length_nil] at bound
    omega
  | cons next rest =>
    have sub : next :: rest ⊆ now :: later := fun other listed =>
      List.mem_cons_of_mem _ (part.subset listed)
    have ordered := Reader.shrinks_pairwise.mp smaller
    have first := (List.pairwise_cons.mp ordered).1 next (part.subset List.mem_cons_self)
    have size := first.size_le
    have chain := Reader.shrinks_pairwise.mpr
      ((List.pairwise_cons.mp ordered).2.sublist part.sublist)
    obtain ⟨kept, left, again, -⟩ := Reader.followPages_ends keptReader_lawful next
      (fun other listed => keepable other (sub listed)) chain (by
        rw [List.length_cons] at bound
        omega)
    exact ⟨items ++ kept, left, walkBackup_append followed again⟩

/-- In any states of the store whose rows parse, and with any limits, the walks return, in
increasing order and once each, the rows that stay, and end when nothing is inserted. A backup
returns unread rows and then kept rows. -/
theorem paged_walks_visit_rows_once (moments : List Moment) :
    ((∀ now ∈ moments, pendingReader.Readable now.1.pending) →
      pendingReader.Visits pending moments (walkPending moments)) ∧
    ((∀ now ∈ moments, unreadReader.Readable now.1.unread) →
      unreadReader.Visits unread moments (walkUnread moments)) ∧
    ((∀ now ∈ moments, keptReader.Readable now.1.kept) →
      keptReader.Visits kept moments (walkKept moments)) ∧
    ((∀ now ∈ moments, unreadReader.Readable now.1.unread) →
      (∀ now ∈ moments, keptReader.Readable now.1.kept) →
      (∃ unread kept unused, walkBackup moments = .ok (unread ++ kept, unused) ∧
        unreadReader.Walked (moments.map fun now => now.1.unread) unread unused.isSome ∧
        keptReader.Walked (moments.map fun now => now.1.kept) kept unused.isSome) ∧
      ∀ now ∈ moments.head?,
        (moments.IsChain fun first second =>
          unreadReader.Shrinks first.1.unread second.1.unread) →
        (moments.IsChain fun first second => keptReader.Shrinks first.1.kept second.1.kept) →
        now.1.unread.rows.size + now.1.kept.rows.size + 1 < moments.length →
          ∃ items unused, walkBackup moments = .ok (items, some unused)) := by
  refine ⟨Reader.visits pendingReader_lawful _ moments, Reader.visits unreadReader_lawful _ moments,
    Reader.visits keptReader_lawful _ moments, fun unreadable keepable =>
      ⟨walkBackup_returns unreadable keepable, ?_⟩⟩
  intro now first fewer smaller enough
  cases moments with
  | nil => cases first
  | cons start later =>
    cases Option.some.inj first
    exact walkBackup_ends now unreadable keepable fewer smaller
      (Nat.lt_of_succ_lt_succ enough)

section

variable {ρ τ : Type} (reader : Reader ρ τ)

instance Reader.Readable.decides (table : AutoTable ρ) : Decidable (reader.Readable table) :=
  decidable_of_iff (∀ entry ∈ table.rows.toList, (0 < entry.1 ∧ entry.1 ≤ i64Max) ∧
      reader.time entry.2 ≤ i64Max ∧ (reader.parse entry.1 entry.2).isOk = true) (by
    simp only [Prod.forall, ExtTreeMap.mem_toList_iff_getElem?_eq_some]
    have parsed : ∀ answer : Except StoreError τ,
        answer.isOk = true ↔ ∃ item, answer = .ok item := by
      rintro (_ | _) <;> simp [Except.isOk, Except.toBool]
    constructor
    · intro passed
      refine ⟨fun id held => ?_, fun id row held => (passed id row held).2.1,
        fun id row held => (parsed _).mp (passed id row held).2.2⟩
      obtain ⟨row, found⟩ := (mem_iff_get _ _).mp held
      exact (passed id row found).1
    · intro readable id row held
      exact ⟨readable.ids id ((mem_iff_get _ _).mpr ⟨row, held⟩), readable.times id row held,
        (parsed _).mpr (readable.parses id row held)⟩)

instance Reader.shrinksDecides (before after : AutoTable ρ) :
    Decidable (reader.Shrinks before after) :=
  decidable_of_iff (∀ entry ∈ after.rows.toList, ∃ held ∈ before.rows[entry.1]?,
      reader.time held = reader.time entry.2) (by
    simp [Reader.Shrinks, ExtTreeMap.mem_toList_iff_getElem?_eq_some])

end

namespace Sample

def outbound (id : AppMessageId) : NewOutbound where
  appMessageId := id
  transportMessageId := ⟨List.replicate 16 0, rfl⟩
  destination := .direct (.numbered 1) none
  mediaType := none
  payload := [1]
  createdAt := 5

def inbound (id : AppMessageId) : NewInbound where
  appMessageId := id
  origin := ⟨.numbered 1, none, none⟩
  mediaType := none
  payload := [2, 3]
  receivedAt := 6

def messageId : Nat → AppMessageId
  | 1 => ⟨"00000000000000000000000000000001", by decide⟩
  | 2 => ⟨"00000000000000000000000000000002", by decide⟩
  | _ => ⟨"00000000000000000000000000000003", by decide⟩

def three {ρ : Type} (row : AppMessageId → ρ) : AutoTable ρ :=
  ((AutoTable.empty.insert (row (messageId 1))).insert (row (messageId 2))).insert
    (row (messageId 3))

/-- Three messages of one moment in each table. -/
def store : HumanStore where
  pending := three fun id => (outbound id).row none 0
  unread := three fun id => (inbound id).row
  kept := three fun id => { inbound id with readAt := 8 : ReadEphemeral }.row 9
  pairs := AutoTable.empty

/-- The same store once the second message of each table is gone. -/
def shrunk : HumanStore :=
  { store with
    pending := store.pending.erase 2
    unread := store.unread.erase 2
    kept := store.kept.erase 2 }

def oneByOne : PageLimits :=
  ⟨1, 4096, by decide, by decide⟩

def moments : List Moment :=
  (store, oneByOne) :: List.replicate 7 (shrunk, oneByOne)

end Sample

/-- A row that goes away between two pages of one row each is skipped, and the walks end. -/
theorem paged_walks_visit_rows_once_sample :
    pendingReader.Visits pending Sample.moments (walkPending Sample.moments) ∧
      unreadReader.Visits unread Sample.moments (walkUnread Sample.moments) ∧
      keptReader.Visits kept Sample.moments (walkKept Sample.moments) ∧
      (∃ items unused, walkBackup Sample.moments = .ok (items, some unused)) ∧
      (walkUnread Sample.moments).toOption.map (fun walked => walked.1.map (·.rowId)) =
        some [1, 3] := by
  have unreadable : ∀ now ∈ Sample.moments, unreadReader.Readable now.1.unread := by
    decide +kernel
  have keepable : ∀ now ∈ Sample.moments, keptReader.Readable now.1.kept := by decide +kernel
  obtain ⟨pendings, unreads, keeps, backups⟩ := paged_walks_visit_rows_once Sample.moments
  refine ⟨pendings (by decide +kernel), unreads unreadable, keeps keepable,
    (backups unreadable keepable).2 (Sample.store, Sample.oneByOne) rfl ?_ ?_ (by decide), ?_⟩
  · decide +kernel
  · decide +kernel
  · decide +kernel

end InterWeave.Human
