import Delegation.Proofs.Merging
import Delegation.Source

namespace Delegation

namespace Index
open Grant

theorem supports_iff {i : Index} {p : Path} {c : Capability} :
    i.supports p c = true ↔ ∃ g, i.grant? p = some g ∧ g.allows c = true := Option.any_eq_true _ _

variable {rows : SortedMap Path Grant}

/-- The columns that are allowed something, each with what is kept of its grant. -/
def view {μ : Type} (c : Capability) (keep : Grant → μ) (rows : SortedMap Path Grant) :
    SortedMap Path μ :=
  rows.filterMap fun _ g => if g.allows c then some (keep g) else none

section
variable {μ : Type} {c : Capability} {keep : Grant → μ} {p : Path}

theorem get?_view_eq_some_iff {v : μ} :
    (view c keep rows).get? p = some v ↔
      ∃ g, rows.get? p = some g ∧ g.allows c = true ∧ keep g = v := by
  rw [view, SortedMap.get?_filterMap, Option.bind_eq_some_iff]
  simp only [Option.ite_none_right_eq_some, Option.some.injEq]

theorem contains_view : (view c keep rows).contains p = (ofRows rows).supports p c := by
  rw [Bool.eq_iff_iff, SortedMap.contains, Option.isSome_iff_exists, supports_iff]
  simp only [get?_view_eq_some_iff]
  constructor
  · rintro ⟨v, g, hg, ha, hv⟩
    exact ⟨g, hg, ha⟩
  · rintro ⟨g, hg, ha⟩
    exact ⟨_, g, hg, ha, rfl⟩

theorem size_view :
    (view c keep rows).size = (rows.entries.filter fun e => e.2.allows c).length := by
  have hs : ∀ e : Path × Grant,
      ((if e.2.allows c then some (keep e.2) else none).map (e.1, ·)).isSome = e.2.allows c := by
    intro e
    cases e.2.allows c <;> rfl
  rw [SortedMap.size, view, SortedMap.filterMap, List.length_filterMap_eq_countP,
    ← List.countP_eq_length_filter]
  simp only [hs]

end

theorem sorts_ofRows (p : Path) : (ofRows rows).sorts p = (ofRows rows).supports p .sort :=
  contains_view

theorem ascendingOnly_ofRows (p : Path) :
    (ofRows rows).ascendingOnly p =
      (rows.get? p).any fun g => g.allows .sort && g.ascendingOnly := by
  change ((view .sort Grant.ascendingOnly rows).get? p).getD false = _
  rw [view, SortedMap.get?_filterMap]
  cases rows.get? p with
  | none => rfl
  | some g => cases h : g.allows .sort <;> simp [h]

theorem contains_foldl_union (c : Capability) (l : List (Path × Grant)) (s : Capabilities) :
    (l.foldl (fun s e => s.union e.2.capabilities) s).contains c =
      (s.contains c || l.any fun e => e.2.allows c) := by
  induction l generalizing s with
  | nil => simp
  | cons e r ih =>
    rw [List.foldl_cons, ih, FlagSet.contains_union, List.any_cons, Bool.or_assoc]
    rfl

theorem contains_table_iff {c : Capability} :
    (ofRows rows).table.contains c = true ↔ ∃ p, (ofRows rows).supports p c = true := by
  have ht : (ofRows rows).table =
      rows.entries.foldl (fun s e => s.union e.2.capabilities) FlagSet.empty := rfl
  rw [ht, contains_foldl_union, FlagSet.contains_empty, Bool.false_or, List.any_eq_true]
  simp only [supports_iff]
  constructor
  · intro ⟨⟨p, g⟩, hm, hg⟩
    exact ⟨p, g, SortedMap.get?_eq_some_iff.2 hm, hg⟩
  · intro ⟨p, g, hg, ha⟩
    exact ⟨(p, g), SortedMap.get?_eq_some_iff.1 hg, ha⟩

theorem contains_table_of_supports {p : Path} {c : Capability}
    (h : (ofRows rows).supports p c = true) : (ofRows rows).table.contains c = true :=
  contains_table_iff.2 ⟨p, h⟩

theorem supports_build (schema : Schema) (fragments : List Fragment) (p : Path) (c : Capability) :
    (build schema fragments).supports p c =
      (schema.contains p && (Fragment.parts fragments p).any fun g => g.allows c) := by
  rw [supports, grant?_build, ← Fragment.any_get?_mergeAll (distributes_allows c)]
  cases (Fragment.mergeAll fragments).get? p with
  | none => simp
  | some g =>
    -- a grant of nothing is filtered out, and it would not have allowed the capability
    have he : g.capabilities.isEmpty = true → g.allows c = false := fun h =>
      FlagSet.isEmpty_iff.1 h c
    cases hs : schema.contains p with
    | false => simp [Option.filter]
    | true => cases hc : g.capabilities.isEmpty <;> simp_all [Option.filter]

theorem ascendingOnly_build {schema : Schema} {fragments : List Fragment} {p : Path}
    (h : (build schema fragments).supports p .sort = true) :
    (build schema fragments).ascendingOnly p =
      (Fragment.parts fragments p).any Grant.ascendingOnly := by
  obtain ⟨g, hg, hs⟩ := supports_iff.1 h
  have ha : g.ascendingOnly = (Fragment.parts fragments p).any Grant.ascendingOnly := by
    rw [Bool.eq_iff_iff, List.any_eq_true]
    exact (grant?_build_totals hg).ascendingOnly
  have hr : (build schema fragments).ascendingOnly p =
      ((build schema fragments).grant? p).any fun g => g.allows .sort && g.ascendingOnly :=
    ascendingOnly_ofRows p
  rw [hr, hg, Option.any_some, hs, Bool.true_and, ha]

def HasRow (i : Index) (p : Path) (g : Grant) : Prop := (p, g) ∈ i.rows.entries

theorem grant?_eq_some_iff {i : Index} {p : Path} {g : Grant} :
    i.grant? p = some g ↔ i.HasRow p g := SortedMap.get?_eq_some_iff

/-- What each part of an index says, told by its rows. -/
structure Coherent (schema : Schema) (i : Index) : Prop where
  supports : ∀ p c, i.supports p c = true ↔ ∃ g, i.HasRow p g ∧ g.allows c = true
  sorting : ∀ p c, i.sortView.supports p c = true ↔ c = .sort ∧ i.supports p .sort = true
  ascendingOnly : ∀ p, i.sortView.ascendingOnly p = true ↔
    i.supports p .sort = true ∧ ∃ g, i.HasRow p g ∧ g.ascendingOnly = true
  sortable : i.sorting.size = (i.rows.entries.filter fun e => e.2.allows .sort).length
  filtering : ∀ p, i.filters p = true ↔ i.supports p .filter = true
  operators : ∀ p s, i.operators? p = some s ↔
    i.supports p .filter = true ∧ ∃ g, i.HasRow p g ∧ g.operators = s
  evaluates : ∀ p o, i.evaluates p o = true ↔
    i.supports p .filter = true ∧ ∃ g, i.HasRow p g ∧ g.operators.contains o = true
  grouping : ∀ p, i.groups p = true ↔ i.supports p .group = true
  table : ∀ c, i.table.contains c = true ↔ ∃ p g, i.HasRow p g ∧ g.allows c = true
  known : ∀ p g, i.HasRow p g → schema.contains p = true
  granted : ∀ p g, i.HasRow p g → ∃ c, g.allows c = true
  ordered : i.rows.keys.Pairwise fun p q => p < q

theorem supports_iff_hasRow {i : Index} {p : Path} {c : Capability} :
    i.supports p c = true ↔ ∃ g, i.HasRow p g ∧ g.allows c = true := by
  rw [supports_iff]
  simp only [grant?_eq_some_iff]

/-- A column has one row, so the row that allows something is the row that has something. -/
theorem supports_and_iff {i : Index} {p : Path} {c : Capability} {Has : Grant → Prop} :
    (i.supports p c = true ∧ ∃ g, i.HasRow p g ∧ Has g) ↔
      ∃ g, i.grant? p = some g ∧ g.allows c = true ∧ Has g := by
  rw [supports_iff]
  simp only [← grant?_eq_some_iff]
  constructor
  · rintro ⟨⟨g, hg, ha⟩, h, hh, hp⟩
    obtain rfl : g = h := Option.some.inj (hg.symm.trans hh)
    exact ⟨g, hg, ha, hp⟩
  · rintro ⟨g, hg, ha, hp⟩
    exact ⟨⟨g, hg, ha⟩, g, hg, hp⟩

theorem sortView_supports_iff {p : Path} {c : Capability} :
    (ofRows rows).sortView.supports p c = true ↔
      c = .sort ∧ (ofRows rows).supports p .sort = true := by
  rw [sortView, Bool.and_eq_true, beq_iff_eq, sorts_ofRows]

theorem sortView_ascendingOnly_iff {p : Path} :
    (ofRows rows).sortView.ascendingOnly p = true ↔ (ofRows rows).supports p .sort = true ∧
      ∃ g, (ofRows rows).HasRow p g ∧ g.ascendingOnly = true := by
  rw [ascendingOnly_sortView, supports_and_iff, ascendingOnly_ofRows, Option.any_eq_true]
  simp only [Bool.and_eq_true]
  rfl

theorem operators?_eq_some_iff {p : Path} {s : Operators} :
    (ofRows rows).operators? p = some s ↔ (ofRows rows).supports p .filter = true ∧
      ∃ g, (ofRows rows).HasRow p g ∧ g.operators = s := by
  rw [supports_and_iff]
  exact get?_view_eq_some_iff

theorem evaluates_iff {p : Path} {o : Operator} :
    (ofRows rows).evaluates p o = true ↔ (ofRows rows).supports p .filter = true ∧
      ∃ g, (ofRows rows).HasRow p g ∧ g.operators.contains o = true := by
  rw [evaluates, Option.any_eq_true]
  simp only [operators?_eq_some_iff]
  constructor
  · rintro ⟨s, ⟨hf, g, hg, rfl⟩, ho⟩
    exact ⟨hf, g, hg, ho⟩
  · rintro ⟨hf, g, hg, ho⟩
    exact ⟨_, ⟨hf, g, hg, rfl⟩, ho⟩

/-- A built index keeps the merged grants that allow something to a column of the schema. -/
theorem hasRow_build_iff {schema : Schema} {fragments : List Fragment} {p : Path} {g : Grant} :
    (build schema fragments).HasRow p g ↔ (Fragment.mergeAll fragments).get? p = some g ∧
      schema.contains p = true ∧ ∃ c, g.allows c = true := by
  rw [← grant?_eq_some_iff, grant?_build, Option.filter_eq_some_iff, Bool.and_eq_true,
    Bool.not_eq_true', FlagSet.isEmpty_eq_false_iff]
  rfl

/-- The parts of a built index agree with its rows, and the rows are about columns of the schema. -/
theorem coherent_build (schema : Schema) (fragments : List Fragment) :
    (build schema fragments).Coherent schema where
  supports _ _ := supports_iff_hasRow
  sorting _ _ := sortView_supports_iff
  ascendingOnly _ := sortView_ascendingOnly_iff
  sortable := size_view
  filtering _ := Bool.eq_iff_iff.1 contains_view
  operators _ _ := operators?_eq_some_iff
  evaluates _ _ := evaluates_iff
  grouping _ := Bool.eq_iff_iff.1 contains_view
  table c := by
    rw [build, contains_table_iff]
    simp only [supports_iff_hasRow]
  known _ _ h := (hasRow_build_iff.1 h).2.1
  granted _ _ h := (hasRow_build_iff.1 h).2.2
  ordered := List.pairwise_map.2 (build schema fragments).rows.sorted

end Index

end Delegation
