import Delegation.Proofs.Granting
import Delegation.Proofs.Leaves
import Delegation.Proofs.Views

namespace Delegation

namespace ExternalSource

theorem ofSpec_eq_ok_iff {spec : SourceSpec} {x : ExternalSource} : ofSpec spec = .ok x ↔
    ∃ i, Document.index spec.table spec.schema spec.document = .ok i ∧
      x = ⟨spec.name, spec.schema, spec.table, i, spec.declared, spec.delegatable⟩ := by
  rw [ofSpec, Document.bind_eq_ok_iff]
  refine exists_congr fun i => and_congr_right fun _ => ?_
  rw [Document.pure_eq_ok_iff, eq_comm]

end ExternalSource

namespace Document

section
variable {schema : Schema} {document : Json} {i : Index}

theorem index_eq_ok_iff : index .standard schema document = .ok i ↔
    ∃ members fs, document = .object members ∧
      SectionTable.fragments schema members SectionTable.standard.sections = .ok fs ∧
      Index.build schema fs = i := by
  constructor
  · intro h
    cases document with
    | object members =>
      obtain ⟨fs, hf, hb⟩ := bind_eq_ok_iff.1 h
      exact ⟨members, fs, rfl, hf, pure_eq_ok_iff.1 hb⟩
    | _ => simp [index, Place.fail] at h
  · rintro ⟨members, fs, rfl, hf, hb⟩
    exact bind_eq_ok_iff.2 ⟨fs, hf, pure_eq_ok_iff.2 hb⟩

/-- The index of a document allows a column what the document grants it. -/
theorem supports_index_iff {members : List (String × Json)}
    (h : index .standard schema (.object members) = .ok i) {q : Path}
    (hq : schema.contains q = true) (c : Capability) :
    i.supports q c = true ↔ ∃ g, Grants schema members q g ∧ g.allows c = true := by
  obtain ⟨members', fs, hm, hf, rfl⟩ := index_eq_ok_iff.1 h
  obtain rfl := Json.object.inj hm
  rw [Index.supports_build, hq, Bool.true_and]
  exact any_parts_standard (Grant.distributes_allows c) hf hq

theorem ascendingOnly_index_iff {members : List (String × Json)}
    (h : index .standard schema (.object members) = .ok i) {q : Path}
    (hq : schema.contains q = true) (hs : i.supports q .sort = true) :
    i.ascendingOnly q = true ↔ ∃ g, Grants schema members q g ∧ g.ascendingOnly = true := by
  obtain ⟨members', fs, hm, hf, rfl⟩ := index_eq_ok_iff.1 h
  obtain rfl := Json.object.inj hm
  rw [Index.ascendingOnly_build hs]
  exact any_parts_standard Grant.distributes_ascendingOnly hf hq

end

def SortListed (document : Json) (column : String) (item : List (String × Json)) : Prop :=
  ∃ items, document.get? "sort" = some (.array items) ∧ .object item ∈ items ∧
    RefersTo item (.column column)

/-- The annotations have this restriction on sorting, which is not switched off, and the column is a
scalar that it does not exclude. -/
structure SortAnnotated (schema : Schema) (document : Json) (column : String)
    (restriction : List (String × Json)) : Prop where
  present : ∃ annotations, document.get? "odata" = some (.object annotations) ∧
    annotations.lookup "SortRestrictions" = some (.object restriction)
  enabled : restriction.lookup "Sortable" ≠ some (.bool false)
  scalar : ∃ c, schema.column? column = some c ∧ c.isScalar = true
  included : ¬ Lists restriction "NonSortableProperties" (.column column)

def SortGranted (schema : Schema) (document : Json) (column : String) : Prop :=
  (∃ item, SortListed document column item) ∨
    ∃ restriction, SortAnnotated schema document column restriction

/-- Somewhere where the document grants sorting by the column, it keeps it to ascending order. -/
def SortAscendingOnly (schema : Schema) (document : Json) (column : String) : Prop :=
  (∃ item, SortListed document column item ∧ item.lookup "ascendingOnly" = some (.bool true)) ∨
    ∃ restriction, SortAnnotated schema document column restriction ∧
      Lists restriction "AscendingOnlyProperties" (.column column)

/-- One place where the document grants sorting by the column; `b` tells whether in ascending order
alone. -/
def SortSaid (schema : Schema) (document : Json) (column : String) (b : Bool) : Prop :=
  (∃ item, SortListed document column item ∧
    (b = true ↔ item.lookup "ascendingOnly" = some (.bool true))) ∨
  ∃ restriction, SortAnnotated schema document column restriction ∧
    (b = true ↔ Lists restriction "AscendingOnlyProperties" (.column column))

theorem sortGranted_iff {schema : Schema} {document : Json} {column : String} :
    SortGranted schema document column ↔ ∃ b, SortSaid schema document column b := by
  classical
  constructor
  · rintro (⟨item, hl⟩ | ⟨r, hl⟩)
    · exact ⟨_, .inl ⟨item, hl, decide_eq_true_iff⟩⟩
    · exact ⟨_, .inr ⟨r, hl, decide_eq_true_iff⟩⟩
  · rintro ⟨b, ⟨item, hl, -⟩ | ⟨r, hl, -⟩⟩
    · exact .inl ⟨item, hl⟩
    · exact .inr ⟨r, hl⟩

theorem sortAscendingOnly_iff {schema : Schema} {document : Json} {column : String} :
    SortAscendingOnly schema document column ↔ SortSaid schema document column true := by
  rw [SortAscendingOnly, SortSaid]
  simp only [true_iff]

theorem given?_eq_some_iff {members : List (String × Json)} {name : String} {j : Json}
    (hj : j ≠ .null) : given? members name = some j ↔ members.lookup name = some j := by
  rw [given?]
  cases members.lookup name with
  | none => rfl
  | some k =>
    cases k with
    | null => simpa using fun h : Json.null = j => hj h.symm
    | _ => rfl

theorem given?_eq_none_iff {members : List (String × Json)} {name : String} :
    given? members name = none ↔
      members.lookup name = none ∨ members.lookup name = some .null := by
  rw [given?]
  cases members.lookup name with
  | none => simp
  | some j => cases j <;> simp

theorem sortItemReads_of_mem {schema : Schema} {members : List (String × Json)} {i : Index}
    (h : index .standard schema (.object members) = .ok i) {items : List Json}
    (hs : members.lookup "sort" = some (.array items)) {item : Json} (hi : item ∈ items) :
    ∃ e, SortItemReads item e := by
  obtain ⟨members', fs, hm, hf, -⟩ := index_eq_ok_iff.1 h
  obtain rfl := Json.object.inj hm
  have hr : ∃ f, sortSection (.array items) schema = .ok f := by
    change SectionTable.fragments schema members (("sort", sortSection) :: _) = .ok fs at hf
    rw [SectionTable.fragments, hs] at hf
    obtain ⟨f, hf, -⟩ := bind_eq_ok_iff.1 hf
    exact ⟨f, hf⟩
  exact (exists_listing_iff sortItem_eq_ok_iff).1 hr item hi

theorem sortItemReads_iff {item : List (String × Json)} (hr : ∃ e, SortItemReads (.object item) e)
    {q : Path} {g : Grant} : SortItemReads (.object item) (q, g) ↔ RefersTo item q ∧
      ∃ b, (b = true ↔ item.lookup "ascendingOnly" = some (.bool true)) ∧ g = .sortable b := by
  have hb : ∀ b, (given? item "ascendingOnly" = some (.bool b) ∨
      (given? item "ascendingOnly" = none ∧ b = false)) →
      (b = true ↔ item.lookup "ascendingOnly" = some (.bool true)) := by
    intro b h
    -- `null` counts as not given, and then the flag is off
    rw [← given?_eq_some_iff (by simp)]
    rcases h with h | ⟨h, rfl⟩ <;> simp [h]
  obtain ⟨e, @⟨_, q', b, hc, hg⟩⟩ := hr
  constructor
  · intro h
    obtain ⟨hc, hg⟩ := h
    exact ⟨hc, _, hb _ hg, rfl⟩
  · intro ⟨hc', b', hb', h⟩
    have he : b' = b := by rw [Bool.eq_iff_iff, hb', hb b hg]
    rw [h, he]
    exact .object hc' hg

/-- What a restriction on sorting grants, without the readers' way of leaving members out. -/
theorem restrictionGrants_sortForm_iff {annotations : List (String × Json)} {q : Path} {g : Grant} :
    RestrictionGrants sortForm annotations q g ↔
      ∃ r, annotations.lookup "SortRestrictions" = some (.object r) ∧
        r.lookup "Sortable" ≠ some (.bool false) ∧ ¬ Lists r "NonSortableProperties" q ∧
        ∃ b, (b = true ↔ Lists r "AscendingOnlyProperties" q) ∧ g = .sortable b := by
  have hp : ∀ r, given? annotations sortForm.name = some (.object r) ↔
      annotations.lookup "SortRestrictions" = some (.object r) :=
    fun r => given?_eq_some_iff (by simp)
  have he : ∀ r, given? r sortForm.switch = some (.bool false) ↔
      r.lookup "Sortable" = some (.bool false) := fun r => given?_eq_some_iff (by simp)
  have hl : ∀ r, (∃ name, sortForm.ascending = some name ∧ Lists r name q) ↔
      Lists r "AscendingOnlyProperties" q := by
    intro r
    simp [sortForm]
  rw [RestrictionGrants]
  simp only [hp, he, hl, Ne]
  rfl

theorem allows_sortable {b : Bool} {c : Capability} :
    (Grant.sortable b).allows c = true ↔ c = .sort := by
  rw [Grant.allows, Grant.sortable, FlagSet.contains_singleton, eq_comm]

theorem allows_filterable {o : Operators} {c : Capability} :
    (Grant.filterable o).allows c = true ↔ c = .filter := by
  rw [Grant.allows, Grant.filterable, FlagSet.contains_singleton, eq_comm]

theorem allows_groupable {c : Capability} : Grant.groupable.allows c = true ↔ c = .group := by
  rw [Grant.allows, Grant.groupable, FlagSet.contains_singleton, eq_comm]

theorem allows_sort_sortable (b : Bool) : (Grant.sortable b).allows .sort = true :=
  allows_sortable.2 rfl

theorem allows_sort_filterable (o : Operators) : (Grant.filterable o).allows .sort = false := by
  rw [← Bool.not_eq_true, allows_filterable]
  decide

theorem column_mem_leaves_iff {schema : Schema} {column : String} :
    Path.column column ∈ schema.leaves ↔
      ∃ c, schema.column? column = some c ∧ c.isScalar = true :=
  Schema.mem_leaves_iff schema (.column column)

theorem not_sorting_filterable (o : Operators) :
    ¬ ((Grant.filterable o).allows .sort = true ∨ (Grant.filterable o).ascendingOnly = true) := by
  rw [allows_sort_filterable]
  simp [Grant.filterable]

theorem not_sorting_groupable :
    ¬ (Grant.groupable.allows .sort = true ∨ Grant.groupable.ascendingOnly = true) := by
  decide

theorem restrictionGrants_sorting {form : RestrictionForm}
    (hf : form ∈ [sortForm, filterForm, groupForm]) {annotations : List (String × Json)} {q : Path}
    {g : Grant} (hr : RestrictionGrants form annotations q g)
    (hg : g.allows .sort = true ∨ g.ascendingOnly = true) :
    RestrictionGrants sortForm annotations q g := by
  simp only [List.mem_cons, List.not_mem_nil, or_false] at hf
  obtain rfl | rfl | rfl := hf
  · exact hr
  · obtain ⟨_, _, _, _, b, _, rfl⟩ := hr
    exact absurd hg (not_sorting_filterable _)
  · obtain ⟨_, _, _, _, b, _, rfl⟩ := hr
    exact absurd hg not_sorting_groupable

theorem Grants.sorting {schema : Schema} {members : List (String × Json)} {q : Path} {g : Grant}
    (h : Grants schema members q g) (hg : g.allows .sort = true ∨ g.ascendingOnly = true) :
    (∃ items, members.lookup "sort" = some (.array items) ∧
      ∃ item ∈ items, SortItemReads item (q, g)) ∨
    ∃ annotations, members.lookup "odata" = some (.object annotations) ∧ q ∈ schema.leaves ∧
      RestrictionGrants sortForm annotations q g := by
  cases h with
  | sort hs hi hr => exact .inl ⟨_, hs, _, hi, hr⟩
  | filter _ _ hr => cases hr <;> exact absurd hg (not_sorting_filterable _)
  | group _ _ hr => cases hr <;> exact absurd hg not_sorting_groupable
  | restricted hs hq hm hr => exact .inr ⟨_, hs, hq, restrictionGrants_sorting hm hr hg⟩

theorem grants_sorting_iff {schema : Schema} {members : List (String × Json)} {i : Index}
    (h : index .standard schema (.object members) = .ok i) {column : String} {g : Grant} :
    (Grants schema members (.column column) g ∧ (g.allows .sort = true ∨ g.ascendingOnly = true)) ↔
      ∃ b, g = .sortable b ∧ SortSaid schema (.object members) column b := by
  constructor
  · intro ⟨hg, ha⟩
    rcases hg.sorting ha with ⟨items, hs, item, hi, hr⟩ | ⟨annotations, hs, hq, hr⟩
    · have hitem := sortItemReads_of_mem h hs hi
      cases hr with
      | @object item _ _ hc hb =>
        obtain ⟨-, b, hb, hgr⟩ := (sortItemReads_iff hitem).1 (.object hc hb)
        exact ⟨b, hgr, .inl ⟨item, ⟨items, hs, hi, hc⟩, hb⟩⟩
    · obtain ⟨r, hp, he, hn, b, hb, hgr⟩ := restrictionGrants_sortForm_iff.1 hr
      have hscalar := column_mem_leaves_iff.1 hq
      exact ⟨b, hgr, .inr ⟨r, ⟨⟨annotations, hs, hp⟩, he, hscalar, hn⟩, hb⟩⟩
  · intro ⟨b, hgr, hd⟩
    subst hgr
    refine ⟨?_, .inl (allows_sort_sortable b)⟩
    rcases hd with ⟨item, ⟨items, hs, hi, hc⟩, hb⟩ | ⟨r, ⟨⟨annotations, hs, hp⟩, he, hl, hn⟩, hb⟩
    · have hitem := sortItemReads_of_mem h hs hi
      exact .sort hs hi ((sortItemReads_iff hitem).2 ⟨hc, b, hb, rfl⟩)
    · have hr := restrictionGrants_sortForm_iff.2 ⟨r, hp, he, hn, b, hb, rfl⟩
      exact .restricted hs (column_mem_leaves_iff.2 hl) List.mem_cons_self hr

section
variable {schema : Schema} {document : Json} {i : Index} {column : String}

theorem supports_sort_iff (h : index .standard schema document = .ok i)
    (hc : (schema.column? column).isSome = true) :
    i.supports (.column column) .sort = true ↔ SortGranted schema document column := by
  obtain ⟨members, fs, rfl, -⟩ := index_eq_ok_iff.1 h
  have hcontained : schema.contains (.column column) = true := hc
  rw [supports_index_iff h hcontained, sortGranted_iff]
  constructor
  · intro ⟨g, hg, ha⟩
    obtain ⟨b, -, hd⟩ := (grants_sorting_iff h).1 ⟨hg, .inl ha⟩
    exact ⟨b, hd⟩
  · intro ⟨b, hd⟩
    obtain ⟨hg, -⟩ := (grants_sorting_iff h).2 ⟨b, rfl, hd⟩
    exact ⟨_, hg, allows_sort_sortable b⟩

theorem ascendingOnly_sort_iff (h : index .standard schema document = .ok i)
    (hc : (schema.column? column).isSome = true)
    (hs : i.supports (.column column) .sort = true) :
    i.ascendingOnly (.column column) = true ↔ SortAscendingOnly schema document column := by
  obtain ⟨members, fs, rfl, -⟩ := index_eq_ok_iff.1 h
  have hcontained : schema.contains (.column column) = true := hc
  rw [ascendingOnly_index_iff h hcontained hs, sortAscendingOnly_iff]
  constructor
  · intro ⟨g, hg, ha⟩
    obtain ⟨b, hgr, hd⟩ := (grants_sorting_iff h).1 ⟨hg, .inr ha⟩
    have hb : b = true := by rwa [hgr] at ha
    exact hb ▸ hd
  · intro hd
    obtain ⟨hg, -⟩ := (grants_sorting_iff h).2 ⟨true, rfl, hd⟩
    exact ⟨_, hg, rfl⟩

end

end Document

end Delegation
