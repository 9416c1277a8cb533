import Delegation.Proofs.SortGrants

namespace Delegation

namespace Path

def trimmed (p : Path) : Path := ⟨p.segments.map Text.trim⟩

def Unpadded (p : Path) : Prop := ∀ s ∈ p.segments, Text.Unpadded s

theorem trimmed_eq_self_iff {p : Path} : p.trimmed = p ↔ p.Unpadded := by
  have h : p.segments.map Text.trim = p.segments.map id ↔
      ∀ s ∈ p.segments, Text.trim s = s := List.map_eq_map_iff
  rw [List.map_id] at h
  simp only [Unpadded, ← Text.trim_eq_self_iff, ← h]
  obtain ⟨names⟩ := p
  rw [trimmed, mk.injEq]

end Path

theorem printed_of_resolveNames? {cs : List Column} (h : WellNamed cs) {names : List String}
    {c : Column} (hc : resolveNames? cs names = some c) :
    names ≠ [] ∧ ∀ n ∈ names, Text.printed n.toList = true := by
  have hname : ∀ {ds : List Column}, WellNamed ds → ∀ {n : String} {d : Column},
      findColumn? ds n = some d → Text.printed n.toList = true := by
    intro ds hw n d hd
    obtain ⟨hm, rfl⟩ := (findColumn?_eq_some_iff hw.1.2).1 hd
    simpa [Text.blank_eq_not_printed] using hw.1.1 d.name (List.mem_map_of_mem hm)
  -- by induction on the names: each one is found on its level
  induction names generalizing cs with
  | nil => simp [resolveNames?] at hc
  | cons n r ih =>
    refine ⟨by simp, ?_⟩
    cases r with
    | nil =>
      intro m hm
      rw [List.mem_singleton.1 hm]
      exact hname h hc
    | cons m r =>
      obtain ⟨d, hd, hr⟩ := Option.bind_eq_some_iff.1 hc
      have hm := ((findColumn?_eq_some_iff h.1.2).1 hd).1
      obtain ⟨-, hrest⟩ := ih (Column.wellNamed_fields (fieldsNamed_of_mem h.2 hm)) hr
      exact List.forall_mem_cons.2 ⟨hname h hd, hrest⟩

theorem Schema.printed_of_contains {schema : Schema} {p : Path} (h : schema.contains p = true) :
    p.segments ≠ [] ∧ ∀ n ∈ p.segments, Text.printed n.toList = true := by
  obtain ⟨c, hc⟩ := Option.isSome_iff_exists.1 h
  exact printed_of_resolveNames? schema.wellNamed hc

namespace Document

section
variable {schema : Schema} {p : Path}

theorem columnReference_toJson (hp : schema.contains p = true) (place : Place) :
    columnReference place p.toJson = .ok p.trimmed := by
  obtain ⟨hne, hnames⟩ := Schema.printed_of_contains hp
  rw [columnReference_eq_ok_iff]
  exact .names (by simpa using hne) (nameReads_map hnames)

theorem propertyPath_toJson (hp : schema.contains p = true) (place : Place) :
    propertyPath place p.toJson = .ok p.trimmed := by
  obtain ⟨hne, hnames⟩ := Schema.printed_of_contains hp
  rw [propertyPath_eq_ok_iff]
  exact .names (by simpa using hne) (nameReads_map hnames)

/-- An item that names the column by its written path is about the column without padding, and about
no other. -/
theorem refersTo_toJson_iff (hp : schema.contains p = true) {members : List (String × Json)}
    (hc : members.lookup "column" = some p.toJson) {q : Path} :
    RefersTo members q ↔ q = p.trimmed := by
  have hr := columnReference_toJson hp .root
  constructor
  · rintro ⟨j, hj, h⟩
    obtain rfl : p.toJson = j := Option.some.inj (hc.symm.trans hj)
    exact Except.ok.inj (((columnReference_eq_ok_iff .root _ _).2 h).symm.trans hr)
  · rintro rfl
    exact ⟨_, hc, (columnReference_eq_ok_iff .root _ _).1 hr⟩

end

def Sorts (f : Fragment) (q : Path) : Prop := (f.get? q).any (fun g => g.allows .sort) = true

/-- The annotations have a restriction on sorting that lists this entry as not sortable. -/
def ListsNonSortable (annotations : List (String × Json)) (entry : Json) : Prop :=
  ∃ restriction entries, annotations.lookup "SortRestrictions" = some (.object restriction) ∧
    restriction.lookup "NonSortableProperties" = some (.array entries) ∧ entry ∈ entries

/-- An item for sorting that names its column this way. -/
inductive SortItemFor (entry : Json) : Json → Prop
  | object {members} (hc : members.lookup "column" = some entry)
      (hb : given? members "ascendingOnly" = none ∨
        ∃ b, given? members "ascendingOnly" = some (.bool b)) :
      SortItemFor entry (.object members)

section
variable {schema : Schema} {p : Path}

theorem not_sorts_of_listsNonSortable (hp : schema.contains p = true)
    {annotations : List (String × Json)} (hl : ListsNonSortable annotations p.toJson)
    {f : Fragment} (h : restrictionSection (.object annotations) schema = .ok f) :
    ¬ Sorts f p.trimmed := by
  obtain ⟨restriction, entries, hs, he, hm⟩ := hl
  have hlists : Lists restriction "NonSortableProperties" p.trimmed := by
    have hg : given? restriction "NonSortableProperties" = some (.array entries) :=
      (given?_eq_some_iff (by simp)).2 he
    refine ⟨p.toJson, ?_, (propertyPath_eq_ok_iff .root _ _).1 (propertyPath_toJson hp .root)⟩
    rw [Document.entries, hg]
    exact hm
  rw [Sorts, any_restrictionSection h (Grant.distributes_allows .sort)]
  rintro ⟨-, members, hj, form, hf, g, hg, ha⟩
  obtain rfl := Json.object.inj hj
  obtain ⟨r, hr, -, hn, -⟩ :=
    restrictionGrants_sortForm_iff.1 (restrictionGrants_sorting hf hg (.inl ha))
  rw [hs] at hr
  obtain rfl := Json.object.inj (Option.some.inj hr)
  exact hn hlists

theorem sortItemReads_iff_of_for (hp : schema.contains p = true) {item : Json}
    (hi : SortItemFor p.toJson item) :
    (∃ e, SortItemReads item e) ∧
      ∀ q, (∃ g, SortItemReads item (q, g) ∧ g.allows .sort = true) ↔ q = p.trimmed := by
  obtain @⟨members, hc, hb⟩ := hi
  have hreads : ∃ b, SortItemReads (.object members) (p.trimmed, .sortable b) := by
    have hr := (refersTo_toJson_iff hp hc).2 rfl
    rcases hb with hn | ⟨b, hb⟩
    · exact ⟨_, .object hr (.inr ⟨hn, rfl⟩)⟩
    · exact ⟨b, .object hr (.inl hb)⟩
  obtain ⟨b, hb⟩ := hreads
  refine ⟨⟨_, hb⟩, fun q => ?_⟩
  constructor
  · rintro ⟨g, hg, -⟩
    cases hg with
    | object hr => exact (refersTo_toJson_iff hp hc).1 hr
  · rintro rfl
    exact ⟨_, hb, allows_sort_sortable b⟩

theorem sorts_sortSection_iff {items : List Json} {f : Fragment}
    (h : sortSection (.array items) schema = .ok f) (q : Path) :
    Sorts f q ↔ schema.contains q = true ∧
      ∃ item ∈ items, ∃ g, SortItemReads item (q, g) ∧ g.allows .sort = true := by
  rw [Sorts, any_listing sortItem_eq_ok_iff h (Grant.distributes_allows .sort)]
  simp only [Json.array.injEq, exists_eq_left']

/-- One more item, for the written path, is read with the others, and lets the column without
padding sort besides those that sort already. -/
theorem sorts_insert_iff (hp : schema.contains p = true) {item : Json}
    (hi : SortItemFor p.toJson item) {before after : List Json} {f : Fragment}
    (h : sortSection (.array (before ++ after)) schema = .ok f) :
    ∃ f', sortSection (.array (before ++ item :: after)) schema = .ok f' ∧
      ∀ q, Sorts f' q ↔ Sorts f q ∨ schema.contains q = true ∧ q = p.trimmed := by
  obtain ⟨hreads, hsorts⟩ := sortItemReads_iff_of_for hp hi
  have hall := (exists_listing_iff sortItem_eq_ok_iff).1 ⟨f, h⟩
  have hread : ∀ j ∈ before ++ item :: after, ∃ e, SortItemReads j e := by
    intro j hj
    rcases List.mem_append.1 hj with hj | hj
    · exact hall j (List.mem_append_left _ hj)
    · rcases List.mem_cons.1 hj with rfl | hj
      · exact hreads
      · exact hall j (List.mem_append_right _ hj)
  obtain ⟨f', h'⟩ := (exists_listing_iff sortItem_eq_ok_iff).2 hread
  refine ⟨f', h', fun q => ?_⟩
  rw [sorts_sortSection_iff h', sorts_sortSection_iff h, ← hsorts q]
  simp only [List.mem_append, List.mem_cons]
  grind

end

/-- Reading the written path of a column gives the path without padding, whichever way the document
refers to columns; so it gives the path of the column when no name in it begins or ends with a
blank. Then a restriction that lists the written path as not sortable does not let the column sort,
and an item for sorting by the written path lets it sort, and no other column. -/
theorem addressed_by_written_path {schema : Schema} {p : Path} (hp : schema.contains p = true) :
    (∀ place, columnReference place p.toJson = .ok p.trimmed ∧
        propertyPath place p.toJson = .ok p.trimmed) ∧
      (p.trimmed = p ↔ p.Unpadded) ∧
      (p.Unpadded →
        (∀ annotations f, ListsNonSortable annotations p.toJson →
          restrictionSection (.object annotations) schema = .ok f → ¬ Sorts f p) ∧
        ∀ item before after f, SortItemFor p.toJson item →
          sortSection (.array (before ++ after)) schema = .ok f →
          ∃ f', sortSection (.array (before ++ item :: after)) schema = .ok f' ∧
            ∀ q, Sorts f' q ↔ Sorts f q ∨ q = p) := by
  refine ⟨fun place => ⟨columnReference_toJson hp place, propertyPath_toJson hp place⟩,
    Path.trimmed_eq_self_iff, fun hu => ?_⟩
  have ht : p.trimmed = p := Path.trimmed_eq_self_iff.2 hu
  constructor
  · intro annotations f hl h
    have hn := not_sorts_of_listsNonSortable hp hl h
    rwa [ht] at hn
  · intro item before after f hi h
    obtain ⟨f', h', hs⟩ := sorts_insert_iff hp hi h
    refine ⟨f', h', fun q => (hs q).trans (or_congr_right ?_)⟩
    rw [ht]
    constructor
    · exact fun hq => hq.2
    · rintro rfl
      exact ⟨hp, rfl⟩

def paddedOrders : Schema where
  columns := [.scalar " Name" .string false, .record "Place" [.scalar "City" .string false] false]
  wellNamed := by
    have hn : LevelNamed [" Name", "Place"] := by decide
    have hf : LevelNamed ["City"] := by decide
    exact ⟨hn, trivial, ⟨hf, trivial, trivial⟩, trivial⟩

def nonSortable (p : Path) : List (String × Json) :=
  [("SortRestrictions", .object [("NonSortableProperties", .array [p.toJson])])]

def sortItemOf (p : Path) : Json := .object [("column", p.toJson)]

/-- A column whose name begins with a blank is not addressed by its own path. -/
theorem padded_not_addressed :
    paddedOrders.contains (.column " Name") = true ∧
      columnReference .root (Path.column " Name").toJson = .ok (.column "Name") ∧
      propertyPath .root (Path.column " Name").toJson = .ok (.column "Name") ∧
      Path.column "Name" ≠ .column " Name" ∧
      (∃ f, restrictionSection (.object (nonSortable (.column " Name"))) paddedOrders = .ok f ∧
        Sorts f (.column " Name")) ∧
      ∃ f, sortSection (.array [sortItemOf (.column " Name")]) paddedOrders = .ok f ∧
        ¬ Sorts f (.column " Name") :=
  ⟨rfl, rfl, rfl, by decide, ⟨_, rfl, rfl⟩, _, rfl, nofun⟩

theorem addressed_by_written_path_city :
    paddedOrders.contains ⟨["Place", "City"]⟩ = true ∧
      columnReference .root (Path.mk ["Place", "City"]).toJson = .ok ⟨["Place", "City"]⟩ ∧
      (∃ f, restrictionSection (.object (nonSortable ⟨["Place", "City"]⟩)) paddedOrders = .ok f ∧
        ¬ Sorts f ⟨["Place", "City"]⟩) ∧
      ∃ f, sortSection (.array [sortItemOf ⟨["Place", "City"]⟩]) paddedOrders = .ok f ∧
        ∀ q, Sorts f q ↔ q = ⟨["Place", "City"]⟩ := by
  have hp : paddedOrders.contains ⟨["Place", "City"]⟩ = true := rfl
  obtain ⟨hread, hu, haddressed⟩ := addressed_by_written_path hp
  have hunpadded : (Path.mk ["Place", "City"]).Unpadded := hu.1 rfl
  obtain ⟨hrestriction, hitem⟩ := haddressed hunpadded
  have hempty : ∀ q, ¬ Sorts SortedMap.empty q := nofun
  obtain ⟨f, hf, hs⟩ := hitem (sortItemOf ⟨["Place", "City"]⟩) [] [] SortedMap.empty
    (.object rfl (.inl rfl)) rfl
  exact ⟨hp, (hread .root).1, ⟨_, rfl, hrestriction (nonSortable ⟨["Place", "City"]⟩) _
    ⟨_, _, rfl, rfl, List.mem_cons_self⟩ rfl⟩, f, hf,
    fun q => (hs q).trans (or_iff_right (hempty q))⟩

end Document

end Delegation
