import Delegation.Proofs.Rewriting
import Delegation.Proofs.SortGrants

namespace Delegation.Document

/-- The boolean of that name is left out, `null` or true. -/
def SwitchedOn (members : List (String × Json)) (name : String) : Prop :=
  members.lookup name = none ∨ members.lookup name = some .null ∨
    members.lookup name = some (.bool true)

/-- The annotations have the restriction, its boolean does not switch it off, and no entry of its
exclusions reads as the column. -/
structure Permits (annotations : List (String × Json)) (name switch exclusion : String) (p : Path)
    (restriction : List (String × Json)) : Prop where
  present : annotations.lookup name = some (.object restriction)
  enabled : SwitchedOn restriction switch
  included : ¬ Lists restriction exclusion p

abbrev SortPermitted (annotations : List (String × Json)) :=
  Permits annotations "SortRestrictions" "Sortable" "NonSortableProperties"

abbrev FilterPermitted (annotations : List (String × Json)) :=
  Permits annotations "FilterRestrictions" "Filterable" "NonFilterableProperties"

abbrev GroupPermitted (annotations : List (String × Json)) :=
  Permits annotations "GroupRestrictions" "Groupable" "UngroupableProperties"

structure Granted (annotations : List (String × Json)) (p : Path) (g : Grant) : Prop where
  sort : g.allows .sort = true ↔ ∃ r, SortPermitted annotations p r
  filter : g.allows .filter = true ↔ ∃ r, FilterPermitted annotations p r
  group : g.allows .group = true ↔ ∃ r, GroupPermitted annotations p r
  others : ∀ c, g.allows c = true → c = .sort ∨ c = .filter ∨ c = .group
  ascendingOnly : g.ascendingOnly = true ↔
    ∃ r, SortPermitted annotations p r ∧ Lists r "AscendingOnlyProperties" p
  operators : g.operators = if g.allows .filter then .full else .empty

theorem switchedOn_iff {p : Place} {members : List (String × Json)} {name : String} {b : Bool}
    (h : flag p members name true = .ok b) :
    SwitchedOn members name ↔ given? members name ≠ some (.bool false) := by
  rw [SwitchedOn, ← or_assoc, ← given?_eq_none_iff, ← given?_eq_some_iff (by simp)]
  rcases flag_eq_ok_iff.1 h with hb | ⟨hn, -⟩
  · cases b <;> simp [hb]
  · simp [hn]

section
variable {annotations : List (String × Json)} {leaves : List Path} {form : RestrictionForm}

theorem switchedOn_of_restrictionGrants {l : List (Path × Grant)}
    (h : restrictionGrants form annotations leaves = .ok l) {r : List (String × Json)}
    (hr : given? annotations form.name = some (.object r)) :
    SwitchedOn r form.switch ↔ given? r form.switch ≠ some (.bool false) := by
  obtain ⟨r?, hread, -⟩ := bind_eq_ok_iff.1 (restrictionGrants_eq form annotations ▸ h)
  rw [restriction?_eq, hr] at hread
  simp only [bind_eq_ok_iff, asObject_eq_ok_iff, Json.object.injEq, exists_eq_left'] at hread
  obtain ⟨_, -, _, -, b, hb, -⟩ := hread
  exact switchedOn_iff hb

theorem restrictionGrants_iff_permits {l : List (Path × Grant)}
    (h : restrictionGrants form annotations leaves = .ok l) {p : Path} {g : Grant} :
    RestrictionGrants form annotations p g ↔
      ∃ r, Permits annotations form.name form.switch form.exclusion p r ∧
        ∃ b, (b = true ↔ ∃ name, form.ascending = some name ∧ Lists r name p) ∧
          g = form.grant b := by
  refine exists_congr fun r => ?_
  constructor
  · intro ⟨hp, he, hn, hb⟩
    have hl : annotations.lookup form.name = some (.object r) :=
      (given?_eq_some_iff (by simp)).1 hp
    exact ⟨⟨hl, (switchedOn_of_restrictionGrants h hp).2 he, hn⟩, hb⟩
  · intro ⟨⟨hl, hs, hn⟩, hb⟩
    have hp : given? annotations form.name = some (.object r) :=
      (given?_eq_some_iff (by simp)).2 hl
    exact ⟨hp, (switchedOn_of_restrictionGrants h hp).1 hs, hn, hb⟩

end

/-- What one of the restrictions grants the column. -/
inductive AnnotationGrants (annotations : List (String × Json)) (p : Path) : Grant → Prop
  | sort {r b} (hr : SortPermitted annotations p r)
      (hb : b = true ↔ Lists r "AscendingOnlyProperties" p) :
      AnnotationGrants annotations p (.sortable b)
  | filter {r} (hr : FilterPermitted annotations p r) :
      AnnotationGrants annotations p (.filterable .full)
  | group {r} (hr : GroupPermitted annotations p r) : AnnotationGrants annotations p .groupable

namespace AnnotationGrants
variable {annotations : List (String × Json)} {p : Path}

theorem exists_iff : (∃ g, AnnotationGrants annotations p g) ↔
    (∃ r, SortPermitted annotations p r) ∨ (∃ r, FilterPermitted annotations p r) ∨
      ∃ r, GroupPermitted annotations p r := by
  classical
  constructor
  · rintro ⟨_, @⟨r, _, hr, -⟩ | @⟨r, hr⟩ | @⟨r, hr⟩⟩
    · exact .inl ⟨r, hr⟩
    · exact .inr (.inl ⟨r, hr⟩)
    · exact .inr (.inr ⟨r, hr⟩)
  · rintro (⟨r, hr⟩ | ⟨r, hr⟩ | ⟨r, hr⟩)
    · exact ⟨_, .sort hr decide_eq_true_iff⟩
    · exact ⟨_, .filter hr⟩
    · exact ⟨_, .group hr⟩

theorem exists_allows_iff {c : Capability} :
    (∃ g, AnnotationGrants annotations p g ∧ g.allows c = true) ↔
      (c = .sort ∧ ∃ r, SortPermitted annotations p r) ∨
        (c = .filter ∧ ∃ r, FilterPermitted annotations p r) ∨
        (c = .group ∧ ∃ r, GroupPermitted annotations p r) := by
  classical
  constructor
  · rintro ⟨_, @⟨r, _, hr, -⟩ | @⟨r, hr⟩ | @⟨r, hr⟩, hc⟩
    · exact .inl ⟨allows_sortable.1 hc, r, hr⟩
    · exact .inr (.inl ⟨allows_filterable.1 hc, r, hr⟩)
    · exact .inr (.inr ⟨allows_groupable.1 hc, r, hr⟩)
  · rintro (⟨hc, r, hr⟩ | ⟨hc, r, hr⟩ | ⟨hc, r, hr⟩)
    · exact ⟨_, .sort hr decide_eq_true_iff, allows_sortable.2 hc⟩
    · exact ⟨_, .filter hr, allows_filterable.2 hc⟩
    · exact ⟨_, .group hr, allows_groupable.2 hc⟩

theorem exists_ascendingOnly_iff :
    (∃ g, AnnotationGrants annotations p g ∧ g.ascendingOnly = true) ↔
      ∃ r, SortPermitted annotations p r ∧ Lists r "AscendingOnlyProperties" p := by
  constructor
  · rintro ⟨_, @⟨r, _, hr, hb⟩ | @⟨r, hr⟩ | @⟨r, hr⟩, ha⟩
    · exact ⟨r, hr, hb.1 ha⟩
    · simp [Grant.filterable] at ha
    · simp [Grant.groupable] at ha
  · rintro ⟨r, hr, hl⟩
    exact ⟨_, .sort hr (iff_of_true rfl hl), rfl⟩

theorem exists_evaluates_iff {o : Operator} :
    (∃ g, AnnotationGrants annotations p g ∧ g.operators.contains o = true) ↔
      ∃ r, FilterPermitted annotations p r := by
  constructor
  · rintro ⟨_, @⟨r, _, hr, -⟩ | @⟨r, hr⟩ | @⟨r, hr⟩, ho⟩
    · simp [Grant.sortable] at ho
    · exact ⟨r, hr⟩
    · simp [Grant.groupable] at ho
  · rintro ⟨r, hr⟩
    exact ⟨_, .filter hr, FlagSet.contains_full o⟩

end AnnotationGrants

section
variable {annotations : List (String × Json)} {schema : Schema} {f : Fragment}

theorem restrictionGrants_iff_annotationGrants
    (h : restrictionSection (.object annotations) schema = .ok f) {p : Path} {g : Grant} :
    (∃ form ∈ [sortForm, filterForm, groupForm], RestrictionGrants form annotations p g) ↔
      AnnotationGrants annotations p g := by
  simp only [restrictionSection, bind_eq_ok_iff, asObject_eq_ok_iff, Json.object.injEq,
    exists_eq_left'] at h
  obtain ⟨sorting, hs, filtering, hf, grouping, hg, -⟩ := h
  simp only [List.mem_cons, List.not_mem_nil, or_false, exists_eq_or_imp, exists_eq_left,
    restrictionGrants_iff_permits hs, restrictionGrants_iff_permits hf,
    restrictionGrants_iff_permits hg]
  constructor
  · rintro (⟨r, hr, b, hb, rfl⟩ | ⟨r, hr, b, -, rfl⟩ | ⟨r, hr, b, -, rfl⟩)
    · refine .sort hr ?_
      simpa [sortForm] using hb
    · exact .filter hr
    · exact .group hr
  · rintro (@⟨r, b, hr, hb⟩ | @⟨r, hr⟩ | @⟨r, hr⟩)
    · refine .inl ⟨r, hr, b, ?_, rfl⟩
      simpa [sortForm] using hb
    · exact .inr (.inl ⟨r, hr, false, by simp [filterForm], rfl⟩)
    · exact .inr (.inr ⟨r, hr, false, by simp [groupForm], rfl⟩)

theorem any_annotations (h : restrictionSection (.object annotations) schema = .ok f)
    {holds : Grant → Bool} (hh : Grant.Distributes holds) (p : Path) :
    (f.get? p).any holds = true ↔
      p ∈ schema.leaves ∧ ∃ g, AnnotationGrants annotations p g ∧ holds g = true := by
  rw [any_restrictionSection h hh]
  simp only [← restrictionGrants_iff_annotationGrants h, Json.object.injEq, exists_eq_left']
  grind

theorem isSome_get?_annotations (h : restrictionSection (.object annotations) schema = .ok f)
    (p : Path) : (f.get? p).isSome = true ↔
      (∃ c, schema.resolve? p = some c ∧ c.isScalar = true) ∧
        ((∃ r, SortPermitted annotations p r) ∨ (∃ r, FilterPermitted annotations p r) ∨
          ∃ r, GroupPermitted annotations p r) := by
  rw [← Option.any_true, any_annotations h Grant.distributes_true, Schema.mem_leaves_iff,
    ← AnnotationGrants.exists_iff]
  simp only [and_true]

theorem granted_of_get? (h : restrictionSection (.object annotations) schema = .ok f) {p : Path}
    {g : Grant} (hg : f.get? p = some g) : Granted annotations p g := by
  have hp := ((any_annotations h Grant.distributes_true p).1 (by rw [hg]; rfl)).1
  -- what distributes is seen of the total as soon as one restriction grants it
  have hsum : ∀ {holds}, Grant.Distributes holds →
      (holds g = true ↔ ∃ k, AnnotationGrants annotations p k ∧ holds k = true) := by
    intro holds hh
    have ha := any_annotations h hh p
    rwa [hg, Option.any_some, and_iff_right hp] at ha
  have hallows := fun c => (hsum (Grant.distributes_allows c)).trans
    AnnotationGrants.exists_allows_iff
  have hfilter : g.allows .filter = true ↔ ∃ r, FilterPermitted annotations p r := by
    simpa using hallows .filter
  have hoperators : ∀ o, g.operators.contains o = true ↔ g.allows .filter = true := fun o =>
    ((hsum (Grant.distributes_operators o)).trans AnnotationGrants.exists_evaluates_iff).trans
      hfilter.symm
  refine ⟨by simpa using hallows .sort, hfilter, by simpa using hallows .group, ?_,
    (hsum Grant.distributes_ascendingOnly).trans AnnotationGrants.exists_ascendingOnly_iff, ?_⟩
  · intro c hc
    exact ((hallows c).1 hc).imp And.left (Or.imp And.left And.left)
  · refine FlagSet.ext fun o => ?_
    rw [Bool.eq_iff_iff, hoperators]
    split
    · next h => simp [h]
    · next h => simp [h]

end

def NamesRecord (schema : Schema) (e : Json) : Prop :=
  ∃ q c, PropertyReads e q ∧ schema.resolve? q = some c ∧ c.isScalar = false

/-- A list into which entries for records are put, and out of which they are taken. -/
inductive UpToRecords (schema : Schema) : Rewrite
  | array {l l'} (kept : ∀ e ∈ l, e ∈ l' ∨ NamesRecord schema e)
      (only : ∀ e ∈ l', e ∈ l ∨ NamesRecord schema e) : UpToRecords schema (.array l) (.array l')
  | other {j} (h : j.array? = none) : UpToRecords schema j j

theorem NamesRecord.not_reads {schema : Schema} {e : Json} (h : NamesRecord schema e) {q : Path}
    (hq : q ∈ schema.leaves) : ¬ PropertyReads e q := by
  intro hr
  obtain ⟨q', c, hr', hc, hs⟩ := h
  obtain rfl := reads_unique propertyPath_eq_ok_iff hr hr'
  exact Schema.not_mem_leaves hc hs hq

theorem keepsLeaves_upToRecords (schema : Schema) :
    KeepsLeaves schema.leaves (UpToRecords schema) where
  null := by
    rintro _ _ (⟨_, _⟩ | _) <;> simp
  follows p j j' h := by
    cases h with
    | other h => exact fun l hl => ⟨l, hl, fun _ _ => Iff.rfl⟩
    | @array l l' kept only =>
      intro paths hpaths
      have hread : eachItem p propertyPath l = .ok paths := hpaths
      have hall := (exists_eachItem_iff propertyPath_eq_ok_iff).1 ⟨paths, hread⟩
      obtain ⟨paths', hread'⟩ := (exists_eachItem_iff propertyPath_eq_ok_iff (p := p)).2
        fun e he => (only e he).elim (hall e) fun ⟨q, _, hq, _⟩ => ⟨q, hq⟩
      refine ⟨paths', hread', fun q hq => ?_⟩
      rw [mem_of_eachItem propertyPath_eq_ok_iff hread, mem_of_eachItem propertyPath_eq_ok_iff hread']
      constructor
      · rintro ⟨e, he, hr⟩
        exact ⟨e, (kept e he).resolve_right fun hn => hn.not_reads hq hr, hr⟩
      · rintro ⟨e, he, hr⟩
        exact ⟨e, (only e he).resolve_right fun hn => hn.not_reads hq hr, hr⟩

/-- Annotations that are accepted give a record to the scalar columns that one of the restrictions
permits something, and to no other. The record has just what the restrictions permit. Records of the
schema get nothing, and it makes no difference whether the lists of the restrictions name them. -/
theorem restrictionSection_grants_exactly {schema : Schema} {j : Json} {f : Fragment}
    (h : restrictionSection j schema = .ok f) :
    ∃ annotations, j = .object annotations ∧
      (∀ p, (f.get? p).isSome = true ↔
        (∃ c, schema.resolve? p = some c ∧ c.isScalar = true) ∧
          ((∃ r, SortPermitted annotations p r) ∨ (∃ r, FilterPermitted annotations p r) ∨
            ∃ r, GroupPermitted annotations p r)) ∧
      (∀ p g, f.get? p = some g → Granted annotations p g) ∧
      (∀ p c, schema.resolve? p = some c → c.isScalar = false → f.get? p = none) ∧
      ∀ j', Rewrite.object (restrictionsRewritten (UpToRecords schema)) j j' →
        restrictionSection j' schema = .ok f := by
  obtain ⟨annotations, hj, -⟩ := bind_eq_ok_iff.1 h
  obtain rfl := asObject_eq_ok_iff.1 hj
  refine ⟨annotations, rfl, isSome_get?_annotations h, fun p g hg => granted_of_get? h hg, ?_, ?_⟩
  · intro p c hc hs
    rw [← Option.not_isSome_iff_eq_none, isSome_get?_annotations h]
    rintro ⟨hleaf, -⟩
    exact Schema.not_mem_leaves hc hs ((Schema.mem_leaves_iff schema p).2 hleaf)
  · intro j' hj'
    obtain ⟨f', hf', rfl⟩ := follows_restrictionSection (keepsLeaves_upToRecords schema) hj' f h
    exact hf'

def places : Schema where
  columns := [.scalar "Name" .string false, .record "Place" [.scalar "City" .string false] false]
  wellNamed := by
    have hn : LevelNamed ["Name", "Place"] := by decide
    have hf : LevelNamed ["City"] := by decide
    exact ⟨hn, trivial, ⟨hf, trivial, trivial⟩, trivial⟩

/-- Sorting by all columns but some, by the city in ascending order alone; no filtering or grouping.
-/
def placesAnnotations (excluded : List Json) : List (String × Json) :=
  [("SortRestrictions", .object [("NonSortableProperties", .array excluded),
      ("AscendingOnlyProperties", .array [.string "Place / City"])]),
    ("FilterRestrictions", .object [("Filterable", .bool false)]), ("GroupRestrictions", .null)]

theorem restrictionSection_grants_exactly_places :
    ∃ f, restrictionSection (.object (placesAnnotations [.string "Place", .string "Name"])) places =
        .ok f ∧
      f.get? (.column "Name") = none ∧ f.get? (.column "Place") = none ∧
      f.get? ⟨["Place", "City"]⟩ = some (.sortable true) ∧
      Granted (placesAnnotations [.string "Place", .string "Name"]) ⟨["Place", "City"]⟩
        (.sortable true) ∧
      restrictionSection (.object (placesAnnotations [.string "Name"])) places = .ok f := by
  obtain ⟨f, hf⟩ : ∃ f, restrictionSection
      (.object (placesAnnotations [.string "Place", .string "Name"])) places = .ok f := ⟨_, rfl⟩
  obtain ⟨annotations, hj, -, hgranted, hrecords, hrewritten⟩ := restrictionSection_grants_exactly hf
  obtain rfl := Json.object.inj hj
  have hcity : f.get? ⟨["Place", "City"]⟩ = some (.sortable true) := by
    obtain rfl := Except.ok.inj hf
    rfl
  have hname : f.get? (.column "Name") = none := by
    obtain rfl := Except.ok.inj hf
    rfl
  have hplace : NamesRecord places (.string "Place") :=
    ⟨.column "Place", _, (propertyPath_eq_ok_iff .root _ _).1 rfl, rfl, rfl⟩
  refine ⟨f, hf, hname, hrecords _ _ rfl rfl, hcity, hgranted _ _ hcity, hrewritten _ ?_⟩
  refine .members (.of_forall₂ (.cons ⟨rfl, .members (.of_forall₂ (.cons ⟨rfl, ?_⟩
    (.cons ⟨rfl, ?_⟩ .nil)))⟩ (.cons ⟨rfl, ?_⟩ (.cons ⟨rfl, ?_⟩ .nil))))
  · refine .array ?_ ?_
    · simp [hplace]
    · simp
  · exact .array (fun e he => .inl he) fun e he => .inl he
  · exact .members (.of_forall₂ (.cons ⟨rfl, rfl⟩ .nil))
  · exact .other rfl

end Delegation.Document
