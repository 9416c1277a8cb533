import Delegation.Index.Digest
import Delegation.Proofs.Rewriting

namespace Delegation.Document

abbrev Reshuffled : Rewrite := .items Eq

abbrev itemReordered : Rewrite := .object [("operators", Reshuffled)]

/-- How the sections of a document are rewritten when every list in them is moved and repeated. -/
def sectionsReordered : List (String × Rewrite) :=
  [("sort", .items itemReordered), ("filter", .items itemReordered), ("group", .items itemReordered),
    ("odata", .object (restrictionsRewritten Reshuffled))]

/-- The document with items moved and repeated in any of its lists. -/
def Reordered : Rewrite := .object sectionsReordered

section
variable {members members' : List (String × Json)}

theorem refersTo_of_reordered (h : Rewrite.Members [("operators", Reshuffled)] members members')
    {q : Path} (hr : RefersTo members q) : RefersTo members' q := by
  obtain ⟨j, hj, hq⟩ := hr
  exact ⟨j, (h.lookup_eq rfl).symm.trans hj, hq⟩

theorem exists_strings_of_reshuffled {names : List String} {j : Json}
    (h : Reshuffled (.strings names) j) :
    ∃ names', j = .strings names' ∧ ∀ s, s ∈ names' ↔ s ∈ names := by
  generalize hn : Json.strings names = k at h
  cases h with
  | other h =>
    subst hn
    simp [Json.strings, Json.array?] at h
  | @array l l' kept only =>
    obtain rfl : names.map Json.string = l := Json.array.inj hn
    have hl : ∀ j, j ∈ l' ↔ j ∈ names.map Json.string := by
      intro j
      constructor
      · intro hj
        obtain ⟨k, hk, rfl⟩ := only j hj
        exact hk
      · intro hj
        obtain ⟨k, hk, rfl⟩ := kept j hj
        exact hk
    -- what was put in is a copy of some name, hence a text
    have hstring : ∀ j ∈ l', ∃ s, j = .string s := by
      intro j hj
      obtain ⟨s, -, hs⟩ := List.mem_map.1 ((hl j).1 hj)
      exact ⟨s, hs.symm⟩
    obtain ⟨names', hr⟩ :=
      (exists_eachItem_iff operatorName_eq_ok_iff (p := .root)).2 hstring
    obtain rfl := forall₂_string_iff.1 ((eachItem_eq_ok_iff operatorName_eq_ok_iff).1 hr)
    refine ⟨names', rfl, fun s => ?_⟩
    simpa using hl (.string s)

theorem operatorsNamed_congr {names names' : List String} (h : ∀ s, s ∈ names' ↔ s ∈ names) :
    operatorsNamed names' = operatorsNamed names := by
  refine FlagSet.ext fun o => ?_
  rw [Bool.eq_iff_iff, operatorsNamed, operatorsNamed, FlagSet.contains_ofList,
    FlagSet.contains_ofList, List.mem_filterMap, List.mem_filterMap]
  simp only [h]

end

theorem sortItemReads_of_reordered (j j' : Json) (e : Path × Grant) (h : itemReordered j j')
    (hr : SortItemReads j e) : SortItemReads j' e := by
  obtain ⟨hc, hb⟩ := hr
  cases h with
  | other h => simp [Json.object?] at h
  | members h =>
    rw [h.given?_eq rfl] at hb
    exact .object (refersTo_of_reordered h hc) hb

theorem filterItemReads_of_reordered (j j' : Json) (e : Path × Grant) (h : itemReordered j j')
    (hr : FilterItemReads j e) : FilterItemReads j' e := by
  cases h with
  | other h => exact hr
  | @members members members' h =>
    have ho : Option.Rel Reshuffled (given? members "operators") (given? members' "operators") :=
      h.given?_rel rfl (Rewrite.keepsNull_items Eq)
    cases hr with
    | object hc hn =>
      rw [hn] at ho
      refine .object (refersTo_of_reordered h hc) ?_
      cases ho' : given? members' "operators" with
      | none => rfl
      | some j => rw [ho'] at ho; cases ho
    | listed hc hn =>
      rw [hn] at ho
      generalize hg : given? members' "operators" = o' at ho
      cases ho with
      | some hs =>
        obtain ⟨names', rfl, hnames⟩ := exists_strings_of_reshuffled hs
        rw [← operatorsNamed_congr hnames]
        exact .listed (refersTo_of_reordered h hc) hg

theorem groupItemReads_of_reordered (j j' : Json) (e : Path × Grant) (h : itemReordered j j')
    (hr : GroupItemReads j e) : GroupItemReads j' e := by
  cases h with
  | other h => exact hr
  | members h =>
    cases hr with
    | object hc => exact .object (refersTo_of_reordered h hc)
    | bare hr => obtain ⟨⟨⟩⟩ := hr

section
variable {schema : Schema}

theorem grantKnown_congr {l l' : List (Path × Grant)} (h : SameMembers l l') :
    grantKnown schema l = grantKnown schema l' := by
  apply Fragment.eq_of_any
  intro holds hh p
  rw [Bool.eq_iff_iff, grantKnown, grantKnown, any_foldl_add_empty hh, any_foldl_add_empty hh]
  simp only [List.mem_filter, h _]

theorem follows_listing {name : String} {read : Place → Json → Checked (Path × Grant)}
    {Reads : Json → Path × Grant → Prop} (hr : ∀ p j e, read p j = .ok e ↔ Reads j e)
    (hi : ∀ j j' e, itemReordered j j' → Reads j e → Reads j' e) {j j' : Json}
    (h : Rewrite.items itemReordered j j') :
    Follows Eq (listing name read j schema) (listing name read j' schema) := by
  have hf := (follows_items hr hi h (.section name)).bind
    (k := fun l => pure (grantKnown schema l)) (l := fun l => pure (grantKnown schema l))
    fun l l' hl => Follows.pure (grantKnown_congr hl)
  simpa only [listing, bind_assoc] using hf

theorem keepsLeaves_reshuffled (leaves : List Path) : KeepsLeaves leaves Reshuffled where
  null := Rewrite.keepsNull_items Eq
  follows p j j' h := by
    have hi : ∀ j j' q, j = j' → PropertyReads j q → PropertyReads j' q := fun _ _ _ he hq => he ▸ hq
    intro l hl
    obtain ⟨l', hl', hs⟩ := follows_items propertyPath_eq_ok_iff hi h p l hl
    exact ⟨l', hl', fun q _ => hs q⟩

theorem follows_fragments {table : List (String × Rewrite)} {members members' : List (String × Json)}
    (h : Rewrite.Members table members members') {sections : List (String × SectionReader)}
    (hr : ∀ e ∈ sections, ∀ j j', Rewrite.under table e.1 j j' →
      Follows Eq (e.2 j schema) (e.2 j' schema)) :
    Follows Eq (SectionTable.fragments schema members sections)
      (SectionTable.fragments schema members' sections) := by
  induction sections with
  | nil => exact .of_eq rfl
  | cons e r ih =>
    obtain ⟨key, read⟩ := e
    obtain ⟨hread, hrest⟩ := List.forall_mem_cons.1 hr
    have hk := h key
    rw [SectionTable.fragments, SectionTable.fragments]
    generalize members.lookup key = o at hk
    generalize members'.lookup key = o' at hk
    cases hk with
    | none => exact ih hrest
    | some hj =>
      refine (hread _ _ hj).bind fun f f' hf => (ih hrest).bind fun fs fs' hfs => ?_
      rw [hf, hfs]
      exact .of_eq rfl

theorem follows_standard :
    ∀ e ∈ SectionTable.standard.sections, ∀ j j', Rewrite.under sectionsReordered e.1 j j' →
      Follows Eq (e.2 j schema) (e.2 j' schema) := by
  change ∀ e ∈ [("sort", sortSection), ("filter", filterSection), ("group", groupSection),
    ("odata", restrictionSection)], _
  simp only [List.forall_mem_cons]
  exact ⟨fun j j' => follows_listing sortItem_eq_ok_iff sortItemReads_of_reordered,
    fun j j' => follows_listing filterItem_eq_ok_iff filterItemReads_of_reordered,
    fun j j' => follows_listing groupItem_eq_ok_iff groupItemReads_of_reordered,
    fun j j' => follows_restrictionSection (keepsLeaves_reshuffled _), nofun⟩

theorem follows_index {document document' : Json} (h : Reordered document document') :
    Follows Eq (index .standard schema document) (index .standard schema document') := by
  cases h with
  | other h => exact .of_eq rfl
  | members h =>
    refine (follows_fragments h follows_standard).bind fun fs fs' hfs => .pure ?_
    rw [hfs]

end

/-- Moving and repeating what stands in the lists of an accepted document, be it items, operators or
property paths, leaves the document accepted and the index as it was, with all its views and its
digest. -/
theorem index_of_reordered {schema : Schema} {document document' : Json} {i : Index}
    (h : Reordered document document') (hi : index .standard schema document = .ok i) :
    ∃ i', index .standard schema document' = .ok i' ∧ i' = i ∧ i'.digest = i.digest := by
  obtain ⟨i', hi', rfl⟩ := follows_index h i hi
  exact ⟨i, hi', rfl, rfl⟩

def pairs : Schema where
  columns := [.scalar "Name" .string false, .scalar "Total" .number false]
  wellNamed := by
    have hn : LevelNamed ["Name", "Total"] := by decide
    exact ⟨hn, trivial, trivial, trivial⟩

def ascendingItem (column : String) : Json :=
  .object [("column", .string column), ("ascendingOnly", .bool true)]

def filterItemOf (column : String) (operators : List Json) : Json :=
  .object [("column", .string column), ("operators", .array operators)]

def pairsDocument : Json :=
  .object [
    ("sort", .array [.object [("column", .string "Name")], ascendingItem "Name"]),
    ("filter", .array [filterItemOf "Total" [.string "eq", .string "LT"]]),
    ("odata", .object [("SortRestrictions",
      .object [("NonSortableProperties", .array [.string "Name", .string "Ghost"])])])]

/-- The same items the other way round, some of them twice. -/
def pairsReordered : Json :=
  .object [
    ("sort", .array [ascendingItem "Name", .object [("column", .string "Name")],
      ascendingItem "Name"]),
    ("filter", .array [filterItemOf "Total" [.string "LT", .string "eq", .string "LT"],
      filterItemOf "Total" [.string "eq", .string "LT"]]),
    ("odata", .object [("SortRestrictions",
      .object [("NonSortableProperties",
        .array [.string "Ghost", .string "Name", .string "Ghost"])])])]

theorem reshuffled_of_mem_iff {l l' : List Json} (h : ∀ j, j ∈ l ↔ j ∈ l') :
    Reshuffled (.array l) (.array l') :=
  .array (fun j hj => ⟨j, (h j).1 hj, rfl⟩) fun j hj => ⟨j, (h j).2 hj, rfl⟩

theorem itemReordered_filterItemOf {column : String} {operators operators' : List Json}
    (h : ∀ j, j ∈ operators ↔ j ∈ operators') :
    itemReordered (filterItemOf column operators) (filterItemOf column operators') :=
  .members (.of_forall₂ (.cons ⟨rfl, rfl⟩ (.cons ⟨rfl, reshuffled_of_mem_iff h⟩ .nil)))

theorem reordered_pairsDocument : Reordered pairsDocument pairsReordered := by
  have hplain : itemReordered (.object [("column", .string "Name")])
      (.object [("column", .string "Name")]) := .members (.of_forall₂ (.cons ⟨rfl, rfl⟩ .nil))
  have hascending : itemReordered (ascendingItem "Name") (ascendingItem "Name") :=
    .members (.of_forall₂ (.cons ⟨rfl, rfl⟩ (.cons ⟨rfl, rfl⟩ .nil)))
  have hsame : itemReordered (filterItemOf "Total" [.string "eq", .string "LT"])
      (filterItemOf "Total" [.string "eq", .string "LT"]) :=
    itemReordered_filterItemOf fun _ => Iff.rfl
  have htwice : itemReordered (filterItemOf "Total" [.string "eq", .string "LT"])
      (filterItemOf "Total" [.string "LT", .string "eq", .string "LT"]) := by
    refine itemReordered_filterItemOf fun j => ?_
    simp only [List.mem_cons]
    grind
  refine .members (.of_forall₂ (.cons ⟨rfl, ?sort⟩ (.cons ⟨rfl, ?filter⟩ (.cons ⟨rfl, ?odata⟩ .nil))))
  case sort =>
    refine .array ?_ ?_ <;> simp only [List.mem_cons, List.not_mem_nil, or_false,
      forall_eq_or_imp, forall_eq, exists_eq_or_imp, exists_eq_left]
    · exact ⟨.inr (.inl hplain), .inl hascending⟩
    · exact ⟨.inr hascending, .inl hplain, .inr hascending⟩
  case filter =>
    refine .array ?_ ?_ <;> simp only [List.mem_cons, List.not_mem_nil, or_false,
      forall_eq_or_imp, forall_eq, exists_eq_or_imp, exists_eq_left]
    · exact .inl htwice
    · exact ⟨htwice, hsame⟩
  case odata =>
    refine .members (.of_forall₂ (.cons ⟨rfl, .members (.of_forall₂ (.cons ⟨rfl, ?_⟩ .nil))⟩ .nil))
    refine reshuffled_of_mem_iff fun j => ?_
    simp only [List.mem_cons]
    grind

theorem index_of_reordered_pairs :
    Reordered pairsDocument pairsReordered ∧
      ∃ i, index .standard pairs pairsDocument = .ok i ∧ i.size = 2 ∧
        i.ascendingOnly (.column "Name") = true ∧
        ∃ i', index .standard pairs pairsReordered = .ok i' ∧ i' = i ∧ i'.digest = i.digest := by
  obtain ⟨i, hi⟩ : ∃ i, index .standard pairs pairsDocument = .ok i := ⟨_, rfl⟩
  refine ⟨reordered_pairsDocument, i, hi, ?_, ?_, index_of_reordered reordered_pairsDocument hi⟩
  · obtain rfl := Except.ok.inj hi
    rfl
  · obtain rfl := Except.ok.inj hi
    rfl

end Delegation.Document
