import Delegation.Proofs.WrittenPaths
import Mathlib.Data.List.Nodup

namespace Delegation

namespace Text

theorem lowerChar_of_isBlank {c : Char} (h : isBlank c = true) : lowerChar c = c := by
  rw [lowerChar, if_neg]
  intro ⟨ha, hz⟩
  have ha : 65 ≤ c.toNat := ha
  have hz : c.toNat ≤ 90 := hz
  simp only [isBlank, Bool.or_eq_true, Bool.and_eq_true, beq_iff_eq, decide_eq_true_eq] at h
  omega

end Text

namespace Operator

/-- The text is the operator's name between blanks, in whatever case its ASCII letters are. -/
def Spelled (o : Operator) (s : String) : Prop :=
  ∃ before word after, s.toList = before ++ word ++ after ∧
    (∀ c ∈ before, Text.isBlank c = true) ∧ (∀ c ∈ after, Text.isBlank c = true) ∧
    word.map Text.lowerChar = o.name.toList.map Text.lowerChar

theorem lower_name_injective {a b : Operator} (h : Text.lower a.name = Text.lower b.name) :
    a = b := by
  have hn : ((Flag.all Operator).map fun o => Text.lower o.name).Nodup := by decide +kernel
  exact List.inj_on_of_nodup_map hn (FlagSet.mem_all a) (FlagSet.mem_all b) h

theorem isBlank_of_mem_lower_name {o : Operator} {c : Char}
    (hc : c ∈ o.name.toList.map Text.lowerChar) : Text.isBlank c = false := by
  have hn : ((o.name.toList.map Text.lowerChar).all fun c => !Text.isBlank c) = true := by
    cases o <;> rfl
  simpa using List.all_eq_true.1 hn c hc

theorem ofName?_eq_some_iff {s : String} {o : Operator} :
    ofName? s = some o ↔ Text.lower o.name = Text.lower (Text.trim s) :=
  (find?_key_eq_some_iff fun _ _ _ _ => lower_name_injective).trans
    (and_iff_right (FlagSet.mem_all o))

theorem ofName?_eq_some_iff_spelled {s : String} {o : Operator} :
    ofName? s = some o ↔ o.Spelled s := by
  rw [ofName?_eq_some_iff, Text.lower, Text.lower, String.ofList_inj, Text.trim, String.toList_ofList]
  constructor
  · intro h
    obtain ⟨before, after, hs, hb, ha⟩ := Text.exists_append_trimChars s.toList
    exact ⟨before, _, after, hs, hb, ha, h.symm⟩
  · rintro ⟨before, word, after, hs, hb, ha, hw⟩
    -- a blank in the word would be one in the lowered name
    have hblank : ∀ c ∈ word, Text.isBlank c = false := by
      intro c hc
      rw [← Bool.not_eq_true]
      intro hbc
      have hm : c ∈ o.name.toList.map Text.lowerChar :=
        hw ▸ List.mem_map.2 ⟨c, hc, Text.lowerChar_of_isBlank hbc⟩
      rw [isBlank_of_mem_lower_name hm] at hbc
      contradiction
    rw [hs, Text.trimChars_append hb (fun c hc => hblank c (List.mem_of_mem_head? hc))
      (fun c hc => hblank c (List.mem_of_getLast? hc)) ha, hw]

end Operator

namespace Document

def ItemFor (item : Json) (p : Path) : Prop :=
  ∃ j, item.get? "column" = some j ∧ ReferenceReads j p

/-- The item lists the operator, or it lists none and means all. -/
def Evaluates (item : Json) (o : Operator) : Prop :=
  item.get? "operators" = none ∨ item.get? "operators" = some .null ∨
    ∃ names, item.get? "operators" = some (.array names) ∧ ∃ s, .string s ∈ names ∧ o.Spelled s

/-- The record of a column has this capability alone, this restriction and these operators. -/
structure Carries (g : Grant) (c : Capability) (ascending : Prop) (evaluates : Operator → Prop) :
    Prop where
  allows : ∀ d, g.allows d = true ↔ d = c
  ascendingOnly : g.ascendingOnly = true ↔ ascending
  operators : ∀ o, g.operators.contains o = true ↔ evaluates o

/-- Records for the columns of the schema that some item is for, each the union of what the items
for its column say. -/
structure GrantsListed (schema : Schema) (items : List Json) (f : Fragment)
    (For : Json → Path → Prop) (c : Capability) (ascending : Json → Prop)
    (evaluates : Json → Operator → Prop) : Prop where
  present : ∀ p, (f.get? p).isSome = true ↔
    schema.contains p = true ∧ ∃ item ∈ items, For item p
  carries : ∀ p g, f.get? p = some g →
    Carries g c (∃ item ∈ items, For item p ∧ ascending item)
      fun o => ∃ item ∈ items, For item p ∧ evaluates item o

section
variable {name : String} {read : Place → Json → Checked (Path × Grant)}
  {Reads : Json → Path × Grant → Prop} {For : Json → Path → Prop} {c : Capability}
  {ascending : Json → Prop} {evaluates : Json → Operator → Prop} {schema : Schema} {f : Fragment}

theorem any_listing_iff (hr : ∀ p j e, read p j = .ok e ↔ Reads j e)
    (hu : ∀ item p q, For item p → For item q → p = q)
    (hs : ∀ item p g, Reads item (p, g) →
      For item p ∧ Carries g c (ascending item) (evaluates item))
    {items : List Json} (h : listing name read (.array items) schema = .ok f)
    {holds : Grant → Bool} (hh : Grant.Distributes holds) {P : Json → Prop}
    (hP : ∀ item g, Carries g c (ascending item) (evaluates item) →
      (holds g = true ↔ P item)) (p : Path) :
    (f.get? p).any holds = true ↔
      schema.contains p = true ∧ ∃ item ∈ items, For item p ∧ P item := by
  rw [any_listing hr h hh]
  refine and_congr_right fun _ => ?_
  constructor
  · rintro ⟨_, he, item, hi, g, hg, ha⟩
    obtain rfl := Json.array.inj he
    obtain ⟨hp, hc⟩ := hs item p g hg
    exact ⟨item, hi, hp, (hP item g hc).1 ha⟩
  · rintro ⟨item, hi, hp, ha⟩
    -- the item was read, and so for this column
    obtain ⟨⟨q, g⟩, hg⟩ := (exists_listing_iff hr).1 ⟨f, h⟩ item hi
    obtain ⟨hq, hc⟩ := hs item q g hg
    obtain rfl := hu item p q hp hq
    exact ⟨items, rfl, item, hi, g, hg, (hP item g hc).2 ha⟩

/-- A section grants what its items say when each item that is read says it of one column. -/
theorem grantsListed_of_listing (hr : ∀ p j e, read p j = .ok e ↔ Reads j e)
    (hu : ∀ item p q, For item p → For item q → p = q)
    (hs : ∀ item p g, Reads item (p, g) →
      For item p ∧ Carries g c (ascending item) (evaluates item))
    {j : Json} (h : listing name read j schema = .ok f) :
    ∃ items, j = .array items ∧ GrantsListed schema items f For c ascending evaluates := by
  obtain ⟨items, hj, -⟩ := bind_eq_ok_iff.1 h
  obtain rfl := asArray_eq_ok_iff.1 hj
  have hpresent : ∀ p, (f.get? p).isSome = true ↔
      schema.contains p = true ∧ ∃ item ∈ items, For item p := by
    intro p
    rw [← Option.any_true, any_listing_iff hr hu hs h Grant.distributes_true (P := fun _ => True)
      (by simp)]
    simp only [and_true]
  refine ⟨items, rfl, hpresent, fun p g hg => ?_⟩
  obtain ⟨hcontained, item, hi, hitem⟩ := (hpresent p).1 (by rw [hg]; rfl)
  -- what distributes is seen of the total as soon as it is seen of one item
  have hsum : ∀ {holds}, Grant.Distributes holds → ∀ {P : Json → Prop},
      (∀ item g, Carries g c (ascending item) (evaluates item) → (holds g = true ↔ P item)) →
      (holds g = true ↔ ∃ item ∈ items, For item p ∧ P item) := by
    intro holds hh P hP
    have ha := any_listing_iff hr hu hs h hh hP p
    rwa [hg, Option.any_some, and_iff_right hcontained] at ha
  refine ⟨fun d => ?_, ?_, fun o => ?_⟩
  · rw [hsum (Grant.distributes_allows d) (P := fun _ => d = c) fun _ _ hc => hc.allows d]
    constructor
    · exact fun ⟨_, _, _, hd⟩ => hd
    · exact fun hd => ⟨item, hi, hitem, hd⟩
  · exact hsum Grant.distributes_ascendingOnly fun _ _ hc => hc.ascendingOnly
  · exact hsum (Grant.distributes_operators o) fun _ _ hc => hc.operators o

end

theorem itemFor_unique (item : Json) (p q : Path) (hp : ItemFor item p) (hq : ItemFor item q) :
    p = q := by
  obtain ⟨j, hj, hp⟩ := hp
  obtain ⟨k, hk, hq⟩ := hq
  obtain rfl := Option.some.inj (hj.symm.trans hk)
  exact reads_unique columnReference_eq_ok_iff hp hq

def GroupedBy (item : Json) (p : Path) : Prop := ReferenceReads item p ∨ ItemFor item p

theorem ReferenceReads.not_itemFor {item : Json} {p q : Path} (h : ReferenceReads item p) :
    ¬ ItemFor item q := by
  rintro ⟨j, hj, -⟩
  rcases h with ⟨⟨_⟩⟩ | _ <;> simp [Json.get?, Json.object?] at hj

theorem groupedBy_unique (item : Json) (p q : Path) (hp : GroupedBy item p)
    (hq : GroupedBy item q) : p = q := by
  rcases hp with hp | hp <;> rcases hq with hq | hq
  · exact reads_unique columnReference_eq_ok_iff hp hq
  · exact absurd hq hp.not_itemFor
  · exact absurd hp hq.not_itemFor
  · exact itemFor_unique item p q hp hq

theorem sortItemReads_carries (item : Json) (p : Path) (g : Grant)
    (h : SortItemReads item (p, g)) : ItemFor item p ∧
      Carries g .sort (item.get? "ascendingOnly" = some (.bool true)) fun _ => False := by
  have hread := h
  obtain ⟨hc, -⟩ := h
  obtain ⟨-, b, hb, hg⟩ := (sortItemReads_iff ⟨_, hread⟩).1 hread
  rw [hg]
  exact ⟨hc, fun d => allows_sortable, hb, fun o => by simp [Grant.sortable]⟩

theorem filterItemReads_carries (item : Json) (p : Path) (g : Grant)
    (h : FilterItemReads item (p, g)) :
    ItemFor item p ∧ Carries g .filter False (Evaluates item) := by
  cases h with
  | object hc ho =>
    refine ⟨hc, fun d => allows_filterable, by simp [Grant.filterable], fun o => ?_⟩
    refine iff_of_true (FlagSet.contains_full o) ?_
    rcases given?_eq_none_iff.1 ho with ho | ho
    · exact .inl ho
    · exact .inr (.inl ho)
  | @listed members q names hc ho =>
    refine ⟨hc, fun d => allows_filterable, by simp [Grant.filterable], fun o => ?_⟩
    have hl : (Json.object members).get? "operators" = some (.strings names) :=
      (given?_eq_some_iff (by simp [Json.strings])).1 ho
    rw [Grant.filterable, operatorsNamed, FlagSet.contains_ofList, List.mem_filterMap, Evaluates, hl]
    simp [Json.strings, Operator.ofName?_eq_some_iff_spelled]

theorem groupItemReads_carries (item : Json) (p : Path) (g : Grant)
    (h : GroupItemReads item (p, g)) :
    GroupedBy item p ∧ Carries g .group False fun _ => False := by
  have hg : Carries .groupable .group False fun _ => False :=
    ⟨fun d => allows_groupable, by simp [Grant.groupable], fun o => by simp [Grant.groupable]⟩
  cases h with
  | object hc => exact ⟨.inr hc, hg⟩
  | bare hr => exact ⟨.inl hr, hg⟩

/-- A section that lists columns gives a record to the columns of the schema that some item is for,
scalar or not. Sorting is restricted by any item that restricts it, a filter evaluates what any item
lists, or everything when an item has no list, and grouping takes references bare or in items. -/
theorem listings_grant_exactly {schema : Schema} {j : Json} {f : Fragment} :
    (sortSection j schema = .ok f → ∃ items, j = .array items ∧
      GrantsListed schema items f ItemFor .sort
        (fun item => item.get? "ascendingOnly" = some (.bool true)) fun _ _ => False) ∧
    (filterSection j schema = .ok f → ∃ items, j = .array items ∧
      GrantsListed schema items f ItemFor .filter (fun _ => False) Evaluates) ∧
    (groupSection j schema = .ok f → ∃ items, j = .array items ∧
      GrantsListed schema items f GroupedBy .group (fun _ => False) fun _ _ => False) :=
  ⟨grantsListed_of_listing sortItem_eq_ok_iff itemFor_unique sortItemReads_carries,
    grantsListed_of_listing filterItem_eq_ok_iff itemFor_unique filterItemReads_carries,
    grantsListed_of_listing groupItem_eq_ok_iff groupedBy_unique groupItemReads_carries⟩

def visits : Schema where
  columns := [.scalar "Guest" .string false, .record "Place" [.scalar "City" .string false] false]
  wellNamed := by
    have hn : LevelNamed ["Guest", "Place"] := by decide
    have hf : LevelNamed ["City"] := by decide
    exact ⟨hn, trivial, ⟨hf, trivial, trivial⟩, trivial⟩

def visitsSort : List Json :=
  [.object [("column", .string "Guest")],
    .object [("column", .string " Guest "), ("ascendingOnly", .bool true)],
    .object [("column", .string "Ghost")]]

def visitsFilter : List Json :=
  [.object [("column", .string "Place"), ("operators", .strings [" EQ", "soundsLike"])],
    .object [("column", .string "Place"), ("operators", .strings ["lt"])]]

def visitsGroup : List Json := [.string "Guest", .object [("column", .strings ["Place", "City"])]]

theorem listings_grant_exactly_visits :
    (∃ f, sortSection (.array visitsSort) visits = .ok f ∧
      GrantsListed visits visitsSort f ItemFor .sort
        (fun item => item.get? "ascendingOnly" = some (.bool true)) (fun _ _ => False) ∧
      f.get? (.column "Guest") = some (.sortable true)) ∧
    (∃ f, filterSection (.array visitsFilter) visits = .ok f ∧
      GrantsListed visits visitsFilter f ItemFor .filter (fun _ => False) Evaluates ∧
      f.get? (.column "Place") = some (.filterable (FlagSet.ofList [.eq, .lt]))) ∧
    ∃ f, groupSection (.array visitsGroup) visits = .ok f ∧
      GrantsListed visits visitsGroup f GroupedBy .group (fun _ => False) (fun _ _ => False) ∧
      f.get? ⟨["Place", "City"]⟩ = some .groupable := by
  refine ⟨?sort, ?filter, ?group⟩
  case sort =>
    obtain ⟨f, hf⟩ : ∃ f, sortSection (.array visitsSort) visits = .ok f := ⟨_, rfl⟩
    obtain ⟨items, he, hg⟩ := listings_grant_exactly.1 hf
    obtain rfl := Except.ok.inj hf
    exact ⟨_, hf, Json.array.inj he ▸ hg, rfl⟩
  case filter =>
    obtain ⟨f, hf⟩ : ∃ f, filterSection (.array visitsFilter) visits = .ok f := ⟨_, rfl⟩
    obtain ⟨items, he, hg⟩ := listings_grant_exactly.2.1 hf
    obtain rfl := Except.ok.inj hf
    exact ⟨_, hf, Json.array.inj he ▸ hg, rfl⟩
  case group =>
    obtain ⟨f, hf⟩ : ∃ f, groupSection (.array visitsGroup) visits = .ok f := ⟨_, rfl⟩
    obtain ⟨items, he, hg⟩ := listings_grant_exactly.2.2 hf
    obtain rfl := Except.ok.inj hf
    exact ⟨_, hf, Json.array.inj he ▸ hg, rfl⟩

end Document

end Delegation
