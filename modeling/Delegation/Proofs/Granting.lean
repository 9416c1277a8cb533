import Delegation.Document
import Delegation.Proofs.Merging
import Delegation.Proofs.Reading

namespace Delegation.Document

def RefersTo (members : List (String × Json)) (q : Path) : Prop :=
  ∃ j, members.lookup "column" = some j ∧ ReferenceReads j q

theorem itemColumn_eq_ok_iff {p : Place} {members : List (String × Json)} {q : Path} :
    itemColumn p members = .ok q ↔ RefersTo members q := by
  rw [itemColumn, RefersTo]
  cases members.lookup "column" with
  | none => simp [Place.fail]
  | some j => simp [columnReference_eq_ok_iff]

theorem flag_eq_ok_iff {p : Place} {members : List (String × Json)} {name : String}
    {default b : Bool} : flag p members name default = .ok b ↔
      given? members name = some (.bool b) ∨ (given? members name = none ∧ b = default) := by
  rw [flag]
  cases given? members name with
  | none => simp [eq_comm]
  | some j => cases j <;> simp [Place.fail]

inductive SortItemReads : Json → Path × Grant → Prop
  | object {members q b} (hc : RefersTo members q)
      (hb : given? members "ascendingOnly" = some (.bool b) ∨
        (given? members "ascendingOnly" = none ∧ b = false)) :
      SortItemReads (.object members) (q, .sortable b)

inductive FilterItemReads : Json → Path × Grant → Prop
  | object {members q} (hc : RefersTo members q) (ho : given? members "operators" = none) :
      FilterItemReads (.object members) (q, .filterable .full)
  | listed {members q names} (hc : RefersTo members q)
      (ho : given? members "operators" = some (.strings names)) :
      FilterItemReads (.object members) (q, .filterable (operatorsNamed names))

inductive GroupItemReads : Json → Path × Grant → Prop
  | object {members q} (hc : RefersTo members q) :
      GroupItemReads (.object members) (q, .groupable)
  | bare {j q} (h : ReferenceReads j q) : GroupItemReads j (q, .groupable)

theorem sortItem_eq_ok_iff (p : Place) (j : Json) (e : Path × Grant) :
    sortItem p j = .ok e ↔ SortItemReads j e := by
  simp only [sortItem, bind_eq_ok_iff, asObject_eq_ok_iff, itemColumn_eq_ok_iff, flag_eq_ok_iff,
    pure_eq_ok_iff]
  constructor
  · intro ⟨members, hj, q, hc, b, hb, he⟩
    subst hj he
    exact .object hc hb
  · intro ⟨hc, hb⟩
    exact ⟨_, rfl, _, hc, _, hb, rfl⟩

theorem operatorName_eq_ok_iff (p : Place) (j : Json) (s : String) :
    operatorName p j = .ok s ↔ j = .string s := by
  cases j <;> simp [operatorName, Place.fail]

theorem forall₂_string_iff {items : List Json} {names : List String} :
    List.Forall₂ (fun j s => j = Json.string s) items names ↔ items = names.map .string := by
  rw [← List.forall₂_eq_eq_eq, List.forall₂_map_right_iff]

theorem itemOperators_eq_ok_iff {p : Place} {members : List (String × Json)} {o : Operators} :
    itemOperators p members = .ok o ↔
      (given? members "operators" = none ∧ o = .full) ∨
        ∃ names, given? members "operators" = some (.strings names) ∧ o = operatorsNamed names := by
  rw [itemOperators]
  cases given? members "operators" with
  | none => simp [eq_comm]
  | some j =>
    simp only [bind_eq_ok_iff, asArray_eq_ok_iff, pure_eq_ok_iff,
      eachItem_eq_ok_iff operatorName_eq_ok_iff, forall₂_string_iff]
    constructor
    · intro ⟨items, hj, names, hn, ho⟩
      subst hj hn
      exact .inr ⟨names, rfl, ho.symm⟩
    · intro h
      obtain ⟨names, hj, ho⟩ := h.resolve_left (by simp)
      exact ⟨_, Option.some.inj hj, names, rfl, ho.symm⟩

theorem filterItem_eq_ok_iff (p : Place) (j : Json) (e : Path × Grant) :
    filterItem p j = .ok e ↔ FilterItemReads j e := by
  simp only [filterItem, bind_eq_ok_iff, asObject_eq_ok_iff, itemColumn_eq_ok_iff,
    itemOperators_eq_ok_iff, pure_eq_ok_iff]
  constructor
  · intro ⟨members, hj, q, hc, o, ho, he⟩
    subst hj he
    rcases ho with ⟨hn, rfl⟩ | ⟨names, hl, rfl⟩
    · exact .object hc hn
    · exact .listed hc hl
  · intro h
    cases h with
    | object hc ho => exact ⟨_, rfl, _, hc, _, .inl ⟨ho, rfl⟩, rfl⟩
    | listed hc ho => exact ⟨_, rfl, _, hc, _, .inr ⟨_, ho, rfl⟩, rfl⟩

theorem groupItem_eq_ok_iff (p : Place) (j : Json) (e : Path × Grant) :
    groupItem p j = .ok e ↔ GroupItemReads j e := by
  have hb : ∀ j, (columnReference p j >>= fun q => pure (q, Grant.groupable)) = .ok e ↔
      ∃ q, ReferenceReads j q ∧ (q, Grant.groupable) = e := by
    intro j
    simp only [bind_eq_ok_iff, columnReference_eq_ok_iff, pure_eq_ok_iff]
  have hw : ∀ members, (itemColumn p members >>= fun q => pure (q, Grant.groupable)) = .ok e ↔
      ∃ q, RefersTo members q ∧ (q, Grant.groupable) = e := by
    intro members
    simp only [bind_eq_ok_iff, itemColumn_eq_ok_iff, pure_eq_ok_iff]
  constructor
  · intro h
    cases j with
    | object members =>
      obtain ⟨q, hq, rfl⟩ := (hw members).1 h
      exact .object hq
    | _ =>
      obtain ⟨q, hq, rfl⟩ := (hb _).1 h
      exact .bare hq
  · intro h
    cases h with
    | object hc => exact (hw _).2 ⟨_, hc, rfl⟩
    | bare hr =>
      have hg := (hb j).2 ⟨_, hr, rfl⟩
      -- an object is no reference, so the item is read bare
      cases j with
      | object members => obtain ⟨⟨⟩⟩ := hr
      | _ => exact hg

section
variable {holds : Grant → Bool}

theorem any_foldl_add_empty (hh : Grant.Distributes holds) (l : List (Path × Grant)) (q : Path) :
    ((l.foldl (fun f e => Fragment.add f e.1 e.2) SortedMap.empty).get? q).any holds = true ↔
      ∃ g, (q, g) ∈ l ∧ holds g = true := by
  rw [Fragment.any_get?_foldl_add hh, SortedMap.get?_empty, Option.any_none, Bool.false_or,
    List.any_eq_true]
  constructor
  · intro ⟨⟨p, g⟩, hm, h⟩
    obtain ⟨rfl, hg⟩ : p = q ∧ holds g = true := by simpa using h
    exact ⟨g, hm, hg⟩
  · intro ⟨g, hm, hg⟩
    exact ⟨(q, g), hm, by simpa using hg⟩

/-- A list section grants a column of the schema what some item for the column says. -/
theorem any_listing {name : String} {read : Place → Json → Checked (Path × Grant)}
    {Reads : Json → Path × Grant → Prop} (hr : ∀ p j e, read p j = .ok e ↔ Reads j e) {j : Json}
    {schema : Schema} {f : Fragment} (h : listing name read j schema = .ok f)
    (hh : Grant.Distributes holds) (q : Path) :
    (f.get? q).any holds = true ↔ schema.contains q = true ∧
      ∃ items, j = .array items ∧ ∃ item ∈ items, ∃ g, Reads item (q, g) ∧ holds g = true := by
  simp only [listing, bind_eq_ok_iff, asArray_eq_ok_iff, pure_eq_ok_iff] at h
  obtain ⟨items, rfl, l, hl, rfl⟩ := h
  have hm : ∀ g, (q, g) ∈ l ↔ ∃ item ∈ items, Reads item (q, g) :=
    fun g => mem_of_eachItem hr hl (q, g)
  rw [grantKnown, any_foldl_add_empty hh]
  simp only [List.mem_filter, hm]
  constructor
  · intro ⟨g, ⟨⟨item, hi, hg⟩, hs⟩, ha⟩
    exact ⟨hs, items, rfl, item, hi, g, hg, ha⟩
  · intro ⟨hs, items', he, item, hi, g, hg, ha⟩
    obtain rfl := Json.array.inj he
    exact ⟨g, ⟨⟨item, hi, hg⟩, hs⟩, ha⟩

theorem exists_listing_iff {name : String} {read : Place → Json → Checked (Path × Grant)}
    {Reads : Json → Path × Grant → Prop} (hr : ∀ p j e, read p j = .ok e ↔ Reads j e)
    {schema : Schema} {items : List Json} :
    (∃ f, listing name read (.array items) schema = .ok f) ↔
      ∀ item ∈ items, ∃ e, Reads item e := by
  rw [← exists_eachItem_iff hr (p := .section name)]
  simp only [listing, bind_eq_ok_iff, asArray_eq_ok_iff, pure_eq_ok_iff]
  constructor
  · rintro ⟨f, items', hj, l, hl, -⟩
    obtain rfl := Json.array.inj hj
    exact ⟨l, hl⟩
  · rintro ⟨l, hl⟩
    exact ⟨_, items, rfl, l, hl, rfl⟩

def entries (members : List (String × Json)) (name : String) : List Json :=
  ((given? members name).bind Json.array?).getD []

def Lists (members : List (String × Json)) (name : String) (q : Path) : Prop :=
  ∃ e ∈ entries members name, PropertyReads e q

theorem mem_propertyPaths {p : Place} {members : List (String × Json)} {name : String}
    {l : List Path} (h : propertyPaths p members name = .ok l) (q : Path) :
    q ∈ l ↔ Lists members name q := by
  rw [propertyPaths] at h
  rw [Lists, entries]
  cases hg : given? members name with
  | none =>
    simp only [hg] at h
    obtain rfl := Except.ok.inj h
    simp
  | some j =>
    simp only [hg, bind_eq_ok_iff, asArray_eq_ok_iff] at h
    obtain ⟨items, rfl, hl⟩ := h
    exact mem_of_eachItem propertyPath_eq_ok_iff hl q

/-- A restriction that is there and not switched off grants its capability to the columns that it
does not exclude, and restricts further those that it lists. -/
def RestrictionGrants (form : RestrictionForm) (members : List (String × Json)) (q : Path)
    (g : Grant) : Prop :=
  ∃ inner, given? members form.name = some (.object inner) ∧
    given? inner form.switch ≠ some (.bool false) ∧ ¬ Lists inner form.exclusion q ∧
    ∃ b, (b = true ↔ ∃ name, form.ascending = some name ∧ Lists inner name q) ∧ g = form.grant b

theorem granted_iff {p : Place} {members : List (String × Json)} {name : String} {b : Bool}
    (h : flag p members name true = .ok b) :
    b = true ↔ given? members name ≠ some (.bool false) := by
  rcases flag_eq_ok_iff.1 h with hb | ⟨hn, rfl⟩
  · cases b <;> simp [hb]
  · simp [hn]

def ascendingPaths (p : Place) (members : List (String × Json)) :
    Option String → Checked (List Path)
  | none => .ok []
  | some name => propertyPaths p members name

theorem mem_ascendingPaths {p : Place} {members : List (String × Json)} {name? : Option String}
    {l : List Path} (h : ascendingPaths p members name? = .ok l) (q : Path) :
    q ∈ l ↔ ∃ name, name? = some name ∧ Lists members name q := by
  cases name? with
  | none =>
    obtain rfl := Except.ok.inj h
    simp
  | some name => simpa using mem_propertyPaths h q

theorem restriction?_eq (form : RestrictionForm) (members : List (String × Json)) :
    restriction? form members =
      match given? members form.name with
      | none => .ok none
      | some j => do
        let inner ← asObject (restrictionsPlace.member form.name) j
        let excluded ← propertyPaths (restrictionsPlace.member form.name) inner form.exclusion
        let ascending ← ascendingPaths (restrictionsPlace.member form.name) inner form.ascending
        let granted ← flag (restrictionsPlace.member form.name) inner form.switch true
        return some ⟨excluded, ascending, granted⟩ := by
  rw [restriction?]
  cases given? members form.name with
  | none => rfl
  | some j => cases form.ascending <;> rfl

theorem given?_of_restriction?_none {form : RestrictionForm} {members : List (String × Json)}
    (h : restriction? form members = .ok none) : given? members form.name = none := by
  rw [restriction?_eq] at h
  cases hf : given? members form.name with
  | none => rfl
  | some j => simp [hf, bind_eq_ok_iff, pure_eq_ok_iff, -bind_pure_comp] at h

theorem restriction?_eq_ok_some {form : RestrictionForm} {members : List (String × Json)}
    {r : Restriction} (h : restriction? form members = .ok (some r)) :
    ∃ inner, given? members form.name = some (.object inner) ∧
      (∀ q, q ∈ r.excluded ↔ Lists inner form.exclusion q) ∧
      (∀ q, q ∈ r.ascendingOnly ↔ ∃ name, form.ascending = some name ∧ Lists inner name q) ∧
      (r.granted = true ↔ given? inner form.switch ≠ some (.bool false)) := by
  rw [restriction?_eq] at h
  cases hf : given? members form.name with
  | none => simp [hf] at h
  | some j =>
    simp only [hf, bind_eq_ok_iff, asObject_eq_ok_iff, pure_eq_ok_iff, Option.some.injEq] at h
    obtain ⟨inner, rfl, excluded, he, ascending, ha, granted, hg, rfl⟩ := h
    exact ⟨inner, rfl, mem_propertyPaths he, mem_ascendingPaths ha, granted_iff hg⟩

theorem Restriction.mem_grants {form : RestrictionForm} {r : Restriction} {leaves : List Path}
    {q : Path} {g : Grant} :
    (q, g) ∈ r.grants form leaves ↔ r.granted = true ∧ q ∈ leaves ∧ q ∉ r.excluded ∧
      g = form.grant (r.ascendingOnly.contains q) := by
  rw [Restriction.grants]
  cases r.granted with
  | false => simp
  | true =>
    simp only [if_pos, List.mem_map, List.mem_filter, Bool.not_eq_true', Prod.mk.injEq,
      ← Bool.not_eq_true, List.contains_iff_mem]
    constructor
    · intro ⟨p, ⟨hp, hn⟩, hpq, hg⟩
      subst hpq
      exact ⟨trivial, hp, hn, hg.symm⟩
    · intro ⟨_, hq, hn, hg⟩
      exact ⟨q, ⟨hq, hn⟩, rfl, hg.symm⟩

theorem mem_restrictionGrants {form : RestrictionForm} {members : List (String × Json)}
    {leaves : List Path} {l : List (Path × Grant)}
    (h : restrictionGrants form members leaves = .ok l) (q : Path) (g : Grant) :
    (q, g) ∈ l ↔ q ∈ leaves ∧ RestrictionGrants form members q g := by
  rw [restrictionGrants, bind_eq_ok_iff] at h
  obtain ⟨r?, hr, hl⟩ := h
  rw [RestrictionGrants]
  cases r? with
  | none =>
    obtain rfl := Except.ok.inj hl
    simp [given?_of_restriction?_none hr]
  | some r =>
    obtain ⟨inner, hi, he, ha, hg⟩ := restriction?_eq_ok_some hr
    obtain rfl := Except.ok.inj hl
    -- the list that restricts further says of the column what the grant's flag says
    have hb : r.ascendingOnly.contains q = true ↔
        ∃ name, form.ascending = some name ∧ Lists inner name q := by
      rw [List.contains_iff_mem, ha]
    rw [Restriction.mem_grants, hg, he]
    constructor
    · intro ⟨ho, hq, hn, hgr⟩
      exact ⟨hq, inner, hi, ho, hn, _, hb, hgr⟩
    · intro ⟨hq, inner', hi', ho, hn, b, hb', hgr⟩
      obtain rfl : inner = inner' := by simpa [hi] using hi'
      have hbe : b = r.ascendingOnly.contains q := by rw [Bool.eq_iff_iff, hb', hb]
      exact ⟨ho, hq, hn, hbe ▸ hgr⟩

theorem any_restrictionSection {j : Json} {schema : Schema} {f : Fragment}
    (h : restrictionSection j schema = .ok f) (hh : Grant.Distributes holds) (q : Path) :
    (f.get? q).any holds = true ↔ q ∈ schema.leaves ∧ ∃ members, j = .object members ∧
      ∃ form ∈ [sortForm, filterForm, groupForm], ∃ g,
        RestrictionGrants form members q g ∧ holds g = true := by
  simp only [restrictionSection, bind_eq_ok_iff, asObject_eq_ok_iff, pure_eq_ok_iff] at h
  obtain ⟨members, rfl, sorting, hs, filtering, hf, grouping, hg, rfl⟩ := h
  rw [any_foldl_add_empty hh]
  simp only [List.mem_append, mem_restrictionGrants hs, mem_restrictionGrants hf,
    mem_restrictionGrants hg, Json.object.injEq, exists_eq_left', List.mem_cons, List.not_mem_nil,
    or_false, exists_eq_or_imp, exists_eq_left]
  grind

theorem any_parts_cons {schema : Schema} {members : List (String × Json)} {key : String}
    {read : SectionReader} {rest : List (String × SectionReader)} {fs : List Fragment} {q : Path}
    {Says : Json → Prop} {Others : Prop}
    (h : SectionTable.fragments schema members ((key, read) :: rest) = .ok fs)
    (hr : ∀ j f, read j schema = .ok f → ((f.get? q).any holds = true ↔ Says j))
    (ho : ∀ gs, SectionTable.fragments schema members rest = .ok gs →
      ((Fragment.parts gs q).any holds = true ↔ Others)) :
    (Fragment.parts fs q).any holds = true ↔
      (∃ j, members.lookup key = some j ∧ Says j) ∨ Others := by
  rw [SectionTable.fragments] at h
  cases hk : members.lookup key with
  | none =>
    simp only [hk] at h
    simp [ho fs h]
  | some j =>
    simp only [hk, bind_eq_ok_iff, pure_eq_ok_iff] at h
    obtain ⟨f, hf, gs, hg, rfl⟩ := h
    have hs := hr j f hf
    have hw := ho gs hg
    rw [Fragment.any_parts] at hw ⊢
    rw [List.any_cons, Bool.or_eq_true, hs, hw]
    simp

/-- What a document grants a column: an item of a list section what it says, the annotations what a
restriction grants a scalar column. -/
inductive Grants (schema : Schema) (members : List (String × Json)) (q : Path) : Grant → Prop
  | sort {items item g} (hs : members.lookup "sort" = some (.array items)) (hi : item ∈ items)
      (hr : SortItemReads item (q, g)) : Grants schema members q g
  | filter {items item g} (hs : members.lookup "filter" = some (.array items)) (hi : item ∈ items)
      (hr : FilterItemReads item (q, g)) : Grants schema members q g
  | group {items item g} (hs : members.lookup "group" = some (.array items)) (hi : item ∈ items)
      (hr : GroupItemReads item (q, g)) : Grants schema members q g
  | restricted {annotations form g} (hs : members.lookup "odata" = some (.object annotations))
      (hq : q ∈ schema.leaves) (hf : form ∈ [sortForm, filterForm, groupForm])
      (hg : RestrictionGrants form annotations q g) : Grants schema members q g

theorem any_parts_standard (hh : Grant.Distributes holds) {schema : Schema}
    {members : List (String × Json)} {fs : List Fragment}
    (h : SectionTable.fragments schema members SectionTable.standard.sections = .ok fs) {q : Path}
    (hq : schema.contains q = true) :
    (Fragment.parts fs q).any holds = true ↔ ∃ g, Grants schema members q g ∧ holds g = true := by
  have hn : ∀ gs, SectionTable.fragments schema members [] = .ok gs →
      ((Fragment.parts gs q).any holds = true ↔ False) := by
    intro gs hg
    obtain rfl := Except.ok.inj hg
    simp [Fragment.parts]
  -- section by section, in reading order
  have hs := any_parts_cons h
    (fun j f hf => any_listing sortItem_eq_ok_iff hf hh q) fun gs hg =>
    any_parts_cons hg
      (fun j f hf => any_listing filterItem_eq_ok_iff hf hh q) fun gs hg =>
    any_parts_cons hg
      (fun j f hf => any_listing groupItem_eq_ok_iff hf hh q) fun gs hg =>
    any_parts_cons hg
      (fun j f hf => any_restrictionSection hf hh q) hn
  rw [hs]
  constructor
  · rintro (⟨_, hl, -, _, rfl, _, hi, g, hr, hg⟩ | ⟨_, hl, -, _, rfl, _, hi, g, hr, hg⟩ |
      ⟨_, hl, -, _, rfl, _, hi, g, hr, hg⟩ | ⟨_, hl, hv, _, rfl, _, hf, g, hr, hg⟩ | ⟨⟨⟩⟩)
    · exact ⟨g, .sort hl hi hr, hg⟩
    · exact ⟨g, .filter hl hi hr, hg⟩
    · exact ⟨g, .group hl hi hr, hg⟩
    · exact ⟨g, .restricted hl hv hf hr, hg⟩
  · rintro ⟨g, hd, hg⟩
    cases hd with
    | sort hl hi hr => exact .inl ⟨_, hl, hq, _, rfl, _, hi, g, hr, hg⟩
    | filter hl hi hr => exact .inr (.inl ⟨_, hl, hq, _, rfl, _, hi, g, hr, hg⟩)
    | group hl hi hr => exact .inr (.inr (.inl ⟨_, hl, hq, _, rfl, _, hi, g, hr, hg⟩))
    | restricted hl hv hf hr =>
      exact .inr (.inr (.inr (.inl ⟨_, hl, hv, _, rfl, _, hf, g, hr, hg⟩)))

end

end Delegation.Document
