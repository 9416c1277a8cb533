import Delegation.Proofs.DocumentedSort
import Delegation.Proofs.Separation

namespace Delegation

namespace Document

/-- A section, and the same with items put in anywhere; a missing one counts as an empty list. -/
inductive Lengthens : Option Json → Option Json → Prop
  | same (section?) : Lengthens section? section?
  | opened (items) : Lengthens none (some (.array items))
  | inserted {items items'} (h : List.Sublist items items') :
      Lengthens (some (.array items)) (some (.array items'))

def listSections : List String := ["sort", "filter", "group"]

/-- A document, and the same with items put into its lists. -/
inductive Enlarges : Json → Json → Prop
  | object {members members'}
      (hl : ∀ key ∈ listSections, Lengthens (members.lookup key) (members'.lookup key))
      (ho : ∀ key, key ∉ listSections → members.lookup key = members'.lookup key) :
      Enlarges (.object members) (.object members')

theorem Lengthens.mem {j? : Option Json} {items : List Json}
    (h : Lengthens (some (.array items)) j?) :
    ∃ items', j? = some (.array items') ∧ ∀ item ∈ items, item ∈ items' := by
  cases h with
  | same => exact ⟨items, rfl, fun _ h => h⟩
  | inserted h => exact ⟨_, rfl, fun _ hi => h.subset hi⟩

section
variable {schema : Schema} {members members' : List (String × Json)} {q : Path} {g : Grant}

/-- What a document grants, it grants with further items, too. -/
theorem Grants.enlarge (h : Enlarges (.object members) (.object members'))
    (hg : Grants schema members q g) : Grants schema members' q g := by
  obtain ⟨hl, ho⟩ := h
  have hlist : ∀ key ∈ listSections, ∀ items, members.lookup key = some (.array items) →
      ∃ items', members'.lookup key = some (.array items') ∧ ∀ item ∈ items, item ∈ items' := by
    intro key hk items hs
    exact Lengthens.mem (hs ▸ hl key hk)
  cases hg with
  | sort hs hi hr =>
    obtain ⟨items', hs', hi'⟩ := hlist "sort" (by decide) _ hs
    exact .sort hs' (hi' _ hi) hr
  | filter hs hi hr =>
    obtain ⟨items', hs', hi'⟩ := hlist "filter" (by decide) _ hs
    exact .filter hs' (hi' _ hi) hr
  | group hs hi hr =>
    obtain ⟨items', hs', hi'⟩ := hlist "group" (by decide) _ hs
    exact .group hs' (hi' _ hi) hr
  | restricted hs hq hf hr => exact .restricted ((ho "odata" (by decide)).symm.trans hs) hq hf hr

theorem Grants.capabilities_eq (hg : Grants schema members q g) :
    ∃ c, g.capabilities = .singleton c ∧ (c = .sort ∨ c = .filter ∨ c = .group) := by
  have hs : ∀ b, (Grant.sortable b).capabilities = .singleton .sort := fun _ => rfl
  have hf : ∀ o, (Grant.filterable o).capabilities = .singleton .filter := fun _ => rfl
  have hn : Grant.groupable.capabilities = .singleton .group := rfl
  cases hg with
  | sort _ _ hr =>
    cases hr
    exact ⟨_, hs _, .inl rfl⟩
  | filter _ _ hr => cases hr <;> exact ⟨_, hf _, .inr (.inl rfl)⟩
  | group _ _ hr => cases hr <;> exact ⟨_, hn, .inr (.inr rfl)⟩
  | restricted _ _ hm hr =>
    obtain ⟨_, _, _, _, b, _, rfl⟩ := hr
    simp only [List.mem_cons, List.not_mem_nil, or_false] at hm
    obtain rfl | rfl | rfl := hm
    · exact ⟨_, hs _, .inl rfl⟩
    · exact ⟨_, hf _, .inr (.inl rfl)⟩
    · exact ⟨_, hn, .inr (.inr rfl)⟩

theorem Grants.not_allows_read (hg : Grants schema members q g) : ¬ g.allows .read = true := by
  intro h
  obtain ⟨c, hc, hk⟩ := hg.capabilities_eq
  rw [Grant.allows, hc, FlagSet.contains_singleton] at h
  simp [h] at hk

end

section
variable {schema : Schema} {document document' : Json} {i i' : Index} {q : Path}

theorem contains_of_supports_index (h : index .standard schema document = .ok i) {c : Capability}
    (hs : i.supports q c = true) : schema.contains q = true := by
  obtain ⟨members, fs, -, -, rfl⟩ := index_eq_ok_iff.1 h
  rw [Index.supports_build, Bool.and_eq_true] at hs
  exact hs.1

theorem contains_table_index_iff (h : index .standard schema document = .ok i) (c : Capability) :
    i.table.contains c = true ↔ ∃ q, i.supports q c = true := by
  obtain ⟨members, fs, -, -, rfl⟩ := index_eq_ok_iff.1 h
  exact Index.contains_table_iff

theorem sorts_index (h : index .standard schema document = .ok i) :
    i.sorts q = i.supports q .sort := by
  obtain ⟨members, fs, -, -, rfl⟩ := index_eq_ok_iff.1 h
  exact Index.sorts_ofRows q

theorem not_contains_table_read (h : index .standard schema document = .ok i) :
    ¬ i.table.contains .read = true := by
  rw [contains_table_index_iff h]
  rintro ⟨q, hq⟩
  obtain ⟨members, fs, rfl, -, -⟩ := index_eq_ok_iff.1 h
  obtain ⟨g, hg, ha⟩ := (supports_index_iff h (contains_of_supports_index h hq) .read).1 hq
  exact hg.not_allows_read ha

section
variable (hd : Enlarges document document') (h : index .standard schema document = .ok i)
  (h' : index .standard schema document' = .ok i')
include hd h h'

theorem supports_of_enlarges {c : Capability} (hs : i.supports q c = true) :
    i'.supports q c = true := by
  have hq := contains_of_supports_index h hs
  obtain ⟨hl, ho⟩ := hd
  obtain ⟨g, hg, ha⟩ := (supports_index_iff h hq c).1 hs
  exact (supports_index_iff h' hq c).2 ⟨g, hg.enlarge ⟨hl, ho⟩, ha⟩

theorem ascendingOnly_of_enlarges (hs : i.supports q .sort = true)
    (ha : i.ascendingOnly q = true) : i'.ascendingOnly q = true := by
  have hq := contains_of_supports_index h hs
  have hs' := supports_of_enlarges hd h h' hs
  obtain ⟨hl, ho⟩ := hd
  obtain ⟨g, hg, hb⟩ := (ascendingOnly_index_iff h hq hs).1 ha
  exact (ascendingOnly_index_iff h' hq hs').2 ⟨g, hg.enlarge ⟨hl, ho⟩, hb⟩

theorem contains_table_of_enlarges {c : Capability} (hc : i.table.contains c = true) :
    i'.table.contains c = true := by
  rw [contains_table_index_iff h] at hc
  rw [contains_table_index_iff h']
  exact hc.imp fun q hq => supports_of_enlarges hd h h' hq

end

end

end Document

/-- The context with this external source under its name. -/
def Context.withExternal (cx : Context) (x : ExternalSource) : Context :=
  { cx with registry := cx.registry.putExternal x }

namespace SortRule
open Document

theorem answers_iff_sides {cx : Context} {required : Capabilities} {source : Expr}
    {view : SortView} : Answers cx required source view ↔
      (∃ e, cx.entity? source = some e ∧ Usable cx.features e ∧ e.sorting = view) ∨
        cx.NoUsableEntity source ∧ ∃ x, cx.external? source = some x ∧
          x.offers .sort required = true ∧ x.index.sortView = view := by
  rw [answers_iff]
  -- a usable entity answers, whatever the external source offers
  by_cases hn : cx.NoUsableEntity source
  · have he : ¬ ∃ e, cx.entity? source = some e ∧ Usable cx.features e ∧ e.sorting = view := by
      rintro ⟨e, he, hu, -⟩
      exact hn e he hu
    rw [Context.resolve_of_noUsableEntity hn, or_iff_right he, and_iff_right hn]
    constructor
    · rintro ⟨p, hp, hv⟩
      split at hp
      · next x hx =>
        obtain ⟨hx, ho⟩ := Option.filter_eq_some_iff.1 hx
        obtain rfl := Resolution.resolved.inj hp
        exact ⟨x, hx, ho, hv⟩
      · simp at hp
    · rintro ⟨x, hx, ho, hv⟩
      rw [hx, Option.filter_some, if_pos ho]
      exact ⟨_, rfl, hv⟩
  · obtain ⟨e, he, hu⟩ : ∃ e, cx.entity? source = some e ∧ Usable cx.features e := by
      simpa [Context.NoUsableEntity] using hn
    rw [Context.resolve_of_usable he hu, or_iff_left fun h => hn h.1]
    constructor
    · rintro ⟨p, hp, hv⟩
      obtain rfl := Resolution.resolved.inj hp
      exact ⟨e, he, hu, hv⟩
    · rintro ⟨e', he', -, hv⟩
      obtain rfl : e = e' := Option.some.inj (he.symm.trans he')
      exact ⟨_, rfl, hv⟩

section
variable {cx : Context} {x x' : ExternalSource} {source value : Expr} {order : Option Expr}
  {required : Capabilities}

@[simp] theorem entity?_withExternal :
    (cx.withExternal x).entity? source = cx.entity? source := by
  have he : (cx.registry.putExternal x).entity? = cx.registry.entity? := by
    funext name
    exact Registry.entity?_putExternal _ _ _
  rw [Context.entity?, Context.withExternal, he]
  rfl

theorem external?_withExternal : (cx.withExternal x).external? source =
    if cx.environment.source? source = some x.name then some x else cx.external? source := by
  simp only [Context.external?, Context.withExternal]
  cases cx.environment.source? source with
  | none => simp
  | some name => simp only [Option.bind_some, Registry.external?_putExternal, Option.some_inj]

/-- What answers with one external source has its like with another of the same name that offers
what the first one offers. -/
theorem answers_withExternal {view : SortView} (hn : x.name = x'.name)
    (ho : x.offers .sort required = true → x'.offers .sort required = true)
    (h : Answers (cx.withExternal x) required source view) :
    ∃ view', Answers (cx.withExternal x') required source view' ∧
      (view' = view ∨ view = x.index.sortView ∧ view' = x'.index.sortView) := by
  have hu : (cx.withExternal x).NoUsableEntity source ↔
      (cx.withExternal x').NoUsableEntity source := by
    simp only [Context.NoUsableEntity, entity?_withExternal]
    rfl
  rcases answers_iff_sides.1 h with ⟨e, he, hue, hv⟩ | ⟨hne, y, hy, hyo, hv⟩
  · rw [entity?_withExternal] at he
    exact ⟨view, answers_iff_sides.2 (.inl ⟨e, by rwa [entity?_withExternal], hue, hv⟩), .inl rfl⟩
  · rw [external?_withExternal] at hy
    by_cases hs : cx.environment.source? source = some x.name
    · rw [if_pos hs] at hy
      obtain rfl := Option.some.inj hy
      have hy' : (cx.withExternal x').external? source = some x' := by
        rw [external?_withExternal, if_pos (hn ▸ hs)]
      exact ⟨_, answers_iff_sides.2 (.inr ⟨hu.1 hne, x', hy', ho hyo, rfl⟩), .inr ⟨hv.symm, rfl⟩⟩
    · rw [if_neg hs] at hy
      have hy' : (cx.withExternal x').external? source = some y := by
        rw [external?_withExternal, if_neg (hn ▸ hs), hy]
      exact ⟨view, answers_iff_sides.2 (.inr ⟨hu.1 hne, y, hy', hyo, hv⟩), .inl rfl⟩

/-- A call that is accepted with one external source is accepted with another that does as well by
the call's column and order. -/
theorem accepted_withExternal (hn : x.name = x'.name)
    (ho : x.offers .sort required = true → x'.offers .sort required = true)
    (hc : ∀ q, Resolves cx.environment value q → x.index.sortView.supports q .sort = true →
      OrderAccepted cx.environment x.index.sortView q order →
        x'.index.sortView.supports q .sort = true ∧
          OrderAccepted cx.environment x'.index.sortView q order)
    (h : Accepted (cx.withExternal x) required source value order) :
    Accepted (cx.withExternal x') required source value order := by
  obtain ⟨view, q, hv, hr, hs, hord⟩ := h
  obtain ⟨view', hv', rfl | ⟨rfl, rfl⟩⟩ := answers_withExternal hn ho hv
  · exact ⟨view', q, hv', hr, hs, hord⟩
  · obtain ⟨hs', hord'⟩ := hc q hr hs hord
    exact ⟨_, q, hv', hr, hs', hord'⟩

end

section
variable {env : Environment} {view view' : SortView} {q : Path} {order : Option Expr}

theorem OrderAccepted.mono (hp : ∀ d, Permits view q d → Permits view' q d)
    (h : OrderAccepted env view q order) : OrderAccepted env view' q order := by
  cases order with
  | none => exact hp _ h
  | some e =>
    obtain ⟨ha, ho⟩ := h
    refine ⟨ha, ?_⟩
    cases ho with
    | denoted hs hd hpd => exact .denoted hs hd (hp _ hpd)
    | both hs hb => exact .both hs fun d => hp d (hb d)

theorem OrderAccepted.of_ascending (hd : ∀ e ∈ order, Direction.Denotes env e .ascending)
    (h : OrderAccepted env view q order) : OrderAccepted env view' q order := by
  cases order with
  | none => exact permits_ascending view' q
  | some e =>
    obtain ⟨ha, ho⟩ := h
    have hs : isDirect e = true ∨ isIndirect e = true := by
      cases ho with
      | denoted hs => exact hs
      | both hs => exact .inr hs
    exact ⟨ha, .denoted hs (hd e rfl) (permits_ascending view' q)⟩

end

/-- The other source has a document with further items, and is the same otherwise. -/
structure Enlarged (x x' : ExternalSource) : Prop where
  name : x.name = x'.name
  declared : x.declared = x'.declared
  delegatable : x.delegatable = x'.delegatable
  indices : ∃ schema document document', Enlarges document document' ∧
    index .standard schema document = .ok x.index ∧ index .standard schema document' = .ok x'.index

theorem enlarged_of_ofSpec {spec : SourceSpec} (ht : spec.table = .standard) {document : Json}
    (hd : Enlarges spec.document document) {x x' : ExternalSource}
    (hx : ExternalSource.ofSpec spec = .ok x)
    (hx' : ExternalSource.ofSpec { spec with document := document } = .ok x') : Enlarged x x' := by
  obtain ⟨i, hi, rfl⟩ := ExternalSource.ofSpec_eq_ok_iff.1 hx
  obtain ⟨i', hi', rfl⟩ := ExternalSource.ofSpec_eq_ok_iff.1 hx'
  rw [ht] at hi
  simp only [ht] at hi'
  exact ⟨rfl, rfl, rfl, spec.schema, spec.document, document, hd, hi, hi'⟩

section
variable {x x' : ExternalSource} {required : Capabilities}

theorem offers_mono (hd : x.delegatable = x'.delegatable)
    (hc : ∀ c, c = .sort ∨ required.contains c = true → Offers x c → Offers x' c)
    (h : x.offers .sort required = true) : x'.offers .sort required = true := by
  obtain ⟨hdel, hs, hr⟩ := offers_iff.1 h
  exact offers_iff.2 ⟨hd ▸ hdel, hc _ (.inl rfl) hs, fun c h => hc c (.inr h) (hr c h)⟩

namespace Enlarged
variable {cx : Context} {source value : Expr} {order : Option Expr}

theorem accepted_of_ascending (h : Enlarged x x')
    (ho : ∀ e ∈ order, Direction.Denotes cx.environment e .ascending)
    (ha : Accepted (cx.withExternal x) required source value order) :
    Accepted (cx.withExternal x') required source value order := by
  obtain ⟨schema, document, document', hd, hi, hi'⟩ := h.indices
  have hoffers : ∀ c, Offers x c → Offers x' c := by
    intro c hc
    rw [Offers, h.declared] at hc
    exact hc.imp_right (contains_table_of_enlarges hd hi hi')
  have hsupports : ∀ q, x.index.sortView.supports q .sort = true →
      x'.index.sortView.supports q .sort = true := by
    intro q hs
    rw [Index.supports_sortView, sorts_index hi] at hs
    rw [Index.supports_sortView, sorts_index hi']
    exact supports_of_enlarges hd hi hi' hs
  exact accepted_withExternal h.name (offers_mono h.delegatable fun c _ => hoffers c)
    (fun q _ hs hord => ⟨hsupports q hs, hord.of_ascending ho⟩) ha

/-- Reading is declared or never comes, so a source whose index sorts offers what it offers with
further items. -/
theorem accepted_of_sorts (h : Enlarged x x') {q : Path} (hq : Resolves cx.environment value q)
    (hs : x.index.sorts q = true)
    (ha : Accepted (cx.withExternal x') (.singleton .read) source value order) :
    Accepted (cx.withExternal x) (.singleton .read) source value order := by
  obtain ⟨schema, document, document', hd, hi, hi'⟩ := h.indices
  have hsort : x.index.supports q .sort = true := (sorts_index hi).symm.trans hs
  have hoffers : ∀ c, c = .sort ∨ (FlagSet.singleton Capability.read).contains c = true →
      Offers x' c → Offers x c := by
    rintro c (rfl | hc) ho
    · exact .inr ((contains_table_index_iff hi _).2 ⟨q, hsort⟩)
    · obtain rfl := (FlagSet.contains_singleton _ _).1 hc
      exact .inl (h.declared ▸ ho.resolve_right (not_contains_table_read hi'))
  -- what is restricted to ascending order was not so before, or is so still
  have hpermits : ∀ d, Permits x'.index.sortView q d → Permits x.index.sortView q d := by
    intro d hp he
    have hf := hp he
    rw [Index.ascendingOnly_sortView, ← Bool.not_eq_true] at hf ⊢
    exact mt (ascendingOnly_of_enlarges hd hi hi' hsort) hf
  refine accepted_withExternal h.name.symm (offers_mono h.delegatable.symm hoffers) ?_ ha
  intro q' hq' _ hord
  obtain rfl : q = q' := Option.some.inj (hq.2.2.symm.trans hq'.2.2)
  exact ⟨hs, hord.mono hpermits⟩

end Enlarged

end

/-- The same call beside one external source with two documents, of which the second has further
items in its lists. A call in ascending order that was delegable stays so. A call that is delegable
with the further items was so without them, provided that its column was sortable. -/
theorem insertions_keep_decisions {spec : SourceSpec} (ht : spec.table = .standard)
    {document : Json} (hd : Enlarges spec.document document) {x x' : ExternalSource}
    (hx : ExternalSource.ofSpec spec = .ok x)
    (hx' : ExternalSource.ofSpec { spec with document := document } = .ok x') (cx : Context)
    (call : Call) :
    (Delegable (cx.withExternal x) call →
      (∀ e ∈ call.args[2]?, Direction.Denotes cx.environment e .ascending) →
      Delegable (cx.withExternal x') call) ∧
    ∀ value q, call.args[1]? = some value → Resolves cx.environment value q →
      x.index.sorts q = true →
      Delegable (cx.withExternal x') call → Delegable (cx.withExternal x) call := by
  have h := enlarged_of_ofSpec ht hd hx hx'
  constructor
  · intro hc ho
    obtain ⟨source, value, orders, rfl, hl, ha⟩ := delegable_iff.1 hc
    have ho' : ∀ e ∈ orders.head?, Direction.Denotes cx.environment e .ascending := by
      intro e he
      rw [List.head?_eq_getElem?] at he
      exact ho e he
    exact delegable_iff.2 ⟨source, value, orders, rfl, hl, h.accepted_of_ascending ho' ha⟩
  · intro value q hv hq hs hc
    obtain ⟨source, value', orders, rfl, hl, ha⟩ := delegable_iff.1 hc
    -- the column that the call names is the one that was sortable before
    obtain rfl : value' = value := Option.some.inj hv
    exact delegable_iff.2 ⟨source, value', orders, rfl, hl, h.accepted_of_sorts hq hs ha⟩

def amountSpec : SourceSpec where
  name := "T"
  schema := amounts
  document := .object [("sort", .array [.object [("column", .string "Amount")]])]

/-- The column groups as well, and it sorts in ascending order alone. -/
def amountFurther : Json :=
  .object [("group", .array [.string "Amount"]),
    ("sort", .array [.object [("column", .string "Amount"), ("ascendingOnly", .bool true)],
      .object [("column", .string "Amount")]])]

theorem enlarges_amountFurther : Enlarges amountSpec.document amountFurther := by
  refine .object (fun key hk => ?_) fun key hk => ?_
  · simp only [listSections, List.mem_cons, List.not_mem_nil, or_false] at hk
    obtain rfl | rfl | rfl := hk
    · exact .inserted (.cons _ (.refl _))
    · exact .same none
    · exact .opened _
  · simp only [listSections, List.mem_cons, List.not_mem_nil, or_false, not_or] at hk
    simp [List.lookup_cons, beq_eq_false_iff_ne.2 hk.1, beq_eq_false_iff_ne.2 hk.2.2]

theorem insertions_keep_decisions_amount :
    amountSpec.table = .standard ∧ Enlarges amountSpec.document amountFurther ∧
      ∃ x x', ExternalSource.ofSpec amountSpec = .ok x ∧
        ExternalSource.ofSpec { amountSpec with document := amountFurther } = .ok x' ∧
        x.index.sorts (.column "Amount") = true ∧ x'.index.ascendingOnly (.column "Amount") = true ∧
        Delegable (Catalog.emptyContext.withExternal x') ⟨"Sort", [.name "T", .name "Amount"]⟩ ∧
        Delegable (Catalog.emptyContext.withExternal x) ⟨"Sort", [.name "T", .name "Amount"]⟩ := by
  obtain ⟨x, hx⟩ : ∃ x, ExternalSource.ofSpec amountSpec = .ok x := ⟨_, rfl⟩
  obtain ⟨x', hx'⟩ : ∃ x', ExternalSource.ofSpec { amountSpec with document := amountFurther } =
    .ok x' := ⟨_, rfl⟩
  have hsorts : x.index.sorts (.column "Amount") = true := by
    obtain rfl := Except.ok.inj hx
    rfl
  have hascending : x'.index.ascendingOnly (.column "Amount") = true := by
    obtain rfl := Except.ok.inj hx'
    rfl
  have hcall : Delegable (Catalog.emptyContext.withExternal x)
      ⟨"Sort", [.name "T", .name "Amount"]⟩ := by
    obtain rfl := Except.ok.inj hx
    exact ⟨⟨true, []⟩, rfl, rfl⟩
  obtain ⟨hkept, hbefore⟩ := insertions_keep_decisions rfl enlarges_amountFurther hx hx'
    Catalog.emptyContext ⟨"Sort", [.name "T", .name "Amount"]⟩
  have hfurther := hkept hcall nofun
  exact ⟨rfl, enlarges_amountFurther, x, x', hx, hx', hsorts, hascending, hfurther,
    hbefore (.name "Amount") (.column "Amount") rfl ⟨⟨"Amount", rfl⟩, rfl, rfl⟩ hsorts hfurther⟩

end SortRule

end Delegation
