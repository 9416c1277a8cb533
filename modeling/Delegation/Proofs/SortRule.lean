import Delegation.Catalog
import Delegation.Proofs.Directions

namespace Delegation

namespace SortRule

/-- Enhanced delegation is on and the entity looks up arrays. -/
def Usable (features : Features) (e : Entity) : Prop :=
  features.enhancedDelegation = true ∧ e.capabilities.contains .arrayLookup = true

/-- What the external source declares and what its index lists, together. -/
def Offers (x : ExternalSource) (c : Capability) : Prop :=
  x.declared.contains c = true ∨ x.index.table.contains c = true

/-- What stands under the name that the source argument has. -/
def Registered (cx : Context) (source : Expr) (r : Registration) : Prop :=
  ∃ name, cx.environment.source? source = some name ∧ cx.registry.find? name = some r

/-- Step 1: the usable entity of the source answers, and without one its external source, when that
may be delegated to and offers sorting and all that is required. -/
inductive Answers (cx : Context) (required : Capabilities) (source : Expr) : SortView → Prop
  | entity {r e} (hr : Registered cx source r) (he : r.entity = some e)
      (hu : Usable cx.features e) :
      Answers cx required source e.sorting
  | external {r x} (hr : Registered cx source r)
      (hn : ∀ e, r.entity = some e → ¬ Usable cx.features e) (hx : r.external = some x)
      (hd : x.delegatable = true) (hs : Offers x .sort)
      (hq : ∀ c, required.contains c = true → Offers x c) :
      Answers cx required source x.index.sortView

def EntityBound (cx : Context) (source : Expr) : Prop :=
  ∃ r, Registered cx source r ∧ r.entity.isSome = true

/-- Step 2: the value argument is a bare name, not asynchronous, and resolves to the column. -/
def Resolves (env : Environment) (value : Expr) (column : Path) : Prop :=
  (∃ n, value = .name n) ∧ env.isAsync value = false ∧ env.column? value = some column

/-- Step 6: descending order is for columns that are not restricted to ascending order. -/
def Permits (view : SortView) (column : Path) (d : Direction) : Prop :=
  d = .descending → view.ascendingOnly column = false

def isDirect : Expr → Bool
  | .name _ | .text _ => true
  | .member _ _ | .call _ _ | .number _ | .truth _ | .binary _ _ _ => false

def isIndirect : Expr → Bool
  | .member _ _ | .call _ _ => true
  | .name _ | .text _ | .number _ | .truth _ | .binary _ _ _ => false

/-- Step 5: an order argument denotes a permitted direction, or is a member or a call while the
column permits both. -/
inductive Orders (env : Environment) (view : SortView) (column : Path) (e : Expr) : Prop
  | denoted {d} (hs : isDirect e = true ∨ isIndirect e = true) (hd : Direction.Denotes env e d)
      (hp : Permits view column d)
  | both (hs : isIndirect e = true) (hp : ∀ d, Permits view column d)

/-- Steps 4 and 5: without an order argument the order is ascending. -/
def OrderAccepted (env : Environment) (view : SortView) (column : Path) : Option Expr → Prop
  | none => Permits view column .ascending
  | some e => env.isAsync e = false ∧ Orders env view column e

/-- All six steps hold; step 3 is that the column sorts. -/
def Accepted (cx : Context) (required : Capabilities) (source value : Expr) (order : Option Expr) :
    Prop :=
  ∃ view column, Answers cx required source view ∧ Resolves cx.environment value column ∧
    view.supports column .sort = true ∧ OrderAccepted cx.environment view column order

inductive OrderRefused (env : Environment) (view : SortView) (column : Path) (e : Expr) :
    Status → Prop
  | async (ha : env.isAsync e = true) : OrderRefused env view column e .asyncSortOrder
  | shape (ha : env.isAsync e = false) (hs : isDirect e = false) (hi : isIndirect e = false) :
      OrderRefused env view column e .unsupportedSortOrder
  | unknown (ha : env.isAsync e = false) (hs : isDirect e = true)
      (hd : ∀ d, ¬ Direction.Denotes env e d) :
      OrderRefused env view column e .unsupportedSortOrder
  | denoted {d} (ha : env.isAsync e = false) (hs : isDirect e = true)
      (hd : Direction.Denotes env e d) (hp : ¬ Permits view column d) :
      OrderRefused env view column e .sortOrderNotSupportedByColumn
  | indirect (ha : env.isAsync e = false) (hs : isIndirect e = true)
      (ho : ¬ Orders env view column e) :
      OrderRefused env view column e .sortOrderNotSupportedByColumn

def event (function : String) (status : Status) (blamed : Expr) (hinted : Bool) : Event :=
  ⟨status, function, blamed.toText, if hinted then some .restructure else none⟩

/-- The event of the first step that fails, the steps before it holding. -/
inductive Refused (cx : Context) (function : String) (required : Capabilities) (source value : Expr)
    (order : Option Expr) : Event → Prop
  | source {bound} (h : ∀ view, ¬ Answers cx required source view)
      (hb : bound = true ↔ EntityBound cx source) :
      Refused cx function required source value order
        (event function .noCapabilitySource source bound)
  | value {view} (hv : Answers cx required source view)
      (h : ∀ column, ¬ Resolves cx.environment value column) :
      Refused cx function required source value order
        (event function .unsupportedSortArg value true)
  | column {view column} (hv : Answers cx required source view)
      (hc : Resolves cx.environment value column) (h : view.supports column .sort = false) :
      Refused cx function required source value order
        (event function .noDelSupportByColumn value true)
  | order {view column e status} (hv : Answers cx required source view)
      (hc : Resolves cx.environment value column) (hs : view.supports column .sort = true)
      (he : order = some e) (h : OrderRefused cx.environment view column e status) :
      Refused cx function required source value order (event function status e true)

theorem registration?_eq_some_iff {cx : Context} {source : Expr} {r : Registration} :
    cx.registration? source = some r ↔ Registered cx source r := by
  rw [Context.registration?, Option.bind_eq_some_iff, Registered]

theorem admits_iff {features : Features} {e : Entity} :
    features.admits e = true ↔ Usable features e := by
  rw [Features.admits, Bool.and_eq_true, Usable]

theorem offers_iff {x : ExternalSource} {required : Capabilities} :
    x.offers .sort required = true ↔
      x.delegatable = true ∧ Offers x .sort ∧ ∀ c, required.contains c = true → Offers x c := by
  have hc : ∀ c, x.capabilities.contains c = true ↔ Offers x c := fun c => by
    rw [ExternalSource.capabilities, FlagSet.contains_union, Bool.or_eq_true, Offers]
  rw [ExternalSource.offers, Bool.and_eq_true, FlagSet.includes_iff]
  simp only [FlagSet.contains_insert, hc]
  grind

theorem usable_entity_iff {cx : Context} {r : Registration} {e : Entity} :
    r.entity.filter cx.features.admits = some e ↔ r.entity = some e ∧ Usable cx.features e := by
  rw [Option.filter_eq_some_iff, admits_iff]

theorem no_usable_entity_iff {cx : Context} {r : Registration} :
    r.entity.filter cx.features.admits = none ↔
      ∀ e, r.entity = some e → ¬ Usable cx.features e := by
  rw [Option.filter_eq_none_iff]
  simp only [admits_iff]

theorem answers_iff {cx : Context} {required : Capabilities} {source : Expr} {view : SortView} :
    Answers cx required source view ↔
      ∃ p, cx.resolve source .sort required = .resolved p ∧ p.sorting = view := by
  constructor
  · rintro (⟨hr, he, hu⟩ | @⟨r, x, hr, hn, hx, hd, hs, hq⟩)
    · rw [Context.resolve, registration?_eq_some_iff.2 hr]
      simp only [usable_entity_iff.2 ⟨he, hu⟩]
      exact ⟨_, rfl, rfl⟩
    · have ho : r.external.filter (·.offers .sort required) = some x :=
        Option.filter_eq_some_iff.2 ⟨hx, offers_iff.2 ⟨hd, hs, hq⟩⟩
      rw [Context.resolve, registration?_eq_some_iff.2 hr]
      simp only [no_usable_entity_iff.2 hn, ho]
      exact ⟨_, rfl, rfl⟩
  · rintro ⟨p, h, rfl⟩
    rw [Context.resolve] at h
    -- the source is registered, or nothing would have been resolved
    cases hr : cx.registration? source with
    | none => simp [hr] at h
    | some r =>
      have hr' := registration?_eq_some_iff.1 hr
      simp only [hr] at h
      split at h
      · next e he =>
        obtain rfl := Resolution.resolved.inj h
        obtain ⟨he, hu⟩ := usable_entity_iff.1 he
        exact .entity hr' he hu
      · next x he hx =>
        obtain rfl := Resolution.resolved.inj h
        obtain ⟨hx, ho⟩ := Option.filter_eq_some_iff.1 hx
        obtain ⟨hd, hs, hq⟩ := offers_iff.1 ho
        exact .external hr' (no_usable_entity_iff.1 he) hx hd hs hq
      · simp at h

theorem entityBound_of_unavailable {cx : Context} {required : Capabilities} {source : Expr}
    {bound : Bool} (h : cx.resolve source .sort required = .unavailable bound) :
    bound = true ↔ EntityBound cx source := by
  rw [EntityBound]
  simp only [← registration?_eq_some_iff]
  rw [Context.resolve] at h
  cases hr : cx.registration? source with
  | none =>
    simp only [hr] at h
    obtain rfl := Resolution.unavailable.inj h
    simp
  | some r =>
    simp only [hr] at h
    split at h
    · simp at h
    · simp at h
    · obtain rfl := Resolution.unavailable.inj h
      simp

theorem sortColumn?_eq_some_iff {env : Environment} {value : Expr} {column : Path} :
    Decision.sortColumn? env value = some column ↔ Resolves env value column := by
  unfold Decision.sortColumn? Resolves
  cases value with
  | name n => cases env.isAsync (.name n) <;> simp
  | _ => simp

theorem orderSupported_iff {view : SortView} {column : Path} {d : Direction} :
    Decision.orderSupported view column d = true ↔ Permits view column d := by
  cases d <;> simp [Decision.orderSupported, Permits]

section
variable {env : Environment} {view : SortView} {column : Path} {e : Expr}

theorem orderRefusal?_of_async (ha : env.isAsync e = true) :
    Decision.orderRefusal? env view column e = some .asyncSortOrder := by
  rw [Decision.orderRefusal?.eq_def, if_pos ha]

theorem orderRefusal?_of_direct (ha : env.isAsync e = false) (hs : isDirect e = true) :
    Decision.orderRefusal? env view column e =
      match Direction.ofExpr? env e with
      | none => some .unsupportedSortOrder
      | some d =>
        if Decision.orderSupported view column d then none
        else some .sortOrderNotSupportedByColumn := by
  rw [Decision.orderRefusal?.eq_def, ha, if_neg Bool.false_ne_true]
  cases e with
  | name n => rfl
  | text s => rfl
  | _ => simp [isDirect] at hs

theorem orders_iff_of_indirect (hs : isIndirect e = true) :
    ((Direction.ofExpr? env e).any (Decision.orderSupported view column) ||
      (Decision.orderSupported view column .ascending &&
        Decision.orderSupported view column .descending)) = true ↔ Orders env view column e := by
  rw [Bool.or_eq_true, Bool.and_eq_true, Option.any_eq_true]
  simp only [orderSupported_iff, Direction.ofExpr?_eq_some_iff]
  constructor
  · rintro (⟨d, hd, hp⟩ | ⟨ha, hd⟩)
    · exact .denoted (.inr hs) hd hp
    · exact .both hs fun d => by cases d <;> assumption
  · rintro (⟨_, hd, hp⟩ | ⟨_, hp⟩)
    · exact .inl ⟨_, hd, hp⟩
    · exact .inr ⟨hp _, hp _⟩

theorem orderRefusal?_of_indirect (ha : env.isAsync e = false) (hs : isIndirect e = true) :
    Decision.orderRefusal? env view column e =
      if (Direction.ofExpr? env e).any (Decision.orderSupported view column) ||
        (Decision.orderSupported view column .ascending &&
          Decision.orderSupported view column .descending) then none
      else some .sortOrderNotSupportedByColumn := by
  rw [Decision.orderRefusal?.eq_def, ha, if_neg Bool.false_ne_true]
  cases e with
  | member left m => rfl
  | call f args => rfl
  | _ => simp [isIndirect] at hs

theorem orderRefusal?_of_neither (ha : env.isAsync e = false) (hs : isDirect e = false)
    (hi : isIndirect e = false) :
    Decision.orderRefusal? env view column e = some .unsupportedSortOrder := by
  rw [Decision.orderRefusal?.eq_def, ha, if_neg Bool.false_ne_true]
  cases e <;> simp_all [isDirect, isIndirect]

theorem not_indirect_of_direct (hs : isDirect e = true) : isIndirect e = false := by
  cases e <;> simp_all [isDirect, isIndirect]

theorem orderRefusal?_of_refused {status : Status} (h : OrderRefused env view column e status) :
    Decision.orderRefusal? env view column e = some status := by
  cases h with
  | async ha => exact orderRefusal?_of_async ha
  | shape ha hs hi => exact orderRefusal?_of_neither ha hs hi
  | unknown ha hs hd =>
    have hn : Direction.ofExpr? env e = none :=
      Option.eq_none_iff_forall_ne_some.2 fun d h => hd d (Direction.ofExpr?_eq_some_iff.1 h)
    rw [orderRefusal?_of_direct ha hs, hn]
  | denoted ha hs hd hp =>
    rw [orderRefusal?_of_direct ha hs, Direction.ofExpr?_eq_some_iff.2 hd]
    exact if_neg (mt orderSupported_iff.1 hp)
  | indirect ha hs ho =>
    rw [orderRefusal?_of_indirect ha hs, if_neg (mt (orders_iff_of_indirect hs).1 ho)]

theorem orderRefusal?_of_accepted (h : OrderAccepted env view column (some e)) :
    Decision.orderRefusal? env view column e = none := by
  obtain ⟨ha, ho⟩ := h
  -- direct and indirect arguments are tried differently, and an accepted one is of either kind
  cases hs : isDirect e with
  | true =>
    cases ho with
    | denoted _ hd hp =>
      rw [orderRefusal?_of_direct ha hs, Direction.ofExpr?_eq_some_iff.2 hd]
      exact if_pos (orderSupported_iff.2 hp)
    | both hi => simp [not_indirect_of_direct hs] at hi
  | false =>
    have hi : isIndirect e = true := by
      cases ho with
      | denoted hs' => simpa [hs] using hs'
      | both hi => exact hi
    rw [orderRefusal?_of_indirect ha hi, if_pos ((orders_iff_of_indirect hi).2 ho)]

theorem order_cases (env : Environment) (view : SortView) (column : Path) (e : Expr) :
    OrderAccepted env view column (some e) ∨ ∃ status, OrderRefused env view column e status := by
  cases ha : env.isAsync e with
  | true => exact .inr ⟨_, .async ha⟩
  | false =>
    by_cases ho : Orders env view column e
    · exact .inl ⟨ha, ho⟩
    · cases hi : isIndirect e with
      | true => exact .inr ⟨_, .indirect ha hi ho⟩
      | false =>
        cases hs : isDirect e with
        | false => exact .inr ⟨_, .shape ha hs hi⟩
        | true =>
          by_cases hd : ∃ d, Direction.Denotes env e d
          · obtain ⟨d, hd⟩ := hd
            exact .inr ⟨_, .denoted ha hs hd fun hp => ho (.denoted (.inl hs) hd hp)⟩
          · exact .inr ⟨_, .unknown ha hs fun d h => hd ⟨d, h⟩⟩

end

theorem permits_ascending (view : SortView) (q : Path) : Permits view q .ascending := nofun

theorem permits_descending_iff {view : SortView} {q : Path} :
    Permits view q .descending ↔ ¬ view.ascendingOnly q = true := by
  rw [Permits, Bool.not_eq_true]
  exact forall_prop_of_true rfl

theorem permits_all_iff {view : SortView} {q : Path} :
    (∀ d, Permits view q d) ↔ ¬ view.ascendingOnly q = true := by
  rw [← permits_descending_iff]
  constructor
  · intro h
    exact h _
  · intro h d
    cases d with
    | ascending => exact permits_ascending view q
    | descending => exact h

theorem orderAccepted_text_iff {env : Environment} {view : SortView} {q : Path} {s : String}
    {d : Direction} (h : d.Spelled s) (ha : env.isAsync (.text s) = false) :
    OrderAccepted env view q (some (.text s)) ↔ Permits view q d := by
  constructor
  · intro ⟨_, ho⟩
    cases ho with
    | denoted _ hd hp => rwa [(Direction.denotes_text_iff h).1 hd] at hp
    | both hs => simp [isIndirect] at hs
  · intro hp
    exact ⟨ha, .denoted (.inl rfl) ((Direction.denotes_text_iff h).2 rfl) hp⟩

/-- A call that denotes nothing has to allow for both directions. -/
theorem orderAccepted_call_iff {env : Environment} {view : SortView} {q : Path} {f : String}
    {args : List Expr} (ha : env.isAsync (.call f args) = false)
    (hn : env.constant? (.call f args) = none) :
    OrderAccepted env view q (some (.call f args)) ↔ ∀ d, Permits view q d := by
  constructor
  · intro ⟨_, ho⟩
    cases ho with
    | denoted _ hd _ =>
      cases hd with
      | said hs => nomatch hs
      | constant _ _ hs => simp [hn] at hs
    | both _ hp => exact hp
  · intro hp
    exact ⟨ha, .both rfl hp⟩

section
variable {cx : Context} {function : String} {required : Capabilities} {source value : Expr}
  {order : Option Expr}

theorem sort_of_resolved {view : SortView} (hv : Answers cx required source view) (callee : String)
    (orders : List Expr) :
    Decision.sort cx function required ⟨callee, source :: value :: orders⟩ =
      .ok (Decision.sortAt cx function view value orders.head?) := by
  obtain ⟨p, hp, rfl⟩ := answers_iff.1 hv
  rw [Decision.sort]
  simp only [hp]

theorem sortAt_of_accepted {view : SortView} {column : Path}
    (hc : Resolves cx.environment value column) (hs : view.supports column .sort = true)
    (ho : OrderAccepted cx.environment view column order) :
    Decision.sortAt cx function view value order = ⟨true, []⟩ := by
  rw [Decision.sortAt]
  simp only [sortColumn?_eq_some_iff.2 hc, if_pos hs]
  cases order with
  | none => rfl
  | some e =>
    simp only [orderRefusal?_of_accepted ho]
    rfl

theorem sort_of_accepted (callee : String) {orders : List Expr}
    (h : Accepted cx required source value orders.head?) :
    Decision.sort cx function required ⟨callee, source :: value :: orders⟩ = .ok ⟨true, []⟩ := by
  obtain ⟨view, column, hv, hc, hs, ho⟩ := h
  rw [sort_of_resolved hv, sortAt_of_accepted hc hs ho]

theorem sort_of_refused (callee : String) {orders : List Expr} {e : Event}
    (h : Refused cx function required source value orders.head? e) :
    Decision.sort cx function required ⟨callee, source :: value :: orders⟩ = .ok ⟨false, [e]⟩ := by
  -- one case for each step that may fail; the steps before it hold and lead the decision there
  cases h with
  | @source bound h hb =>
    cases hr : cx.resolve source .sort required with
    | resolved p => exact absurd (answers_iff.2 ⟨p, hr, rfl⟩) (h _)
    | unavailable bound' =>
      have he : bound' = bound := by
        rw [Bool.eq_iff_iff, hb]
        exact entityBound_of_unavailable hr
      rw [Decision.sort]
      simp only [hr, he]
      rfl
  | value hv h =>
    have hn : Decision.sortColumn? cx.environment value = none :=
      Option.eq_none_iff_forall_ne_some.2 fun c hc => h c (sortColumn?_eq_some_iff.1 hc)
    rw [sort_of_resolved hv, Decision.sortAt]
    simp only [hn]
    rfl
  | column hv hc h =>
    rw [sort_of_resolved hv, Decision.sortAt]
    simp only [sortColumn?_eq_some_iff.2 hc, h]
    rfl
  | order hv hc hs he h =>
    rw [sort_of_resolved hv, Decision.sortAt, he]
    simp only [sortColumn?_eq_some_iff.2 hc, if_pos hs, orderRefusal?_of_refused h]
    rfl

theorem accepted_or_refused (cx : Context) (function : String) (required : Capabilities)
    (source value : Expr) (order : Option Expr) :
    Accepted cx required source value order ∨
      ∃ e, Refused cx function required source value order e := by
  -- in the order of the steps: what a step finds is what the next one starts from
  by_cases hv : ∃ view, Answers cx required source view
  · obtain ⟨view, hv⟩ := hv
    by_cases hc : ∃ column, Resolves cx.environment value column
    · obtain ⟨column, hc⟩ := hc
      cases hs : view.supports column .sort with
      | false => exact .inr ⟨_, .column hv hc hs⟩
      | true =>
        cases order with
        | none => exact .inl ⟨view, column, hv, hc, hs, nofun⟩
        | some e =>
          rcases order_cases cx.environment view column e with ho | ⟨status, ho⟩
          · exact .inl ⟨view, column, hv, hc, hs, ho⟩
          · exact .inr ⟨_, .order hv hc hs rfl ho⟩
    · exact .inr ⟨_, .value hv fun c h => hc ⟨c, h⟩⟩
  · classical
    exact .inr ⟨_, .source (fun view h => hv ⟨view, h⟩)
      (decide_eq_true_iff (p := EntityBound cx source))⟩

theorem not_accepted_of_refused {e : Event}
    (h : Refused cx function required source value order e) :
    ¬ Accepted cx required source value order := by
  intro ha
  have hr : Decision.sort cx function required ⟨"", source :: value :: order.toList⟩ =
      .ok ⟨false, [e]⟩ := by
    apply sort_of_refused
    rwa [Option.head?_toList]
  rw [sort_of_accepted "" (by rwa [Option.head?_toList])] at hr
  simp at hr

theorem sort_delegable_iff (cx : Context) (function : String) (required : Capabilities)
    (callee : String) (source value : Expr) (orders : List Expr) :
    ∃ d, Decision.sort cx function required ⟨callee, source :: value :: orders⟩ = .ok d ∧
      (d.delegable = true ↔ Accepted cx required source value orders.head?) := by
  rcases accepted_or_refused cx function required source value orders.head? with h | ⟨e, h⟩
  · exact ⟨_, sort_of_accepted callee h, iff_of_true rfl h⟩
  · exact ⟨_, sort_of_refused callee h, iff_of_false (by simp) (not_accepted_of_refused h)⟩

theorem refused_unique {e e' : Event} (h : Refused cx function required source value order e)
    (h' : Refused cx function required source value order e') : e = e' := by
  rw [← Option.head?_toList (o := order)] at h h'
  have hd := (sort_of_refused "" h).symm.trans (sort_of_refused "" h')
  simpa using hd

end

theorem exists_args_of_arity {args : List Expr} (h : 2 ≤ args.length) (h' : args.length ≤ 3) :
    ∃ source value orders, args = source :: value :: orders ∧ orders.length ≤ 1 := by
  match args with
  | [] | [_] => simp at h
  | source :: value :: orders =>
    refine ⟨source, value, orders, rfl, ?_⟩
    simp only [List.length_cons] at h'
    omega

theorem decide_builtins_sort (cx : Context) (source value : Expr) {orders : List Expr}
    (ho : orders.length ≤ 1) :
    Catalog.builtins.decide cx ⟨"Sort", source :: value :: orders⟩ =
      Decision.sort cx "Sort" (.singleton .read) ⟨"Sort", source :: value :: orders⟩ := by
  have ha : Function.sort.acceptsArity (source :: value :: orders).length = true := by
    have hlength : (source :: value :: orders).length = orders.length + 2 := rfl
    rw [Function.acceptsArity, hlength, Bool.and_eq_true]
    constructor
    · exact decide_eq_true (Nat.le_add_left 2 _)
    · exact decide_eq_true (Nat.add_le_add_right ho 2)
  exact if_pos ha

theorem decide_builtins_unknown (cx : Context) {call : Call} (hf : call.function ≠ "Sort") :
    Catalog.builtins.decide cx call = .ok ⟨false, []⟩ := by
  have hn : Catalog.builtins.find? call.function = none := by
    change List.find? _ [Function.sort] = none
    simpa [Function.sort] using hf.symm
  rw [Catalog.decide, hn]

section
variable {cx : Context} {source value : Expr} {order : Option Expr}

theorem length_toList_le (order : Option Expr) : order.toList.length ≤ 1 := by
  cases order <;> simp

theorem decide_of_accepted (h : Accepted cx (.singleton .read) source value order) :
    Catalog.builtins.decide cx ⟨"Sort", source :: value :: order.toList⟩ = .ok ⟨true, []⟩ := by
  rw [decide_builtins_sort cx source value (length_toList_le order)]
  apply sort_of_accepted
  rwa [Option.head?_toList]

theorem decide_of_refused {e : Event}
    (h : Refused cx "Sort" (.singleton .read) source value order e) :
    Catalog.builtins.decide cx ⟨"Sort", source :: value :: order.toList⟩ = .ok ⟨false, [e]⟩ := by
  rw [decide_builtins_sort cx source value (length_toList_le order)]
  apply sort_of_refused
  rwa [Option.head?_toList]

end

def Delegable (cx : Context) (call : Call) : Prop :=
  ∃ d, Catalog.builtins.decide cx call = .ok d ∧ d.delegable = true

theorem delegable_iff {cx : Context} {call : Call} : Delegable cx call ↔
    ∃ source value orders, call = ⟨"Sort", source :: value :: orders⟩ ∧ orders.length ≤ 1 ∧
      Accepted cx (.singleton .read) source value orders.head? := by
  obtain ⟨function, args⟩ := call
  constructor
  · rintro ⟨d, hd, ha⟩
    obtain rfl : function = "Sort" := by
      refine Decidable.byContradiction fun hn => ?_
      rw [decide_builtins_unknown cx hn] at hd
      obtain rfl := Except.ok.inj hd
      simp at ha
    have hr : Function.sort.acceptsArity args.length = true := by
      refine Decidable.byContradiction fun hn => ?_
      have he : Catalog.builtins.decide cx ⟨"Sort", args⟩ =
        .error (.arity "Sort" args.length 2 3) := if_neg hn
      simp [he] at hd
    -- a fitting count leaves two arguments and at most an order
    obtain ⟨hl, hl'⟩ := (Bool.and_eq_true _ _).mp hr
    obtain ⟨source, value, orders, rfl, ho⟩ :=
      exists_args_of_arity (of_decide_eq_true hl) (of_decide_eq_true hl')
    rw [decide_builtins_sort cx source value ho] at hd
    obtain ⟨d', hd', hiff⟩ :=
      sort_delegable_iff cx "Sort" (.singleton .read) "Sort" source value orders
    obtain rfl := Except.ok.inj (hd.symm.trans hd')
    exact ⟨source, value, orders, rfl, ho, hiff.1 ha⟩
  · rintro ⟨source, value, orders, he, ho, ha⟩
    refine ⟨⟨true, []⟩, ?_, rfl⟩
    rw [he, decide_builtins_sort cx source value ho]
    exact sort_of_accepted "Sort" ha

/-- For any function that is decided as `Sort` is, whatever it requires, a decision accepts exactly
when the six steps hold, and else reports the one event of the first step that fails. -/
theorem check_follows_rule (cx : Context) (f : Function) (hf : f.check = Decision.sort)
    (callee : String) (source value : Expr) (orders : List Expr) :
    ∃ d, f.check cx f.name f.required ⟨callee, source :: value :: orders⟩ = .ok d ∧
      (d.delegable = true ↔ Accepted cx f.required source value orders.head?) ∧
      (d.delegable = true ↔ d.events = []) ∧
      (∀ e, d.events = [e] ↔ Refused cx f.name f.required source value orders.head? e) ∧
      d.events.length ≤ 1 := by
  rw [hf]
  rcases accepted_or_refused cx f.name f.required source value orders.head? with h | ⟨e, h⟩
  · refine ⟨_, sort_of_accepted callee h, iff_of_true rfl h, iff_of_true rfl rfl, fun e => ?_,
      Nat.zero_le 1⟩
    apply iff_of_false
    · simp
    · intro hr
      exact not_accepted_of_refused hr h
  · have hn := not_accepted_of_refused h
    refine ⟨_, sort_of_refused callee h, iff_of_false (by simp) hn, by simp, fun e' => ?_,
      Nat.le_refl 1⟩
    constructor
    · intro he
      obtain rfl : e = e' := by simpa using he
      exact h
    · intro he
      rw [refused_unique h he]

def ascendingEntity : Entity :=
  ⟨.singleton .arrayLookup, ⟨fun _ c => c == .sort, fun _ => true⟩⟩

def ascendingContext : Context where
  environment :=
    ⟨fun _ => false, fun _ => some (.column "Amount"), fun _ => none, fun _ => some "T"⟩
  registry := Registry.putEntity SortedMap.empty "T" ascendingEntity
  features := ⟨true⟩

theorem check_follows_rule_descending : Function.sort.check = Decision.sort ∧
    ∃ d, Function.sort.check ascendingContext "Sort" (.singleton .read)
        ⟨"Sort", [.name "T", .name "Amount", .text "DESC"]⟩ = .ok d ∧
      d.events = [event "Sort" .sortOrderNotSupportedByColumn (.text "DESC") true] := by
  refine ⟨rfl, ?_⟩
  obtain ⟨d, hd, -, -, hr, -⟩ := check_follows_rule ascendingContext Function.sort rfl "Sort"
    (.name "T") (.name "Amount") [.text "DESC"]
  refine ⟨d, hd, (hr _).2 ?_⟩
  have hv : Answers ascendingContext Function.sort.required (.name "T") ascendingEntity.sorting :=
    .entity ⟨"T", rfl, rfl⟩ rfl ⟨rfl, (FlagSet.contains_singleton _ _).2 rfl⟩
  have hc : Resolves ascendingContext.environment (.name "Amount") (.column "Amount") :=
    ⟨⟨"Amount", rfl⟩, rfl, rfl⟩
  have hd : Direction.Denotes ascendingContext.environment (.text "DESC") .descending :=
    .said (.text (Direction.ofToken?_eq_some_iff.1 (by decide)))
  exact .order hv hc rfl rfl (.denoted rfl rfl hd fun hp => absurd (hp rfl) (by decide))

end SortRule

end Delegation
