import Delegation.Proofs.ExplicitOrders

namespace Delegation

/-- The part stands somewhere in an expression: as the whole of it, left of a point, among the
arguments of a call or on either side of an operator. -/
inductive Expr.Occurs (part : Expr) : Expr → Prop
  | here : Occurs part part
  | member {left right} (h : Occurs part left) : Occurs part (.member left right)
  | argument {f args a} (ha : a ∈ args) (h : Occurs part a) : Occurs part (.call f args)
  | left {op left right} (h : Occurs part left) : Occurs part (.binary op left right)
  | right {op left right} (h : Occurs part right) : Occurs part (.binary op left right)

def Expr.ContainsCall (functions : List String) (e : Expr) : Prop :=
  ∃ f args, f ∈ functions ∧ (Expr.call f args).Occurs e

namespace Expr

theorem occurs_iff {part e : Expr} :
    part.Occurs e ↔ e = part ∨ ∃ c ∈ e.children, part.Occurs c := by
  constructor
  · intro h
    cases h with
    | here => exact .inl rfl
    | member h => exact .inr ⟨_, List.mem_singleton_self _, h⟩
    | argument ha h => exact .inr ⟨_, ha, h⟩
    | left h => exact .inr ⟨_, List.mem_cons_self, h⟩
    | right h => exact .inr ⟨_, List.mem_cons_of_mem _ (List.mem_singleton_self _), h⟩
  · rintro (rfl | ⟨c, hc, h⟩)
    · exact .here
    · cases e with
      | member left name => exact .member (List.mem_singleton.1 hc ▸ h)
      | call f args => exact .argument hc h
      | binary op left right =>
        rcases List.mem_cons.1 hc with rfl | hc
        · exact .left h
        · exact .right (List.mem_singleton.1 hc ▸ h)
      | _ => nomatch hc

variable {functions : List String}

theorem isCallOf_iff {e : Expr} :
    e.isCallOf functions = true ↔ ∃ f args, f ∈ functions ∧ e = .call f args := by
  cases e <;> simp [isCallOf]

theorem containsCall_iff {e : Expr} : e.ContainsCall functions ↔
    e.isCallOf functions = true ∨ ∃ c ∈ e.children, c.ContainsCall functions := by
  simp only [ContainsCall, isCallOf_iff, occurs_iff (e := e)]
  constructor
  · rintro ⟨f, args, hf, rfl | ⟨c, hc, h⟩⟩
    · exact .inl ⟨f, args, hf, rfl⟩
    · exact .inr ⟨c, hc, f, args, hf, h⟩
  · rintro (⟨f, args, hf, rfl⟩ | ⟨c, hc, f, args, hf, h⟩)
    · exact ⟨f, args, hf, .inl rfl⟩
    · exact ⟨f, args, hf, .inr ⟨c, hc, h⟩⟩

theorem callsAny_iff (e : Expr) : e.callsAny functions = true ↔ e.ContainsCall functions := by
  induction e using children_induction with
  | step e ih =>
    rw [callsAny_eq, Bool.or_eq_true, List.any_eq_true, containsCall_iff]
    exact or_congr_right (exists_congr fun c => and_congr_right (ih c))

end Expr

theorem TableScope.isAsync_iff (s : TableScope) (e : Expr) :
    s.environment.isAsync e = true ↔ e.ContainsCall s.asyncFunctions :=
  Expr.callsAny_iff e

namespace SortRule
variable {cx : Context} {source value order : Expr} {view : SortView} {column : Path}

/-- Once the column is found to sort, the order is refused for being asynchronous exactly when it is
so. -/
theorem decide_async_iff (hs : Sortable cx (.singleton .read) source value view column) :
    Catalog.builtins.decide cx ⟨"Sort", [source, value, order]⟩ =
        .ok ⟨false, [event "Sort" .asyncSortOrder order true]⟩ ↔
      cx.environment.isAsync order = true := by
  have hrefused : ∀ {status}, OrderRefused cx.environment view column order status →
      Catalog.builtins.decide cx ⟨"Sort", [source, value, order]⟩ =
        .ok ⟨false, [event "Sort" status order true]⟩ := fun h =>
    decide_of_refused (.order hs.answers hs.resolves hs.supports rfl h)
  constructor
  · intro h
    -- an accepted order reports nothing, and a refused one its own status
    rcases order_cases cx.environment view column order with ho | ⟨status, ho⟩
    · have ha := decide_of_accepted (accepted_iff_sortable.2 ⟨view, column, hs, ho⟩)
      simpa using ha.symm.trans h
    · obtain rfl : status = .asyncSortOrder := by
        simpa [event] using (hrefused ho).symm.trans h
      cases ho with
      | async ha => exact ha
  · intro ha
    exact hrefused (.async ha)

end SortRule

/-- With the functions of a table scope, an expression is asynchronous exactly when a call of an
asynchronous function stands somewhere in it. So where a column sorts, an order argument of any
shape is refused as asynchronous exactly when there is such a call in it. -/
theorem async_calls_taint (scope : TableScope) :
    (∀ e, scope.environment.isAsync e = true ↔
      ∃ f args, f ∈ scope.asyncFunctions ∧ (Expr.call f args).Occurs e) ∧
    ∀ registry features source value view column,
      SortRule.Sortable ⟨scope.environment, registry, features⟩ (.singleton .read) source value view
        column →
      ∀ order, Catalog.builtins.decide ⟨scope.environment, registry, features⟩
          ⟨"Sort", [source, value, order]⟩ =
            .ok ⟨false, [SortRule.event "Sort" .asyncSortOrder order true]⟩ ↔
        ∃ f args, f ∈ scope.asyncFunctions ∧ (Expr.call f args).Occurs order := by
  refine ⟨scope.isAsync_iff, fun registry features source value view column hs order => ?_⟩
  rw [SortRule.decide_async_iff hs]
  exact scope.isAsync_iff order

def fetchScope : TableScope where
  table := "T"
  schema :=
    ⟨[.scalar "Price" .number false], ⟨by decide, trivial, trivial⟩⟩
  asyncFunctions := ["Fetch"]
  constants := .empty

def fetchContext : Context :=
  ⟨fetchScope.environment, SortRule.freeContext.registry, ⟨true⟩⟩

/-- The call stands deep inside, and the whole is no order at all. -/
def taintedOrder : Expr :=
  .binary "&" (.truth true)
    (.member (.call "Wrap" [.text "x", .call "Fetch" [.name "Price"]]) "Result")

theorem async_calls_taint_nested :
    SortRule.Sortable fetchContext (.singleton .read) (.name "T") (.name "Price")
        SortRule.freeEntity.sorting (.column "Price") ∧
      fetchContext.environment.isAsync taintedOrder = true ∧
      Catalog.builtins.decide fetchContext ⟨"Sort", [.name "T", .name "Price", taintedOrder]⟩ =
        .ok ⟨false, [SortRule.event "Sort" .asyncSortOrder taintedOrder true]⟩ := by
  obtain ⟨hasync, hdecide⟩ := async_calls_taint fetchScope
  have hv : SortRule.Answers fetchContext (.singleton .read) (.name "T")
      SortRule.freeEntity.sorting :=
    .entity ⟨"T", rfl, rfl⟩ rfl ⟨rfl, (FlagSet.contains_singleton _ _).2 rfl⟩
  have hs : SortRule.Sortable fetchContext (.singleton .read) (.name "T") (.name "Price")
      SortRule.freeEntity.sorting (.column "Price") := ⟨hv, ⟨⟨"Price", rfl⟩, rfl, rfl⟩, rfl⟩
  have ho : ∃ f args, f ∈ fetchScope.asyncFunctions ∧ (Expr.call f args).Occurs taintedOrder :=
    ⟨"Fetch", _, List.mem_singleton_self _,
      .right (.member (.argument (List.mem_cons_of_mem _ List.mem_cons_self) .here))⟩
  exact ⟨hs, (hasync _).2 ho, (hdecide _ _ _ _ _ _ hs _).2 ho⟩

end Delegation
