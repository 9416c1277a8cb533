import Delegation.Proofs.SortGrants
import Delegation.Proofs.SortRule

namespace Delegation.SortRule
open Document

theorem callsAny_nil (e : Expr) : e.callsAny [] = false := by
  induction e using Expr.children_induction with
  | step e ih =>
    have hc : e.isCallOf [] = false := by cases e <;> rfl
    -- neither the expression nor, by induction, what is below it is such a call
    rw [Expr.callsAny_eq, hc, Bool.false_or, List.any_eq_false]
    simpa using ih

/-- A table and its columns, without asynchronous functions and constants. -/
def bareScope (table : String) (schema : Schema) : TableScope := ⟨table, schema, [], .empty⟩

/-- Nothing but this external source stands in the registry. -/
def soleSource (table : String) (schema : Schema) (source : ExternalSource) (features : Features) :
    Context :=
  ⟨(bareScope table schema).environment, Registry.putExternal SortedMap.empty source, features⟩

def defaultSource (table : String) (schema : Schema) (i : Index) : ExternalSource :=
  ⟨table, schema, .standard, i, .singleton .read, true⟩

theorem ofSpec_eq_ok {table : String} {schema : Schema} {document : Json} {source : ExternalSource}
    (h : ExternalSource.ofSpec { name := table, schema := schema, document := document } =
      .ok source) :
    ∃ i, index .standard schema document = .ok i ∧ source = defaultSource table schema i :=
  ExternalSource.ofSpec_eq_ok_iff.1 h

theorem isAsync_bareScope (table : String) (schema : Schema) (e : Expr) :
    (bareScope table schema).environment.isAsync e = false := callsAny_nil e

theorem constant?_bareScope_call (table : String) (schema : Schema) (f : String)
    (args : List Expr) :
    (bareScope table schema).environment.constant? (.call f args) = none := by
  cases args <;> rfl

theorem resolves_bareScope_iff {table : String} {schema : Schema} {column : String}
    (hc : (schema.column? column).isSome = true) {q : Path} :
    Resolves (bareScope table schema).environment (.name column) q ↔ q = .column column := by
  have hq : (bareScope table schema).environment.column? (.name column) = some (.column column) :=
    if_pos hc
  rw [Resolves, hq, isAsync_bareScope]
  simp [eq_comm]

section
variable {table : String} {schema : Schema} {i : Index} {features : Features} {column : String}

theorem registered_iff {r : Registration} :
    Registered (soleSource table schema (defaultSource table schema i) features) (.name table) r ↔
      r = ⟨none, some (defaultSource table schema i)⟩ := by
  have hn : (soleSource table schema (defaultSource table schema i) features).environment.source?
      (.name table) = some table := if_pos rfl
  have hf : (soleSource table schema (defaultSource table schema i) features).registry.find? table =
      some ⟨none, some (defaultSource table schema i)⟩ :=
    (SortedMap.get?_insert _ _ _ _).trans (if_pos rfl)
  rw [Registered]
  simp only [hn, Option.some.injEq, exists_eq_left', hf]
  exact eq_comm

theorem answers_sole_iff {view : SortView} :
    Answers (soleSource table schema (defaultSource table schema i) features) (.singleton .read)
      (.name table) view ↔ i.table.contains .sort = true ∧ view = i.sortView := by
  have hread : Offers (defaultSource table schema i) .read :=
    .inl ((FlagSet.contains_singleton _ _).2 rfl)
  have hn : ¬ (defaultSource table schema i).declared.contains .sort = true :=
    fun h => absurd ((FlagSet.contains_singleton _ _).1 h) (by decide)
  have hsort : Offers (defaultSource table schema i) .sort ↔ i.table.contains .sort = true :=
    or_iff_right hn
  constructor
  · intro h
    cases h with
    | entity hr he _ =>
      rw [registered_iff.1 hr] at he
      simp at he
    | external hr _ hx _ ho _ =>
      rw [registered_iff.1 hr] at hx
      obtain rfl := Option.some.inj hx
      exact ⟨hsort.1 ho, rfl⟩
  · intro ⟨ht, hv⟩
    subst hv
    -- reading is declared, so only sorting has to come from the index
    refine .external (registered_iff.2 rfl) nofun rfl rfl (hsort.2 ht) fun c hc => ?_
    obtain rfl := (FlagSet.contains_singleton _ _).1 hc
    exact hread

/-- The six steps come down to what the index says of the column, and to the order. -/
theorem accepted_sole_iff {rows : SortedMap Path Grant} (hi : i = Index.ofRows rows)
    (hc : (schema.column? column).isSome = true) {order : Option Expr} :
    Accepted (soleSource table schema (defaultSource table schema i) features) (.singleton .read)
        (.name table) (.name column) order ↔
      i.supports (.column column) .sort = true ∧
        OrderAccepted (bareScope table schema).environment i.sortView (.column column) order := by
  have hv : ∀ q, i.sortView.supports q .sort = i.supports q .sort := by
    intro q
    rw [Index.supports_sortView, hi, Index.sorts_ofRows]
  constructor
  · intro ⟨view, q, ha, hr, hs, ho⟩
    obtain ⟨-, rfl⟩ := answers_sole_iff.1 ha
    obtain rfl := (resolves_bareScope_iff hc).1 hr
    exact ⟨hv _ ▸ hs, ho⟩
  · intro ⟨hs, ho⟩
    have ht : i.table.contains .sort = true := by
      subst hi
      exact Index.contains_table_of_supports hs
    have hs' := (hv (.column column)).trans hs
    exact ⟨_, _, answers_sole_iff.2 ⟨ht, rfl⟩, (resolves_bareScope_iff hc).2 rfl, hs', ho⟩

/-- Deciding this call of `Sort` gives an answer, and it is delegable exactly when `p` holds. -/
def Decides (cx : Context) (args : List Expr) (p : Prop) : Prop :=
  ∃ d, Catalog.builtins.decide cx ⟨"Sort", args⟩ = .ok d ∧ (d.delegable = true ↔ p)

theorem decides_iff_accepted {cx : Context} {source value : Expr} {orders : List Expr}
    (ho : orders.length ≤ 1) :
    Decides cx (source :: value :: orders)
      (Accepted cx (.singleton .read) source value orders.head?) := by
  rw [Decides, decide_builtins_sort cx source value ho]
  exact sort_delegable_iff cx "Sort" (.singleton .read) "Sort" source value orders

theorem decides_sole {rows : SortedMap Path Grant} (hi : i = Index.ofRows rows)
    (hc : (schema.column? column).isSome = true) (orders : List Expr) (ho : orders.length ≤ 1)
    {p : Prop} (hp : (i.supports (.column column) .sort = true ∧ OrderAccepted
      (bareScope table schema).environment i.sortView (.column column) orders.head?) ↔ p) :
    Decides (soleSource table schema (defaultSource table schema i) features)
      (.name table :: .name column :: orders) p := by
  obtain ⟨d, hd, ha⟩ := decides_iff_accepted ho
  exact ⟨d, hd, ha.trans ((accepted_sole_iff hi hc).trans hp)⟩

end

/-- With one external source, the calls of `Sort` by a top-level column follow its document.
Ascending order asks for a grant; descending order and an order that is left to a call ask for a
grant, and that nowhere it is kept to ascending order. -/
theorem sort_follows_document {table : String} {schema : Schema} {document : Json}
    {source : ExternalSource}
    (h : ExternalSource.ofSpec { name := table, schema := schema, document := document } =
      .ok source)
    {column : String} (hc : (schema.column? column).isSome = true) (features : Features) :
    Decides (soleSource table schema source features) [.name table, .name column]
        (SortGranted schema document column) ∧
      (∀ s, Direction.ascending.Spelled s →
        Decides (soleSource table schema source features) [.name table, .name column, .text s]
          (SortGranted schema document column)) ∧
      (∀ s, Direction.descending.Spelled s →
        Decides (soleSource table schema source features) [.name table, .name column, .text s]
          (SortGranted schema document column ∧ ¬ SortAscendingOnly schema document column)) ∧
      ∀ f args,
        Decides (soleSource table schema source features) [.name table, .name column, .call f args]
          (SortGranted schema document column ∧ ¬ SortAscendingOnly schema document column) := by
  obtain ⟨i, hi, rfl⟩ := ofSpec_eq_ok h
  obtain ⟨members, fs, -, -, hb⟩ := index_eq_ok_iff.1 hi
  have hgranted := supports_sort_iff hi hc
  -- the flag of the index speaks of columns that sort, and of the others it says nothing
  have hboth : (i.supports (.column column) .sort = true ∧
      ¬ i.sortView.ascendingOnly (.column column) = true) ↔
      SortGranted schema document column ∧ ¬ SortAscendingOnly schema document column := by
    rw [← hgranted]
    exact and_congr_right fun hs => not_congr (ascendingOnly_sort_iff hi hc hs)
  refine ⟨decides_sole hb.symm hc [] (Nat.zero_le 1) ?_,
    fun s hs => decides_sole hb.symm hc [_] (Nat.le_refl 1) ?_,
    fun s hs => decides_sole hb.symm hc [_] (Nat.le_refl 1) ?_,
    fun f args => decides_sole hb.symm hc [_] (Nat.le_refl 1) ?_⟩
  · rw [← hgranted]
    exact and_iff_left (permits_ascending _ _)
  · rw [← hgranted, List.head?_cons, orderAccepted_text_iff hs rfl]
    exact and_iff_left (permits_ascending _ _)
  · rw [← hboth, List.head?_cons, orderAccepted_text_iff hs rfl, permits_descending_iff]
  · have ha := isAsync_bareScope table schema (.call f args)
    have hn := constant?_bareScope_call table schema f args
    rw [← hboth, List.head?_cons, orderAccepted_call_iff ha hn, permits_all_iff]

def amounts : Schema where
  columns := [.scalar "Amount" .number false]
  wellNamed := by
    have hn : LevelNamed ["Amount"] := by decide
    exact ⟨hn, trivial, trivial⟩

def amountAscending : Json :=
  .object [("sort",
    .array [.object [("column", .string "Amount"), ("ascendingOnly", .bool true)]])]

theorem sort_follows_document_amount :
    ∃ source, ExternalSource.ofSpec
          { name := "Orders", schema := amounts, document := amountAscending } = .ok source ∧
      (amounts.column? "Amount").isSome = true ∧
      (∃ d, Catalog.builtins.decide (soleSource "Orders" amounts source ⟨false⟩)
        ⟨"Sort", [.name "Orders", .name "Amount"]⟩ = .ok d ∧ d.delegable = true) ∧
      ∃ d, Catalog.builtins.decide (soleSource "Orders" amounts source ⟨false⟩)
        ⟨"Sort", [.name "Orders", .name "Amount", .text "DESC"]⟩ = .ok d ∧ d.delegable = false := by
  obtain ⟨source, hs⟩ : ∃ source, ExternalSource.ofSpec
      { name := "Orders", schema := amounts, document := amountAscending } = .ok source := ⟨_, rfl⟩
  have hc : (amounts.column? "Amount").isSome = true := rfl
  have hl : SortListed amountAscending "Amount"
      [("column", .string "Amount"), ("ascendingOnly", .bool true)] :=
    ⟨_, rfl, List.mem_cons_self, .string "Amount", rfl, .name (.text rfl)⟩
  have hd : Direction.descending.Spelled "DESC" := Direction.ofToken?_eq_some_iff.1 (by decide)
  obtain ⟨⟨d, hplain, ha⟩, -, hdescending, -⟩ := sort_follows_document hs hc ⟨false⟩
  obtain ⟨e, htext, hb⟩ := hdescending "DESC" hd
  refine ⟨source, hs, hc, ⟨d, hplain, ha.2 (.inl ⟨_, hl⟩)⟩, e, htext, ?_⟩
  rw [← Bool.not_eq_true, hb]
  intro ⟨_, hn⟩
  exact hn (.inl ⟨_, hl, rfl⟩)

end Delegation.SortRule
