import Delegation.Proofs.SortRule

namespace Delegation

theorem Direction.spelled_name (d : Direction) : d.Spelled d.name := by
  apply ofToken?_eq_some_iff.1
  cases d <;> decide

namespace SortRule

section
variable {cx : Context} {required : Capabilities} {source value : Expr} {view view' : SortView}
  {column column' : Path}

theorem answers_unique (h : Answers cx required source view)
    (h' : Answers cx required source view') : view = view' := by
  obtain ⟨p, hp, rfl⟩ := answers_iff.1 h
  obtain ⟨p', hp', rfl⟩ := answers_iff.1 h'
  obtain rfl := Resolution.resolved.inj (hp.symm.trans hp')
  rfl

/-- Before the order is looked at: the view answers, and it sorts the column that the value names.
-/
structure Sortable (cx : Context) (required : Capabilities) (source value : Expr) (view : SortView)
    (column : Path) : Prop where
  answers : Answers cx required source view
  resolves : Resolves cx.environment value column
  supports : view.supports column .sort = true

theorem Sortable.unique (h : Sortable cx required source value view column)
    (h' : Sortable cx required source value view' column') : view = view' ∧ column = column' := by
  have hc := h.resolves.2.2.symm.trans h'.resolves.2.2
  exact ⟨answers_unique h.answers h'.answers, Option.some.inj hc⟩

theorem accepted_iff_sortable {order : Option Expr} : Accepted cx required source value order ↔
    ∃ view column, Sortable cx required source value view column ∧
      OrderAccepted cx.environment view column order := by
  constructor
  · rintro ⟨view, column, hv, hc, hs, ho⟩
    exact ⟨view, column, ⟨hv, hc, hs⟩, ho⟩
  · rintro ⟨view, column, ⟨hv, hc, hs⟩, ho⟩
    exact ⟨view, column, hv, hc, hs, ho⟩

end

section
variable {env : Environment} {view : SortView} {column : Path} {e : Expr}

theorem orderAccepted_iff_of_direct (ha : env.isAsync e = false) (hs : isDirect e = true) :
    OrderAccepted env view column (some e) ↔
      ∃ d, Direction.ofExpr? env e = some d ∧ Permits view column d := by
  simp only [Direction.ofExpr?_eq_some_iff]
  constructor
  · rintro ⟨-, ho⟩
    cases ho with
    | denoted _ hd hp => exact ⟨_, hd, hp⟩
    | both hi => simp [not_indirect_of_direct hs] at hi
  · rintro ⟨d, hd, hp⟩
    exact ⟨ha, .denoted (.inl hs) hd hp⟩

theorem orderAccepted_iff_of_indirect (ha : env.isAsync e = false) (hs : isIndirect e = true) :
    OrderAccepted env view column (some e) ↔ (∀ d, Permits view column d) ∨
      ∃ d, Direction.ofExpr? env e = some d ∧ Permits view column d := by
  simp only [Direction.ofExpr?_eq_some_iff]
  constructor
  · rintro ⟨-, ho⟩
    cases ho with
    | denoted _ hd hp => exact .inr ⟨_, hd, hp⟩
    | both _ hp => exact .inl hp
  · rintro (hp | ⟨d, hd, hp⟩)
    · exact ⟨ha, .both hs hp⟩
    · exact ⟨ha, .denoted (.inr hs) hd hp⟩

end

section
variable {cx : Context} {source value : Expr}

theorem delegable_sort_iff (order : Option Expr) :
    Delegable cx ⟨"Sort", source :: value :: order.toList⟩ ↔
      ∃ view column, Sortable cx (.singleton .read) source value view column ∧
        OrderAccepted cx.environment view column order := by
  rw [← accepted_iff_sortable, Delegable]
  rcases accepted_or_refused cx "Sort" (.singleton .read) source value order with h | ⟨e, h⟩
  · exact iff_of_true ⟨_, decide_of_accepted h, rfl⟩ h
  · refine iff_of_false ?_ (not_accepted_of_refused h)
    rw [decide_of_refused h]
    simp

theorem delegable_word_iff {d : Direction} (ha : cx.environment.isAsync (.text d.name) = false) :
    Delegable cx ⟨"Sort", [source, value, .text d.name]⟩ ↔
      ∃ view column, Sortable cx (.singleton .read) source value view column ∧
        Permits view column d := by
  refine (delegable_sort_iff (some (.text d.name))).trans ?_
  simp only [orderAccepted_text_iff d.spelled_name ha]

theorem delegable_denoted_iff (ht : ∀ text, cx.environment.isAsync (.text text) = false)
    (order : Expr) :
    (∃ view column, Sortable cx (.singleton .read) source value view column ∧
      ∃ d, Direction.ofExpr? cx.environment order = some d ∧ Permits view column d) ↔
    ∃ d, Direction.ofExpr? cx.environment order = some d ∧
      Delegable cx ⟨"Sort", [source, value, .text d.name]⟩ := by
  simp only [delegable_word_iff (ht _)]
  constructor
  · rintro ⟨view, column, hs, d, hd, hp⟩
    exact ⟨d, hd, view, column, hs, hp⟩
  · rintro ⟨d, hd, view, column, hs, hp⟩
    exact ⟨view, column, hs, d, hd, hp⟩

theorem delegable_both_iff (ht : ∀ text, cx.environment.isAsync (.text text) = false) :
    (∃ view column, Sortable cx (.singleton .read) source value view column ∧
      ∀ d, Permits view column d) ↔
    ∀ d : Direction, Delegable cx ⟨"Sort", [source, value, .text d.name]⟩ := by
  simp only [delegable_word_iff (ht _)]
  constructor
  · rintro ⟨view, column, hs, hp⟩ d
    exact ⟨view, column, hs, hp d⟩
  · intro h
    obtain ⟨view, column, hs, hp⟩ := h .descending
    refine ⟨view, column, hs, fun d => ?_⟩
    obtain ⟨view', column', hs', hp'⟩ := h d
    obtain ⟨rfl, rfl⟩ := hs.unique hs'
    exact hp'

theorem delegable_name_iff (ht : ∀ text, cx.environment.isAsync (.text text) = false) {n : String}
    (hn : cx.environment.isAsync (.name n) = false) :
    Delegable cx ⟨"Sort", [source, value, .name n]⟩ ↔
      ∃ d, Direction.ofExpr? cx.environment (.name n) = some d ∧
        Delegable cx ⟨"Sort", [source, value, .text d.name]⟩ := by
  rw [← delegable_denoted_iff ht]
  refine (delegable_sort_iff (some (.name n))).trans ?_
  simp only [orderAccepted_iff_of_direct hn rfl]

theorem delegable_indirect_iff (ht : ∀ text, cx.environment.isAsync (.text text) = false)
    {order : Expr} (hi : isIndirect order = true) (ho : cx.environment.isAsync order = false) :
    Delegable cx ⟨"Sort", [source, value, order]⟩ ↔
      (∀ d : Direction, Delegable cx ⟨"Sort", [source, value, .text d.name]⟩) ∨
        ∃ d, Direction.ofExpr? cx.environment order = some d ∧
          Delegable cx ⟨"Sort", [source, value, .text d.name]⟩ := by
  rw [← delegable_denoted_iff ht, ← delegable_both_iff ht]
  refine (delegable_sort_iff (some order)).trans ?_
  simp only [orderAccepted_iff_of_indirect ho hi, and_or_left, exists_or]

theorem delegable_ascending_of (ht : ∀ text, cx.environment.isAsync (.text text) = false)
    {d : Direction} (h : Delegable cx ⟨"Sort", [source, value, .text d.name]⟩) :
    Delegable cx ⟨"Sort", [source, value, .text Direction.ascending.name]⟩ := by
  obtain ⟨view, column, hs, -⟩ := (delegable_word_iff (ht _)).1 h
  exact (delegable_word_iff (ht _)).2 ⟨view, column, hs, permits_ascending view column⟩

/-- What refuses a call without an order refuses it with any. -/
theorem refused_of_refused_none {function : String} {required : Capabilities} {e : Event}
    (h : Refused cx function required source value none e) (order : Option Expr) :
    Refused cx function required source value order e := by
  cases h with
  | source h hb => exact .source h hb
  | value hv h => exact .value hv h
  | column hv hc h => exact .column hv hc h
  | order _ _ _ he => simp at he

theorem decide_without_order
    (ha : cx.environment.isAsync (.text Direction.ascending.name) = false) :
    ∃ d, Catalog.builtins.decide cx ⟨"Sort", [source, value]⟩ = .ok d ∧
      Catalog.builtins.decide cx
        ⟨"Sort", [source, value, .text Direction.ascending.name]⟩ = .ok d := by
  rcases accepted_or_refused cx "Sort" (.singleton .read) source value none with h | ⟨e, h⟩
  · obtain ⟨view, column, hs, -⟩ := accepted_iff_sortable.1 h
    have ho := (orderAccepted_text_iff Direction.ascending.spelled_name ha).2
      (permits_ascending view column)
    exact ⟨_, decide_of_accepted h,
      decide_of_accepted (accepted_iff_sortable.2 ⟨view, column, hs, ho⟩)⟩
  · have hr := refused_of_refused_none h (some (.text Direction.ascending.name))
    exact ⟨_, decide_of_refused h, decide_of_refused hr⟩

end

/-- Where texts are not asynchronous, the decisions on calls of `Sort` with one source and one value
agree with those on the words for the directions. Without an order the decision, event included, is
the one on ascending order. A member or a call is accepted when both words are, or when it denotes a
direction whose word is; a name only when it denotes such a direction. And descending order is never
accepted where ascending order is not. -/
theorem orders_agree (cx : Context) (ht : ∀ text, cx.environment.isAsync (.text text) = false)
    (source value : Expr) :
    (∃ d, Catalog.builtins.decide cx ⟨"Sort", [source, value]⟩ = .ok d ∧
      Catalog.builtins.decide cx ⟨"Sort", [source, value, .text "ascending"]⟩ = .ok d) ∧
    (∀ order, isIndirect order = true → cx.environment.isAsync order = false →
      (Delegable cx ⟨"Sort", [source, value, order]⟩ ↔
        (Delegable cx ⟨"Sort", [source, value, .text "ascending"]⟩ ∧
          Delegable cx ⟨"Sort", [source, value, .text "descending"]⟩) ∨
        ∃ d, Direction.ofExpr? cx.environment order = some d ∧
          Delegable cx ⟨"Sort", [source, value, .text d.name]⟩)) ∧
    (∀ n, cx.environment.isAsync (.name n) = false →
      (Delegable cx ⟨"Sort", [source, value, .name n]⟩ ↔
        ∃ d, Direction.ofExpr? cx.environment (.name n) = some d ∧
          Delegable cx ⟨"Sort", [source, value, .text d.name]⟩)) ∧
    (Delegable cx ⟨"Sort", [source, value, .text "descending"]⟩ →
      Delegable cx ⟨"Sort", [source, value, .text "ascending"]⟩) := by
  have hwords : (∀ d : Direction, Delegable cx ⟨"Sort", [source, value, .text d.name]⟩) ↔
      Delegable cx ⟨"Sort", [source, value, .text "ascending"]⟩ ∧
        Delegable cx ⟨"Sort", [source, value, .text "descending"]⟩ := by
    constructor
    · intro h
      exact ⟨h .ascending, h .descending⟩
    · rintro ⟨ha, hd⟩ (_ | _)
      · exact ha
      · exact hd
  refine ⟨decide_without_order (ht _), fun order hi ho => ?_, fun n hn => delegable_name_iff ht hn,
    fun h => ?_⟩
  · rw [← hwords]
    exact delegable_indirect_iff ht hi ho
  · have hd : Delegable cx ⟨"Sort", [source, value, .text Direction.descending.name]⟩ := h
    exact delegable_ascending_of ht hd

def freeEntity : Entity := ⟨.singleton .arrayLookup, ⟨fun _ c => c == .sort, fun _ => false⟩⟩

def freeContext : Context :=
  { ascendingContext with
    registry := Registry.putEntity SortedMap.empty "T" freeEntity }

theorem orders_agree_call :
    (∀ text, freeContext.environment.isAsync (.text text) = false) ∧
      (∀ text, ascendingContext.environment.isAsync (.text text) = false) ∧
      isIndirect (.call "Later" []) = true ∧
      freeContext.environment.isAsync (.call "Later" []) = false ∧
      Delegable freeContext ⟨"Sort", [.name "T", .name "Amount", .call "Later" []]⟩ ∧
      ¬ Delegable ascendingContext ⟨"Sort", [.name "T", .name "Amount", .call "Later" []]⟩ ∧
      Delegable ascendingContext ⟨"Sort", [.name "T", .name "Amount", .name "Asc"]⟩ := by
  have hfree : ∀ text, freeContext.environment.isAsync (.text text) = false := fun _ => rfl
  have hasc : ∀ text, ascendingContext.environment.isAsync (.text text) = false := fun _ => rfl
  obtain ⟨-, hcall, -, -⟩ := orders_agree freeContext hfree (.name "T") (.name "Amount")
  obtain ⟨-, hcall', hname, -⟩ := orders_agree ascendingContext hasc (.name "T") (.name "Amount")
  have hword : Delegable ascendingContext
      ⟨"Sort", [.name "T", .name "Amount", .text "ascending"]⟩ := ⟨_, rfl, rfl⟩
  have hrefused : ¬ Delegable ascendingContext
      ⟨"Sort", [.name "T", .name "Amount", .text "descending"]⟩ := by
    rintro ⟨d, hd, ha⟩
    obtain rfl : Decision.refuse .sortOrderNotSupportedByColumn "Sort" (.text "descending") true = d :=
      Except.ok.inj hd
    exact absurd ha (by decide)
  refine ⟨hfree, hasc, rfl, rfl, (hcall _ rfl rfl).2 (.inl ⟨⟨_, rfl, rfl⟩, ⟨_, rfl, rfl⟩⟩), ?_,
    (hname _ rfl).2 ⟨.ascending, by decide, hword⟩⟩
  rw [hcall' _ rfl rfl]
  rintro (⟨-, h⟩ | ⟨d, hd, -⟩)
  · exact hrefused h
  · exact absurd hd (by simp [Direction.ofExpr?, Direction.ofConstant?, ascendingContext])

end SortRule

end Delegation
