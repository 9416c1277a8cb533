import Delegation.Proofs.SortRule

namespace Delegation

def Status.position : Status → Nat
  | .noCapabilitySource => 0
  | .unsupportedSortArg | .noDelSupportByColumn => 1
  | .asyncSortOrder | .unsupportedSortOrder | .sortOrderNotSupportedByColumn => 2

def SourceHasEntity (cx : Context) (call : Call) : Prop :=
  ∃ source, call.args.head? = some source ∧ SortRule.EntityBound cx source

/-- An event that blames an argument of a call of `Sort` for its refusal. -/
structure Event.Blames (cx : Context) (call : Call) (e : Event) : Prop where
  function : e.function = "Sort"
  node : ∃ blamed, call.args[e.status.position]? = some blamed ∧ e.node = blamed.toText
  hint : e.hint = none ↔ e.status = .noCapabilitySource ∧ ¬ SourceHasEntity cx call

/-- What becomes of one query: the answer, and what is reported. -/
inductive Answered (cx : Context) (call : Call) : Bool → List Event → Prop
  | accepted (hf : call.function = "Sort") : Answered cx call true []
  | refused {e} (hf : call.function = "Sort") (he : e.Blames cx call) : Answered cx call false [e]
  | unknown (hf : call.function ≠ "Sort") : Answered cx call false []

/-- A run of queries with the answers and all that is reported, in order. -/
inductive Answers : List (Context × Call) → List Bool → List Event → Prop
  | nil : Answers [] [] []
  | cons {cx call queries answer answers events later}
      (h : Answered cx call answer events) (hr : Answers queries answers later) :
      Answers ((cx, call) :: queries) (answer :: answers) (events ++ later)

def Call.SortArity (call : Call) : Prop :=
  call.function = "Sort" → call.args.length = 2 ∨ call.args.length = 3

namespace SortRule
variable {cx : Context} {source value : Expr} {orders : List Expr}

theorem orderRefused_position {env : Environment} {view : SortView} {column : Path} {e : Expr}
    {status : Status} (h : OrderRefused env view column e status) : status.position = 2 := by
  cases h <;> rfl

theorem blames_of_refused {required : Capabilities} {e : Event}
    (h : Refused cx "Sort" required source value orders.head? e) :
    e.Blames cx ⟨"Sort", source :: value :: orders⟩ := by
  cases h with
  | @source bound h hb =>
    refine ⟨rfl, ⟨source, rfl, rfl⟩, ?_⟩
    have hs : SourceHasEntity cx ⟨"Sort", source :: value :: orders⟩ ↔ EntityBound cx source := by
      simp [SourceHasEntity]
    rw [hs, ← hb]
    cases bound <;> simp [event]
  | value hv h => exact ⟨rfl, ⟨value, rfl, rfl⟩, by simp [event]⟩
  | column hv hc h => exact ⟨rfl, ⟨value, rfl, rfl⟩, by simp [event]⟩
  | @order _ _ e status hv hc hs he h =>
    have hp := orderRefused_position h
    have hn : status ≠ .noCapabilitySource := by
      rintro rfl
      simp [Status.position] at hp
    refine ⟨rfl, ⟨e, ?_, rfl⟩, by simp [event, hn]⟩
    change (source :: value :: orders)[status.position]? = some e
    rw [hp, ← he, List.head?_eq_getElem?]
    rfl

end SortRule

namespace Catalog

theorem decide_answered (cx : Context) {call : Call} (ha : call.SortArity) :
    ∃ d, builtins.decide cx call = .ok d ∧ Answered cx call d.delegable d.events := by
  by_cases hf : call.function = "Sort"
  · obtain ⟨function, args⟩ := call
    obtain rfl : function = "Sort" := hf
    have hl : 2 ≤ args.length ∧ args.length ≤ 3 := by
      rcases ha rfl with h | h <;> simp only at h <;> omega
    obtain ⟨source, value, orders, rfl, ho⟩ := SortRule.exists_args_of_arity hl.1 hl.2
    rw [SortRule.decide_builtins_sort cx source value ho]
    rcases SortRule.accepted_or_refused cx "Sort" (.singleton .read) source value orders.head? with
      h | ⟨e, h⟩
    · exact ⟨_, SortRule.sort_of_accepted "Sort" h, .accepted rfl⟩
    · exact ⟨_, SortRule.sort_of_refused "Sort" h, .refused rfl (SortRule.blames_of_refused h)⟩
  · exact ⟨_, SortRule.decide_builtins_unknown cx hf, .unknown hf⟩

theorem decideAll_cons {c : Catalog} {sink sink' : List Event} {cx : Context} {call : Call}
    {d : Decision} {r : List (Context × Call)} {answers : List Bool}
    (hd : c.decide cx call = .ok d) (hr : c.decideAll (sink ++ d.events) r = .ok (answers, sink')) :
    c.decideAll sink ((cx, call) :: r) = .ok (d.delegable :: answers, sink') := by
  have hs : c.decideInto sink cx call = .ok (d.delegable, sink ++ d.events) := by
    rw [decideInto, hd]
    rfl
  simp only [decideAll, hs, bind, Except.bind, hr, pure, Except.pure]

/-- A run of decisions of the built-in functions through one sink. The contexts may differ in
everything from call to call. All calls are answered, and the sink ends with what it began with,
followed by one event for each call of `Sort` that was refused and by nothing else. -/
theorem decideAll_reports (queries : List (Context × Call)) (h : ∀ q ∈ queries, q.2.SortArity)
    (sink : List Event) :
    ∃ answers events, builtins.decideAll sink queries = .ok (answers, sink ++ events) ∧
      Answers queries answers events := by
  induction queries generalizing sink with
  | nil => exact ⟨[], [], by rw [List.append_nil]; rfl, .nil⟩
  | cons q r ih =>
    obtain ⟨cx, call⟩ := q
    obtain ⟨ha, hr⟩ := List.forall_mem_cons.1 h
    obtain ⟨d, hd, hanswered⟩ := decide_answered cx ha
    obtain ⟨answers, events, hrun, hall⟩ := ih hr (sink ++ d.events)
    refine ⟨d.delegable :: answers, d.events ++ events, ?_, .cons hanswered hall⟩
    rw [decideAll_cons hd hrun, List.append_assoc]

def mixedQueries : List (Context × Call) :=
  [(SortRule.ascendingContext, ⟨"Sort", [.name "T", .name "Amount", .text "desc"]⟩),
    (SortRule.ascendingContext, ⟨"Sort", [.name "T", .name "Amount"]⟩),
    (SortRule.ascendingContext, ⟨"Filter", [.name "T"]⟩),
    ({ SortRule.ascendingContext with registry := SortedMap.empty },
      ⟨"Sort", [.name "T", .name "Amount"]⟩)]

theorem decideAll_reports_mixed :
    (∀ q ∈ mixedQueries, q.2.SortArity) ∧
      ∃ e e', builtins.decideAll [] mixedQueries = .ok ([false, true, false, false], [e, e']) ∧
        Answers mixedQueries [false, true, false, false] [e, e'] ∧ e.node = "\"desc\"" ∧
        e'.status = .noCapabilitySource ∧ e'.hint = none := by
  have h : ∀ q ∈ mixedQueries, q.2.SortArity := by
    simp [mixedQueries, Call.SortArity]
  have hrun : builtins.decideAll [] mixedQueries =
      .ok ([false, true, false, false],
        [SortRule.event "Sort" .sortOrderNotSupportedByColumn (.text "desc") true,
          SortRule.event "Sort" .noCapabilitySource (.name "T") false]) := rfl
  obtain ⟨answers, events, hd, ha⟩ := decideAll_reports mixedQueries h []
  rw [hrun] at hd
  obtain ⟨rfl, rfl⟩ : _ = answers ∧ _ = events := by simpa using hd
  exact ⟨h, _, _, hrun, ha, rfl, rfl, rfl⟩

end Catalog

end Delegation
