import Delegation.Proofs.SortRule
import Mathlib.Data.List.Forall2

namespace Delegation

namespace Context

def entity? (cx : Context) (source : Expr) : Option Entity :=
  (cx.environment.source? source).bind cx.registry.entity?

def external? (cx : Context) (source : Expr) : Option ExternalSource :=
  (cx.environment.source? source).bind cx.registry.external?

theorem resolve_eq (cx : Context) (source : Expr) (c : Capability) (required : Capabilities) :
    cx.resolve source c required =
      match (cx.entity? source).filter cx.features.admits,
        (cx.external? source).filter (·.offers c required) with
      | some e, _ => .resolved (.entity e)
      | none, some x => .resolved (.external x)
      | none, none => .unavailable (cx.entity? source).isSome := by
  rw [resolve, registration?, entity?, external?]
  cases cx.environment.source? source with
  | none => rfl
  | some name =>
    simp only [Option.bind_some, Registry.entity?, Registry.external?]
    cases cx.registry.find? name <;> rfl

/-- No entity of the source can be used. -/
def NoUsableEntity (cx : Context) (source : Expr) : Prop :=
  ∀ e, cx.entity? source = some e → ¬ SortRule.Usable cx.features e

section
variable {cx : Context} {source : Expr} {c : Capability} {required : Capabilities}

theorem resolve_of_usable {e : Entity} (he : cx.entity? source = some e)
    (hu : SortRule.Usable cx.features e) :
    cx.resolve source c required = .resolved (.entity e) := by
  have hf : (cx.entity? source).filter cx.features.admits = some e :=
    Option.filter_eq_some_iff.2 ⟨he, SortRule.admits_iff.2 hu⟩
  rw [resolve_eq, hf]

theorem resolve_of_noUsableEntity (h : cx.NoUsableEntity source) (c : Capability)
    (required : Capabilities) :
    cx.resolve source c required =
      match (cx.external? source).filter (·.offers c required) with
      | some x => .resolved (.external x)
      | none => .unavailable (cx.entity? source).isSome := by
  have hf : (cx.entity? source).filter cx.features.admits = none :=
    Option.filter_eq_none_iff.2 fun e he ha => h e he (SortRule.admits_iff.1 ha)
  rw [resolve_eq, hf]
  cases (cx.external? source).filter (·.offers c required) <;> rfl

end

end Context

/-- The same event, up to the hint of an event about a missing source. -/
def Event.SameButHint (e e' : Event) : Prop :=
  e = e' ∨ (e.status = .noCapabilitySource ∧ { e with hint := e'.hint } = e')

/-- The same answer, with the same events up to such hints, or the same misuse. -/
inductive SameButHint : Except Misuse Decision → Except Misuse Decision → Prop
  | misuse (m) : SameButHint (.error m) (.error m)
  | decided {answer events events'} (h : List.Forall₂ Event.SameButHint events events') :
      SameButHint (.ok ⟨answer, events⟩) (.ok ⟨answer, events'⟩)

theorem SameButHint.refl (o : Except Misuse Decision) : SameButHint o o := by
  cases o with
  | error m => exact .misuse m
  | ok d => exact .decided (List.forall₂_same.2 fun e _ => .inl rfl)

theorem SameButHint.noCapabilitySource (function : String) (source : Expr) (bound bound' : Bool) :
    SameButHint (.ok (Decision.refuse .noCapabilitySource function source bound))
      (.ok (Decision.refuse .noCapabilitySource function source bound')) :=
  .decided (.cons (.inr ⟨rfl, rfl⟩) .nil)

namespace Decision
variable {cx cx' : Context} {function : String} {required : Capabilities} {call : Call}

theorem sort_congr (he : cx.environment = cx'.environment)
    (h : ∀ source, call.args.head? = some source →
      cx.resolve source .sort required = cx'.resolve source .sort required) :
    sort cx function required call = sort cx' function required call := by
  have hat : ∀ view value order,
      sortAt cx function view value order = sortAt cx' function view value order := by
    intro view value order
    rw [sortAt, sortAt, he]
  obtain ⟨callee, args⟩ := call
  cases args with
  | nil => rfl
  | cons source rest =>
    rw [sort, sort]
    simp only [h source rfl, hat]

theorem sort_of_unavailable {source : Expr} {bound : Bool} (hs : call.args.head? = some source)
    (h : cx.resolve source .sort required = .unavailable bound) :
    sort cx function required call = .ok (refuse .noCapabilitySource function source bound) := by
  obtain ⟨callee, args⟩ := call
  obtain ⟨rest, rfl⟩ : ∃ rest, args = source :: rest := List.head?_eq_some_iff.1 hs
  rw [sort]
  simp only [h]

/-- Where no entity can be used, only the external source counts. -/
theorem sort_sameButHint (he : cx.environment = cx'.environment)
    (hx : ∀ source, call.args.head? = some source → cx.external? source = cx'.external? source)
    (hn : ∀ source, call.args.head? = some source → cx.NoUsableEntity source)
    (hn' : ∀ source, call.args.head? = some source → cx'.NoUsableEntity source) :
    SameButHint (sort cx function required call) (sort cx' function required call) := by
  cases hs : call.args.head? with
  | none =>
    rw [sort_congr he fun source h => by simp [hs] at h]
    exact .refl _
  | some source =>
    have hr := Context.resolve_of_noUsableEntity (hn source hs) .sort required
    have hr' := Context.resolve_of_noUsableEntity (hn' source hs) .sort required
    rw [← hx source hs] at hr'
    cases ho : (cx.external? source).filter (·.offers .sort required) with
    | some x =>
      simp only [ho] at hr hr'
      have hsame : ∀ s, call.args.head? = some s →
          cx.resolve s .sort required = cx'.resolve s .sort required := by
        intro s h
        obtain rfl : source = s := Option.some.inj (hs.symm.trans h)
        rw [hr, hr']
      rw [sort_congr he hsame]
      exact .refl _
    | none =>
      simp only [ho] at hr hr'
      -- here the entities show, but only in the hint
      rw [sort_of_unavailable hs hr, sort_of_unavailable hs hr']
      exact .noCapabilitySource function source _ _

/-- A usable entity is all that counts of its source. -/
theorem sort_eq_of_usable (he : cx.environment = cx'.environment)
    (hf : cx.features = cx'.features) {e : Entity} (hu : SortRule.Usable cx.features e)
    (hb : ∀ source, call.args.head? = some source →
      cx.entity? source = some e ∧ cx'.entity? source = some e) :
    sort cx function required call = sort cx' function required call := by
  refine sort_congr he fun source hs => ?_
  obtain ⟨h, h'⟩ := hb source hs
  rw [Context.resolve_of_usable h hu, Context.resolve_of_usable h' (hf ▸ hu)]

end Decision

namespace Catalog
variable {c : Catalog} {cx cx' : Context} {call : Call}

/-- A relation that holds of both checks of a function holds of both decisions. -/
theorem decide_rel {R : Except Misuse Decision → Except Misuse Decision → Prop} (hr : ∀ o, R o o)
    (h : ∀ f ∈ c.functions,
      R (f.check cx f.name f.required call) (f.check cx' f.name f.required call)) :
    R (c.decide cx call) (c.decide cx' call) := by
  rw [decide, decide]
  cases hf : c.find? call.function with
  | none => exact hr _
  | some f =>
    by_cases ha : f.acceptsArity call.args.length = true
    · simp only [if_pos ha]
      exact h f (List.mem_of_find?_eq_some hf)
    · simp only [if_neg ha]
      exact hr _

/-- Two registries under one environment and one set of switches, for functions that are decided as
`Sort` is. Where neither has a usable entity for the call's source and both have the same external
source there, decisions agree, and so do events up to the hint of an event about a missing source.
Where both have the same usable entity there, decisions and events are equal, whatever external
source stands beside it. -/
theorem decide_separates (hc : ∀ f ∈ c.functions, f.check = Decision.sort)
    (he : cx.environment = cx'.environment) (hf : cx.features = cx'.features) (call : Call) :
    ((∀ source, call.args.head? = some source → cx.external? source = cx'.external? source ∧
        cx.NoUsableEntity source ∧ cx'.NoUsableEntity source) →
      SameButHint (c.decide cx call) (c.decide cx' call)) ∧
    ∀ e, SortRule.Usable cx.features e →
      (∀ source, call.args.head? = some source →
        cx.entity? source = some e ∧ cx'.entity? source = some e) →
      c.decide cx call = c.decide cx' call := by
  constructor
  · intro h
    refine decide_rel .refl fun f hm => ?_
    rw [hc f hm]
    exact Decision.sort_sameButHint he (fun s hs => (h s hs).1) (fun s hs => (h s hs).2.1)
      fun s hs => (h s hs).2.2
  · intro e hu hb
    refine decide_rel (fun _ => rfl) fun f hm => ?_
    rw [hc f hm]
    exact Decision.sort_eq_of_usable he hf hu hb

open SortRule (ascendingContext ascendingEntity)

def plainEntity : Entity := ⟨.empty, ⟨fun _ _ => true, fun _ => false⟩⟩

def closedSource : ExternalSource := ⟨"T", .empty, .standard, .empty, .empty, false⟩

def plainContext : Context :=
  { ascendingContext with registry := Registry.putEntity SortedMap.empty "T" plainEntity }

def emptyContext : Context := { ascendingContext with registry := SortedMap.empty }

def crowdedContext : Context :=
  { ascendingContext with registry := ascendingContext.registry.putExternal closedSource }

theorem decide_separates_table :
    (∀ f ∈ builtins.functions, f.check = Decision.sort) ∧
      SameButHint (builtins.decide plainContext ⟨"Sort", [.name "T", .name "Amount"]⟩)
        (builtins.decide emptyContext ⟨"Sort", [.name "T", .name "Amount"]⟩) ∧
      builtins.decide plainContext ⟨"Sort", [.name "T", .name "Amount"]⟩ ≠
        builtins.decide emptyContext ⟨"Sort", [.name "T", .name "Amount"]⟩ ∧
      builtins.decide ascendingContext ⟨"Sort", [.name "T", .name "Amount", .text "DESC"]⟩ =
        builtins.decide crowdedContext ⟨"Sort", [.name "T", .name "Amount", .text "DESC"]⟩ := by
  have hc : ∀ f ∈ builtins.functions, f.check = Decision.sort := by
    intro f hf
    obtain rfl : f = Function.sort := List.mem_singleton.1 hf
    rfl
  have hplain : plainContext.NoUsableEntity (.name "T") := by
    intro e he hu
    obtain rfl : plainEntity = e := Option.some.inj he
    simp [plainEntity, SortRule.Usable] at hu
  have hempty : emptyContext.NoUsableEntity (.name "T") := by
    intro e he
    simp [Context.entity?, emptyContext, ascendingContext, Registry.entity?, Registry.find?] at he
  have hu : SortRule.Usable ascendingContext.features ascendingEntity :=
    ⟨rfl, (FlagSet.contains_singleton _ _).2 rfl⟩
  have he : plainContext.environment = emptyContext.environment := rfl
  have he' : ascendingContext.environment = crowdedContext.environment := rfl
  obtain ⟨h, -⟩ := decide_separates hc he rfl ⟨"Sort", [.name "T", .name "Amount"]⟩
  obtain ⟨-, h'⟩ := decide_separates hc he' rfl
    ⟨"Sort", [.name "T", .name "Amount", .text "DESC"]⟩
  refine ⟨hc, h fun source hs => ?_, fun he => ?_, h' _ hu fun source hs => ⟨rfl, rfl⟩⟩
  · obtain rfl : Expr.name "T" = source := Option.some.inj hs
    exact ⟨rfl, hplain, hempty⟩
  · -- the two events have different hints
    have hhint := congrArg (fun o => o.toOption.map fun d : Decision => d.events.map Event.hint) he
    exact absurd hhint (by decide)

end Catalog

end Delegation
