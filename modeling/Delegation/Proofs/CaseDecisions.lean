import Delegation.Case
import Delegation.Proofs.Reports
import Delegation.Proofs.SortGrants

namespace Delegation

namespace Registry

theorem find?_putExternal (r : Registry) (x : ExternalSource) (name : String) :
    (r.putExternal x).find? name =
      if name = x.name then some { (r.find? x.name).getD .empty with external := some x }
      else r.find? name :=
  SortedMap.get?_insert _ _ _ _

theorem find?_putEntity (r : Registry) (table : String) (e : Entity) (name : String) :
    (r.putEntity table e).find? name =
      if name = table then some { (r.find? table).getD .empty with entity := some e }
      else r.find? name :=
  SortedMap.get?_insert _ _ _ _

def holding (table : String) (x? : Option ExternalSource) (e? : Option Entity) : Registry :=
  let r : Registry := SortedMap.empty
  let r := x?.elim r r.putExternal
  e?.elim r (r.putEntity table)

theorem find?_holding {table : String} {x? : Option ExternalSource}
    (hn : ∀ x, x? = some x → x.name = table) (e? : Option Entity) (name : String) :
    (holding table x? e?).find? name =
      if name = table ∧ (x?.isSome ∨ e?.isSome) then some ⟨e?, x?⟩ else none := by
  have h0 (name : String) : find? SortedMap.empty name = none := rfl
  unfold holding
  cases x? with
  | none =>
    cases e? with
    | none => simp [h0]
    | some e => simp [find?_putEntity, h0, Registration.empty]
  | some x =>
    obtain rfl := hn x rfl
    cases e? with
    | none => simp [find?_putExternal, h0, Registration.empty]
    | some e =>
      simp only [Option.elim, find?_putEntity, find?_putExternal, h0]
      split <;> simp_all [Registration.empty]

theorem registration_ext {g g' : Option Registration} (hs : g.isSome = g'.isSome)
    (he : g.bind Registration.entity = g'.bind Registration.entity)
    (hx : g.bind Registration.external = g'.bind Registration.external) : g = g' := by
  cases g with
  | none => exact (Option.not_isSome_iff_eq_none.1 (by simp [← hs])).symm
  | some g =>
    obtain ⟨g', rfl⟩ := Option.isSome_iff_exists.1 (hs.symm.trans rfl)
    obtain ⟨e, x⟩ := g
    obtain ⟨e', x'⟩ := g'
    obtain rfl : e = e' := he
    obtain rfl : x = x' := hx
    rfl

end Registry

namespace Case

/-- What keeps a case from being decided. -/
inductive Refused (c : Case) : Prop
  | schema {m} (h : Schema.ofJson c.schema = .error m)
  | document {s d f} (hs : Schema.ofJson c.schema = .ok s) (hd : c.document = some d)
      (h : Document.index .standard s d = .error f)
  | entity {s e f} (hs : Schema.ofJson c.schema = .ok s) (he : c.entity = some e)
      (h : Document.index .standard s e.document = .error f)
  | arity {f} (hf : Catalog.builtins.find? c.call.function = some f)
      (h : ¬ (f.least ≤ c.call.args.length ∧ c.call.args.length ≤ f.most))

/-- The source that the case's document gives, with the permissions that the case declares. -/
def IsSource (c : Case) (s : Schema) (x : ExternalSource) : Prop :=
  ∃ d i, c.document = some d ∧ Document.index .standard s d = .ok i ∧
    x = ⟨c.table, s, .standard, i, c.declared.getD (.singleton .read), c.delegatable⟩

/-- The entity of the case, which looks up arrays if the case says so or its document does. -/
def IsEntity (c : Case) (s : Schema) (e : Entity) : Prop :=
  ∃ given i, c.entity = some given ∧ Document.index .standard s given.document = .ok i ∧
    e = ⟨if given.arrayLookup then i.table.insert .arrayLookup else i.table, i.sortView⟩

/-- The registry has under the case's table what the case gives, and nothing anywhere else. -/
structure Holds (c : Case) (s : Schema) (r : Registry) : Prop where
  elsewhere : ∀ name, name ≠ c.table → r.find? name = none
  registered : (r.find? c.table).isSome ↔ c.document.isSome ∨ c.entity.isSome
  external : ∀ x, r.external? c.table = some x ↔ c.IsSource s x
  entity : ∀ e, r.entity? c.table = some e ↔ c.IsEntity s e

variable {c : Case} {s : Schema}

theorem Holds.unique {r r' : Registry} (h : c.Holds s r) (h' : c.Holds s r') : r = r' := by
  apply SortedMap.ext
  intro name
  change r.find? name = r'.find? name
  by_cases hn : name = c.table
  · subst hn
    apply Registry.registration_ext
    · exact Bool.eq_iff_iff.2 (h.registered.trans h'.registered.symm)
    · exact Option.ext fun e => (h.entity e).trans (h'.entity e).symm
    · exact Option.ext fun x => (h.external x).trans (h'.external x).symm
  · rw [h.elsewhere name hn, h'.elsewhere name hn]

/-- Something that may be given with a document, and what is made of it once the document is read.
-/
theorem reading_cases {α β : Type} (given : Option α) (document : α → Json) (make : α → Index → β)
    {x : Document.Checked (Option β)} (hn : given = none → x = .ok none)
    (hs : ∀ a, given = some a →
      x = (Document.index .standard s (document a)).map fun i => some (make a i)) :
    (∃ a f, given = some a ∧ Document.index .standard s (document a) = .error f ∧ x = .error f) ∨
    ((∀ a, given = some a → ∃ i, Document.index .standard s (document a) = .ok i) ∧
      ∃ b?, x = .ok b? ∧ b?.isSome = given.isSome ∧ ∀ b, b? = some b ↔
        ∃ a i, given = some a ∧ Document.index .standard s (document a) = .ok i ∧ b = make a i) := by
  cases given with
  | none => exact .inr ⟨nofun, none, hn rfl, rfl, fun b => by simp⟩
  | some a =>
    rw [hs a rfl]
    cases hi : Document.index .standard s (document a) with
    | error f => exact .inl ⟨a, f, rfl, hi, rfl⟩
    | ok i =>
      refine .inr ⟨?_, some (make a i), rfl, rfl, fun b => ?_⟩
      · rintro _ ⟨⟩
        exact ⟨i, hi⟩
      · constructor
        · rintro ⟨⟩
          exact ⟨a, i, rfl, hi, rfl⟩
        · rintro ⟨_, i', ⟨⟩, hi', rfl⟩
          obtain rfl : i = i' := Except.ok.inj (hi.symm.trans hi')
          rfl

theorem external_cases (c : Case) (s : Schema) :
    (∃ d f, c.document = some d ∧ Document.index .standard s d = .error f ∧
      c.external s = .error f) ∨
    ((∀ d, c.document = some d → ∃ i, Document.index .standard s d = .ok i) ∧
      ∃ x?, c.external s = .ok x? ∧ x?.isSome = c.document.isSome ∧
        ∀ x, x? = some x ↔ c.IsSource s x) := by
  apply reading_cases c.document id
  · intro h
    rw [external, h]
  · intro d h
    rw [external, h, id]
    unfold ExternalSource.ofSpec
    cases hi : Document.index .standard s d <;> simp only [hi] <;> rfl

theorem entity_ofIndex (i : Index) (arrayLookup : Bool) :
    Entity.ofIndex i (if arrayLookup then .singleton .arrayLookup else .empty) =
      ⟨if arrayLookup then i.table.insert .arrayLookup else i.table, i.sortView⟩ := by
  cases arrayLookup with
  | true => rfl
  | false =>
    have h : i.table.union .empty = i.table := FlagSet.ext fun a => by simp
    exact congrArg (Entity.mk · i.sortView) h

theorem bound_cases (c : Case) (s : Schema) :
    (∃ e f, c.entity = some e ∧ Document.index .standard s e.document = .error f ∧
      c.bound s = .error f) ∨
    ((∀ e, c.entity = some e → ∃ i, Document.index .standard s e.document = .ok i) ∧
      ∃ e?, c.bound s = .ok e? ∧ e?.isSome = c.entity.isSome ∧
        ∀ e, e? = some e ↔ c.IsEntity s e) := by
  apply reading_cases c.entity CaseEntity.document
  · intro h
    rw [bound, h]
  · intro e h
    rw [bound, h]
    cases hi : Document.index .standard s e.document with
    | error f =>
      simp only [hi]
      rfl
    | ok i =>
      simp only [hi, ← entity_ofIndex]
      rfl

theorem holds_holding {x? : Option ExternalSource} {e? : Option Entity}
    (hxs : x?.isSome = c.document.isSome) (hx : ∀ x, x? = some x ↔ c.IsSource s x)
    (hes : e?.isSome = c.entity.isSome) (he : ∀ e, e? = some e ↔ c.IsEntity s e) :
    c.Holds s (.holding c.table x? e?) := by
  have hn : ∀ x, x? = some x → x.name = c.table := by
    intro x h
    obtain ⟨d, i, -, -, rfl⟩ := (hx x).1 h
    rfl
  have hf := Registry.find?_holding hn e?
  constructor
  · intro name h
    rw [hf, if_neg (fun hc => h hc.1)]
  · rw [hf, ← hxs, ← hes]
    split <;> simp_all
  · intro x
    rw [← hx, Registry.external?, hf]
    cases x? <;> cases e? <;> simp
  · intro e
    rw [← he, Registry.entity?, hf]
    cases x? <;> cases e? <;> simp

def Counted (call : Call) : Prop :=
  ∀ f, Catalog.builtins.find? call.function = some f →
    f.least ≤ call.args.length ∧ call.args.length ≤ f.most

theorem checkArity_cases (call : Call) :
    (∃ f, Catalog.builtins.find? call.function = some f ∧
      ¬ (f.least ≤ call.args.length ∧ call.args.length ≤ f.most) ∧
      checkArity call = .error (.arity f.name call.args.length f.least f.most)) ∨
    (Counted call ∧ checkArity call = .ok ()) := by
  unfold checkArity Counted
  cases hf : Catalog.builtins.find? call.function with
  | none => exact .inr ⟨nofun, rfl⟩
  | some f =>
    have ha : f.acceptsArity call.args.length = true ↔
        f.least ≤ call.args.length ∧ call.args.length ≤ f.most := by
      rw [Function.acceptsArity, Bool.and_eq_true, decide_eq_true_iff, decide_eq_true_iff]
    by_cases h : f.least ≤ call.args.length ∧ call.args.length ≤ f.most
    · refine .inr ⟨?_, if_pos (ha.2 h)⟩
      rintro _ ⟨⟩
      exact h
    · exact .inl ⟨f, rfl, h, if_neg (mt ha.1 h)⟩

theorem Counted.sortArity {call : Call} (h : Counted call) : call.SortArity := by
  intro hs
  have hw := h .sort (by rw [hs]; rfl)
  have hb : 2 ≤ call.args.length ∧ call.args.length ≤ 3 := hw
  omega

structure Readable (c : Case) (s : Schema) : Prop where
  document : ∀ d, c.document = some d → ∃ i, Document.index .standard s d = .ok i
  entity : ∀ e, c.entity = some e → ∃ i, Document.index .standard s e.document = .ok i

theorem registry_cases (hs : Schema.ofJson c.schema = .ok s) :
    (c.Refused ∧ ∃ f, c.registry s = .error f ∧ ∀ m, f ≠ .misuse m) ∨
    (c.Readable s ∧ ∃ r, c.registry s = .ok r ∧ c.Holds s r) := by
  unfold registry
  rcases c.external_cases s with ⟨d, f, hd, hf, hx⟩ | ⟨hd, x?, hx, hxs, hx'⟩
  · exact .inl ⟨.document hs hd hf, .document f, by rw [hx]; rfl, nofun⟩
  · rcases c.bound_cases s with ⟨e, f, he, hf, hb⟩ | ⟨he, e?, hb, hes, he'⟩
    · exact .inl ⟨.entity hs he hf, .entity f, by rw [hx, hb]; rfl, nofun⟩
    · exact .inr ⟨⟨hd, he⟩, _, by rw [hx, hb]; rfl, holds_holding hxs hx' hes he'⟩

theorem not_refused (hs : Schema.ofJson c.schema = .ok s) (hr : c.Readable s)
    (ha : Counted c.call) : ¬ c.Refused := by
  intro h
  cases h with
  | schema h => simp [hs] at h
  | document hs' hd h =>
    obtain rfl := Except.ok.inj (hs.symm.trans hs')
    obtain ⟨i, hi⟩ := hr.document _ hd
    simp [hi] at h
  | entity hs' he h =>
    obtain rfl := Except.ok.inj (hs.symm.trans hs')
    obtain ⟨i, hi⟩ := hr.entity _ he
    simp [hi] at h
  | arity hf h => exact h (ha _ hf)

theorem decide_of_schema (features : Features) (hs : Schema.ofJson c.schema = .ok s) :
    c.decide features = (c.registry s).bind fun r => (checkArity c.call).bind fun _ =>
      (Catalog.builtins.decide ⟨(c.scope s).environment, r, features⟩ c.call).mapError .misuse := by
  rw [decide, hs]
  rfl

/-- A case is refused, and then its decision ends with a fault of the case, or it is not, and then
its decision is the one of the built-in functions over the registry that it describes. -/
theorem decide_cases (c : Case) (features : Features) :
    (c.Refused ∧ ∃ f, c.decide features = .error f ∧ ∀ m, f ≠ .misuse m) ∨
    (¬ c.Refused ∧ ∃ s r d, Schema.ofJson c.schema = .ok s ∧ c.Holds s r ∧
      Catalog.builtins.decide ⟨(c.scope s).environment, r, features⟩ c.call = .ok d ∧
      c.decide features = .ok d) := by
  cases hs : Schema.ofJson c.schema with
  | error m => exact .inl ⟨.schema hs, .schema m, by rw [decide, hs]; rfl, nofun⟩
  | ok s =>
    rw [decide_of_schema features hs]
    rcases registry_cases hs with ⟨h, f, hr, hm⟩ | ⟨hd, r, hr, hh⟩
    · exact .inl ⟨h, f, by rw [hr]; rfl, hm⟩
    · rcases checkArity_cases c.call with ⟨f, hf, ha, hc⟩ | ⟨ha, hc⟩
      · exact .inl ⟨.arity hf ha, .arity _ _ _ _, by rw [hr, hc]; rfl, nofun⟩
      · obtain ⟨d, hdec, -⟩ :=
          Catalog.decide_answered ⟨(c.scope s).environment, r, features⟩ ha.sortArity
        refine .inr ⟨not_refused hs hd ha, s, r, d, rfl, hh, hdec, ?_⟩
        rw [hr, hc]
        exact congrArg (Except.mapError Fault.misuse) hdec

end Case

end Delegation
