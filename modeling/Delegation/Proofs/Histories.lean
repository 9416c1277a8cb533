import Delegation.Proofs.SortGrants
import Delegation.Proofs.Standing

namespace Delegation

namespace ExternalSource

/-- Refreshing a source gives the source that the document would have given from the start. -/
theorem refresh_of_ofSpec {spec : SourceSpec} {x : ExternalSource} (h : ofSpec spec = .ok x)
    (document : Json) : x.refresh document = ofSpec { spec with document := document } := by
  obtain ⟨i, -, rfl⟩ := ofSpec_eq_ok_iff.1 h
  rfl

theorem exists_ofSpec_iff {spec : SourceSpec} :
    (∃ x, ofSpec spec = .ok x) ↔ spec.Accepts spec.document := by
  constructor
  · rintro ⟨x, h⟩
    obtain ⟨i, hi, -⟩ := ofSpec_eq_ok_iff.1 h
    exact ⟨i, hi⟩
  · rintro ⟨i, hi⟩
    exact ⟨_, ofSpec_eq_ok_iff.2 ⟨i, hi, rfl⟩⟩

end ExternalSource

namespace Session
open ExternalSource

/-- What a step can do to the registry and to the held indices. -/
inductive Moves (s : Session) : Step → Session → Prop
  | external {spec x} (h : ofSpec spec = .ok x) :
      Moves s (.external spec) { s with registry := s.registry.putExternal x }
  | externalRejected {spec} (h : ¬ spec.Accepts spec.document) : Moves s (.external spec) s
  | entity {name e} : Moves s (.entity name e) { s with registry := s.registry.putEntity name e }
  | refresh {name document x y} (hx : s.registry.external? name = some x)
      (hy : x.refresh document = .ok y) :
      Moves s (.refresh name document) { s with registry := s.registry.putExternal y }
  | refreshRejected {name document}
      (h : ∀ x, s.registry.external? name = some x → ¬ ∃ y, x.refresh document = .ok y) :
      Moves s (.refresh name document) s
  | hold {name label x} (hx : s.registry.external? name = some x) :
      Moves s (.hold name label) { s with held := s.held.insert label x.index }
  | holdMissing {name label} (h : s.registry.external? name = none) : Moves s (.hold name label) s
  | other {t s'} (he : ∀ spec, t ≠ .external spec) (hn : ∀ name e, t ≠ .entity name e)
      (hr : ∀ name document, t ≠ .refresh name document) (hh : ∀ name label, t ≠ .hold name label)
      (registry : s'.registry = s.registry) (held : s'.held = s.held) : Moves s t s'

theorem moves_next (s : Session) (t : Step) : s.Moves t (s.next t) := by
  rw [next]
  cases t with
  | external spec =>
    rw [run_external]
    cases h : ofSpec spec with
    | ok x => exact .external h
    | error f => exact .externalRejected fun ha => by simpa [h] using exists_ofSpec_iff.2 ha
  | entity name e => exact .entity
  | refresh name document =>
    rw [run_refresh]
    cases hx : s.registry.external? name with
    | none => exact .refreshRejected (by simp [hx])
    | some x =>
      dsimp only
      cases hy : x.refresh document with
      | ok y => exact .refresh hx hy
      | error f => exact .refreshRejected (by simp [hx, hy])
  | hold name label =>
    rw [run_hold]
    cases hx : s.registry.external? name with
    | none => exact .holdMissing hx
    | some x => exact .hold hx
  | decide call =>
    rw [run_decide]
    cases s.catalog.decideInto s.events s.context call with
    | ok d => exact .other (by simp) (by simp) (by simp) (by simp) rfl rfl
    | error m => exact .other (by simp) (by simp) (by simp) (by simp) rfl rfl
  | _ => exact .other (by simp) (by simp) (by simp) (by simp) rfl rfl

/-- The registry holds, as its external sources, the standing ones. -/
def FollowsExternals (s : Session) (steps : List Step) : Prop :=
  ∀ name x, s.registry.external? name = some x ↔
    ∃ spec, Standing steps name spec ∧ ofSpec spec = .ok x

section
variable {s s' : Session} {t : Step} {steps : List Step} {name label : String}

theorem FollowsExternals.refresh_eq (h : s.FollowsExternals steps) {spec : SourceSpec}
    {x : ExternalSource} (hs : Standing steps name spec)
    (hx : s.registry.external? name = some x) (document : Json) :
    x.refresh document = ofSpec { spec with document := document } := by
  obtain ⟨x', hx'⟩ := exists_ofSpec_iff.2 hs.accepts
  obtain rfl : x' = x := Option.some.inj (((h name x').2 ⟨spec, hs, hx'⟩).symm.trans hx)
  exact refresh_of_ofSpec hx' document

theorem FollowsExternals.exists_source (h : s.FollowsExternals steps) {spec : SourceSpec}
    (hs : Standing steps name spec) : ∃ x, s.registry.external? name = some x := by
  obtain ⟨x, hx⟩ := exists_ofSpec_iff.2 hs.accepts
  exact ⟨x, (h name x).2 ⟨spec, hs, hx⟩⟩

theorem FollowsExternals.kept (h : s.FollowsExternals steps) (hr : ¬ t.Registers name)
    (hf : ∀ spec, Standing steps name spec → ¬ t.Refreshes spec)
    (he : s'.registry.external? name = s.registry.external? name) (x : ExternalSource) :
    s'.registry.external? name = some x ↔
      ∃ spec, Standing (steps ++ [t]) name spec ∧ ofSpec spec = .ok x := by
  simp only [he, h name x, standing_concat_iff, standingNext_iff_of_not hr hf]

theorem FollowsExternals.register (h : s.FollowsExternals steps) {spec : SourceSpec}
    {x : ExternalSource} (hx : ofSpec spec = .ok x) :
    FollowsExternals { s with registry := s.registry.putExternal x }
      (steps ++ [.external spec]) := by
  intro name x'
  have hn : x.name = spec.name := by
    obtain ⟨i, -, rfl⟩ := ofSpec_eq_ok_iff.1 hx
    rfl
  by_cases he : name = spec.name
  · subst he
    have ha : spec.Accepts spec.document := exists_ofSpec_iff.1 ⟨x, hx⟩
    rw [Registry.external?_putExternal, hn, if_pos rfl, Option.some_inj]
    simp only [standing_concat_iff]
    constructor
    · rintro rfl
      exact ⟨spec, .registered rfl rfl ha, hx⟩
    · rintro ⟨spec', ⟨ht, -, -⟩ | ⟨-, ht, -⟩ | ⟨-, hr, -⟩, hx'⟩
      · obtain rfl := Step.external.inj ht
        exact Except.ok.inj (hx.symm.trans hx')
      · simp at ht
      · exact absurd ⟨spec, rfl, rfl, ha⟩ hr
  · refine h.kept (by simp [Step.Registers, Ne.symm he]) (by simp [Step.Refreshes]) ?_ x'
    rw [Registry.external?_putExternal, hn, if_neg he]

theorem FollowsExternals.refresh (h : s.FollowsExternals steps) {x y : ExternalSource}
    {document : Json} (hx : s.registry.external? name = some x) (hy : x.refresh document = .ok y) :
    FollowsExternals { s with registry := s.registry.putExternal y }
      (steps ++ [.refresh name document]) := by
  intro name' x'
  obtain ⟨spec, hs, hspec⟩ := (h name x).1 hx
  rw [refresh_of_ofSpec hspec] at hy
  have hn : y.name = name := by
    obtain ⟨i, -, rfl⟩ := ofSpec_eq_ok_iff.1 hy
    exact hs.name_eq
  -- a refresh stays under the name of its source
  by_cases he : name' = name
  · subst he
    rw [Registry.external?_putExternal, hn, if_pos rfl, Option.some_inj]
    simp only [standing_concat_iff]
    constructor
    · rintro rfl
      exact ⟨_, .refreshed hs rfl (exists_ofSpec_iff.1 ⟨y, hy⟩), hy⟩
    · -- whatever else stands there would be refreshed in the same way
      rintro ⟨spec', ⟨ht, -, -⟩ | @⟨spec', document', hs', ht, -⟩ | ⟨hs', -, hf⟩, hx'⟩
      · simp at ht
      · obtain ⟨-, rfl⟩ := Step.refresh.inj ht
        rw [← h.refresh_eq hs' hx, refresh_of_ofSpec hspec, hy] at hx'
        exact Except.ok.inj hx'
      · rw [← refresh_of_ofSpec hspec, h.refresh_eq hs' hx] at hy
        exact absurd ⟨document, by rw [hs'.name_eq], exists_ofSpec_iff.1 ⟨y, hy⟩⟩ hf
  · refine h.kept (by simp [Step.Registers]) ?_ ?_ x'
    · rintro spec' hs' ⟨document', ht, -⟩
      exact he (hs'.name_eq.symm.trans (Step.refresh.inj ht).1.symm)
    · rw [Registry.external?_putExternal, hn, if_neg he]

theorem Moves.followsExternals (hm : s.Moves t s') (h : s.FollowsExternals steps) :
    s'.FollowsExternals (steps ++ [t]) := by
  cases hm with
  | external hx => exact h.register hx
  | refresh hx hy => exact h.refresh hx hy
  | externalRejected hr =>
    refine fun name => h.kept ?_ (by simp [Step.Refreshes]) rfl
    rintro ⟨spec', ht, -, ha⟩
    obtain rfl := Step.external.inj ht
    exact hr ha
  | refreshRejected hr =>
    refine fun name => h.kept (by simp [Step.Registers]) ?_ rfl
    rintro spec hs ⟨document', ht, ha⟩
    obtain ⟨rfl, rfl⟩ := Step.refresh.inj ht
    obtain ⟨x, hx⟩ := h.exists_source hs
    rw [hs.name_eq] at hr
    exact hr x hx (by simpa only [h.refresh_eq hs hx] using exists_ofSpec_iff.2 ha)
  | other he hn hr hh registry held =>
    refine fun name => h.kept ?_ ?_ (by rw [registry])
    · rintro ⟨spec, ht, -⟩
      exact he spec ht
    · rintro spec - ⟨document, ht, -⟩
      exact hr _ _ ht
  | entity =>
    exact fun name => h.kept (by simp [Step.Registers]) (by simp [Step.Refreshes]) (by simp)
  | _ => exact fun name => h.kept (by simp [Step.Registers]) (by simp [Step.Refreshes]) rfl

/-- The entity that the session has under a name is the one registered last. -/
def FollowsEntities (s : Session) (steps : List Step) : Prop :=
  ∀ name e, s.registry.entity? name = some e ↔ ∃ before after,
    LastStep (fun _ t => ∃ e, t = .entity name e) steps before (.entity name e) after

theorem Moves.entity? (hm : s.Moves t s') (ht : ∀ e, t ≠ .entity name e) :
    s'.registry.entity? name = s.registry.entity? name := by
  cases hm with
  | @entity name' e =>
    have hn : name ≠ name' := by
      rintro rfl
      exact ht e rfl
    rw [Registry.entity?_putEntity, if_neg hn]
  | external => exact Registry.entity?_putExternal ..
  | refresh => exact Registry.entity?_putExternal ..
  | other he hn hr hh registry held => rw [registry]
  | _ => rfl

theorem Moves.followsEntities (hm : s.Moves t s') (h : s.FollowsEntities steps) :
    s'.FollowsEntities (steps ++ [t]) := by
  intro name e
  simp only [lastStep_concat_iff]
  by_cases ht : ∃ e, t = .entity name e
  · obtain ⟨e', rfl⟩ := ht
    have he : s'.registry.entity? name = some e' := by
      cases hm with
      | entity => rw [Registry.entity?_putEntity, if_pos rfl]
      | other he hn => exact absurd rfl (hn name e')
    simp [he, eq_comm]
  · rw [hm.entity? (not_exists.1 ht), h name e]
    simp [ht]

def Holds (s : Session) (label : String) (t : Step) : Prop :=
  ∃ name x, t = .hold name label ∧ s.registry.external? name = some x

/-- A held index is the one that its source had after the steps before it was held. -/
def FollowsHeld (s first : Session) (steps : List Step) : Prop :=
  ∀ label i, s.held.get? label = some i ↔ ∃ before name x after,
    LastStep (fun before t => (first.run before).Holds label t) steps before (.hold name label) after ∧
      (first.run before).registry.external? name = some x ∧ x.index = i

theorem Moves.held (hm : s.Moves t s') (ht : ¬ s.Holds label t) :
    s'.held.get? label = s.held.get? label := by
  cases hm with
  | @hold name' label' x hx =>
    have hl : label ≠ label' := by
      rintro rfl
      exact ht ⟨name', x, rfl, hx⟩
    rw [SortedMap.get?_insert, if_neg hl]
  | other he hn hr hh registry held => rw [held]
  | _ => rfl

theorem Moves.held_of_holds {x : ExternalSource} (hm : s.Moves (.hold name label) s')
    (hx : s.registry.external? name = some x) : s'.held.get? label = some x.index := by
  cases hm with
  | hold hx' =>
    rw [hx, Option.some_inj] at hx'
    rw [SortedMap.get?_insert, if_pos rfl, hx']
  | holdMissing h => simp [h] at hx
  | other he hn hr hh => exact absurd rfl (hh name label)

theorem Moves.followsHeld {first : Session} (hm : (first.run steps).Moves t s')
    (h : (first.run steps).FollowsHeld first steps) : s'.FollowsHeld first (steps ++ [t]) := by
  intro label i
  simp only [lastStep_concat_iff]
  by_cases ht : (first.run steps).Holds label t
  · obtain ⟨name, x, rfl, hx⟩ := id ht
    rw [hm.held_of_holds hx, Option.some_inj]
    constructor
    · rintro rfl
      exact ⟨steps, name, x, [], .inl ⟨ht, rfl, rfl, rfl⟩, hx, rfl⟩
    · rintro ⟨before, name', x', after, ⟨-, rfl, he, -⟩ | ⟨hn, -⟩, hx', rfl⟩
      · obtain ⟨rfl, -⟩ := Step.hold.inj he
        rw [Option.some.inj (hx.symm.trans hx')]
      · exact absurd ht hn
  · rw [hm.held ht, h label i]
    constructor
    · rintro ⟨before, name, x, after, hl, hx⟩
      exact ⟨before, name, x, after ++ [t], .inr ⟨ht, after, rfl, hl⟩, hx⟩
    · rintro ⟨before, name, x, after, ⟨hn, -⟩ | ⟨-, after, rfl, hl⟩, hx⟩
      · exact absurd hn ht
      · exact ⟨before, name, x, after, hl, hx⟩

end

variable (catalog : Catalog) (steps : List Step)

theorem run_concat (s : Session) (t : Step) : s.run (steps ++ [t]) = (s.run steps).next t := by
  rw [run, List.foldl_concat]
  rfl

/-- What holds at first and is kept by every move holds after every run. -/
theorem run_induction {P : List Step → Session → Prop} (first : Session) (hfirst : P [] first)
    (hstep : ∀ steps t s', P steps (first.run steps) → (first.run steps).Moves t s' →
      P (steps ++ [t]) s') : P steps (first.run steps) := by
  induction steps using List.reverseRecOn with
  | nil => exact hfirst
  | append_singleton steps t ih =>
    rw [run_concat]
    exact hstep steps t _ ih (moves_next _ t)

theorem followsExternals_run : ((start catalog).run steps).FollowsExternals steps := by
  refine run_induction (P := fun steps s => s.FollowsExternals steps) steps _ ?_
    fun steps t s' ih hm => hm.followsExternals ih
  intro name x
  simp only [not_standing_nil, false_and, exists_false, iff_false]
  exact fun h => Option.some_ne_none x h.symm

theorem followsEntities_run : ((start catalog).run steps).FollowsEntities steps := by
  refine run_induction (P := fun steps s => s.FollowsEntities steps) steps _ ?_
    fun steps t s' ih hm => hm.followsEntities ih
  intro name e
  simp only [not_lastStep_nil, exists_false, iff_false]
  exact fun h => Option.some_ne_none e h.symm

theorem followsHeld_run : ((start catalog).run steps).FollowsHeld (start catalog) steps := by
  refine run_induction (P := fun steps s => s.FollowsHeld (start catalog) steps) steps _ ?_
    fun steps t s' ih hm => hm.followsHeld ih
  intro label i
  simp only [not_lastStep_nil, false_and, exists_false, iff_false]
  exact fun h => Option.some_ne_none i h.symm

/-- What a step leaves alone: external sources and entities under other names and those of the other
kind under its own name, and what is held under other labels. -/
structure Keeps (s : Session) (t : Step) (s' : Session) : Prop where
  external : ∀ name, (∀ spec, t = .external spec → spec.name ≠ name) →
    (∀ document, t ≠ .refresh name document) →
    s'.registry.external? name = s.registry.external? name
  entity : ∀ name, (∀ e, t ≠ .entity name e) → s'.registry.entity? name = s.registry.entity? name
  held : ∀ label, (∀ name, t ≠ .hold name label) → s'.held.get? label = s.held.get? label

theorem keeps_next (t : Step) :
    ((start catalog).run steps).Keeps t (((start catalog).run steps).next t) where
  external name he hr := by
    have h := followsExternals_run catalog steps
    refine Option.ext fun x => ?_
    rw [h name x, (moves_next _ t).followsExternals h name x]
    refine exists_congr fun spec => and_congr_left fun _ => ?_
    rw [standing_concat_iff]
    refine standingNext_iff_of_not ?_ ?_
    · rintro ⟨spec', ht, hn, -⟩
      exact he spec' ht hn
    · rintro spec' hs ⟨document, ht, -⟩
      exact hr document (by rw [ht, hs.name_eq])
  entity name ht := (moves_next _ t).entity? ht
  held label ht := (moves_next _ t).held (by rintro ⟨name, x, h, -⟩; exact ht name h)

section
variable {s : Session} {steps} {spec : SourceSpec} {name : String} {document : Json}
  {f : Document.Fault}

theorem step_external_of_error
    (h : Document.index spec.table spec.schema spec.document = .error f) :
    s.step (.external spec) = .error (.document f) := by
  rw [step, run_external, ofSpec, h]
  rfl

theorem FollowsExternals.step_refresh_of_error (hf : s.FollowsExternals steps)
    (hs : Standing steps name spec)
    (h : Document.index spec.table spec.schema document = .error f) :
    s.step (.refresh name document) = .error (.document f) := by
  obtain ⟨x, hx⟩ := hf.exists_source hs
  have hy : x.refresh document = .error f := by
    rw [hf.refresh_eq hs hx, ofSpec, h]
    rfl
  rw [step, run_refresh, hx]
  simp only [hy]

end

/-- After any run, the external source under a name is as if it had just been read from the document
that was accepted last, the entity is the one that was registered last, and what is held is the
index that was current when it was held. A document that is rejected changes nothing, whether it
comes with a registration or with a refresh, and no step reaches beyond its own slot. -/
theorem run_history :
    ((start catalog).run steps).FollowsExternals steps ∧
      ((start catalog).run steps).FollowsEntities steps ∧
      ((start catalog).run steps).FollowsHeld (start catalog) steps ∧
      (∀ spec f, Document.index spec.table spec.schema spec.document = .error f →
        ((start catalog).run steps).step (.external spec) = .error (.document f) ∧
          (start catalog).run (steps ++ [.external spec]) = (start catalog).run steps) ∧
      (∀ name spec document f, Standing steps name spec →
        Document.index spec.table spec.schema document = .error f →
        ((start catalog).run steps).step (.refresh name document) = .error (.document f) ∧
          (start catalog).run (steps ++ [.refresh name document]) = (start catalog).run steps) ∧
      ∀ t, ((start catalog).run steps).Keeps t ((start catalog).run (steps ++ [t])) := by
  have he := followsExternals_run catalog steps
  refine ⟨he, followsEntities_run catalog steps, followsHeld_run catalog steps, ?_, ?_, fun t => ?_⟩
  · intro spec f h
    have hr := @step_external_of_error ((start catalog).run steps) spec f h
    exact ⟨hr, (run_concat _ _ _).trans (next_of_refused hr)⟩
  · intro name spec document f hs h
    have hr := he.step_refresh_of_error hs h
    exact ⟨hr, (run_concat _ _ _).trans (next_of_refused hr)⟩
  · rw [run_concat]
    exact keeps_next catalog steps t

def amounts : SourceSpec where
  name := "T"
  schema := ⟨[.scalar "Name" .string false, .scalar "Amount" .number false],
    by
      have hn : LevelNamed ["Name", "Amount"] := by decide
      exact ⟨hn, trivial, trivial, trivial⟩⟩
  document := .object [("sort", .array [.object [("column", .string "Name")]])]

def byAmount : Json := .object [("sort", .array [.object [("column", .string "Amount")]])]

def refreshed : List Step := [.external amounts, .hold "T" "old", .refresh "T" byAmount]

theorem run_history_refreshed :
    ∃ x i, ((start .builtins).run refreshed).registry.external? "T" = some x ∧
      ((start .builtins).run refreshed).held.get? "old" = some i ∧
      i.sorts (.column "Name") = true ∧ x.index.sorts (.column "Name") = false ∧
      (start .builtins).run (refreshed ++ [.refresh "T" (.array [])]) =
        (start .builtins).run refreshed := by
  obtain ⟨hx, -, hi, -, hr, -⟩ := run_history .builtins refreshed
  -- the document that comes with the registration gives way to that of the refresh
  have hone : Standing ([] ++ [.external amounts]) "T" amounts :=
    standing_concat_iff.2 (.registered rfl rfl ⟨_, rfl⟩)
  have htwo : Standing ([.external amounts] ++ [.hold "T" "old"]) "T" amounts :=
    standing_concat_iff.2 (.kept hone (by simp [Step.Registers]) (by simp [Step.Refreshes]))
  have hs : Standing ([.external amounts, .hold "T" "old"] ++ [.refresh "T" byAmount]) "T"
      { amounts with document := byAmount } :=
    standing_concat_iff.2 (.refreshed htwo rfl ⟨_, rfl⟩)
  have hh : LastStep (fun before t => ((start .builtins).run before).Holds "old" t)
      ([.external amounts] ++ [.hold "T" "old"]) [.external amounts] (.hold "T" "old") [] :=
    lastStep_concat ⟨"T", _, rfl, rfl⟩
  have hlast := hh.concat (t := .refresh "T" byAmount) (by simp [Holds])
  exact ⟨_, _, (hx "T" _).2 ⟨_, hs, rfl⟩, (hi "old" _).2 ⟨_, "T", _, _, hlast, rfl, rfl⟩, rfl, rfl,
    (hr "T" _ (.array []) _ hs rfl).2⟩

end Session

end Delegation
