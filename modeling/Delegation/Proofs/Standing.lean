import Delegation.Session
import Mathlib.Data.List.Induction

namespace Delegation

/-- The last step with a property, which may depend on the steps before it. -/
structure LastStep (P : List Step → Step → Prop) (steps before : List Step) (t : Step)
    (after : List Step) : Prop where
  split : steps = before ++ t :: after
  has : P before t
  last : ∀ mid u rest, after = mid ++ u :: rest → ¬ P (before ++ t :: mid) u

section
variable {P : List Step → Step → Prop} {steps before after : List Step} {t u : Step}

theorem not_lastStep_nil : ¬ LastStep P [] before u after := by
  intro h
  simpa using h.split

theorem lastStep_concat (h : P steps t) : LastStep P (steps ++ [t]) steps t [] where
  split := rfl
  has := h
  last mid u rest he := by simp at he

theorem LastStep.concat (h : LastStep P steps before u after) (ht : ¬ P steps t) :
    LastStep P (steps ++ [t]) before u (after ++ [t]) where
  split := by rw [h.split, List.append_assoc, List.cons_append]
  has := h.has
  last mid v rest he := by
    rcases List.append_eq_append_iff.1 he with ⟨l, hm, hl⟩ | ⟨l, ha, hl⟩
    · -- the step in question is the one that was added
      cases l with
      | nil =>
        obtain ⟨rfl, -⟩ : t = v ∧ [] = rest := by simpa using hl
        rwa [hm, List.append_nil, ← h.split]
      | cons w l => simp at hl
    · cases l with
      | nil =>
        obtain ⟨rfl, -⟩ : v = t ∧ rest = [] := by simpa using hl
        rw [List.append_nil] at ha
        rwa [← ha, ← h.split]
      | cons w l =>
        obtain ⟨rfl, rfl⟩ : v = w ∧ rest = l ++ [t] := by simpa using hl
        exact h.last mid v l ha

theorem lastStep_concat_iff : LastStep P (steps ++ [t]) before u after ↔
    (P steps t ∧ before = steps ∧ u = t ∧ after = []) ∨
      ¬ P steps t ∧ ∃ l, after = l ++ [t] ∧ LastStep P steps before u l := by
  constructor
  · intro h
    rcases List.eq_nil_or_concat after with rfl | ⟨l, v, rfl⟩
    · obtain ⟨rfl, rfl⟩ : steps = before ∧ t = u := by simpa using h.split
      exact .inl ⟨h.has, rfl, rfl, rfl⟩
    · have hs : steps ++ [t] = (before ++ u :: l) ++ [v] := by simpa using h.split
      obtain ⟨rfl, he⟩ := List.append_inj' hs rfl
      obtain rfl : t = v := by simpa using he
      refine .inr ⟨h.last l t [] (by simp), l, by simp, rfl, h.has, fun mid w rest he => ?_⟩
      exact h.last mid w (rest ++ [t]) (by simp [he])
  · rintro (⟨h, rfl, rfl, rfl⟩ | ⟨hn, l, rfl, h⟩)
    · exact lastStep_concat h
    · exact h.concat hn

end

def SourceSpec.Accepts (spec : SourceSpec) (document : Json) : Prop :=
  ∃ i, Document.index spec.table spec.schema document = .ok i

def Step.Registers (name : String) (t : Step) : Prop :=
  ∃ spec, t = .external spec ∧ spec.name = name ∧ spec.Accepts spec.document

def Step.Refreshes (spec : SourceSpec) (t : Step) : Prop :=
  ∃ document, t = .refresh spec.name document ∧ spec.Accepts document

/-- The document that a source accepted last: the one it was registered with, or that of a later
refresh. -/
inductive LastDocument (spec : SourceSpec) (after : List Step) : Json → Prop
  | registered (hn : ∀ t ∈ after, ¬ t.Refreshes spec) : LastDocument spec after spec.document
  | refreshed {since document later}
      (h : LastStep (fun _ t => t.Refreshes spec) after since (.refresh spec.name document) later) :
      LastDocument spec after document

/-- The external source that was registered last under the name, with the document that it accepted
last. -/
inductive Standing (steps : List Step) (name : String) : SourceSpec → Prop
  | of {before spec after document}
      (h : LastStep (fun _ t => t.Registers name) steps before (.external spec) after)
      (hd : LastDocument spec after document) :
      Standing steps name { spec with document := document }

/-- What one more step does to the standing source. -/
inductive StandingNext (steps : List Step) (name : String) (t : Step) : SourceSpec → Prop
  | registered {spec} (ht : t = .external spec) (hn : spec.name = name)
      (ha : spec.Accepts spec.document) : StandingNext steps name t spec
  | refreshed {spec document} (h : Standing steps name spec) (ht : t = .refresh name document)
      (ha : spec.Accepts document) : StandingNext steps name t { spec with document := document }
  | kept {spec} (h : Standing steps name spec) (hn : ¬ t.Registers name)
      (hr : ¬ t.Refreshes spec) : StandingNext steps name t spec

section
variable {steps before after : List Step} {name : String} {spec : SourceSpec} {t : Step}
  {document : Json}

theorem of_lastStep_registers
    (h : LastStep (fun _ t => t.Registers name) steps before (.external spec) after) :
    spec.name = name ∧ spec.Accepts spec.document := by
  obtain ⟨spec', he, hn, ha⟩ := h.has
  obtain rfl := Step.external.inj he
  exact ⟨hn, ha⟩

theorem lastDocument_concat_iff : LastDocument spec (after ++ [t]) document ↔
    (t = .refresh spec.name document ∧ spec.Accepts document) ∨
      ¬ t.Refreshes spec ∧ LastDocument spec after document := by
  constructor
  · intro h
    cases h with
    | registered hn =>
      obtain ⟨hn, ht⟩ := List.forall_mem_append.1 hn
      exact .inr ⟨by simpa using ht, .registered hn⟩
    | refreshed h =>
      rcases lastStep_concat_iff.1 h with ⟨⟨d, ht, ha⟩, -, he, -⟩ | ⟨hn, l, rfl, hl⟩
      · obtain ⟨-, rfl⟩ := Step.refresh.inj (he.trans ht)
        exact .inl ⟨he.symm, ha⟩
      · exact .inr ⟨hn, .refreshed hl⟩
  · rintro (⟨rfl, ha⟩ | ⟨hn, h⟩)
    · exact .refreshed (lastStep_concat ⟨document, rfl, ha⟩)
    · cases h with
      | registered h => exact .registered (List.forall_mem_append.2 ⟨h, by simpa using hn⟩)
      | refreshed h => exact .refreshed (h.concat hn)

theorem exists_lastDocument (spec : SourceSpec) (after : List Step) :
    ∃ document, LastDocument spec after document := by
  induction after using List.reverseRecOn with
  | nil => exact ⟨_, .registered (by simp)⟩
  | append_singleton after t ih =>
    by_cases ht : t.Refreshes spec
    · obtain ⟨document, rfl, ha⟩ := ht
      exact ⟨document, lastDocument_concat_iff.2 (.inl ⟨rfl, ha⟩)⟩
    · obtain ⟨document, hd⟩ := ih
      exact ⟨document, lastDocument_concat_iff.2 (.inr ⟨ht, hd⟩)⟩

theorem LastDocument.accepts (h : LastDocument spec after document)
    (ha : spec.Accepts spec.document) : spec.Accepts document := by
  cases h with
  | registered => exact ha
  | refreshed h =>
    obtain ⟨d, he, ha⟩ := h.has
    obtain ⟨-, rfl⟩ := Step.refresh.inj he
    exact ha

theorem Standing.name_eq (h : Standing steps name spec) : spec.name = name := by
  obtain ⟨h, hd⟩ := h
  exact (of_lastStep_registers h).1

theorem Standing.accepts (h : Standing steps name spec) : spec.Accepts spec.document := by
  obtain ⟨h, hd⟩ := h
  exact hd.accepts (of_lastStep_registers h).2

theorem standingNext_iff_of_not (hr : ¬ t.Registers name)
    (hf : ∀ spec, Standing steps name spec → ¬ t.Refreshes spec) :
    StandingNext steps name t spec ↔ Standing steps name spec := by
  constructor
  · rintro (⟨rfl, hn, ha⟩ | @⟨spec, document, h, rfl, ha⟩ | ⟨h, -, -⟩)
    · exact absurd ⟨spec, rfl, hn, ha⟩ hr
    · exact absurd ⟨document, by rw [h.name_eq], ha⟩ (hf spec h)
    · exact h
  · intro h
    exact .kept h hr (hf spec h)

theorem standing_concat_iff : Standing (steps ++ [t]) name spec ↔ StandingNext steps name t spec := by
  constructor
  · rintro @⟨_, spec, _, document, h, hd⟩
    rcases lastStep_concat_iff.1 h with ⟨-, -, rfl, rfl⟩ | ⟨hr, l, rfl, hl⟩
    · -- nothing came after the registration
      obtain ⟨hn, ha⟩ := of_lastStep_registers h
      cases hd with
      | registered => exact .registered rfl hn ha
      | refreshed h => exact absurd h not_lastStep_nil
    · rcases lastDocument_concat_iff.1 hd with ⟨rfl, ha⟩ | ⟨hn, hd⟩
      · obtain ⟨d, hd⟩ := exists_lastDocument spec l
        have hs : Standing steps name { spec with document := d } := .of hl hd
        exact @StandingNext.refreshed _ _ _ { spec with document := d } _ hs (by rw [← hs.name_eq]) ha
      · exact .kept (.of hl hd) hr hn
  · rintro (⟨rfl, hn, ha⟩ | @⟨spec, document, h, rfl, ha⟩ | ⟨⟨h, hd⟩, hn, hr⟩)
    · exact .of (lastStep_concat ⟨spec, rfl, hn, ha⟩) (.registered (by simp))
    · obtain @⟨_, spec, _, _, h, hd⟩ := h
      have hn : ¬ (Step.refresh name document).Registers name := by simp [Step.Registers]
      obtain ⟨rfl, -⟩ := of_lastStep_registers h
      exact @Standing.of _ _ _ spec _ _ (h.concat hn) (lastDocument_concat_iff.2 (.inl ⟨rfl, ha⟩))
    · exact .of (h.concat hn) (lastDocument_concat_iff.2 (.inr ⟨hr, hd⟩))

theorem not_standing_nil : ¬ Standing [] name spec := by
  rintro ⟨h, -⟩
  exact not_lastStep_nil h

end

end Delegation
