import Delegation.Index

namespace Delegation

namespace Grant

/-- An observation that holds of a join exactly when it holds of one of its parts. -/
def Distributes (holds : Grant → Bool) : Prop :=
  ∀ g h : Grant, holds (g.join h) = (holds g || holds h)

theorem distributes_true : Distributes fun _ => true := fun _ _ => rfl

theorem distributes_allows (c : Capability) : Distributes fun g => g.allows c := by
  intro g h
  simp only [allows, join, FlagSet.contains_union]

theorem distributes_ascendingOnly : Distributes Grant.ascendingOnly := fun _ _ => rfl

theorem distributes_operators (o : Operator) : Distributes fun g => g.operators.contains o := by
  intro g h
  simp only [join, FlagSet.contains_union]

theorem distributes_nonempty : Distributes fun g => !g.capabilities.isEmpty := by
  intro g h
  rw [Bool.eq_iff_iff]
  simp only [join, Bool.or_eq_true, Bool.not_eq_true', ← Bool.not_eq_true, FlagSet.isEmpty_iff,
    FlagSet.contains_union]
  grind

theorem ext {g h : Grant} (hc : ∀ c, g.allows c = h.allows c)
    (ha : g.ascendingOnly = h.ascendingOnly)
    (ho : ∀ o, g.operators.contains o = h.operators.contains o) : g = h := by
  obtain ⟨gc, ga, go⟩ := g
  obtain ⟨hc', ha', ho'⟩ := h
  congr 1
  · exact FlagSet.ext hc
  · exact FlagSet.ext ho

/-- Observations that distribute tell grants apart, and tell a grant from none. -/
theorem eq_of_distributes {o o' : Option Grant}
    (h : ∀ holds, Distributes holds → o.any holds = o'.any holds) : o = o' := by
  -- the constant observation tells whether there is a grant at all
  have hs := h _ distributes_true
  cases o with
  | none =>
    cases o' with
    | none => rfl
    | some g => simp at hs
  | some g =>
    cases o' with
    | none => simp at hs
    | some g' =>
      congr 1
      exact ext (fun c => h _ (distributes_allows c)) (h _ distributes_ascendingOnly)
        (fun o => h _ (distributes_operators o))

/-- A grant that is the total of these parts: it has what one of them has, and nothing else. -/
structure Totals (g : Grant) (parts : List Grant) : Prop where
  allows : ∀ c, g.allows c = true ↔ ∃ h ∈ parts, h.allows c = true
  ascendingOnly : g.ascendingOnly = true ↔ ∃ h ∈ parts, h.ascendingOnly = true
  operators : ∀ o, g.operators.contains o = true ↔ ∃ h ∈ parts, h.operators.contains o = true

theorem Totals.of_distributes {g : Grant} {parts : List Grant}
    (h : ∀ holds, Distributes holds → holds g = parts.any holds) : g.Totals parts where
  allows c := by rw [h _ (distributes_allows c), List.any_eq_true]
  ascendingOnly := by rw [h _ distributes_ascendingOnly, List.any_eq_true]
  operators o := by rw [h _ (distributes_operators o), List.any_eq_true]

end Grant

namespace Fragment
open Grant

variable {holds : Grant → Bool}

def parts (fs : List Fragment) (p : Path) : List Grant := fs.filterMap fun f => f.get? p

theorem any_parts (fs : List Fragment) (p : Path) :
    (parts fs p).any holds = fs.any fun f => (f.get? p).any holds := by
  rw [parts, List.any_filterMap]
  rfl

theorem any_get?_add (hh : Distributes holds) (f : Fragment) (p q : Path) (g : Grant) :
    ((f.add q g).get? p).any holds = ((f.get? p).any holds || (decide (q = p) && holds g)) := by
  rw [add, SortedMap.get?_place]
  by_cases hp : p = q
  · subst hp
    cases f.get? p with
    | none => simp
    | some h => simpa using hh h g
  · have hq : ¬ q = p := fun h => hp h.symm
    simp [hp, hq]

theorem any_get?_foldl_add (hh : Distributes holds) (l : List (Path × Grant)) (f : Fragment)
    (p : Path) : ((l.foldl (fun f e => f.add e.1 e.2) f).get? p).any holds =
      ((f.get? p).any holds || l.any fun e => decide (e.1 = p) && holds e.2) := by
  induction l generalizing f with
  | nil => simp
  | cons e r ih =>
    rw [List.foldl_cons, ih, any_get?_add hh, List.any_cons, Bool.or_assoc]

theorem any_entries (f : Fragment) (p : Path) :
    (f.entries.any fun e => decide (e.1 = p) && holds e.2) = (f.get? p).any holds := by
  rw [Bool.eq_iff_iff, List.any_eq_true, Option.any_eq_true]
  constructor
  · rintro ⟨⟨q, g⟩, hm, h⟩
    obtain ⟨rfl, hg⟩ : q = p ∧ holds g = true := by simpa using h
    exact ⟨g, SortedMap.get?_eq_some_iff.2 hm, hg⟩
  · rintro ⟨g, hf, hg⟩
    exact ⟨(p, g), SortedMap.get?_eq_some_iff.1 hf, by simpa using hg⟩

theorem any_get?_merge (hh : Distributes holds) (f g : Fragment) (p : Path) :
    ((f.merge g).get? p).any holds = ((f.get? p).any holds || (g.get? p).any holds) := by
  rw [merge, any_get?_foldl_add hh, any_entries]

theorem any_get?_foldl_merge (hh : Distributes holds) (fs : List Fragment) (f : Fragment) (p : Path) :
    ((fs.foldl merge f).get? p).any holds =
      ((f.get? p).any holds || fs.any fun g => (g.get? p).any holds) := by
  induction fs generalizing f with
  | nil => simp
  | cons g r ih =>
    rw [List.foldl_cons, ih, any_get?_merge hh, List.any_cons, Bool.or_assoc]

theorem any_get?_mergeAll (hh : Distributes holds) (fs : List Fragment) (p : Path) :
    ((mergeAll fs).get? p).any holds = (parts fs p).any holds := by
  rw [mergeAll, any_get?_foldl_merge hh, SortedMap.get?_empty, Option.any_none, Bool.false_or,
    any_parts]

theorem eq_of_any {f g : Fragment}
    (h : ∀ holds, Distributes holds → ∀ p, (f.get? p).any holds = (g.get? p).any holds) : f = g :=
  SortedMap.ext fun p => eq_of_distributes fun holds hh => h holds hh p

/-- Merging forgets the order of fragments and how often each occurs. -/
theorem mergeAll_congr {fs gs : List Fragment} (h : ∀ f, f ∈ fs ↔ f ∈ gs) :
    mergeAll fs = mergeAll gs := by
  apply eq_of_any
  intro holds hh p
  rw [any_get?_mergeAll hh, any_get?_mergeAll hh, any_parts, any_parts, Bool.eq_iff_iff,
    List.any_eq_true, List.any_eq_true]
  simp only [h]

theorem mergeAll_flatten (groups : List (List Fragment)) :
    mergeAll (groups.map mergeAll) = mergeAll groups.flatten := by
  apply eq_of_any
  intro holds hh p
  rw [any_get?_mergeAll hh, any_get?_mergeAll hh, any_parts, any_parts, List.any_map,
    List.any_flatten]
  simp only [Function.comp_def, any_get?_mergeAll hh, any_parts]

/-- One way in which a fragment grows. -/
inductive Growth where
  | add (p : Path) (g : Grant)
  | merge (f : Fragment)

def grow (f : Fragment) : Growth → Fragment
  | .add p g => f.add p g
  | .merge g => f.merge g

def Growth.gain? (p : Path) : Growth → Option Grant
  | .add q g => if q = p then some g else none
  | .merge f => f.get? p

def gains (ts : List Growth) (p : Path) : List Grant := ts.filterMap fun t => t.gain? p

theorem any_gains (ts : List Growth) (p : Path) :
    (gains ts p).any holds = ts.any fun t => (t.gain? p).any holds := by
  rw [gains, List.any_filterMap]
  rfl

theorem any_get?_grow (hh : Distributes holds) (f : Fragment) (t : Growth) (p : Path) :
    ((f.grow t).get? p).any holds = ((f.get? p).any holds || (t.gain? p).any holds) := by
  cases t with
  | add q g =>
    rw [grow, any_get?_add hh, Growth.gain?]
    by_cases hq : q = p <;> simp [hq]
  | merge g => rw [grow, any_get?_merge hh, Growth.gain?]

theorem any_get?_foldl_grow (hh : Distributes holds) (ts : List Growth) (f : Fragment) (p : Path) :
    ((ts.foldl grow f).get? p).any holds =
      ((f.get? p).any holds || ts.any fun t => (t.gain? p).any holds) := by
  induction ts generalizing f with
  | nil => simp
  | cons t r ih =>
    rw [List.foldl_cons, ih, any_get?_grow hh, List.any_cons, Bool.or_assoc]

/-- A record in a fragment that grew from nothing is the total of its gains, and it is there as soon
as there was a gain. -/
theorem get?_foldl_grow (ts : List Growth) (p : Path) :
    (((ts.foldl grow SortedMap.empty).get? p).isSome = true ↔ gains ts p ≠ []) ∧
      ∀ g ∈ (ts.foldl grow SortedMap.empty).get? p, g.Totals (gains ts p) := by
  have h : ∀ holds, Distributes holds →
      ((ts.foldl grow SortedMap.empty).get? p).any holds = (gains ts p).any holds := by
    intro holds hh
    rw [any_get?_foldl_grow hh, SortedMap.get?_empty, Option.any_none, Bool.false_or, any_gains]
  constructor
  · have ht := h _ distributes_true
    cases hg : gains ts p <;> simp_all
  · intro g hg
    refine Totals.of_distributes fun holds hh => ?_
    rw [← h holds hh, Option.mem_def.1 hg, Option.any_some]

end Fragment

namespace Index
open Grant

theorem grant?_build (schema : Schema) (fragments : List Fragment) (p : Path) :
    (build schema fragments).grant? p = ((Fragment.mergeAll fragments).get? p).filter fun g =>
      schema.contains p && !g.capabilities.isEmpty := by
  rw [grant?, build, ofRows, SortedMap.get?_filterMap]
  cases (Fragment.mergeAll fragments).get? p with
  | none => rfl
  | some g => simp [Option.filter]

theorem isSome_grant?_build (schema : Schema) (fragments : List Fragment) (p : Path) :
    ((build schema fragments).grant? p).isSome = true ↔
      schema.contains p = true ∧
        ∃ g ∈ Fragment.parts fragments p, g.capabilities.isEmpty = false := by
  -- the filter keeps a row when some capability is granted, and that distributes over joins
  have h := Fragment.any_get?_mergeAll distributes_nonempty fragments p
  have he : (∃ g ∈ Fragment.parts fragments p, g.capabilities.isEmpty = false) ↔
      ((Fragment.mergeAll fragments).get? p).any (fun g => !g.capabilities.isEmpty) = true := by
    rw [h, List.any_eq_true]
    simp only [Bool.not_eq_true']
  rw [grant?_build, he]
  cases (Fragment.mergeAll fragments).get? p with
  | none => simp
  | some g => simp [Option.filter]

theorem grant?_build_totals {schema : Schema} {fragments : List Fragment} {p : Path} {g : Grant}
    (h : (build schema fragments).grant? p = some g) : g.Totals (Fragment.parts fragments p) := by
  rw [grant?_build, Option.filter_eq_some_iff] at h
  refine Totals.of_distributes fun holds hh => ?_
  rw [← Fragment.any_get?_mergeAll hh, h.1, Option.any_some]

theorem build_congr {schema : Schema} {fs gs : List Fragment}
    (h : Fragment.mergeAll fs = Fragment.mergeAll gs) : build schema fs = build schema gs := by
  rw [build, build, h]

/-- A column has a row when the schema has the column and some fragment allows something there; the
row is the total of the fragments' records, which in turn are totals of what they gained. So neither
order nor grouping nor repetition of fragments bears on the index. -/
theorem build_totals (schema : Schema) (fragments : List Fragment) (p : Path) :
    (((build schema fragments).grant? p).isSome = true ↔
        schema.contains p = true ∧
          ∃ g ∈ Fragment.parts fragments p, g.capabilities.isEmpty = false) ∧
      (∀ g ∈ (build schema fragments).grant? p, g.Totals (Fragment.parts fragments p)) ∧
      (∀ ts : List Fragment.Growth,
        (((ts.foldl Fragment.grow SortedMap.empty).get? p).isSome = true ↔
            Fragment.gains ts p ≠ []) ∧
          ∀ g ∈ (ts.foldl Fragment.grow SortedMap.empty).get? p, g.Totals (Fragment.gains ts p)) ∧
      (∀ others : List Fragment, (∀ f, f ∈ others ↔ f ∈ fragments) →
        build schema others = build schema fragments) ∧
      ∀ groups : List (List Fragment), (∀ f, f ∈ groups.flatten ↔ f ∈ fragments) →
        build schema (groups.map Fragment.mergeAll) = build schema fragments := by
  refine ⟨isSome_grant?_build schema fragments p, fun g hg => grant?_build_totals hg,
    fun ts => Fragment.get?_foldl_grow ts p, fun others h => ?_, fun groups h => ?_⟩
  · exact build_congr (Fragment.mergeAll_congr h)
  · apply build_congr
    rw [Fragment.mergeAll_flatten, Fragment.mergeAll_congr h]

end Index

end Delegation
