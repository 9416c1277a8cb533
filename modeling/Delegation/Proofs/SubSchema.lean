import Delegation.Proofs.Granting
import Delegation.Proofs.Leaves
import Delegation.Proofs.Views

namespace Delegation

/-- Every column of the schema is a column of the wider one, and of the same sort. -/
structure Schema.Within (s wide : Schema) : Prop where
  scalar : ∀ p c, s.resolve? p = some c → c.isScalar = true →
    ∃ d, wide.resolve? p = some d ∧ d.isScalar = true
  record : ∀ p c, s.resolve? p = some c → c.isScalar = false →
    ∃ d, wide.resolve? p = some d ∧ d.isScalar = false

namespace Schema.Within
variable {s wide : Schema} {p : Path}

theorem contains (h : s.Within wide) (hp : s.contains p = true) : wide.contains p = true := by
  obtain ⟨c, hc⟩ := Option.isSome_iff_exists.1 hp
  have hd : ∃ d, wide.resolve? p = some d := by
    cases hs : c.isScalar with
    | true => exact (h.scalar p c hc hs).imp fun d hd => hd.1
    | false => exact (h.record p c hc hs).imp fun d hd => hd.1
  exact Option.isSome_iff_exists.2 hd

theorem mem_leaves_iff (h : s.Within wide) (hp : s.contains p = true) :
    p ∈ s.leaves ↔ p ∈ wide.leaves := by
  rw [Schema.mem_leaves_iff, Schema.mem_leaves_iff]
  constructor
  · intro ⟨c, hc, hs⟩
    exact h.scalar p c hc hs
  · intro ⟨d, hd, hs⟩
    obtain ⟨c, hc⟩ := Option.isSome_iff_exists.1 hp
    refine ⟨c, hc, ?_⟩
    -- a record of the narrower schema would be one of the wider schema, too
    by_contra hn
    obtain ⟨d', hd', hs'⟩ := h.record p c hc (by simpa using hn)
    obtain rfl : d = d' := Option.some.inj (hd.symm.trans hd')
    simp [hs] at hs'

end Schema.Within

/-- Columns that are left when others are dropped, on this level and below. -/
inductive Drops : List Column → List Column → Prop
  | nil : Drops [] []
  | dropped {cs ds} (d : Column) (h : Drops cs ds) : Drops cs (d :: ds)
  | scalar {cs ds} (n : String) (k : ScalarType) (o : Bool) (h : Drops cs ds) :
      Drops (.scalar n k o :: cs) (.scalar n k o :: ds)
  | record {cs ds fs gs} (n : String) (o : Bool) (hf : Drops fs gs) (h : Drops cs ds) :
      Drops (.record n fs o :: cs) (.record n gs o :: ds)

namespace Drops
variable {cs ds : List Column}

theorem exists_of_mem (h : Drops cs ds) {c : Column} (hc : c ∈ cs) :
    ∃ d ∈ ds, d.name = c.name ∧ d.isScalar = c.isScalar ∧ Drops c.fields d.fields := by
  induction h with
  | nil => simp at hc
  | dropped d _ ih =>
    obtain ⟨d', hd, h⟩ := ih hc
    exact ⟨d', List.mem_cons_of_mem _ hd, h⟩
  | scalar n k o _ ih =>
    rcases List.mem_cons.1 hc with rfl | hc
    · exact ⟨_, List.mem_cons_self, rfl, rfl, .nil⟩
    · obtain ⟨d', hd, h⟩ := ih hc
      exact ⟨d', List.mem_cons_of_mem _ hd, h⟩
  | record n o hf _ _ ih =>
    rcases List.mem_cons.1 hc with rfl | hc
    · exact ⟨_, List.mem_cons_self, rfl, rfl, hf⟩
    · obtain ⟨d', hd, h⟩ := ih hc
      exact ⟨d', List.mem_cons_of_mem _ hd, h⟩

theorem findColumn? (h : Drops cs ds) (hw : WellNamed ds) {n : String} {c : Column}
    (hc : Delegation.findColumn? cs n = some c) :
    ∃ d, Delegation.findColumn? ds n = some d ∧ d.isScalar = c.isScalar ∧
      Drops c.fields d.fields := by
  obtain ⟨d, hd, hn, hrest⟩ := h.exists_of_mem (List.mem_of_find?_eq_some hc)
  have hcn : c.name = n := by simpa using List.find?_some hc
  exact ⟨d, (findColumn?_eq_some_iff hw.1.2).2 ⟨hd, hn.trans hcn⟩, hrest⟩

theorem resolveNames? (h : Drops cs ds) (hw : WellNamed ds) {names : List String} {c : Column}
    (hc : Delegation.resolveNames? cs names = some c) :
    ∃ d, Delegation.resolveNames? ds names = some d ∧ d.isScalar = c.isScalar := by
  -- by induction on the names: the first one leads to a record of both, with columns dropped there
  induction names generalizing cs ds with
  | nil => simp [Delegation.resolveNames?] at hc
  | cons n r ih =>
    cases r with
    | nil =>
      obtain ⟨d, hd, hs, -⟩ := h.findColumn? hw hc
      exact ⟨d, hd, hs⟩
    | cons m r =>
      obtain ⟨e, he, hr⟩ := Option.bind_eq_some_iff.1 hc
      obtain ⟨d, hd, -, hf⟩ := h.findColumn? hw he
      have hm := ((findColumn?_eq_some_iff hw.1.2).1 hd).1
      have hwf := Column.wellNamed_fields (fieldsNamed_of_mem hw.2 hm)
      obtain ⟨d', hd', hs⟩ := ih hf hwf hr
      exact ⟨d', Option.bind_eq_some_iff.2 ⟨d, hd, hd'⟩, hs⟩

theorem within {s wide : Schema} (h : Drops s.columns wide.columns) : s.Within wide where
  scalar p c hc hs := by
    obtain ⟨d, hd, he⟩ := h.resolveNames? wide.wellNamed hc
    exact ⟨d, hd, he.trans hs⟩
  record p c hc hs := by
    obtain ⟨d, hd, he⟩ := h.resolveNames? wide.wellNamed hc
    exact ⟨d, hd, he.trans hs⟩

end Drops

namespace Document

/-- Two readings that fault alike, or read values that are related. -/
def Alike {α β : Type} (R : α → β → Prop) : Checked α → Checked β → Prop
  | .ok a, .ok b => R a b
  | .error f, .error f' => f = f'
  | _, _ => False

section
variable {α β γ δ : Type} {R : α → β → Prop} {S : γ → δ → Prop}

theorem Alike.refl (c : Checked α) : Alike Eq c c := by
  cases c <;> rfl

theorem Alike.bind {c : Checked α} {d : Checked β} {k : α → Checked γ} {l : β → Checked δ}
    (h : Alike R c d) (hk : ∀ a b, R a b → Alike S (k a) (l b)) :
    Alike S (c >>= k) (d >>= l) := by
  cases c with
  | ok a =>
    cases d with
    | ok b => exact hk a b h
    | error f => exact h.elim
  | error f =>
    cases d with
    | ok b => exact h.elim
    | error f' => exact h

theorem Alike.bind_same (c : Checked α) {k : α → Checked γ} {l : α → Checked δ}
    (hk : ∀ a, Alike S (k a) (l a)) : Alike S (c >>= k) (c >>= l) := by
  refine (Alike.refl c).bind fun a b hab => ?_
  subst hab
  exact hk a

theorem Alike.error_iff {c : Checked α} {d : Checked β} (h : Alike R c d) (f : Fault) :
    c = .error f ↔ d = .error f := by
  cases c with
  | ok a =>
    cases d with
    | ok b => simp
    | error f' => exact h.elim
  | error f' =>
    cases d with
    | ok b => exact h.elim
    | error f'' =>
      have he : f' = f'' := h
      rw [he]
      simp

theorem Alike.exists_ok_iff {c : Checked α} {d : Checked β} (h : Alike R c d) :
    (∃ a, c = .ok a) ↔ ∃ b, d = .ok b := by
  cases c with
  | ok a =>
    cases d with
    | ok b => simp
    | error f => exact h.elim
  | error f =>
    cases d with
    | ok b => exact h.elim
    | error f' => simp

theorem Alike.of_ok {c : Checked α} {d : Checked β} (h : Alike R c d) {a : α} {b : β}
    (hc : c = .ok a) (hd : d = .ok b) : R a b := by
  subst hc hd
  exact h

end

def SameOn (s : Schema) (f g : Fragment) : Prop := ∀ p, s.contains p = true → f.get? p = g.get? p

def SameGrants (s : Schema) (l m : List (Path × Grant)) : Prop :=
  ∀ p, s.contains p = true → ∀ g, (p, g) ∈ l ↔ (p, g) ∈ m

section
variable {s wide : Schema}

theorem SameGrants.sameOn {l m : List (Path × Grant)} (h : SameGrants s l m) :
    SameOn s (l.foldl (fun f e => Fragment.add f e.1 e.2) SortedMap.empty)
      (m.foldl (fun f e => Fragment.add f e.1 e.2) SortedMap.empty) := by
  intro p hp
  apply Grant.eq_of_distributes
  intro holds hh
  rw [Bool.eq_iff_iff, any_foldl_add_empty hh, any_foldl_add_empty hh]
  simp only [h p hp]

/-- A list section sieves the same items by the columns of either schema. -/
theorem alike_listing (h : s.Within wide) (name : String)
    (read : Place → Json → Checked (Path × Grant)) (j : Json) :
    Alike (SameOn s) (listing name read j s) (listing name read j wide) := by
  refine Alike.bind_same _ fun items => Alike.bind_same _ fun l => ?_
  apply SameGrants.sameOn
  intro p hp g
  simp only [List.mem_filter, hp, h.contains hp]

theorem alike_restrictionGrants (h : s.Within wide) (form : RestrictionForm)
    (members : List (String × Json)) :
    Alike (SameGrants s) (restrictionGrants form members s.leaves)
      (restrictionGrants form members wide.leaves) := by
  refine Alike.bind_same _ fun r? => ?_
  cases r? with
  | none => exact fun p _ g => Iff.rfl
  | some r =>
    intro p hp g
    rw [Restriction.mem_grants, Restriction.mem_grants, h.mem_leaves_iff hp]

theorem SameGrants.append {l l' m m' : List (Path × Grant)} (h : SameGrants s l m)
    (h' : SameGrants s l' m') : SameGrants s (l ++ l') (m ++ m') := by
  intro p hp g
  rw [List.mem_append, List.mem_append, h p hp, h' p hp]

theorem alike_restrictionSection (h : s.Within wide) (j : Json) :
    Alike (SameOn s) (restrictionSection j s) (restrictionSection j wide) := by
  refine Alike.bind_same _ fun members => ?_
  refine (alike_restrictionGrants h sortForm members).bind fun sorting sorting' hs => ?_
  refine (alike_restrictionGrants h filterForm members).bind fun filtering filtering' hf => ?_
  refine (alike_restrictionGrants h groupForm members).bind fun grouping grouping' hg => ?_
  exact ((hs.append hf).append hg).sameOn

theorem alike_fragments (members : List (String × Json))
    {sections : List (String × SectionReader)}
    (hr : ∀ e ∈ sections, ∀ j, Alike (SameOn s) (e.2 j s) (e.2 j wide)) :
    Alike (List.Forall₂ (SameOn s)) (SectionTable.fragments s members sections)
      (SectionTable.fragments wide members sections) := by
  induction sections with
  | nil => exact .nil
  | cons e r ih =>
    obtain ⟨key, read⟩ := e
    obtain ⟨hread, hrest⟩ := List.forall_mem_cons.1 hr
    rw [SectionTable.fragments, SectionTable.fragments]
    cases members.lookup key with
    | none => exact ih hrest
    | some j => exact (hread j).bind fun f g hfg => (ih hrest).bind fun fs gs hs => .cons hfg hs

theorem alike_standard (h : s.Within wide) :
    ∀ e ∈ SectionTable.standard.sections, ∀ j, Alike (SameOn s) (e.2 j s) (e.2 j wide) := by
  change ∀ e ∈ [("sort", sortSection), ("filter", filterSection), ("group", groupSection),
    ("odata", restrictionSection)], _
  simp only [List.forall_mem_cons]
  exact ⟨alike_listing h _ _, alike_listing h _ _, alike_listing h _ _,
    alike_restrictionSection h, nofun⟩

end

end Document

namespace Index
open Document

structure AnswersAlike (i j : Index) (p : Path) : Prop where
  grant : i.grant? p = j.grant? p
  supports : ∀ c, i.supports p c = j.supports p c
  sorts : i.sorts p = j.sorts p
  ascendingOnly : i.ascendingOnly p = j.ascendingOnly p
  filters : i.filters p = j.filters p
  operators : i.operators? p = j.operators? p
  evaluates : ∀ o, i.evaluates p o = j.evaluates p o
  groups : i.groups p = j.groups p

theorem answersAlike_ofRows {rows rows' : SortedMap Path Grant} {p : Path}
    (h : rows.get? p = rows'.get? p) : AnswersAlike (ofRows rows) (ofRows rows') p := by
  have hview : ∀ {μ : Type} (f : Path → Grant → Option μ),
      (rows.filterMap f).get? p = (rows'.filterMap f).get? p := by
    intro μ f
    rw [SortedMap.get?_filterMap, SortedMap.get?_filterMap, h]
  constructor
  case grant => exact h
  case supports => exact fun c => congrArg (Option.any _) h
  case sorts => exact congrArg Option.isSome (hview _)
  case ascendingOnly => exact congrArg (Option.getD · false) (hview _)
  case filters => exact congrArg Option.isSome (hview _)
  case operators => exact hview _
  case evaluates => exact fun o => congrArg (Option.any _) (hview _)
  case groups => exact congrArg Option.isSome (hview _)

theorem parts_congr {s : Schema} {fs gs : List Fragment} (h : List.Forall₂ (SameOn s) fs gs)
    {p : Path} (hp : s.contains p = true) : Fragment.parts fs p = Fragment.parts gs p := by
  induction h with
  | nil => rfl
  | cons hfg _ ih =>
    rw [Fragment.parts, Fragment.parts] at ih ⊢
    rw [List.filterMap_cons, List.filterMap_cons, hfg p hp, ih]

section
variable {s wide : Schema} {fs gs : List Fragment}

theorem grant?_build_of_within (h : s.Within wide) (hs : List.Forall₂ (SameOn s) fs gs) {p : Path}
    (hp : s.contains p = true) : (build s fs).grant? p = (build wide gs).grant? p := by
  have hm : (Fragment.mergeAll fs).get? p = (Fragment.mergeAll gs).get? p := by
    apply Grant.eq_of_distributes
    intro holds hh
    rw [Fragment.any_get?_mergeAll hh, Fragment.any_get?_mergeAll hh, parts_congr hs hp]
  rw [grant?_build, grant?_build, hm, hp, h.contains hp]

/-- The narrower index has the rows of the wider one that belong to its schema. -/
theorem rows_build_of_within (h : s.Within wide) (hs : List.Forall₂ (SameOn s) fs gs) :
    (build s fs).rows =
      (build wide gs).rows.filterMap fun p g => if s.contains p then some g else none := by
  apply SortedMap.ext
  intro p
  rw [SortedMap.get?_filterMap]
  change (build s fs).grant? p = ((build wide gs).grant? p).bind _
  cases hp : s.contains p with
  | false =>
    rw [grant?_build, hp]
    simp
  | true =>
    rw [grant?_build_of_within h hs hp]
    simp

end

end Index

namespace Document

/-- A document is read against a schema as against any wider one: with the same fault, or with the
rows of the wider index whose columns the schema has. About these columns the two indices give the
same answers. -/
theorem index_of_within {s wide : Schema} (h : s.Within wide) (document : Json) :
    ((∃ i, index .standard s document = .ok i) ↔ ∃ i, index .standard wide document = .ok i) ∧
      (∀ f, index .standard s document = .error f ↔ index .standard wide document = .error f) ∧
      ∀ i j, index .standard s document = .ok i → index .standard wide document = .ok j →
        i.rows.entries = j.rows.entries.filter (fun e => s.contains e.1) ∧
          ∀ p, s.contains p = true → i.AnswersAlike j p := by
  have ha : Alike (fun i j => i.rows.entries = j.rows.entries.filter (fun e => s.contains e.1) ∧
        ∀ p, s.contains p = true → i.AnswersAlike j p)
      (index .standard s document) (index .standard wide document) := by
    cases document with
    | object members =>
      refine (alike_fragments members (alike_standard h)).bind fun fs gs hs => ⟨?_, fun p hp => ?_⟩
      · rw [Index.rows_build_of_within h hs, SortedMap.entries_filterMap_ite]
      · exact Index.answersAlike_ofRows (Index.grant?_build_of_within h hs hp)
    | _ => rfl
  exact ⟨ha.exists_ok_iff, ha.error_iff, fun i j hi hj => ha.of_ok hi hj⟩

def briefOrders : Schema where
  columns := [.record "Place" [.scalar "City" .string false] false, .scalar "Amount" .number false]
  wellNamed := by
    have hn : LevelNamed ["Place", "Amount"] := by decide
    have hf : LevelNamed ["City"] := by decide
    exact ⟨hn, ⟨hf, trivial, trivial⟩, trivial, trivial⟩

def fullOrders : Schema where
  columns := [.scalar "Name" .string false,
    .record "Place" [.scalar "Street" .string false, .scalar "City" .string false] false,
    .scalar "Amount" .number false]
  wellNamed := by
    have hn : LevelNamed ["Name", "Place", "Amount"] := by decide
    have hf : LevelNamed ["Street", "City"] := by decide
    exact ⟨hn, trivial, ⟨hf, trivial, trivial, trivial⟩, trivial, trivial⟩

/-- Grouping by a record and by a column of it, and sorting by all scalars but one. -/
def ordersDocument : Json :=
  .object [("group", .array [.string "Place", .strings ["Place", "Street"]]),
    ("odata", .object [("SortRestrictions", .object [
      ("NonSortableProperties", .array [.string "Name"]),
      ("AscendingOnlyProperties", .array [.string "Place/City"])])])]

theorem index_of_within_orders :
    briefOrders.Within fullOrders ∧
      ∃ i j, index .standard briefOrders ordersDocument = .ok i ∧
        index .standard fullOrders ordersDocument = .ok j ∧ i.size = 3 ∧ j.size = 4 ∧
        i.rows.entries = j.rows.entries.filter (fun e => briefOrders.contains e.1) ∧
        i.ascendingOnly ⟨["Place", "City"]⟩ = true := by
  have hw : briefOrders.Within fullOrders :=
    (Drops.dropped _ (.record _ _ (.dropped _ (.scalar _ _ _ .nil)) (.scalar _ _ _ .nil))).within
  obtain ⟨-, -, h⟩ := index_of_within hw ordersDocument
  obtain ⟨hrows, halike⟩ := h _ _ rfl rfl
  refine ⟨hw, _, _, rfl, rfl, rfl, rfl, hrows, ?_⟩
  exact (halike ⟨["Place", "City"]⟩ rfl).ascendingOnly.trans rfl

end Document

end Delegation
