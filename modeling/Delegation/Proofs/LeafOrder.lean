import Delegation.Proofs.Leaves
import Mathlib.Data.List.Pairwise

namespace Delegation

theorem pair_not_swapped {α : Type} {l : List α} (hl : l.Nodup) {a b : α} (h : [a, b].Sublist l)
    (h' : [b, a].Sublist l) : False := by
  induction l with
  | nil => simp at h
  | cons x r ih =>
    obtain ⟨hx, hr⟩ := List.nodup_cons.1 hl
    cases h with
    | cons _ h =>
      cases h' with
      | cons _ h' => exact ih hr h h'
      | cons_cons _ _ => exact hx (h.subset (List.mem_cons_of_mem _ List.mem_cons_self))
    | cons_cons _ h =>
      cases h' with
      | cons _ h' => exact hx (h'.subset (List.mem_cons_of_mem _ List.mem_cons_self))
      | cons_cons _ _ => exact hx (List.singleton_sublist.1 h)

theorem parting_unique {α : Type} {p p' r s r' s' : List α} {a b a' b' : α} (hab : a ≠ b)
    (hab' : a' ≠ b') (h : p ++ a :: r = p' ++ a' :: r') (h' : p ++ b :: s = p' ++ b' :: s') :
    p = p' ∧ a = a' ∧ b = b' := by
  induction p generalizing p' with
  | nil =>
    cases p' with
    | nil => exact ⟨rfl, (List.cons.inj h).1, (List.cons.inj h').1⟩
    | cons x t => exact absurd ((List.cons.inj h).1.trans (List.cons.inj h').1.symm) hab
  | cons x t ih =>
    cases p' with
    | nil => exact absurd ((List.cons.inj h).1.symm.trans (List.cons.inj h').1) hab'
    | cons y u =>
      obtain ⟨rfl, ht⟩ := List.cons.inj h
      obtain ⟨rfl, ha, hb⟩ := ih ht (List.cons.inj h').2
      exact ⟨rfl, ha, hb⟩

/-- The columns one level below a path: all of them below the root, and below a record its fields.
-/
inductive LevelAt (columns : List Column) : List String → List Column → Prop
  | root : LevelAt columns [] columns
  | record {names n fields o} (h : resolveNames? columns names = some (.record n fields o)) :
      LevelAt columns names fields

section
variable {cs level level' : List Column} {names r : List String} {n : String} {c : Column}

theorem resolveNames?_append (hn : names ≠ []) (hr : r ≠ []) : resolveNames? cs (names ++ r) =
    (resolveNames? cs names).bind fun c => resolveNames? c.fields r := by
  induction names generalizing cs with
  | nil => exact absurd rfl hn
  | cons a t ih =>
    cases t with
    | nil =>
      obtain ⟨b, u, rfl⟩ := List.exists_cons_of_ne_nil hr
      rfl
    | cons b u =>
      have ht : ∀ d : Column, resolveNames? d.fields (b :: u ++ r) =
          (resolveNames? d.fields (b :: u)).bind fun c => resolveNames? c.fields r :=
        fun d => ih (List.cons_ne_nil b u)
      have hs : resolveNames? cs (a :: b :: u ++ r) =
          (findColumn? cs a).bind fun d => resolveNames? d.fields (b :: u ++ r) := rfl
      have hs' : resolveNames? cs (a :: b :: u) =
          (findColumn? cs a).bind fun d => resolveNames? d.fields (b :: u) := rfl
      rw [hs, hs', Option.bind_assoc]
      simp only [ht]

theorem levelAt_nil_iff : LevelAt cs [] level ↔ level = cs := by
  constructor
  · intro h
    cases h with
    | root => rfl
    | record h => simp [resolveNames?] at h
  · rintro rfl
    exact .root

theorem levelAt_iff_of_ne_nil (hn : names ≠ []) :
    LevelAt cs names level ↔ ∃ n o, resolveNames? cs names = some (.record n level o) := by
  constructor
  · intro h
    cases h with
    | root => exact absurd rfl hn
    | record h => exact ⟨_, _, h⟩
  · rintro ⟨n, o, h⟩
    exact .record h

theorem levelAt_unique (h : LevelAt cs names level) (h' : LevelAt cs names level') :
    level = level' := by
  cases names with
  | nil => rw [levelAt_nil_iff.1 h, levelAt_nil_iff.1 h']
  | cons n r =>
    obtain ⟨m, o, h⟩ := (levelAt_iff_of_ne_nil (List.cons_ne_nil n r)).1 h
    obtain ⟨m', o', h'⟩ := (levelAt_iff_of_ne_nil (List.cons_ne_nil n r)).1 h'
    exact (Column.record.inj (Option.some.inj (h.symm.trans h'))).2.1

theorem fieldsNamed_of_resolveNames? (hw : WellNamed cs) (h : resolveNames? cs names = some c) :
    c.FieldsNamed := by
  induction names generalizing cs with
  | nil => simp [resolveNames?] at h
  | cons a t ih =>
    have hfound : ∀ {d}, findColumn? cs a = some d → d.FieldsNamed := fun hd =>
      fieldsNamed_of_mem hw.2 ((findColumn?_eq_some_iff hw.1.2).1 hd).1
    cases t with
    | nil => exact hfound h
    | cons b u =>
      obtain ⟨d, hd, h⟩ := Option.bind_eq_some_iff.1 h
      exact ih (Column.wellNamed_fields (hfound hd)) h

theorem wellNamed_of_levelAt (hw : WellNamed cs) (h : LevelAt cs names level) :
    WellNamed level := by
  cases h with
  | root => exact hw
  | record h => exact fieldsNamed_of_resolveNames? hw h

/-- A level of a record's fields is one of the columns that the record stands among. -/
theorem LevelAt.below (hw : WellNamed cs) {fields : List Column} {o : Bool}
    (hc : .record n fields o ∈ cs) (h : LevelAt fields names level) :
    LevelAt cs (n :: names) level := by
  have hf : resolveNames? cs [n] = some (.record n fields o) :=
    (findColumn?_eq_some_iff hw.1.2).2 ⟨hc, rfl⟩
  cases h with
  | root => exact .record hf
  | @record _ m level o' h =>
    have hn : names ≠ [] := by
      rintro rfl
      simp [resolveNames?] at h
    refine .record (n := m) (o := o') ?_
    rw [← List.singleton_append, resolveNames?_append (List.cons_ne_nil n []) hn, hf]
    exact h

theorem resolveNames?_concat_iff (hw : WellNamed cs) :
    resolveNames? cs (names ++ [n]) = some c ↔
      ∃ level, LevelAt cs names level ∧ c ∈ level ∧ c.name = n := by
  have hfind : ∀ {level}, LevelAt cs names level →
      (findColumn? level n = some c ↔ c ∈ level ∧ c.name = n) := fun hl =>
    findColumn?_eq_some_iff (wellNamed_of_levelAt hw hl).1.2
  cases names with
  | nil =>
    simp only [levelAt_nil_iff, exists_eq_left]
    exact hfind .root
  | cons a t =>
    have hne : a :: t ≠ [] := List.cons_ne_nil a t
    rw [resolveNames?_append hne (List.cons_ne_nil n []), Option.bind_eq_some_iff]
    constructor
    · rintro ⟨d, hd, h⟩
      -- a scalar has no fields, so nothing is found below it
      cases d with
      | scalar => simp [Column.fields, resolveNames?, findColumn?] at h
      | record m fs o => exact ⟨fs, .record hd, (hfind (.record hd)).1 h⟩
    · rintro ⟨level, hl, h⟩
      obtain ⟨m, o, hd⟩ := (levelAt_iff_of_ne_nil hne).1 hl
      exact ⟨_, hd, (hfind hl).2 h⟩

end

/-- Two paths run together down to some level, and there the first goes on with a column that is
declared before the one that the second goes on with. -/
inductive DeclaredBefore (columns : List Column) : List String → List String → Prop
  | of {names level n m r r'} (hl : LevelAt columns names level)
      (hn : [n, m].Sublist (level.map Column.name)) :
      DeclaredBefore columns (names ++ n :: r) (names ++ m :: r')

section
variable {cs : List Column} {a b : List String}

theorem DeclaredBefore.below (hw : WellNamed cs) {n : String} {fields : List Column} {o : Bool}
    (hc : .record n fields o ∈ cs) (h : DeclaredBefore fields a b) :
    DeclaredBefore cs (n :: a) (n :: b) := by
  obtain ⟨hl, hn⟩ := h
  exact .of (hl.below hw hc) hn

theorem DeclaredBefore.asymm (hw : WellNamed cs) (h : DeclaredBefore cs a b) :
    ¬ DeclaredBefore cs b a := by
  intro h'
  generalize ha : a = a' at h'
  generalize hb : b = b' at h'
  obtain @⟨names, level, n, m, r, r', hl, hn⟩ := h
  obtain @⟨names', level', n', m', s, s', hl', hn'⟩ := h'
  have hd := (wellNamed_of_levelAt hw hl).1.2
  have hd' := (wellNamed_of_levelAt hw hl').1.2
  have hne : n ≠ m := by simpa using hn.nodup hd
  have hne' : m' ≠ n' := Ne.symm (by simpa using hn'.nodup hd')
  obtain ⟨rfl, rfl, rfl⟩ := parting_unique hne hne' ha hb
  obtain rfl := levelAt_unique hl hl'
  exact pair_not_swapped hd hn hn'

mutual
theorem Column.pairwise_leaves : ∀ {cs : List Column}, WellNamed cs → ∀ c : Column, c ∈ cs →
    c.leaves.Pairwise (DeclaredBefore cs)
  | _, _, .scalar .., _ => List.pairwise_singleton _ _
  | _, hw, .record _ fs _, hc => by
    have hf : WellNamed fs := fieldsNamed_of_mem hw.2 hc
    exact List.pairwise_map.2 ((pairwise_leavesOf hf fs (.refl fs)).imp (.below hw hc))

theorem pairwise_leavesOf : ∀ {cs : List Column}, WellNamed cs → ∀ part : List Column,
    part.Sublist cs → (leavesOf part).Pairwise (DeclaredBefore cs)
  | _, _, [], _ => .nil
  | cs, hw, c :: r, h => by
    refine List.pairwise_append.2 ⟨c.pairwise_leaves hw (h.subset List.mem_cons_self),
      pairwise_leavesOf hw r (List.sublist_of_cons_sublist h), fun a ha b hb => ?_⟩
    -- leaves of different columns part on this level
    obtain ⟨d, hd, hb⟩ := mem_leavesOf.1 hb
    obtain ⟨ra, rfl, -⟩ := Column.mem_leaves.1 ha
    obtain ⟨rb, rfl, -⟩ := Column.mem_leaves.1 hb
    have hs : [c, d].Sublist cs := ((List.singleton_sublist.2 hd).cons_cons c).trans h
    exact .of .root (hs.map Column.name)
end

end

namespace Schema
variable (s : Schema)

theorem pairwise_leaves :
    s.leaves.Pairwise fun p q => DeclaredBefore s.columns p.segments q.segments :=
  List.pairwise_map.2 (pairwise_leavesOf s.wellNamed s.columns (.refl _))

theorem nodup_leaves : s.leaves.Nodup := by
  refine s.pairwise_leaves.imp fun h he => ?_
  subst he
  exact h.asymm s.wellNamed h

theorem leaves_total {p q : Path} (hp : p ∈ s.leaves) (hq : q ∈ s.leaves) (hne : p ≠ q) :
    [p, q].Sublist s.leaves ∨ [q, p].Sublist s.leaves := by
  have h : s.leaves.Pairwise fun p q => [p, q].Sublist s.leaves ∨ [q, p].Sublist s.leaves :=
    List.pairwise_iff_forall_sublist.2 .inl
  have : Std.Symm fun p q : Path => [p, q].Sublist s.leaves ∨ [q, p].Sublist s.leaves :=
    ⟨fun _ _ => Or.symm⟩
  exact h.forall hp hq hne

theorem sublist_leaves_iff {p q : Path} : [p, q].Sublist s.leaves ↔
    p ∈ s.leaves ∧ q ∈ s.leaves ∧ DeclaredBefore s.columns p.segments q.segments := by
  have hd : ∀ {p q}, [p, q].Sublist s.leaves →
      DeclaredBefore s.columns p.segments q.segments := fun h =>
    List.pairwise_iff_forall_sublist.1 s.pairwise_leaves h
  constructor
  · intro h
    exact ⟨h.subset (by simp), h.subset (by simp), hd h⟩
  · rintro ⟨hp, hq, h⟩
    have hne : p ≠ q := by
      rintro rfl
      exact h.asymm s.wellNamed h
    exact (s.leaves_total hp hq hne).resolve_right fun h' => h.asymm s.wellNamed (hd h')

theorem resolve?_root : s.resolve? .root = none := rfl

theorem resolve?_below_scalar {p : Path} {c : Column} (h : s.resolve? p = some c)
    (hc : c.isScalar = true) {r : List String} (hr : r ≠ []) :
    s.resolve? ⟨p.segments ++ r⟩ = none := by
  have hp : p.segments ≠ [] := by
    intro he
    simp [resolve?, he, resolveNames?] at h
  have hf : c.fields = [] := by
    cases c with
    | scalar => rfl
    | record => simp [Column.isScalar, Column.kind?] at hc
  obtain ⟨n, t, rfl⟩ := List.exists_cons_of_ne_nil hr
  have hs : s.resolve? ⟨p.segments ++ n :: t⟩ =
      (s.resolve? p).bind fun c => resolveNames? c.fields (n :: t) := resolveNames?_append hp hr
  rw [hs, h, Option.bind_some, hf]
  cases t <;> rfl

/-- The leaves of a schema are the paths of its scalars, each once. Of two leaves the one stands
first whose column is declared before that of the other where the two part. One name more leads to a
column exactly below the root and below a record that has such a field; the root itself is no
column, and below a scalar there is none. -/
theorem leaves_in_order :
    s.leaves.Nodup ∧
      (∀ p, p ∈ s.leaves ↔ ∃ c, s.resolve? p = some c ∧ c.isScalar = true) ∧
      (∀ p ∈ s.leaves, ∀ q ∈ s.leaves, p ≠ q →
        [p, q].Sublist s.leaves ∨ [q, p].Sublist s.leaves) ∧
      (∀ p q, [p, q].Sublist s.leaves ↔
        p ∈ s.leaves ∧ q ∈ s.leaves ∧ DeclaredBefore s.columns p.segments q.segments) ∧
      (∀ (p : Path) n c, s.resolve? (p.append n) = some c ↔
        ∃ level, LevelAt s.columns p.segments level ∧ c ∈ level ∧ c.name = n) ∧
      s.resolve? .root = none ∧
      ∀ p c, s.resolve? p = some c → c.isScalar = true →
        ∀ r, r ≠ [] → s.resolve? ⟨p.segments ++ r⟩ = none := by
  refine ⟨s.nodup_leaves, s.mem_leaves_iff, fun p hp q hq => s.leaves_total hp hq,
    fun p q => s.sublist_leaves_iff, fun p n c => resolveNames?_concat_iff s.wellNamed,
    s.resolve?_root, fun p c h hc r hr => s.resolve?_below_scalar h hc hr⟩

def visits : Schema where
  columns := [.scalar "Visitor" .string false,
    .record "Place" [.scalar "Street" .string false, .scalar "City" .string false] false,
    .scalar "Count" .number false]
  wellNamed := by
    have hn : LevelNamed ["Visitor", "Place", "Count"] := by decide
    have hf : LevelNamed ["Street", "City"] := by decide
    exact ⟨hn, trivial, ⟨hf, trivial, trivial, trivial⟩, trivial, trivial⟩

theorem leaves_in_order_visits :
    [⟨["Place", "Street"]⟩, ⟨["Place", "City"]⟩].Sublist visits.leaves ∧
      [⟨["Place", "City"]⟩, ⟨["Count"]⟩].Sublist visits.leaves ∧
      (∃ c, visits.resolve? ((Path.column "Place").append "City") = some c) ∧
      visits.resolve? ⟨["Place", "City", "Place"]⟩ = none := by
  obtain ⟨-, hmem, -, horder, happend, -, hbelow⟩ := leaves_in_order visits
  have hstreet : ⟨["Place", "Street"]⟩ ∈ visits.leaves := (hmem _).2 ⟨_, rfl, rfl⟩
  have hcity : ⟨["Place", "City"]⟩ ∈ visits.leaves := (hmem _).2 ⟨_, rfl, rfl⟩
  have hcount : ⟨["Count"]⟩ ∈ visits.leaves := (hmem _).2 ⟨_, rfl, rfl⟩
  have hplace : LevelAt visits.columns ["Place"]
      [.scalar "Street" .string false, .scalar "City" .string false] := .record rfl
  refine ⟨(horder _ _).2 ⟨hstreet, hcity, ?_⟩, (horder _ _).2 ⟨hcity, hcount, ?_⟩, ?_, ?_⟩
  · exact @DeclaredBefore.of _ ["Place"] _ "Street" "City" [] [] hplace (.refl _)
  · exact @DeclaredBefore.of _ [] _ "Place" "Count" ["City"] [] .root (List.sublist_cons_self _ _)
  · exact ⟨_, (happend _ _ _).2 ⟨_, hplace, List.mem_cons_of_mem _ List.mem_cons_self, rfl⟩⟩
  · exact hbelow ⟨["Place", "City"]⟩ _ rfl rfl ["Place"] (List.cons_ne_nil _ _)

end Schema

end Delegation
