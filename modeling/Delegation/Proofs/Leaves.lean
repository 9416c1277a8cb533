import Delegation.Schema
import Mathlib.Data.List.Nodup

namespace Delegation

theorem findColumn?_eq_some_iff {cs : List Column} (h : (cs.map Column.name).Nodup) {n : String}
    {c : Column} : findColumn? cs n = some c ↔ c ∈ cs ∧ c.name = n :=
  find?_key_eq_some_iff fun _ ha _ hb => List.inj_on_of_nodup_map h ha hb

theorem mem_leavesOf {cs : List Column} {names : List String} :
    names ∈ leavesOf cs ↔ ∃ c ∈ cs, names ∈ c.leaves := by
  induction cs with
  | nil => simp [leavesOf]
  | cons c r ih => simp only [leavesOf, List.mem_append, ih, List.mem_cons, exists_eq_or_imp]

/-- A leaf of a column begins with the column's name; what follows is a leaf of its fields. -/
theorem Column.mem_leaves {c : Column} {names : List String} :
    names ∈ c.leaves ↔ ∃ r, names = c.name :: r ∧
      ((r = [] ∧ c.isScalar = true) ∨ r ∈ leavesOf c.fields) := by
  cases c with
  | scalar n k o =>
    have hs : (Column.scalar n k o).isScalar = true := rfl
    have hl : leavesOf (Column.scalar n k o).fields = [] := rfl
    simp [Column.leaves, hs, hl, Column.name]
  | record n fs o =>
    have hs : (Column.record n fs o).isScalar = false := rfl
    simp only [Column.leaves, List.mem_map, hs, Column.name, Column.fields]
    grind

theorem nil_not_mem_leavesOf (cs : List Column) : [] ∉ leavesOf cs := by
  intro h
  obtain ⟨c, _, hc⟩ := mem_leavesOf.1 h
  obtain ⟨r, hr, _⟩ := Column.mem_leaves.1 hc
  simp at hr

theorem Column.wellNamed_fields {c : Column} (h : c.FieldsNamed) : WellNamed c.fields := by
  cases c with
  | scalar => exact Schema.empty.wellNamed
  | record => exact h

theorem fieldsNamed_of_mem {cs : List Column} (h : AllFieldsNamed cs) {c : Column} (hc : c ∈ cs) :
    c.FieldsNamed := by
  induction cs with
  | nil => simp at hc
  | cons d r ih =>
    rcases List.mem_cons.1 hc with rfl | hc
    · exact h.1
    · exact ih h.2 hc

theorem cons_mem_leavesOf {cs : List Column} (h : WellNamed cs) {n : String} {r : List String} :
    n :: r ∈ leavesOf cs ↔ ∃ c, findColumn? cs n = some c ∧
      ((r = [] ∧ c.isScalar = true) ∨ r ∈ leavesOf c.fields) := by
  constructor
  · intro hm
    obtain ⟨c, hc, hl⟩ := mem_leavesOf.1 hm
    obtain ⟨r', he, hr⟩ := Column.mem_leaves.1 hl
    obtain ⟨rfl, rfl⟩ := List.cons.inj he
    exact ⟨c, (findColumn?_eq_some_iff h.1.2).2 ⟨hc, rfl⟩, hr⟩
  · intro ⟨c, hc, hr⟩
    obtain ⟨hm, rfl⟩ := (findColumn?_eq_some_iff h.1.2).1 hc
    exact mem_leavesOf.2 ⟨c, hm, Column.mem_leaves.2 ⟨r, rfl, hr⟩⟩

theorem mem_leavesOf_iff {cs : List Column} (h : WellNamed cs) (names : List String) :
    names ∈ leavesOf cs ↔ ∃ c, resolveNames? cs names = some c ∧ c.isScalar = true := by
  -- by induction on the names: after the first one, the others lead on through its fields
  induction names generalizing cs with
  | nil => simp [nil_not_mem_leavesOf, resolveNames?]
  | cons n r ih =>
    rw [cons_mem_leavesOf h]
    cases r with
    | nil => simp [nil_not_mem_leavesOf, resolveNames?]
    | cons m r =>
      have hs : ∀ c, findColumn? cs n = some c → (m :: r ∈ leavesOf c.fields ↔
          ∃ d, resolveNames? c.fields (m :: r) = some d ∧ d.isScalar = true) := by
        intro c hc
        have hm := ((findColumn?_eq_some_iff h.1.2).1 hc).1
        exact ih (Column.wellNamed_fields (fieldsNamed_of_mem h.2 hm))
      have hr : resolveNames? cs (n :: m :: r) =
          (findColumn? cs n).bind fun c => resolveNames? c.fields (m :: r) := rfl
      rw [hr]
      cases hc : findColumn? cs n with
      | none => simp
      | some c => simpa using hs c hc

namespace Schema

theorem mem_leaves_iff (s : Schema) (p : Path) :
    p ∈ s.leaves ↔ ∃ c, s.resolve? p = some c ∧ c.isScalar = true := by
  rw [resolve?, ← mem_leavesOf_iff s.wellNamed, leaves, List.mem_map]
  obtain ⟨names⟩ := p
  simp

theorem not_mem_leaves {s : Schema} {p : Path} {c : Column} (hc : s.resolve? p = some c)
    (hr : c.isScalar = false) : p ∉ s.leaves := by
  intro hp
  obtain ⟨d, hd, hs⟩ := (s.mem_leaves_iff p).1 hp
  obtain rfl := Option.some.inj (hc.symm.trans hd)
  rw [hr] at hs
  contradiction

end Schema

end Delegation
