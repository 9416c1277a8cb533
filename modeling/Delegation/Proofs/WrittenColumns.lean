import Delegation.Schema.Written
import Mathlib.Tactic.Tauto

namespace Delegation

mutual
def Column.written : Column → WrittenColumn
  | .scalar n k o => .mk n (some k) none o
  | .record n fs o => .mk n none (some (writtenColumns fs)) o

def writtenColumns : List Column → List WrittenColumn
  | [] => []
  | c :: r => c.written :: writtenColumns r
end

def Schema.written (s : Schema) : List WrittenColumn := writtenColumns s.columns

namespace WrittenColumn

def name : WrittenColumn → String
  | mk n _ _ _ => n

def kind? : WrittenColumn → Option ScalarType
  | mk _ k _ _ => k

def record? : WrittenColumn → Option (List WrittenColumn)
  | mk _ _ r _ => r

def Typed (c : WrittenColumn) : Prop := c.kind?.isSome ≠ c.record?.isSome

end WrittenColumn

open WrittenColumn (toColumn toColumns)

theorem name_written (c : Column) : c.written.name = c.name := by
  cases c <;> rfl

theorem map_name_writtenColumns (cs : List Column) :
    (writtenColumns cs).map WrittenColumn.name = cs.map Column.name := by
  induction cs with
  | nil => rfl
  | cons c r ih => rw [writtenColumns, List.map_cons, List.map_cons, name_written, ih]

theorem levelFault?_eq_none_of {seen names : List String} (h : LevelNamed names)
    (hs : ∀ n ∈ names, n ∉ seen) : levelFault? seen names = none := by
  induction names generalizing seen with
  | nil => rfl
  | cons n r ih =>
    obtain ⟨hn, hr⟩ := List.nodup_cons.1 h.2
    rw [levelFault?, if_neg (by simp [h.1 n]), if_neg (hs n List.mem_cons_self)]
    refine ih ⟨fun m hm => h.1 m (List.mem_cons_of_mem _ hm), hr⟩ fun m hm => ?_
    rw [List.mem_cons, not_or]
    exact ⟨fun he => hn (he ▸ hm), hs m (List.mem_cons_of_mem _ hm)⟩

theorem levelFault?_nil_eq_none_iff {names : List String} :
    levelFault? [] names = none ↔ LevelNamed names :=
  ⟨fun h => (levelFault?_eq_none h).1, fun h => levelFault?_eq_none_of h (by simp)⟩

mutual
theorem Column.fault?_eq_none : ∀ c : Column, c.FieldsNamed → c.fault? = none
  | .scalar .., _ => rfl
  | .record n fs _, h => by
    rw [Column.fault?, fieldFault?_eq_none fs h.2, levelFault?_nil_eq_none_iff.2 h.1]
    rfl

theorem fieldFault?_eq_none : ∀ cs : List Column, AllFieldsNamed cs → fieldFault? cs = none
  | [], _ => rfl
  | c :: r, h => by
    rw [fieldFault?, c.fault?_eq_none h.1, fieldFault?_eq_none r h.2]
    rfl
end

namespace Schema

theorem ofColumns_columns (s : Schema) : ofColumns s.columns = .ok s := by
  have hn : (fieldFault? s.columns).or (levelFault? [] (s.columns.map Column.name)) = none := by
    rw [fieldFault?_eq_none _ s.wellNamed.2, levelFault?_nil_eq_none_iff.2 s.wellNamed.1]
    rfl
  unfold ofColumns
  split
  · next f h => simp [hn] at h
  · rfl

theorem ofColumns_eq_ok_iff {cs : List Column} {s : Schema} :
    ofColumns cs = .ok s ↔ s.columns = cs := by
  constructor
  · intro h
    unfold ofColumns at h
    split at h
    · simp at h
    · rw [← Except.ok.inj h]
  · rintro rfl
    exact s.ofColumns_columns

/-- Where all inner levels are well named, only the names of the level itself matter. -/
theorem ofColumns_eq_error_iff {cs : List Column} (h : AllFieldsNamed cs) {f : SchemaFault} :
    ofColumns cs = .error f ↔ levelFault? [] (cs.map Column.name) = some f := by
  have hn := fieldFault?_eq_none cs h
  unfold ofColumns
  split
  · next f' hf =>
    rw [hn, Option.none_or] at hf
    rw [hf, Except.error.injEq, Option.some.injEq]
  · next hf =>
    rw [hn, Option.none_or] at hf
    simp [hf]

end Schema

theorem bind_ofColumns_eq_ok_iff {x : Except SchemaFault (List Column)} {s : Schema} :
    x.bind Schema.ofColumns = .ok s ↔ x = .ok s.columns := by
  cases x with
  | error f => simp [Except.bind]
  | ok cs =>
    rw [Except.bind, Schema.ofColumns_eq_ok_iff, Except.ok.injEq]
    exact eq_comm

theorem toColumns_cons_eq_ok_iff {c : WrittenColumn} {r : List WrittenColumn} {ds : List Column} :
    toColumns (c :: r) = .ok ds ↔
      ∃ d ds', toColumn c = .ok d ∧ toColumns r = .ok ds' ∧ ds = d :: ds' := by
  rw [toColumns]
  cases toColumn c with
  | error f => simp [bind, Except.bind]
  | ok d =>
    cases toColumns r with
    | error f => simp [bind, Except.bind]
    | ok ds' => simp [bind, Except.bind, pure, Except.pure, eq_comm]

mutual
theorem toColumn_eq_ok_iff : ∀ (c : WrittenColumn) (d : Column),
    toColumn c = .ok d ↔ d.written = c ∧ d.FieldsNamed
  | .mk n (some k) none o, d => by
    rw [toColumn]
    cases d <;> simp [Column.written, Column.FieldsNamed]
    tauto
  | .mk n none (some cs) o, d => by
    -- the record is made a schema first, and a schema gives back what it was written as
    have ih := toColumns_eq_ok_iff cs
    rw [toColumn]
    constructor
    · intro h
      split at h
      · next s hs =>
        obtain ⟨hw, -⟩ := (ih _).1 (bind_ofColumns_eq_ok_iff.1 hs)
        rw [← Except.ok.inj h, Column.written, hw]
        exact ⟨rfl, s.wellNamed⟩
      · simp at h
    · rintro ⟨hw, hd⟩
      cases d with
      | scalar => simp [Column.written] at hw
      | record n' fs o' =>
        simp only [Column.written, WrittenColumn.mk.injEq, Option.some.injEq, true_and] at hw
        obtain ⟨rfl, rfl, rfl⟩ := hw
        have hc : toColumns (writtenColumns fs) = .ok (Schema.mk fs hd).columns :=
          (ih fs).2 ⟨rfl, hd.2⟩
        rw [bind_ofColumns_eq_ok_iff.2 hc]
  | .mk n none none o, d => by
    cases d <;> simp [toColumn, Column.written]
  | .mk n (some k) (some cs) o, d => by
    cases d <;> simp [toColumn, Column.written]

theorem toColumns_eq_ok_iff : ∀ (cs : List WrittenColumn) (ds : List Column),
    toColumns cs = .ok ds ↔ writtenColumns ds = cs ∧ AllFieldsNamed ds
  | [], ds => by
    cases ds <;> simp [toColumns, writtenColumns, AllFieldsNamed]
  | c :: r, ds => by
    rw [toColumns_cons_eq_ok_iff]
    simp only [toColumn_eq_ok_iff c, toColumns_eq_ok_iff r]
    cases ds with
    | nil => simp [writtenColumns]
    | cons d ds =>
      simp only [writtenColumns, AllFieldsNamed, List.cons.injEq]
      grind
end

/-- Conversion takes the written form back, and accepts nothing else. -/
theorem ofWritten_eq_ok_iff {table : List WrittenColumn} {s : Schema} :
    Schema.ofWritten table = .ok s ↔ s.written = table := by
  rw [Schema.ofWritten, bind_ofColumns_eq_ok_iff, toColumns_eq_ok_iff]
  exact and_iff_left s.wellNamed.2

end Delegation
