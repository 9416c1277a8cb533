import Delegation.Proofs.WrittenColumns
import Mathlib.Data.List.DropRight

namespace Delegation

open WrittenColumn (toColumn toColumns)

/-- The names of records joined by points; `<root>` where there are none. -/
def dotted : List String → String
  | [] => SchemaFault.rootParent
  | l => String.intercalate "." l

/-- The parent that a fault names below these records. -/
def parentText (records : List String) : String :=
  dotted (records.rdropWhile (· == SchemaFault.rootParent))

theorem dotted_append {a b : List String} (ha : a ≠ []) (hb : b ≠ []) :
    dotted (a ++ b) = dotted a ++ "." ++ dotted b := by
  induction a with
  | nil => exact absurd rfl ha
  | cons n a ih =>
    obtain ⟨m, b, rfl⟩ := List.exists_cons_of_ne_nil hb
    cases a with
    | nil => simp [dotted]
    | cons k a =>
      have h := ih (by simp)
      simp only [dotted, List.cons_append, String.intercalate_cons_cons] at h ⊢
      rw [h]
      simp only [String.append_assoc]

theorem append_dot_ne (a b : String) : a ++ "." ++ b ≠ SchemaFault.rootParent := by
  intro h
  have hm : '.' ∈ (a ++ "." ++ b).toList := by simp
  rw [h] at hm
  exact absurd hm (by decide)

theorem dotted_eq_rootParent_iff {records : List String} :
    dotted records = SchemaFault.rootParent ↔ records = [] ∨ records = [SchemaFault.rootParent] := by
  rcases records with _ | ⟨n, _ | ⟨m, r⟩⟩
  · simp [dotted]
  · simp [dotted]
  · have h : dotted (n :: m :: r) = dotted [n] ++ "." ++ dotted (m :: r) :=
      dotted_append (a := [n]) (by simp) (by simp)
    rw [h]
    simp [append_dot_ne]

theorem rdropWhile_cons (p : String → Bool) (n : String) (l : List String) :
    (n :: l).rdropWhile p =
      if l.rdropWhile p = [] then [n].rdropWhile p else n :: l.rdropWhile p := by
  simp only [List.rdropWhile, List.reverse_cons, List.dropWhile_append, List.isEmpty_iff,
    List.reverse_eq_nil_iff, List.reverse_nil, List.nil_append]
  split <;> simp

theorem parentWithin_parentText (n : String) (records : List String) :
    SchemaFault.parentWithin n (parentText records) = parentText (n :: records) := by
  have hl := List.rdropWhile_last_not (· == SchemaFault.rootParent) records
  rw [SchemaFault.parentWithin, parentText, parentText, rdropWhile_cons]
  generalize records.rdropWhile (· == SchemaFault.rootParent) = inner at hl ⊢
  by_cases hi : inner = []
  · rw [if_pos hi, hi, if_pos (by rfl), List.rdropWhile_singleton]
    by_cases hr : n = SchemaFault.rootParent <;> simp [dotted, hr]
  · have hne : ¬ dotted inner = SchemaFault.rootParent := by
      rw [dotted_eq_rootParent_iff, not_or]
      refine ⟨hi, ?_⟩
      rintro rfl
      exact hl hi rfl
    rw [if_neg hi, if_neg hne]
    exact (dotted_append (a := [n]) (by simp) hi).symm

theorem dotted_ne_of_append {a b : List String} (ha : a ≠ []) (hb : b ≠ []) :
    dotted a ≠ dotted (a ++ b) := by
  intro h
  rw [dotted_append ha hb] at h
  have hl := congrArg String.length h
  simp only [String.length_append] at hl
  have hdot : ".".length = 1 := rfl
  omega

/-- Only records called `<root>` at the inner end are left out. -/
theorem parentText_eq_dotted_iff (records : List String) :
    parentText records = dotted records ↔
      records.length ≤ 1 ∨ records.getLast? ≠ some SchemaFault.rootParent := by
  constructor
  · intro h
    by_contra hn
    obtain ⟨hlen, hlast⟩ : 1 < records.length ∧
      records.getLast? = some SchemaFault.rootParent := by simpa using hn
    have hcut : records.rtakeWhile (· == SchemaFault.rootParent) ≠ [] := by
      intro ht
      have hne : records ≠ [] := List.ne_nil_of_length_pos (by omega)
      rw [List.getLast?_eq_some_getLast hne, Option.some.injEq] at hlast
      exact List.rtakeWhile_eq_nil_iff.1 ht hne (by simpa using hlast)
    have hsplit := List.rdropWhile_append_rtakeWhile
      (p := (· == SchemaFault.rootParent)) (l := records)
    -- with nothing left both texts are the root, and else the one is shorter
    by_cases hkept : records.rdropWhile (· == SchemaFault.rootParent) = []
    · rw [parentText, hkept] at h
      rcases dotted_eq_rootParent_iff.1 h.symm with rfl | rfl <;> simp at hlen
    · apply dotted_ne_of_append hkept hcut
      rw [hsplit]
      exact h
  · rintro (hlen | hlast)
    · rcases records with _ | ⟨n, _ | ⟨m, r⟩⟩
      · rfl
      · rw [← parentWithin_parentText n []]
        rfl
      · simp at hlen
    · rw [parentText, List.rdropWhile_eq_self_iff.2]
      intro hne he
      exact hlast (by simpa [List.getLast?_eq_some_getLast hne] using he)

/-- A level of a table, and the names of the records around it, outermost first. -/
inductive Level : List WrittenColumn → List String → List WrittenColumn → Prop
  | top (table) : Level table [] table
  | inside {table c fields records level} (hc : c ∈ table) (hf : c.record? = some fields)
      (h : Level fields records level) : Level table (c.name :: records) level

inductive Flaw where
  | blankName
  | repeatedName (name : String)
  | untyped (name : String)
deriving DecidableEq

namespace Flaw

def fault (parent : String) : Flaw → SchemaFault
  | blankName => .emptyName parent
  | repeatedName n => .duplicate n parent
  | untyped n => .untyped n

inductive On (level : List WrittenColumn) : Flaw → Prop
  | blankName {c} (hc : c ∈ level) (hb : Text.blank c.name = true) : On level blankName
  | repeatedName {n} (h : 2 ≤ (level.map WrittenColumn.name).count n) : On level (repeatedName n)
  | untyped {c} (hc : c ∈ level) (ht : ¬ c.Typed) : On level (untyped c.name)

theorem within_fault (n : String) (records : List String) (f : Flaw) :
    (f.fault (parentText records)).within n = f.fault (parentText (n :: records)) := by
  cases f <;> simp only [fault, SchemaFault.within, parentWithin_parentText]

end Flaw

structure LocatedFlaw where
  records : List String
  flaw : Flaw

namespace LocatedFlaw

def within (n : String) (e : LocatedFlaw) : LocatedFlaw := ⟨n :: e.records, e.flaw⟩

def fault (e : LocatedFlaw) : SchemaFault := e.flaw.fault (parentText e.records)

theorem fault_within (n : String) (e : LocatedFlaw) : (e.within n).fault = e.fault.within n :=
  (e.flaw.within_fault n e.records).symm

end LocatedFlaw

/-- The flaws of a level's names; `seen` are the names before. -/
def nameFlaws (seen : List String) : List String → List Flaw
  | [] => []
  | n :: r =>
    if Text.blank n then .blankName :: nameFlaws (n :: seen) r
    else if n ∈ seen then .repeatedName n :: nameFlaws (n :: seen) r
    else nameFlaws (n :: seen) r

def levelFlaws (level : List WrittenColumn) : List LocatedFlaw :=
  (nameFlaws [] (level.map WrittenColumn.name)).map (LocatedFlaw.mk [])

mutual
def WrittenColumn.flaws : WrittenColumn → List LocatedFlaw
  | .mk _ (some _) none _ => []
  | .mk n none (some cs) _ => (fieldFlaws cs ++ levelFlaws cs).map (.within n)
  | .mk n _ _ _ => [⟨[], .untyped n⟩]

def fieldFlaws : List WrittenColumn → List LocatedFlaw
  | [] => []
  | c :: r => c.flaws ++ fieldFlaws r
end

def tableFlaws (table : List WrittenColumn) : List LocatedFlaw := fieldFlaws table ++ levelFlaws table

/-- A conversion succeeds where there are no flaws, and is refused for the first one where there
are. -/
def RefusedFor {α : Type} (x : Except SchemaFault α) (flaws : List LocatedFlaw) : Prop :=
  match x with
  | .ok _ => flaws = []
  | .error f => flaws.head?.map LocatedFlaw.fault = some f

section
variable {α β : Type} {x : Except SchemaFault α} {v w : List LocatedFlaw}

theorem RefusedFor.bind {k : α → Except SchemaFault β} (hx : RefusedFor x v)
    (hk : ∀ a, x = .ok a → RefusedFor (k a) w) : RefusedFor (x.bind k) (v ++ w) := by
  cases x with
  | ok a =>
    obtain rfl : v = [] := hx
    exact hk a rfl
  | error f =>
    have h : v.head?.map LocatedFlaw.fault = some f := hx
    change (v ++ w).head?.map LocatedFlaw.fault = some f
    rw [List.head?_append, ← h]
    cases v with
    | nil => simp at h
    | cons e v => rfl

theorem RefusedFor.eq_error_iff (hx : RefusedFor x v) {f : SchemaFault} :
    x = .error f ↔ ∃ e, v.head? = some e ∧ e.fault = f := by
  cases x with
  | ok a =>
    obtain rfl : v = [] := hx
    simp
  | error f' =>
    have h : v.head?.map LocatedFlaw.fault = some f' := hx
    rw [Except.error.injEq, ← Option.some.injEq, ← h, Option.map_eq_some_iff]

end

theorem levelFault?_eq_head? (seen names : List String) :
    levelFault? seen names =
      (nameFlaws seen names).head?.map (Flaw.fault SchemaFault.rootParent) := by
  induction names generalizing seen with
  | nil => rfl
  | cons n r ih =>
    rw [levelFault?, nameFlaws, ih]
    split
    · rfl
    · split <;> rfl

theorem refusedFor_ofColumns {cs : List Column} (h : AllFieldsNamed cs) :
    RefusedFor (Schema.ofColumns cs) (levelFlaws (writtenColumns cs)) := by
  have hl : (levelFlaws (writtenColumns cs)).head?.map LocatedFlaw.fault =
      levelFault? [] (cs.map Column.name) := by
    rw [levelFlaws, levelFault?_eq_head?, map_name_writtenColumns, List.head?_map, Option.map_map]
    rfl
  cases ho : Schema.ofColumns cs with
  | error f => exact hl.trans ((Schema.ofColumns_eq_error_iff h).1 ho)
  | ok s =>
    obtain rfl := Schema.ofColumns_eq_ok_iff.1 ho
    rw [levelFault?_nil_eq_none_iff.2 s.wellNamed.1, Option.map_eq_none_iff,
      List.head?_eq_none_iff] at hl
    exact hl

theorem RefusedFor.bind_ofColumns {table : List WrittenColumn} {v : List LocatedFlaw}
    (h : RefusedFor (toColumns table) v) :
    RefusedFor ((toColumns table).bind Schema.ofColumns) (v ++ levelFlaws table) := by
  refine h.bind fun cs hcs => ?_
  obtain ⟨rfl, hn⟩ := (toColumns_eq_ok_iff table cs).1 hcs
  exact refusedFor_ofColumns hn

mutual
theorem refusedFor_toColumn : ∀ c : WrittenColumn, RefusedFor (toColumn c) c.flaws
  | .mk n (some k) none o => by
    rw [toColumn, WrittenColumn.flaws]
    rfl
  | .mk n none (some cs) o => by
    have h := (refusedFor_toColumns cs).bind_ofColumns
    rw [toColumn, WrittenColumn.flaws]
    cases hs : (toColumns cs).bind Schema.ofColumns with
    | ok s =>
      rw [hs] at h
      exact List.map_eq_nil_iff.2 h
    | error f =>
      obtain ⟨e, he, rfl⟩ := h.eq_error_iff.1 hs
      change ((fieldFlaws cs ++ levelFlaws cs).map (.within n)).head?.map LocatedFlaw.fault = _
      rw [List.head?_map, he]
      exact congrArg some (e.fault_within n)
  | .mk n none none o => rfl
  | .mk n (some k) (some cs) o => rfl

theorem refusedFor_toColumns : ∀ cs : List WrittenColumn, RefusedFor (toColumns cs) (fieldFlaws cs)
  | [] => rfl
  | c :: r => by
    have hr : ∀ d, RefusedFor ((toColumns r).bind fun ds => .ok (d :: ds)) (fieldFlaws r) := by
      intro d
      rw [← List.append_nil (fieldFlaws r)]
      exact (refusedFor_toColumns r).bind fun ds _ => rfl
    exact (refusedFor_toColumn c).bind fun d _ => hr d
end

theorem refusedFor_ofWritten (table : List WrittenColumn) :
    RefusedFor (Schema.ofWritten table) (tableFlaws table) :=
  (refusedFor_toColumns table).bind_ofColumns

theorem mem_nameFlaws {seen names : List String} {f : Flaw} (h : f ∈ nameFlaws seen names) :
    (f = .blankName ∧ ∃ n ∈ names, Text.blank n = true) ∨
      ∃ n, f = .repeatedName n ∧ n ∈ names ∧ (n ∈ seen ∨ 2 ≤ names.count n) := by
  induction names generalizing seen with
  | nil => simp [nameFlaws] at h
  | cons m r ih =>
    have hrest : f ∈ nameFlaws (m :: seen) r →
        (f = .blankName ∧ ∃ n ∈ m :: r, Text.blank n = true) ∨
          ∃ n, f = .repeatedName n ∧ n ∈ m :: r ∧ (n ∈ seen ∨ 2 ≤ (m :: r).count n) := by
      intro hf
      rcases ih hf with ⟨rfl, n, hn, hb⟩ | ⟨n, rfl, hn, hs⟩
      · exact .inl ⟨rfl, n, List.mem_cons_of_mem _ hn, hb⟩
      · refine .inr ⟨n, rfl, List.mem_cons_of_mem _ hn, ?_⟩
        have hpos := List.count_pos_iff.2 hn
        rw [List.mem_cons] at hs
        rw [List.count_cons]
        -- seen since `m` means seen before, or a second `m`
        rcases hs with (rfl | hs) | hs
        · simp only [beq_self_eq_true, if_true]
          omega
        · exact .inl hs
        · right
          split <;> omega
    rw [nameFlaws] at h
    split at h
    · next hb =>
      rcases List.mem_cons.1 h with rfl | h
      · exact .inl ⟨rfl, m, List.mem_cons_self, hb⟩
      · exact hrest h
    · split at h
      · next hs =>
        rcases List.mem_cons.1 h with rfl | h
        · exact .inr ⟨m, rfl, List.mem_cons_self, .inl hs⟩
        · exact hrest h
      · exact hrest h

theorem on_of_mem_levelFlaws {level : List WrittenColumn} {e : LocatedFlaw}
    (h : e ∈ levelFlaws level) : e.records = [] ∧ e.flaw.On level := by
  obtain ⟨f, hf, rfl⟩ := List.mem_map.1 h
  refine ⟨rfl, ?_⟩
  rcases mem_nameFlaws hf with ⟨rfl, n, hn, hb⟩ | ⟨n, rfl, -, hs⟩
  · obtain ⟨c, hc, rfl⟩ := List.mem_map.1 hn
    exact .blankName hc hb
  · exact .repeatedName (by simpa using hs)

/-- The flaw is there on a level of the table below these records. -/
def Placed (table : List WrittenColumn) (e : LocatedFlaw) : Prop :=
  ∃ level, Level table e.records level ∧ e.flaw.On level

theorem placed_of_mem_append {table : List WrittenColumn} {e : LocatedFlaw}
    (hf : e ∈ fieldFlaws table → Placed table e) (h : e ∈ fieldFlaws table ++ levelFlaws table) :
    Placed table e := by
  rcases List.mem_append.1 h with h | h
  · exact hf h
  · obtain ⟨hr, ho⟩ := on_of_mem_levelFlaws h
    exact ⟨table, hr ▸ .top table, ho⟩

mutual
theorem placed_of_mem_flaws {table : List WrittenColumn} {e : LocatedFlaw} :
    ∀ c : WrittenColumn, c ∈ table → e ∈ c.flaws → Placed table e
  | .mk n (some k) none o, hc, h => by simp [WrittenColumn.flaws] at h
  | .mk n none (some cs) o, hc, h => by
    rw [WrittenColumn.flaws] at h
    obtain ⟨e, he, rfl⟩ := List.mem_map.1 h
    obtain ⟨level, hl, ho⟩ : Placed cs e :=
      placed_of_mem_append (placed_of_mem_fieldFlaws cs fun d hd => hd) he
    exact ⟨level, .inside hc rfl hl, ho⟩
  | .mk n none none o, hc, h => by
    obtain rfl : e = ⟨[], .untyped n⟩ := List.mem_singleton.1 h
    exact ⟨table, .top table, .untyped hc fun ht => ht rfl⟩
  | .mk n (some k) (some cs) o, hc, h => by
    obtain rfl : e = ⟨[], .untyped n⟩ := List.mem_singleton.1 h
    exact ⟨table, .top table, .untyped hc fun ht => ht rfl⟩

theorem placed_of_mem_fieldFlaws {table : List WrittenColumn} {e : LocatedFlaw} :
    ∀ cs : List WrittenColumn, (∀ c ∈ cs, c ∈ table) → e ∈ fieldFlaws cs → Placed table e
  | [], _, h => by simp [fieldFlaws] at h
  | c :: r, hc, h => by
    rw [fieldFlaws] at h
    rcases List.mem_append.1 h with h | h
    · exact placed_of_mem_flaws c (hc c List.mem_cons_self) h
    · exact placed_of_mem_fieldFlaws r (fun d hd => hc d (List.mem_cons_of_mem _ hd)) h
end

theorem placed_of_mem_tableFlaws {table : List WrittenColumn} {e : LocatedFlaw}
    (h : e ∈ tableFlaws table) : Placed table e :=
  placed_of_mem_append (placed_of_mem_fieldFlaws table fun _ hc => hc) h

/-- A table that is refused is refused for its first flaw in reading order, which is there on a
level of the table. A fault about names tells the records around that level, outermost first and
joined by points; it leaves out the records called `<root>` at the inner end, so that it tells all
of them exactly when the innermost has another name or stands alone. -/
theorem refused_at_first_flaw (table : List WrittenColumn) (f : SchemaFault) :
    (Schema.ofWritten table = .error f ↔
        ∃ e, (tableFlaws table).head? = some e ∧ e.flaw.fault (parentText e.records) = f) ∧
      (∀ e ∈ tableFlaws table, Placed table e) ∧
      ∀ records, parentText records = dotted records ↔
        records.length ≤ 1 ∨ records.getLast? ≠ some "<root>" :=
  ⟨(refusedFor_ofWritten table).eq_error_iff, fun _ he => placed_of_mem_tableFlaws he,
    parentText_eq_dotted_iff⟩

/-- A record called `<root>` inside another one, with two columns of one name. -/
def rootInside : List WrittenColumn :=
  let x : WrittenColumn := .mk "x" (some .number) none false
  [.mk "A" none (some [.mk "<root>" none (some [x, x]) false]) false]

theorem root_record_untold :
    tableFlaws rootInside = [⟨["A", "<root>"], .repeatedName "x"⟩] ∧
      Schema.ofWritten rootInside = .error (.duplicate "x" "A") ∧
      dotted ["A", "<root>"] = "A.<root>" := by
  refine ⟨?_, ?_, ?_⟩
  · rfl
  · rfl
  · rfl

end Delegation
