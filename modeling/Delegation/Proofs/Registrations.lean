import Delegation.Proofs.Reading
import Delegation.Proofs.Views
import Delegation.Document
import Mathlib.Data.List.Induction

namespace Delegation

namespace SectionTable

section
variable {α : Type} {k : String} {v : α} {l history : List (String × α)} {e : String × α}

theorem keys_putList (k : String) (v : α) (l : List (String × α)) : (putList k v l).map Prod.fst =
    l.map Prod.fst ++ if k ∈ l.map Prod.fst then [] else [k] := by
  induction l with
  | nil => rfl
  | cons a r ih =>
    rw [putList]
    by_cases ha : a.1 = k
    · simp [ha]
    · have hm : k ∈ (a :: r).map Prod.fst ↔ k ∈ r.map Prod.fst := by
        rw [List.map_cons, List.mem_cons]
        exact or_iff_right (Ne.symm ha)
      simp only [hm, if_neg ha]
      rw [List.map_cons, ih, List.map_cons, List.cons_append]

theorem mem_putList_iff (hl : (l.map Prod.fst).Nodup) :
    e ∈ putList k v l ↔ e = (k, v) ∨ e ∈ l ∧ e.1 ≠ k := by
  induction l with
  | nil => simp [putList]
  | cons a r ih =>
    obtain ⟨ha, hr⟩ := List.nodup_cons.1 hl
    rw [putList]
    split
    · next hk =>
      -- the key does not come again
      have hn : ∀ e ∈ r, e.1 ≠ k := by
        rintro e he rfl
        exact ha (hk ▸ List.mem_map_of_mem he)
      simp only [List.mem_cons]
      grind
    · next hk =>
      rw [List.mem_cons, ih hr, List.mem_cons]
      grind

/-- The keys of some registrations in the order of their first, each with what was registered last
for it. -/
structure ListsLast (history l : List (String × α)) : Prop where
  distinct : (l.map Prod.fst).Nodup
  keys : l.map Prod.fst = (history.map Prod.fst).eraseDups
  bound : ∀ key v, (key, v) ∈ l ↔ history.reverse.lookup key = some v

theorem listsLast_nil : ListsLast ([] : List (String × α)) [] where
  distinct := .nil
  keys := rfl
  bound _ _ := by simp

theorem eraseDups_concat (keys : List String) (k : String) :
    (keys ++ [k]).eraseDups = keys.eraseDups ++ if k ∈ keys then [] else [k] := by
  rw [List.eraseDups_append]
  by_cases hk : k ∈ keys
  · simp [List.removeAll, hk]
  · simp [List.removeAll, hk, List.eraseDups_cons]

theorem ListsLast.put (h : ListsLast history l) (k : String) (v : α) :
    ListsLast (history ++ [(k, v)]) (putList k v l) where
  distinct := by
    rw [keys_putList]
    split
    · simpa using h.distinct
    · next hk => exact List.nodup_append.2 ⟨h.distinct, by simp, by grind⟩
  keys := by
    have hm : k ∈ l.map Prod.fst ↔ k ∈ history.map Prod.fst := by
      rw [h.keys, List.mem_eraseDups]
    rw [keys_putList, List.map_append, List.map_cons, List.map_nil, eraseDups_concat, ← h.keys]
    simp only [hm]
  bound key w := by
    rw [mem_putList_iff h.distinct, h.bound, List.reverse_append, List.reverse_singleton,
      List.singleton_append, SortedMap.lookup_cons_ite]
    grind

theorem ListsLast.putAll (h : ListsLast history l) (more : List (String × α)) :
    ListsLast (history ++ more) (more.foldl (fun l e => putList e.1 e.2 l) l) := by
  induction more generalizing l history with
  | nil => simpa using h
  | cons e r ih =>
    rw [← List.singleton_append, ← List.append_assoc]
    exact ih (h.put e.1 e.2)

end

def registerAll (t : SectionTable) (registrations : List (String × Document.SectionReader)) :
    SectionTable :=
  registrations.foldl (fun t r => t.register r.1 r.2) t

theorem listsLast_registerAll {t : SectionTable} {history : List (String × Document.SectionReader)}
    (h : ListsLast history t.sections)
    (registrations : List (String × Document.SectionReader)) :
    ListsLast (history ++ registrations) (t.registerAll registrations).sections := by
  have hs : (t.registerAll registrations).sections =
      registrations.foldl (fun l e => putList e.1 e.2 l) t.sections :=
    (List.foldl_hom sections fun _ _ => rfl).symm
  rw [hs]
  exact h.putAll registrations

def standardSections : List (String × Document.SectionReader) :=
  [("sort", Document.sortSection), ("filter", Document.filterSection),
    ("group", Document.groupSection), ("odata", Document.restrictionSection)]

/-- The tables that registrations start from, with those that led there. -/
inductive Initial : SectionTable → List (String × Document.SectionReader) → Prop
  | empty : Initial empty []
  | standard : Initial standard standardSections

theorem Initial.listsLast {t : SectionTable} {first : List (String × Document.SectionReader)}
    (h : Initial t first) : ListsLast first t.sections := by
  cases h with
  | empty => exact listsLast_nil
  | standard => exact listsLast_registerAll (t := SectionTable.empty) listsLast_nil standardSections

/-- What the readers say of the sections that the document has, in the order of the table. -/
def readings (schema : Schema) (members : List (String × Json))
    (sections : List (String × Document.SectionReader)) : List (Document.Checked Fragment) :=
  sections.filterMap fun e => (members.lookup e.1).map fun j => e.2 j schema

variable {schema : Schema} {members : List (String × Json)}
  {sections : List (String × Document.SectionReader)}

theorem fragments_eq_mapM :
    fragments schema members sections = (readings schema members sections).mapM id := by
  induction sections with
  | nil => rfl
  | cons e r ih =>
    obtain ⟨key, read⟩ := e
    rw [fragments, readings, List.filterMap_cons]
    cases members.lookup key with
    | none => exact ih
    | some j =>
      simp only [Option.map_some, List.mapM_cons, id, ih]
      rfl

end SectionTable

namespace Document

section
variable {α : Type} {results : List (Checked α)} {f : Fault}

theorem mapM_id_cons_ok (a : α) :
    (.ok a :: results).mapM id = (results.mapM id).map (a :: ·) := by
  rw [List.mapM_cons]
  cases results.mapM id <;> rfl

theorem mapM_id_cons_error (g : Fault) :
    (.error g :: results).mapM id = (.error g : Checked (List α)) := by
  rw [List.mapM_cons]
  rfl

theorem mapM_id_eq_ok_iff {l : List α} : results.mapM id = .ok l ↔ results = l.map .ok := by
  induction results generalizing l with
  | nil =>
    rw [List.mapM_nil, pure_eq_ok_iff]
    cases l <;> simp
  | cons c r ih =>
    cases c with
    | error g =>
      rw [mapM_id_cons_error]
      cases l <;> simp
    | ok a =>
      rw [mapM_id_cons_ok, map_eq_ok_iff]
      cases l <;> simp [ih, and_comm]

theorem mapM_id_eq_error_iff : results.mapM id = .error f ↔
    ∃ (l : List α) (later : List (Checked α)), results = l.map .ok ++ .error f :: later := by
  induction results with
  | nil => simp [pure, Except.pure]
  | cons c r ih =>
    cases c with
    | error g =>
      rw [mapM_id_cons_error, Except.error.injEq]
      constructor
      · rintro rfl
        exact ⟨[], r, rfl⟩
      · rintro ⟨l, later, h⟩
        cases l with
        | nil => exact Except.error.inj (List.cons.inj h).1
        | cons a t => simp at h
    | ok a =>
      rw [mapM_id_cons_ok, map_eq_error_iff, ih]
      constructor
      · rintro ⟨l, later, rfl⟩
        exact ⟨a :: l, later, rfl⟩
      · rintro ⟨l, later, h⟩
        cases l with
        | nil => simp at h
        | cons b t => exact ⟨t, later, (List.cons.inj h).2⟩

end

section
variable {table : SectionTable} {schema : Schema} {members members' : List (String × Json)} {i : Index}
  {f : Fault}

theorem index_object_eq : index table schema (.object members) =
    ((SectionTable.readings schema members table.sections).mapM id).map (Index.build schema) := by
  rw [index, SectionTable.fragments_eq_mapM]
  cases (SectionTable.readings schema members table.sections).mapM id <;> rfl

theorem index_object_eq_ok_iff : index table schema (.object members) = .ok i ↔
    ∃ fs, SectionTable.readings schema members table.sections = fs.map .ok ∧
      Index.build schema fs = i := by
  rw [index_object_eq, map_eq_ok_iff]
  simp only [mapM_id_eq_ok_iff]

theorem index_object_eq_error_iff : index table schema (.object members) = .error f ↔
    ∃ (fs : List Fragment) (later : List (Checked Fragment)),
      SectionTable.readings schema members table.sections = fs.map .ok ++ .error f :: later := by
  rw [index_object_eq, map_eq_error_iff, mapM_id_eq_error_iff]

theorem index_of_not_object {j : Json} (h : ∀ members, j ≠ .object members) :
    index table schema j = Place.root.fail .documentNotObject := by
  cases j with
  | object members => exact absurd rfl (h members)
  | _ => rfl

theorem index_object_congr
    (h : ∀ key ∈ table.keys, members.lookup key = members'.lookup key) :
    index table schema (.object members) = index table schema (.object members') := by
  have hr : SectionTable.readings schema members table.sections =
      SectionTable.readings schema members' table.sections :=
    List.filterMap_congr fun e he => by rw [h e.1 (List.mem_map_of_mem he)]
  rw [index_object_eq, index_object_eq, hr]

end

end Document

def Index.Mentions (i : Index) (p : Path) : Prop :=
  (∃ g, i.HasRow p g) ∨ i.sorts p = true ∨ i.filters p = true ∨ i.groups p = true

theorem Index.contains_of_mentions {schema : Schema} {fragments : List Fragment} {p : Path}
    (h : (build schema fragments).Mentions p) : schema.contains p = true := by
  have hs : ∀ c, (build schema fragments).supports p c = true → schema.contains p = true := by
    intro c hc
    obtain ⟨g, hg, -⟩ := supports_iff_hasRow.1 hc
    exact (hasRow_build_iff.1 hg).2.1
  rcases h with ⟨g, hg⟩ | h | h | h
  · exact (hasRow_build_iff.1 hg).2.1
  · exact hs .sort ((sorts_ofRows p).symm.trans h)
  · exact hs .filter (contains_view.symm.trans h)
  · exact hs .group (contains_view.symm.trans h)

namespace SectionTable
open Document

/-- After any registrations, from no sections or from the standard ones, the keys are those that
were registered, each once and in the order of their first registration, and each has the reader
that was registered last. A document that is no object is a fault at the root. Of one that is, the
sections with a registered key are read in that order: the first fault is the answer, and without
any fault the index is built from what was read. No other section matters, and whatever the readers
do, the index has columns of the schema only. -/
theorem index_by_registrations {t : SectionTable} {first : List (String × SectionReader)}
    (h : Initial t first) (registrations : List (String × SectionReader)) (schema : Schema) :
    ListsLast (first ++ registrations) (t.registerAll registrations).sections ∧
      (∀ j, (∀ members, j ≠ .object members) → index (t.registerAll registrations) schema j =
        .error (.malformed .root .documentNotObject) ∧ Place.root.text = "$") ∧
      (∀ members f, index (t.registerAll registrations) schema (.object members) = .error f ↔
        ∃ (fs : List Fragment) (later : List (Checked Fragment)),
          readings schema members (t.registerAll registrations).sections =
            fs.map .ok ++ .error f :: later) ∧
      (∀ members i, index (t.registerAll registrations) schema (.object members) = .ok i ↔
        ∃ fs, readings schema members (t.registerAll registrations).sections = fs.map .ok ∧
          Index.build schema fs = i) ∧
      (∀ members members', (∀ key ∈ (t.registerAll registrations).keys,
          members.lookup key = members'.lookup key) →
        index (t.registerAll registrations) schema (.object members) =
          index (t.registerAll registrations) schema (.object members')) ∧
      ∀ j i, index (t.registerAll registrations) schema j = .ok i →
        ∀ p, i.Mentions p → schema.contains p = true := by
  refine ⟨listsLast_registerAll h.listsLast registrations, fun j hj => ⟨index_of_not_object hj, rfl⟩,
    fun members f => index_object_eq_error_iff, fun members i => index_object_eq_ok_iff,
    fun members members' => index_object_congr, fun j i hi p hp => ?_⟩
  by_cases hj : ∃ members, j = .object members
  · obtain ⟨members, rfl⟩ := hj
    obtain ⟨fs, -, rfl⟩ := index_object_eq_ok_iff.1 hi
    exact Index.contains_of_mentions hp
  · rw [index_of_not_object fun members he => hj ⟨members, he⟩] at hi
    simp [Place.fail] at hi

def parcels : Schema where
  columns := [.scalar "Weight" .number false]
  wellNamed := by
    have hn : LevelNamed ["Weight"] := by decide
    exact ⟨hn, trivial, trivial⟩

def faultingReader (fault : Fault) : SectionReader := fun _ _ => .error fault

/-- It grants a column that is not in the schema. -/
def straying : SectionReader := fun _ _ =>
  .ok (Fragment.add SortedMap.empty (.column "Colour") (.sortable false))

def furtherSections : List (String × SectionReader) :=
  [("extra", faultingReader (.malformed (.section "extra") (.other "first"))), ("sort", straying),
    ("extra", faultingReader (.notJson "second"))]

theorem index_by_registrations_further :
    Initial standard standardSections ∧
      (standard.registerAll furtherSections).keys = ["sort", "filter", "group", "odata", "extra"] ∧
      index (standard.registerAll furtherSections) parcels
        (.object [("extra", .null), ("sort", .null)]) = .error (.notJson "second") ∧
      ∃ i, index (standard.registerAll furtherSections) parcels
        (.object [("sort", .null), ("note", .null)]) = .ok i ∧ ¬ i.Mentions (.column "Colour") := by
  obtain ⟨hlists, -, hfault, hok, hother, hknown⟩ :=
    index_by_registrations .standard furtherSections parcels
  have hkeys : (standard.registerAll furtherSections).keys =
      ["sort", "filter", "group", "odata", "extra"] := hlists.keys.trans (by decide)
  refine ⟨.standard, hkeys, (hfault _ _).2 ⟨[_], [], rfl⟩, ?_⟩
  obtain ⟨i, hi⟩ : ∃ i, index (standard.registerAll furtherSections) parcels
      (.object [("sort", .null)]) = .ok i := ⟨_, (hok _ _).2 ⟨[_], rfl, rfl⟩⟩
  refine ⟨i, (hother _ _ ?_).trans hi, fun hm => ?_⟩
  · simp [hkeys, SortedMap.lookup_cons_ite]
  · exact absurd (hknown _ i hi _ hm) (by decide)

end SectionTable

end Delegation
