import Delegation.Document.Restriction
import Delegation.Proofs.Trimming
import Mathlib.Data.List.Forall2

namespace Delegation

namespace Document

theorem bind_eq_ok_iff {ε α β : Type} {x : Except ε α} {f : α → Except ε β} {b : β} :
    x >>= f = .ok b ↔ ∃ a, x = .ok a ∧ f a = .ok b := by
  cases x <;> simp [bind, Except.bind]

theorem bind_eq_error_iff {ε α β : Type} {x : Except ε α} {f : α → Except ε β} {e : ε} :
    x >>= f = .error e ↔ x = .error e ∨ ∃ a, x = .ok a ∧ f a = .error e := by
  cases x <;> simp [bind, Except.bind]

theorem map_eq_ok_iff {α β : Type} {c : Checked α} {g : α → β} {b : β} :
    c.map g = .ok b ↔ ∃ a, c = .ok a ∧ g a = b := by
  cases c <;> simp [Except.map]

theorem map_eq_error_iff {α β : Type} {c : Checked α} {g : α → β} {f : Fault} :
    c.map g = .error f ↔ c = .error f := by
  cases c <;> simp [Except.map]

theorem pure_eq_ok_iff {α : Type} {a b : α} : (pure a : Checked α) = .ok b ↔ a = b := by
  simp [pure, Except.pure]

theorem asArray_eq_ok_iff {p : Place} {j : Json} {items : List Json} :
    asArray p j = .ok items ↔ j = .array items := by
  cases j <;> simp [asArray, Place.fail]

theorem asObject_eq_ok_iff {p : Place} {j : Json} {members : List (String × Json)} :
    asObject p j = .ok members ↔ j = .object members := by
  cases j <;> simp [asObject, Place.fail]

theorem reads_unique {α : Type} {read : Place → Json → Checked α} {Reads : Json → α → Prop}
    (hr : ∀ p j a, read p j = .ok a ↔ Reads j a) {j : Json} {a b : α} (ha : Reads j a)
    (hb : Reads j b) : a = b :=
  Except.ok.inj (((hr .root j a).2 ha).symm.trans ((hr .root j b).2 hb))

theorem eachItem_eq_ok_iff {α : Type} {read : Place → Json → Checked α} {Reads : Json → α → Prop}
    (hr : ∀ p j a, read p j = .ok a ↔ Reads j a) {p : Place} {items : List Json} {l : List α} :
    eachItem p read items = .ok l ↔ List.Forall₂ Reads items l := by
  suffices h : ∀ n, (items.zipIdx n).mapM (fun e => read (p.item e.2) e.1) = .ok l ↔
      List.Forall₂ Reads items l from h 0
  induction items generalizing l with
  | nil =>
    intro n
    rw [List.zipIdx_nil, List.mapM_nil, pure_eq_ok_iff, List.forall₂_nil_left_iff, eq_comm]
  | cons j r ih =>
    intro n
    rw [List.zipIdx_cons, List.mapM_cons, List.forall₂_cons_left_iff]
    simp only [bind_eq_ok_iff, pure_eq_ok_iff, hr, ih]
    constructor
    · rintro ⟨a, ha, l', hl', rfl⟩
      exact ⟨a, l', ha, hl', rfl⟩
    · rintro ⟨a, l', ha, hl', rfl⟩
      exact ⟨a, ha, l', hl', rfl⟩

theorem mem_of_eachItem {α : Type} {read : Place → Json → Checked α} {Reads : Json → α → Prop}
    (hr : ∀ p j a, read p j = .ok a ↔ Reads j a) {p : Place} {items : List Json} {l : List α}
    (h : eachItem p read items = .ok l) (a : α) : a ∈ l ↔ ∃ j ∈ items, Reads j a := by
  rw [eachItem_eq_ok_iff hr] at h
  induction h with
  | nil => simp
  | cons hj _ ih =>
    rw [List.mem_cons, ih]
    constructor
    · rintro (rfl | ⟨k, hk, h⟩)
      · exact ⟨_, List.mem_cons_self, hj⟩
      · exact ⟨k, List.mem_cons_of_mem _ hk, h⟩
    · rintro ⟨k, hk, h⟩
      rcases List.mem_cons.1 hk with rfl | hk
      · exact .inl (reads_unique hr h hj)
      · exact .inr ⟨k, hk, h⟩

theorem exists_eachItem_iff {α : Type} {read : Place → Json → Checked α} {Reads : Json → α → Prop}
    (hr : ∀ p j a, read p j = .ok a ↔ Reads j a) {p : Place} {items : List Json} :
    (∃ l, eachItem p read items = .ok l) ↔ ∀ j ∈ items, ∃ a, Reads j a := by
  simp only [eachItem_eq_ok_iff hr]
  induction items with
  | nil => simp
  | cons j r ih =>
    rw [List.forall_mem_cons, ← ih]
    simp only [List.forall₂_cons_left_iff]
    constructor
    · rintro ⟨_, a, l, ha, hl, rfl⟩
      exact ⟨⟨a, ha⟩, l, hl⟩
    · rintro ⟨⟨a, ha⟩, l, hl⟩
      exact ⟨_, a, l, ha, hl, rfl⟩

/-- The fault in a list is that of the first item that is not read. -/
theorem exists_of_eachItem_eq_error {α : Type} {read : Place → Json → Checked α}
    {Reads : Json → α → Prop} (hr : ∀ p j a, read p j = .ok a ↔ Reads j a) {p : Place}
    {items : List Json} {f : Fault} (h : eachItem p read items = .error f) :
    ∃ before j after, items = before ++ j :: after ∧ (∀ i ∈ before, ∃ a, Reads i a) ∧
      read (p.item before.length) j = .error f := by
  suffices hn : ∀ n, (items.zipIdx n).mapM (fun e => read (p.item e.2) e.1) = .error f →
      ∃ before j after, items = before ++ j :: after ∧ (∀ i ∈ before, ∃ a, Reads i a) ∧
        read (p.item (n + before.length)) j = .error f by simpa using hn 0 h
  clear h
  induction items with
  | nil => exact nofun
  | cons j r ih =>
    intro n hn
    rw [List.zipIdx_cons, List.mapM_cons] at hn
    rcases bind_eq_error_iff.1 hn with hj | ⟨a, ha, hrest⟩
    · exact ⟨[], j, r, rfl, nofun, hj⟩
    · -- the first item is read, so the fault is further on
      rcases bind_eq_error_iff.1 hrest with hrest | ⟨l, -, hl⟩
      · obtain ⟨before, k, after, rfl, hb, hk⟩ := ih (n + 1) hrest
        refine ⟨j :: before, k, after, rfl, List.forall_mem_cons.2 ⟨⟨a, (hr _ _ _).1 ha⟩, hb⟩, ?_⟩
        rwa [List.length_cons, Nat.add_comm before.length, ← Nat.add_assoc]
      · cases hl

theorem slashParts_eq_splitOn (cs : List Char) : slashParts cs = cs.splitOn '/' := by
  induction cs with
  | nil => simp [slashParts]
  | cons c r ih =>
    rw [slashParts, List.splitOn_cons_eq_if_modifyHead, ih]
    by_cases hc : c = '/'
    · simp [hc]
    · rw [if_neg hc, if_neg (by simpa using hc)]
      -- a character that is no slash goes to the first part of what follows
      obtain ⟨part, parts, h⟩ := List.exists_cons_of_ne_nil (List.splitOn_ne_nil '/' r)
      rw [h]
      rfl

/-- A text that is printed reads as a name, without the blanks around it. -/
inductive NameReads : Json → String → Prop
  | text {s} (h : Text.printed s.toList = true) : NameReads (.string s) (Text.trim s)

theorem nameReads_map {names : List String}
    (h : ∀ n ∈ names, Text.printed n.toList = true) :
    List.Forall₂ NameReads (names.map .string) (names.map Text.trim) := by
  rw [List.forall₂_map_left_iff, List.forall₂_map_right_iff, List.forall₂_same]
  exact fun n hn => .text (h n hn)

/-- A name reads as a top-level column, a list of names as the path of these names. -/
inductive ReferenceReads : Json → Path → Prop
  | name {j n} (h : NameReads j n) : ReferenceReads j (.column n)
  | names {items ns} (hi : items ≠ []) (h : List.Forall₂ NameReads items ns) :
      ReferenceReads (.array items) ⟨ns⟩

/-- A text reads as the path of the names between its slashes. -/
inductive PropertyReads : Json → Path → Prop
  | parts {s} (h : ∀ part ∈ s.toList.splitOn '/', Text.printed part = true) :
      PropertyReads (.string s)
        ⟨(s.toList.splitOn '/').map fun part => Text.trim (String.ofList part)⟩
  | names {items ns} (hi : items ≠ []) (h : List.Forall₂ NameReads items ns) :
      PropertyReads (.array items) ⟨ns⟩

theorem segment_eq_ok_iff (p : Place) (j : Json) (n : String) :
    segment p j = .ok n ↔ NameReads j n := by
  constructor
  · intro h
    cases j with
    | string s =>
      simp only [segment, Text.blank_eq_not_printed, Place.fail] at h
      split at h
      · simp at h
      · next hb =>
        obtain rfl := Except.ok.inj h
        exact .text (by simpa using hb)
    | _ => simp [segment, Place.fail] at h
  · rintro ⟨h⟩
    simp [segment, Text.blank_eq_not_printed, h]

theorem segments_eq_ok_iff {p : Place} {items : List Json} {q : Path} :
    segments p items = .ok q ↔ items ≠ [] ∧ List.Forall₂ NameReads items q.segments := by
  rw [segments]
  cases items with
  | nil => simp [Place.fail]
  | cons j r =>
    rw [List.isEmpty_cons, if_neg Bool.false_ne_true, map_eq_ok_iff,
      ← eachItem_eq_ok_iff segment_eq_ok_iff (p := p)]
    obtain ⟨ns⟩ := q
    simp

theorem columnReference_eq_ok_iff (p : Place) (j : Json) (q : Path) :
    columnReference p j = .ok q ↔ ReferenceReads j q := by
  constructor
  · intro h
    cases j with
    | string s =>
      simp only [columnReference, Text.blank_eq_not_printed, Place.fail] at h
      split at h
      · simp at h
      · next hb =>
        obtain rfl := Except.ok.inj h
        exact .name (.text (by simpa using hb))
    | array items =>
      obtain ⟨hi, hn⟩ := segments_eq_ok_iff.1 h
      exact .names hi hn
    | _ => simp [columnReference, Place.fail] at h
  · rintro (⟨⟨h⟩⟩ | ⟨hi, h⟩)
    · simp [columnReference, Text.blank_eq_not_printed, h]
    · exact segments_eq_ok_iff.2 ⟨hi, h⟩

theorem propertyPath_eq_ok_iff (p : Place) (j : Json) (q : Path) :
    propertyPath p j = .ok q ↔ PropertyReads j q := by
  constructor
  · intro h
    cases j with
    | string s =>
      simp only [propertyPath, slashParts_eq_splitOn, Text.any_trim_isEmpty, Place.fail] at h
      split at h
      · simp at h
      · next hb =>
        obtain rfl := Except.ok.inj h
        exact .parts (List.all_eq_true.1 (by simpa using hb))
    | array items =>
      obtain ⟨hi, hn⟩ := segments_eq_ok_iff.1 h
      exact .names hi hn
    | _ => simp [propertyPath, Place.fail] at h
  · rintro (⟨h⟩ | ⟨hi, h⟩)
    · simp only [propertyPath, slashParts_eq_splitOn, Text.any_trim_isEmpty, List.all_eq_true.2 h]
      rfl
    · exact segments_eq_ok_iff.2 ⟨hi, h⟩

end Document

end Delegation
