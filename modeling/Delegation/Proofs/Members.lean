import Delegation.Proofs.WrittenIndex

namespace Delegation

namespace SortedMap
variable {κ ν : Type} [LT κ] [DecidableLT κ] [KeyOrder κ] [DecidableEq κ]

theorem get?_foldl_insert {l : List (κ × ν)} (h : (l.map Prod.fst).Nodup) (m : SortedMap κ ν)
    (k : κ) :
    (l.foldl (fun m e => m.insert e.1 e.2) m).get? k = (l.lookup k).or (m.get? k) := by
  induction l generalizing m with
  | nil => rfl
  | cons e r ih =>
    obtain ⟨a, x⟩ := e
    obtain ⟨hn, hr⟩ := List.nodup_cons.1 h
    rw [List.foldl_cons, ih hr, get?_insert, lookup_cons_ite]
    split
    · next hk =>
      -- the name does not come again
      have hl : r.lookup k = none := by
        rw [List.lookup_eq_none_iff]
        intro p hp
        rw [bne_iff_ne, hk]
        intro he
        exact hn (he ▸ List.mem_map_of_mem hp)
      rw [hl, Option.none_or, Option.some_or]
    · rfl

theorem get?_ofList {l : List (κ × ν)} (h : (l.map Prod.fst).Nodup) (k : κ) :
    (ofList l).get? k = l.lookup k := by
  rw [ofList, get?_foldl_insert h, get?_empty, Option.or_none]

end SortedMap

namespace Json

namespace Record
variable {κ α β : Type} {i : Nat} {s : Source κ} {name : String} {read : κ → Reading α} {a d : α}

theorem map_find? (name : String) (l : List (String × κ)) :
    (find? name l).map Prod.snd = l.lookup name := by
  induction l with
  | nil => rfl
  | cons e r ih =>
    obtain ⟨k, v⟩ := e
    rw [find?, SortedMap.lookup_cons_ite, ← ih]
    by_cases hk : k = name
    · rw [if_pos hk, if_pos hk.symm]
      rfl
    · rw [if_neg hk, if_neg (Ne.symm hk), Option.map_map]
      rfl

theorem run_field_eq_ok_iff : (field name read).run i s = .ok a ↔
    ∃ v, s.present.lookup name = some v ∧ read v = .ok a := by
  rw [← map_find?]
  simp only [field]
  cases find? name s.present with
  | none => simp
  | some e => cases h : read e.2 <;> simp [Except.mapError, h]

theorem run_optional_eq_ok_iff : (optional name d read).run i s = .ok a ↔
    (∃ v, s.present.lookup name = some v ∧ read v = .ok a) ∨
      s.present.lookup name = none ∧ d = a := by
  rw [← map_find?]
  simp only [optional]
  cases find? name s.present with
  | none => simp
  | some e => cases h : read e.2 <;> simp [Except.mapError, h]

theorem run_field_of_lookup {v : κ} (hv : s.present.lookup name = some v)
    (ha : read v = .ok a) : (field name read).run i s = .ok a :=
  run_field_eq_ok_iff.2 ⟨v, hv, ha⟩

theorem run_optional_of_lookup {v : κ} (hv : s.present.lookup name = some v)
    (ha : read v = .ok a) : (optional name d read).run i s = .ok a :=
  run_optional_eq_ok_iff.2 (.inl ⟨v, hv, ha⟩)

theorem run_optional_of_lookup_none (hv : s.present.lookup name = none) :
    (optional name d read).run i s = .ok d :=
  run_optional_eq_ok_iff.2 (.inr ⟨hv, rfl⟩)

theorem run_seq_eq_ok_iff {f : Record κ (α → β)} {x : Record κ α} {b : β} :
    (f <*> x).run i s = .ok b ↔
      ∃ g a, f.run i s = .ok g ∧ x.run (i + f.names.length) s = .ok a ∧ g a = b := by
  change (both f x).run i s = _ ↔ _
  simp only [both]
  cases f.run i s <;> cases x.run (i + f.names.length) s <;> simp

theorem run_map_eq_ok_iff {g : α → β} {x : Record κ α} {b : β} :
    (g <$> x).run i s = .ok b ↔ ∃ a, x.run i s = .ok a ∧ g a = b := by
  change ((pure g : Record κ (α → β)) <*> x).run i s = _ ↔ _
  rw [run_seq_eq_ok_iff]
  constructor
  · rintro ⟨g', a, hg, ha, hb⟩
    obtain rfl : g = g' := Except.ok.inj hg
    exact ⟨a, ha, hb⟩
  · rintro ⟨a, ha, hb⟩
    exact ⟨g, a, rfl, ha, hb⟩

theorem repeated?_eq_none (names : List String) {l : List (String × κ)}
    (h : (l.map Prod.fst).Nodup) : repeated? names l = none := by
  induction l with
  | nil => rfl
  | cons e r ih =>
    obtain ⟨k, v⟩ := e
    obtain ⟨hk, hr⟩ := List.nodup_cons.1 h
    rw [repeated?, if_neg, ih hr]
    rintro ⟨-, ha⟩
    obtain ⟨m, hm, he⟩ := List.any_eq_true.1 ha
    exact hk (List.mem_map.2 ⟨m, hm, by simpa using he⟩)

theorem repeated?_congr {μ : Type} (names : List String) {l : List (String × κ)}
    {l' : List (String × μ)} (h : l.map Prod.fst = l'.map Prod.fst) :
    repeated? names l = repeated? names l' := by
  induction l generalizing l' with
  | nil =>
    obtain rfl : l' = [] := by simpa using h.symm
    rfl
  | cons e r ih =>
    cases l' with
    | nil => simp at h
    | cons e' r' =>
      obtain ⟨he, hr⟩ := List.cons.inj h
      have hany : (r.any fun m => m.1 == e.1) = r'.any fun m => m.1 == e.1 := by
        have hkeys := congrArg (List.any · (· == e.1)) hr
        simpa only [List.any_map, Function.comp_def] using hkeys
      obtain ⟨k, v⟩ := e
      obtain ⟨k', v'⟩ := e'
      obtain rfl : k = k' := he
      rw [repeated?, repeated?, hany, ih hr]

theorem ofMembers_eq_ok_iff {r : Record κ α} {members : List (String × κ)} :
    r.ofMembers members = .ok a ↔ repeated? r.names members = none ∧
      r.run 0 ⟨members, fun _ name => .missing name⟩ = .ok a := by
  rw [ofMembers]
  cases repeated? r.names members with
  | some name => simp
  | none => cases r.run 0 ⟨members, fun _ name => .missing name⟩ <;> simp [Except.mapError]

theorem ofItems_eq_ok_iff {r : Record κ α} {title : String} {inside : Bool} {items : List κ} :
    r.ofItems title inside items = .ok a ↔ items.length ≤ r.names.length ∧
      r.run 0 ⟨r.names.zip items,
        fun i _ => .length i (title ++ " with " ++ elements r.names.length)⟩ = .ok a := by
  rw [ofItems]
  cases r.run 0 ⟨r.names.zip items,
    fun i _ => .length i (title ++ " with " ++ elements r.names.length)⟩ with
  | error f => simp [Except.mapError, bind, Except.bind]
  | ok b =>
    by_cases hl : r.names.length < items.length
    · simp [Except.mapError, bind, Except.bind, hl, throw, throwThe, MonadExceptOf.throw,
        Nat.not_le_of_lt hl]
    · simp [Except.mapError, bind, Except.bind, hl, pure, Except.pure, Nat.le_of_not_lt hl]

end Record

/-- Scalars and arrays stay as they are, and objects with different member names keep what can be
looked up in them. -/
structure Rearranges (g : Json → Json) : Prop where
  string : ∀ s, g (.string s) = .string s
  bool : ∀ b, g (.bool b) = .bool b
  array : ∀ items, g (.array items) = .array (items.map g)
  object : ∀ members : List (String × Json), (members.map Prod.fst).Nodup →
    ∃ members', g (.object members) = .object members' ∧ (members'.map Prod.fst).Nodup ∧
      ∀ name, members'.lookup name = (members.lookup name).map g

theorem rearranges_id : Rearranges id where
  string _ := rfl
  bool _ := rfl
  array items := by rw [List.map_id]; rfl
  object members h := ⟨members, rfl, h, fun name => by simp⟩

theorem canonicalItems_eq (items : List Json) : canonicalItems items = items.map canonical := by
  induction items with
  | nil => rfl
  | cons j r ih => rw [canonicalItems, List.map_cons, ih]

theorem canonicalMembers_eq (members : List (String × Json)) :
    canonicalMembers members = members.map fun m => (m.1, m.2.canonical) := by
  induction members with
  | nil => rfl
  | cons m r ih => rw [canonicalMembers, List.map_cons, ih]

theorem lookup_map {α β : Type} (g : α → β) (members : List (String × α)) (name : String) :
    (members.map fun m => (m.1, g m.2)).lookup name = (members.lookup name).map g := by
  induction members with
  | nil => rfl
  | cons m r ih =>
    obtain ⟨k, v⟩ := m
    rw [List.map_cons, SortedMap.lookup_cons_ite, SortedMap.lookup_cons_ite, ih]
    split <;> rfl

theorem rearranges_canonical : Rearranges canonical where
  string _ := rfl
  bool _ := rfl
  array items := by rw [canonical, canonicalItems_eq]
  object members h := by
    have hk : ((canonicalMembers members).map Prod.fst).Nodup := by
      rw [canonicalMembers_eq, List.map_map]
      exact h
    refine ⟨_, canonical.eq_2 members, SortedMap.nodup_keys _, fun name => ?_⟩
    rw [← SortedMap.get?, SortedMap.get?_ofList hk, canonicalMembers_eq, lookup_map]

end Json

end Delegation
