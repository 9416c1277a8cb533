namespace Delegation

/-- Of items told apart by a key, looking for a key finds the item that has it. -/
theorem find?_key_eq_some_iff {α β : Type} [DecidableEq β] {key : α → β} {l : List α}
    (h : ∀ a ∈ l, ∀ b ∈ l, key a = key b → a = b) {k : β} {a : α} :
    l.find? (fun b => key b == k) = some a ↔ a ∈ l ∧ key a = k := by
  constructor
  · intro ha
    exact ⟨List.mem_of_find?_eq_some ha, by simpa using List.find?_some ha⟩
  · rintro ⟨ha, rfl⟩
    obtain ⟨b, hb⟩ : ∃ b, l.find? (fun b => key b == key a) = some b := by
      rw [← Option.isSome_iff_exists, List.find?_isSome]
      exact ⟨a, ha, beq_self_eq_true (key a)⟩
    have hk : key b = key a := by simpa using List.find?_some hb
    rw [hb, h b (List.mem_of_find?_eq_some hb) a ha hk]

/-- A decidable strict linear order on keys. -/
class KeyOrder (κ : Type) [LT κ] [DecidableLT κ] : Prop where
  irrefl : ∀ a : κ, ¬ a < a
  trans : ∀ a b c : κ, a < b → b < c → a < c
  trichotomy : ∀ a b : κ, a < b ∨ a = b ∨ b < a

section
variable {κ : Type} [LT κ] [DecidableLT κ] [KeyOrder κ] {a b : κ}

theorem KeyOrder.ne_of_lt (h : a < b) : a ≠ b := by
  rintro rfl
  exact KeyOrder.irrefl a h

theorem KeyOrder.eq_of_not_lt (h : ¬ a < b) (h' : ¬ b < a) : a = b :=
  ((KeyOrder.trichotomy a b).resolve_left h).resolve_right h'

end

instance : KeyOrder String where
  irrefl := String.lt_irrefl
  trans _ _ _ := String.lt_trans
  trichotomy a b := by
    rcases Classical.em (a < b) with h | h
    · exact .inl h
    · rcases Classical.em (b < a) with h' | h'
      · exact .inr (.inr h')
      · exact .inr (.inl (String.le_antisymm h' h))

structure SortedMap (κ ν : Type) [LT κ] where
  entries : List (κ × ν)
  sorted : entries.Pairwise fun a b => a.1 < b.1

namespace SortedMap
variable {κ ν μ : Type} [LT κ]

instance [DecidableEq κ] [DecidableEq ν] : DecidableEq (SortedMap κ ν) := fun a b =>
  if h : a.entries = b.entries then .isTrue (by cases a; cases b; simp_all)
  else .isFalse fun e => h (e ▸ rfl)

def empty : SortedMap κ ν := ⟨[], .nil⟩

instance : Inhabited (SortedMap κ ν) := ⟨empty⟩

def size (m : SortedMap κ ν) : Nat := m.entries.length

def isEmpty (m : SortedMap κ ν) : Bool := m.entries.isEmpty

def keys (m : SortedMap κ ν) : List κ := m.entries.map Prod.fst

def get? [DecidableEq κ] (m : SortedMap κ ν) (k : κ) : Option ν := m.entries.lookup k

def contains [DecidableEq κ] (m : SortedMap κ ν) (k : κ) : Bool := (m.get? k).isSome

def filterMap (f : κ → ν → Option μ) (m : SortedMap κ ν) : SortedMap κ μ where
  entries := m.entries.filterMap fun e => (f e.1 e.2).map (e.1, ·)
  sorted := by
    refine m.sorted.filterMap _ fun a b hab a' ha b' hb => ?_
    obtain ⟨_, _, rfl⟩ := Option.map_eq_some_iff.1 ha
    obtain ⟨_, _, rfl⟩ := Option.map_eq_some_iff.1 hb
    exact hab

theorem eq_of_entries_eq {m n : SortedMap κ ν} (h : m.entries = n.entries) : m = n := by
  cases m
  cases n
  cases h
  rfl

variable [DecidableLT κ]

/-- Entries with `v` placed under `k`: a value already there becomes `f old v`. -/
def placeList (f : ν → ν → ν) (k : κ) (v : ν) : List (κ × ν) → List (κ × ν)
  | [] => [(k, v)]
  | e :: r =>
    if k < e.1 then (k, v) :: e :: r
    else if e.1 < k then e :: placeList f k v r
    else (e.1, f e.2 v) :: r

theorem placeList_keys (f : ν → ν → ν) (k : κ) (v : ν) (l : List (κ × ν)) :
    ∀ e ∈ placeList f k v l, e.1 = k ∨ ∃ e' ∈ l, e'.1 = e.1 := by
  induction l with
  | nil => simp [placeList]
  | cons a r ih =>
    intro e he
    rw [placeList] at he
    split at he
    · rcases List.mem_cons.1 he with rfl | h
      · exact .inl rfl
      · exact .inr ⟨e, h, rfl⟩
    · split at he
      · rcases List.mem_cons.1 he with rfl | h
        · exact .inr ⟨_, List.mem_cons_self, rfl⟩
        · rcases ih e h with h | ⟨e', h, h'⟩
          · exact .inl h
          · exact .inr ⟨e', List.mem_cons_of_mem _ h, h'⟩
      · rcases List.mem_cons.1 he with rfl | h
        · exact .inr ⟨_, List.mem_cons_self, rfl⟩
        · exact .inr ⟨e, List.mem_cons_of_mem _ h, rfl⟩

variable [KeyOrder κ]

theorem placeList_sorted (f : ν → ν → ν) (k : κ) (v : ν) {l : List (κ × ν)}
    (h : l.Pairwise fun a b => a.1 < b.1) :
    (placeList f k v l).Pairwise fun a b => a.1 < b.1 := by
  induction l with
  | nil => simp [placeList]
  | cons a r ih =>
    obtain ⟨hr, ht⟩ := List.pairwise_cons.1 h
    rw [placeList]
    split
    · next hk =>
      refine List.pairwise_cons.2 ⟨fun e he => ?_, h⟩
      rcases List.mem_cons.1 he with rfl | he
      · exact hk
      · exact KeyOrder.trans _ _ _ hk (hr e he)
    · split
      · next hk =>
        refine List.pairwise_cons.2 ⟨fun e he => ?_, ih ht⟩
        rcases placeList_keys f k v r e he with h | ⟨e', he', h⟩
        · exact h ▸ hk
        · exact h ▸ hr e' he'
      · exact List.pairwise_cons.2 ⟨hr, ht⟩

def place (f : ν → ν → ν) (k : κ) (v : ν) (m : SortedMap κ ν) : SortedMap κ ν :=
  ⟨placeList f k v m.entries, placeList_sorted f k v m.sorted⟩

def insert (k : κ) (v : ν) (m : SortedMap κ ν) : SortedMap κ ν := m.place (fun _ new => new) k v

/-- Of two values for one key the later stays. -/
def ofList (l : List (κ × ν)) : SortedMap κ ν := l.foldl (fun m e => m.insert e.1 e.2) empty

theorem nodup_keys (m : SortedMap κ ν) : (m.entries.map Prod.fst).Nodup :=
  List.pairwise_map.2 (m.sorted.imp KeyOrder.ne_of_lt)

theorem nodup_entries (m : SortedMap κ ν) : m.entries.Nodup :=
  (List.pairwise_map.1 m.nodup_keys).imp fun hne he => hne (congrArg Prod.fst he)

variable [DecidableEq κ]

omit [LT κ] [DecidableLT κ] [KeyOrder κ] in
theorem lookup_cons_ite (a k : κ) (x : ν) (r : List (κ × ν)) :
    ((a, x) :: r).lookup k = if k = a then some x else r.lookup k := by
  by_cases h : k = a
  · simp [h]
  · simp [List.lookup_cons, h, beq_eq_false_iff_ne.2 h]

theorem lookup_eq_none_of_lt {l : List (κ × ν)} {k : κ} (h : ∀ e ∈ l, k < e.1) :
    l.lookup k = none :=
  List.lookup_eq_none_iff.2 fun e he => by simpa using KeyOrder.ne_of_lt (h e he)

theorem lookup_placeList (f : ν → ν → ν) (k j : κ) (v : ν) {l : List (κ × ν)}
    (h : l.Pairwise fun a b => a.1 < b.1) :
    (placeList f k v l).lookup j =
      if j = k then some ((l.lookup k).elim v (f · v)) else l.lookup j := by
  induction l with
  | nil => by_cases hj : j = k <;> simp [placeList, lookup_cons_ite, hj]
  | cons a r ih =>
    obtain ⟨a, x⟩ := a
    obtain ⟨hr, ht⟩ := List.pairwise_cons.1 h
    rw [placeList]
    split
    · next hk =>
      have hka : k ≠ a := KeyOrder.ne_of_lt hk
      -- all keys from `a` on are above `k`, so `k` is new
      have hkr : r.lookup k = none :=
        lookup_eq_none_of_lt fun e he => KeyOrder.trans _ _ _ hk (hr e he)
      by_cases hj : j = k
      · subst hj; simp [lookup_cons_ite, hka, hkr]
      · simp [lookup_cons_ite, hj]
    · next hk =>
      split
      · next hk' =>
        have hak : a ≠ k := KeyOrder.ne_of_lt hk'
        simp only [lookup_cons_ite, ih ht]
        by_cases hja : j = a
        · simp [hja, hak]
        · simp [hja, hak.symm]
      · next hk' =>
        obtain rfl : a = k := KeyOrder.eq_of_not_lt hk' hk
        by_cases hj : j = a
        · subst hj; simp
        · simp [lookup_cons_ite, hj]

omit [DecidableLT κ] [KeyOrder κ] in
@[simp] theorem get?_empty (k : κ) : (empty : SortedMap κ ν).get? k = none := rfl

theorem get?_place (f : ν → ν → ν) (k j : κ) (v : ν) (m : SortedMap κ ν) :
    (m.place f k v).get? j = if j = k then some ((m.get? k).elim v (f · v)) else m.get? j :=
  lookup_placeList f k j v m.sorted

theorem get?_insert (k j : κ) (v : ν) (m : SortedMap κ ν) :
    (m.insert k v).get? j = if j = k then some v else m.get? j := by
  rw [insert, get?_place]
  split
  · cases m.get? k <;> rfl
  · rfl

theorem get?_eq_some_iff {m : SortedMap κ ν} {k : κ} {v : ν} :
    m.get? k = some v ↔ (k, v) ∈ m.entries := by
  obtain ⟨l, h⟩ := m
  simp only [get?]
  induction l with
  | nil => simp
  | cons a r ih =>
    obtain ⟨a, x⟩ := a
    obtain ⟨hr, ht⟩ := List.pairwise_cons.1 h
    simp only [lookup_cons_ite, List.mem_cons, Prod.mk.injEq, ← ih ht]
    by_cases hk : k = a
    · subst hk
      have hkr : r.lookup k = none := lookup_eq_none_of_lt fun e he => hr e he
      simp [hkr, eq_comm]
    · simp [hk]

theorem ext {m n : SortedMap κ ν} (h : ∀ k, m.get? k = n.get? k) : m = n := by
  have hmem : ∀ e, e ∈ m.entries ↔ e ∈ n.entries := fun e => by
    rw [← Prod.eta e, ← get?_eq_some_iff, ← get?_eq_some_iff, h]
  have hperm : m.entries.Perm n.entries :=
    (List.perm_ext_iff_of_nodup m.nodup_entries n.nodup_entries).2 hmem
  -- there is one order in which the keys increase
  refine eq_of_entries_eq (hperm.eq_of_pairwise (fun a b _ _ hab hba => ?_) m.sorted n.sorted)
  exact absurd (KeyOrder.trans _ _ _ hab hba) (KeyOrder.irrefl _)

theorem get?_filterMap (f : κ → ν → Option μ) (m : SortedMap κ ν) (k : κ) :
    (m.filterMap f).get? k = (m.get? k).bind (f k) := by
  apply Option.ext
  intro x
  rw [get?_eq_some_iff, Option.bind_eq_some_iff]
  simp only [filterMap, List.mem_filterMap, Option.map_eq_some_iff, Prod.mk.injEq]
  constructor
  · rintro ⟨⟨j, v⟩, hm, y, hy, rfl, rfl⟩
    exact ⟨v, get?_eq_some_iff.2 hm, hy⟩
  · rintro ⟨v, hv, hx⟩
    exact ⟨(k, v), get?_eq_some_iff.1 hv, x, hx, rfl, rfl⟩

omit [DecidableLT κ] [KeyOrder κ] [DecidableEq κ] in
theorem entries_filterMap_ite (keeps : κ → Bool) (m : SortedMap κ ν) :
    (m.filterMap fun k v => if keeps k then some v else none).entries =
      m.entries.filter fun e => keeps e.1 := by
  have hf : (fun e : κ × ν => (if keeps e.1 then some e.2 else none).map (e.1, ·)) =
      Option.guard fun e => keeps e.1 := by
    funext e
    cases h : keeps e.1 <;> simp [Option.guard, h]
  rw [← List.filterMap_eq_filter, ← hf]
  rfl

end SortedMap

end Delegation
