import Delegation.Proofs.Granting
import Delegation.Proofs.Leaves

namespace Delegation.Document

/-- A relation between a value and what it may be rewritten to. -/
abbrev Rewrite := Json → Json → Prop

namespace Rewrite

def under (table : List (String × Rewrite)) (name : String) : Rewrite :=
  (table.lookup name).getD Eq

/-- A list whose items are rewritten, each into one or more items that may stand anywhere. -/
inductive items (item : Rewrite) : Rewrite
  | array {l l'} (kept : ∀ j ∈ l, ∃ j' ∈ l', item j j') (only : ∀ j' ∈ l', ∃ j ∈ l, item j j') :
      items item (.array l) (.array l')
  | other {j} (h : j.array? = none) : items item j j

def Members (table : List (String × Rewrite)) (members members' : List (String × Json)) : Prop :=
  ∀ name, Option.Rel (under table name) (members.lookup name) (members'.lookup name)

inductive object (table : List (String × Rewrite)) : Rewrite
  | members {members members'} (h : Members table members members') :
      object table (.object members) (.object members')
  | other {j} (h : j.object? = none) : object table j j

/-- Nothing else is rewritten to `null`, nor `null` to anything else. -/
def KeepsNull (r : Rewrite) : Prop := ∀ j j', r j j' → (j = .null ↔ j' = .null)

theorem keepsNull_items (item : Rewrite) : KeepsNull (items item) := by
  rintro _ _ (⟨_, _⟩ | _) <;> simp

theorem keepsNull_object (table : List (String × Rewrite)) : KeepsNull (object table) := by
  rintro _ _ (_ | _) <;> simp

section
variable {table : List (String × Rewrite)} {members members' : List (String × Json)}

theorem Members.of_forall₂ (h : List.Forall₂ (fun m m' => m.1 = m'.1 ∧ under table m.1 m.2 m'.2)
    members members') : Members table members members' := by
  intro name
  induction h with
  | nil => exact .none
  | @cons m m' _ _ hm _ ih =>
    obtain ⟨k, j⟩ := m
    obtain ⟨k', j'⟩ := m'
    obtain ⟨rfl, hj⟩ := hm
    rw [SortedMap.lookup_cons_ite, SortedMap.lookup_cons_ite]
    split
    · next hk => exact .some (hk ▸ hj)
    · exact ih

theorem Members.lookup_eq (h : Members table members members') {name : String}
    (hn : table.lookup name = none) : members.lookup name = members'.lookup name := by
  have hr := h name
  rw [under, hn] at hr
  generalize members.lookup name = o at hr
  generalize members'.lookup name = o' at hr
  cases hr with
  | some h => exact congrArg some h
  | none => rfl

theorem Members.given?_eq (h : Members table members members') {name : String}
    (hn : table.lookup name = none) : given? members name = given? members' name := by
  rw [given?, given?, h.lookup_eq hn]

theorem Members.given?_rel (h : Members table members members') {name : String} {r : Rewrite}
    (hr : table.lookup name = some r) (hk : KeepsNull r) :
    Option.Rel r (given? members name) (given? members' name) := by
  have hm := h name
  rw [under, hr, Option.getD_some] at hm
  rw [given?, given?]
  generalize members.lookup name = o at hm
  generalize members'.lookup name = o' at hm
  cases hm with
  | none => exact .none
  | @some j j' h =>
    have hn := hk j j' h
    cases j with
    | null =>
      rw [hn.1 rfl]
      exact .none
    | _ =>
      cases j' with
      | null => simp at hn
      | _ => exact .some h

end

end Rewrite

/-- What the first reading gives, the second gives as well, up to a relation. -/
def Follows {α β : Type} (R : α → β → Prop) (c : Checked α) (d : Checked β) : Prop :=
  ∀ a, c = .ok a → ∃ b, d = .ok b ∧ R a b

section
variable {α β γ δ : Type} {R : α → β → Prop} {S : γ → δ → Prop}

theorem Follows.of_eq {c d : Checked α} (h : c = d) : Follows Eq c d := fun a ha =>
  ⟨a, h ▸ ha, rfl⟩

theorem Follows.bind {c : Checked α} {d : Checked β} {k : α → Checked γ} {l : β → Checked δ}
    (h : Follows R c d) (hk : ∀ a b, R a b → Follows S (k a) (l b)) :
    Follows S (c >>= k) (d >>= l) := by
  intro x hx
  obtain ⟨a, ha, hx⟩ := bind_eq_ok_iff.1 hx
  obtain ⟨b, hb, hab⟩ := h a ha
  obtain ⟨y, hy, hxy⟩ := hk a b hab x hx
  exact ⟨y, bind_eq_ok_iff.2 ⟨b, hb, hy⟩, hxy⟩

theorem Follows.pure {a : α} {b : β} (h : R a b) :
    Follows R (Pure.pure a : Checked α) (Pure.pure b : Checked β) := by
  intro x hx
  obtain rfl := pure_eq_ok_iff.1 hx
  exact ⟨b, rfl, h⟩

/-- The same values, in any order and each any number of times. -/
def SameMembers (l l' : List α) : Prop := ∀ a, a ∈ l ↔ a ∈ l'

/-- A list is read to the same values when each item is rewritten to items that read as it does. -/
theorem follows_eachItem {read : Place → Json → Checked α} {Reads : Json → α → Prop}
    (hr : ∀ p j a, read p j = .ok a ↔ Reads j a) {item : Rewrite}
    (hi : ∀ j j' a, item j j' → Reads j a → Reads j' a) {l l' : List Json}
    (kept : ∀ j ∈ l, ∃ j' ∈ l', item j j') (only : ∀ j' ∈ l', ∃ j ∈ l, item j j') (p : Place) :
    Follows SameMembers (eachItem p read l) (eachItem p read l') := by
  intro as has
  have hall := (exists_eachItem_iff hr).1 ⟨as, has⟩
  have hall' : ∀ j' ∈ l', ∃ a, Reads j' a := by
    intro j' hj'
    obtain ⟨j, hj, hjj'⟩ := only j' hj'
    exact (hall j hj).imp fun a ha => hi j j' a hjj' ha
  obtain ⟨as', has'⟩ := (exists_eachItem_iff hr (p := p)).2 hall'
  refine ⟨as', has', fun a => ?_⟩
  rw [mem_of_eachItem hr has, mem_of_eachItem hr has']
  constructor
  · rintro ⟨j, hj, ha⟩
    obtain ⟨j', hj', hjj'⟩ := kept j hj
    exact ⟨j', hj', hi j j' a hjj' ha⟩
  · rintro ⟨j', hj', ha⟩
    obtain ⟨j, hj, hjj'⟩ := only j' hj'
    obtain ⟨b, hb⟩ := hall j hj
    obtain rfl := reads_unique hr ha (hi j j' b hjj' hb)
    exact ⟨j, hj, hb⟩

theorem Follows.of_error {c : Checked α} {d : Checked β} {f : Fault} (h : c = .error f) :
    Follows R c d := by
  intro a ha
  simp [h] at ha

theorem follows_items {read : Place → Json → Checked α} {Reads : Json → α → Prop}
    (hr : ∀ p j a, read p j = .ok a ↔ Reads j a) {item : Rewrite}
    (hi : ∀ j j' a, item j j' → Reads j a → Reads j' a) {j j' : Json}
    (h : Rewrite.items item j j') (p : Place) :
    Follows SameMembers (asArray p j >>= eachItem p read) (asArray p j' >>= eachItem p read) := by
  cases h with
  | array kept only => exact follows_eachItem hr hi kept only p
  | other h =>
    have hf : asArray p j = p.fail .notArray := by
      cases j <;> first | rfl | simp [Json.array?] at h
    exact .of_error (congrArg (· >>= eachItem p read) hf)

theorem follows_object {table : List (String × Rewrite)} {k : List (String × Json) → Checked γ}
    {k' : List (String × Json) → Checked δ} {j j' : Json} (h : Rewrite.object table j j') (p : Place)
    (hk : ∀ members members', Rewrite.Members table members members' →
      Follows S (k members) (k' members')) :
    Follows S (asObject p j >>= k) (asObject p j' >>= k') := by
  cases h with
  | members h => exact hk _ _ h
  | other h =>
    have hf : asObject p j = p.fail .notObject := by
      cases j <;> first | rfl | simp [Json.object?] at h
    exact .of_error (congrArg (· >>= k) hf)

end

def propertyLists : List String :=
  ["NonSortableProperties", "AscendingOnlyProperties", "NonFilterableProperties",
    "UngroupableProperties"]

def listsRewritten (list : Rewrite) : List (String × Rewrite) := propertyLists.map (·, list)

def restrictionsRewritten (list : Rewrite) : List (String × Rewrite) :=
  [("SortRestrictions", .object (listsRewritten list)),
    ("FilterRestrictions", .object (listsRewritten list)),
    ("GroupRestrictions", .object (listsRewritten list))]

def AgreeOn (leaves : List Path) (l l' : List Path) : Prop := ∀ q ∈ leaves, q ∈ l ↔ q ∈ l'

/-- A rewriting of property lists after which they list the same leaves. -/
structure KeepsLeaves (leaves : List Path) (list : Rewrite) : Prop where
  null : Rewrite.KeepsNull list
  follows : ∀ p j j', list j j' → Follows (AgreeOn leaves)
    (asArray p j >>= eachItem p propertyPath) (asArray p j' >>= eachItem p propertyPath)

section
variable {leaves : List Path} {list : Rewrite} {members members' : List (String × Json)}

theorem follows_propertyPaths (hl : KeepsLeaves leaves list)
    (h : Rewrite.Members (listsRewritten list) members members') {name : String}
    (hn : name ∈ propertyLists) (p : Place) :
    Follows (AgreeOn leaves) (propertyPaths p members name) (propertyPaths p members' name) := by
  have hlist : (listsRewritten list).lookup name = some list := by
    simp only [propertyLists, List.mem_cons, List.not_mem_nil, or_false] at hn
    rcases hn with rfl | rfl | rfl | rfl <;> rfl
  have hg := h.given?_rel hlist hl.null
  rw [propertyPaths, propertyPaths]
  generalize given? members name = o at hg
  generalize given? members' name = o' at hg
  cases hg with
  | none => exact .pure fun q _ => Iff.rfl
  | some h => exact hl.follows _ _ _ h

theorem follows_ascendingPaths (hl : KeepsLeaves leaves list)
    (h : Rewrite.Members (listsRewritten list) members members') {name? : Option String}
    (hn : ∀ name ∈ name?, name ∈ propertyLists) (p : Place) :
    Follows (AgreeOn leaves) (ascendingPaths p members name?) (ascendingPaths p members' name?) := by
  cases name? with
  | none => exact .pure fun q _ => Iff.rfl
  | some name => exact follows_propertyPaths hl h (hn name rfl) p

theorem Restriction.grants_congr (form : RestrictionForm) {r r' : Restriction}
    (he : AgreeOn leaves r.excluded r'.excluded)
    (ha : AgreeOn leaves r.ascendingOnly r'.ascendingOnly) (hg : r.granted = r'.granted) :
    r.grants form leaves = r'.grants form leaves := by
  have hf : (leaves.filter fun p => !r.excluded.contains p) =
      leaves.filter fun p => !r'.excluded.contains p :=
    List.filter_congr fun p hp => by rw [Bool.eq_iff_iff]; simp [he p hp]
  rw [Restriction.grants, Restriction.grants, hg, hf]
  refine congrArg (fun l => if r'.granted = true then l else []) (List.map_congr_left fun p hp => ?_)
  have hc : r.ascendingOnly.contains p = r'.ascendingOnly.contains p := by
    rw [Bool.eq_iff_iff]
    simp [ha p (List.mem_filter.1 hp).1]
  rw [hc]

def granted (form : RestrictionForm) (leaves : List Path) (r? : Option Restriction) :
    List (Path × Grant) :=
  r?.elim [] fun r => r.grants form leaves

theorem restrictionGrants_eq (form : RestrictionForm) (members : List (String × Json)) :
    restrictionGrants form members leaves =
      restriction? form members >>= fun r? => pure (granted form leaves r?) := by
  rw [restrictionGrants]
  congr 1
  funext r?
  cases r? <;> rfl

theorem follows_restrictionGrants (hl : KeepsLeaves leaves list)
    (h : Rewrite.Members (restrictionsRewritten list) members members') {form : RestrictionForm}
    (hf : form ∈ [sortForm, filterForm, groupForm]) :
    Follows Eq (restrictionGrants form members leaves) (restrictionGrants form members' leaves) := by
  -- the three forms differ in names alone, and the rewriting knows all of these
  obtain ⟨hname, hexclusion, hascending, hswitch⟩ :
      (restrictionsRewritten list).lookup form.name = some (.object (listsRewritten list)) ∧
        form.exclusion ∈ propertyLists ∧ (∀ name ∈ form.ascending, name ∈ propertyLists) ∧
        (listsRewritten list).lookup form.switch = none := by
    simp only [List.mem_cons, List.not_mem_nil, or_false] at hf
    rcases hf with rfl | rfl | rfl <;> exact ⟨rfl, by decide, by decide, rfl⟩
  have hg := h.given?_rel hname (Rewrite.keepsNull_object _)
  have hread : Follows (fun r? r?' => granted form leaves r? = granted form leaves r?')
      (restriction? form members) (restriction? form members') := by
    rw [restriction?_eq, restriction?_eq]
    generalize given? members form.name = o at hg
    generalize given? members' form.name = o' at hg
    cases hg with
    | none => exact .pure rfl
    | some h =>
      refine follows_object h _ fun inner inner' hi => ?_
      refine (follows_propertyPaths hl hi hexclusion _).bind fun excluded excluded' he => ?_
      refine (follows_ascendingPaths hl hi hascending _).bind fun ascending ascending' ha => ?_
      have hs : flag (restrictionsPlace.member form.name) inner form.switch true =
          flag (restrictionsPlace.member form.name) inner' form.switch true := by
        rw [flag, flag, hi.given?_eq hswitch]
      refine (Follows.of_eq hs).bind fun b b' hb => .pure ?_
      exact Restriction.grants_congr form he ha hb
  rw [restrictionGrants_eq, restrictionGrants_eq]
  exact hread.bind fun r? r?' hr => .pure hr

end

theorem follows_restrictionSection {schema : Schema} {list : Rewrite}
    (hl : KeepsLeaves schema.leaves list) {j j' : Json}
    (h : Rewrite.object (restrictionsRewritten list) j j') :
    Follows Eq (restrictionSection j schema) (restrictionSection j' schema) := by
  refine follows_object h _ fun members members' hm => ?_
  refine (follows_restrictionGrants hl hm (by simp)).bind fun sorting sorting' hs => ?_
  refine (follows_restrictionGrants hl hm (by simp)).bind fun filtering filtering' hf => ?_
  refine (follows_restrictionGrants hl hm (by simp)).bind fun grouping grouping' hg => ?_
  rw [hs, hf, hg]
  exact .pure rfl

end Delegation.Document
