namespace Delegation

/-- A finite type with its members numbered from zero. -/
class Flag (α : Type) where
  count : Nat
  index : α → Fin count
  member : Fin count → α
  member_index : ∀ a, member (index a) = a
  index_member : ∀ i, index (member i) = i

def Flag.all (α : Type) [Flag α] : List α := (List.finRange (Flag.count α)).map Flag.member

/-- A set of flags; bit `i` stands for the member numbered `i`. -/
structure FlagSet (α : Type) [Flag α] where
  bits : BitVec (Flag.count α)
deriving DecidableEq

namespace FlagSet
variable {α : Type} [Flag α]

def empty : FlagSet α := ⟨0⟩

def full : FlagSet α := ⟨BitVec.allOnes _⟩

instance : Inhabited (FlagSet α) := ⟨empty⟩

def contains (s : FlagSet α) (a : α) : Bool := s.bits.getLsbD (Flag.index a).val

def singleton (a : α) : FlagSet α := ⟨BitVec.twoPow _ (Flag.index a).val⟩

def union (s t : FlagSet α) : FlagSet α := ⟨s.bits ||| t.bits⟩

def insert (s : FlagSet α) (a : α) : FlagSet α := s.union (singleton a)

def isEmpty (s : FlagSet α) : Bool := s.bits == 0

def includes (s t : FlagSet α) : Bool := s.bits &&& t.bits == t.bits

def toList (s : FlagSet α) : List α := (Flag.all α).filter s.contains

def ofList (l : List α) : FlagSet α := l.foldl insert empty

theorem ext {s t : FlagSet α} (h : ∀ a, s.contains a = t.contains a) : s = t := by
  obtain ⟨s⟩ := s
  obtain ⟨t⟩ := t
  congr 1
  apply BitVec.eq_of_getLsbD_eq
  intro i hi
  have := h (Flag.member ⟨i, hi⟩)
  simpa only [contains, Flag.index_member] using this

@[simp] theorem contains_empty (a : α) : (empty : FlagSet α).contains a = false := by
  simp [contains, empty]

@[simp] theorem contains_full (a : α) : (full : FlagSet α).contains a = true := by
  simp [contains, full]

@[simp] theorem contains_union (s t : FlagSet α) (a : α) :
    (s.union t).contains a = (s.contains a || t.contains a) := by
  simp [contains, union]

theorem contains_singleton (a b : α) : (singleton a).contains b = true ↔ a = b := by
  simp only [contains, singleton, BitVec.getLsbD_twoPow, Bool.and_eq_true, decide_eq_true_eq]
  constructor
  · intro ⟨_, h⟩
    rw [← Flag.member_index a, ← Flag.member_index b, Fin.ext h]
  · rintro rfl
    exact ⟨(Flag.index a).isLt, rfl⟩

theorem contains_insert (s : FlagSet α) (a b : α) :
    (s.insert a).contains b = true ↔ s.contains b = true ∨ a = b := by
  simp [insert, contains_singleton]

theorem mem_all (a : α) : a ∈ Flag.all α := by
  simp only [Flag.all, List.mem_map]
  exact ⟨Flag.index a, List.mem_finRange _, Flag.member_index a⟩

theorem mem_toList {s : FlagSet α} {a : α} : a ∈ s.toList ↔ s.contains a = true := by
  simp [toList, mem_all]

theorem contains_ofList (l : List α) (a : α) : (ofList l).contains a = true ↔ a ∈ l := by
  suffices h : ∀ s : FlagSet α, (l.foldl insert s).contains a = true ↔ s.contains a = true ∨ a ∈ l by
    simpa [ofList] using h empty
  induction l with
  | nil => simp
  | cons b l ih =>
    intro s
    simp only [List.foldl_cons, ih, contains_insert, List.mem_cons]
    grind

theorem isEmpty_iff {s : FlagSet α} : s.isEmpty = true ↔ ∀ a, s.contains a = false := by
  constructor
  · intro h a
    have : s = empty := by
      obtain ⟨b⟩ := s
      simpa [isEmpty, empty] using h
    simp [this]
  · intro h
    have : s = empty := ext fun a => by simp [h a]
    simp [this, isEmpty, empty]

theorem isEmpty_eq_false_iff {s : FlagSet α} : s.isEmpty = false ↔ ∃ a, s.contains a = true := by
  rw [← Bool.not_eq_true, isEmpty_iff, Classical.not_forall]
  simp only [Bool.not_eq_false]

theorem includes_iff {s t : FlagSet α} :
    s.includes t = true ↔ ∀ a, t.contains a = true → s.contains a = true := by
  simp only [includes, beq_iff_eq]
  constructor
  · intro h a ha
    simp only [contains] at ha ⊢
    rw [← h, BitVec.getLsbD_and, Bool.and_eq_true] at ha
    exact ha.1
  · intro h
    apply BitVec.eq_of_getLsbD_eq
    intro i hi
    have := h (Flag.member ⟨i, hi⟩)
    simp only [contains, Flag.index_member] at this
    simp only [BitVec.getLsbD_and]
    cases ht : t.bits.getLsbD i <;> simp_all

end FlagSet

end Delegation
