import Delegation.Text.Blank
import Mathlib.Data.List.DropRight
import Mathlib.Data.List.TakeWhile

namespace Delegation.Text

def printed (cs : List Char) : Bool := cs.any fun c => !isBlank c

theorem printed_iff {cs : List Char} : printed cs = true ↔ ∃ c ∈ cs, isBlank c = false := by
  simp only [printed, List.any_eq_true, Bool.not_eq_true']

theorem blank_eq_not_printed (s : String) : blank s = !printed s.toList := by
  rw [blank, printed, List.not_any_eq_all_not]
  simp only [Bool.not_not]

theorem dropWhile_isBlank_eq_nil_iff {cs : List Char} :
    cs.dropWhile isBlank = [] ↔ printed cs = false := by
  rw [List.dropWhile_eq_nil_iff, printed, List.any_eq_false]
  simp only [Bool.not_eq_true', Bool.not_eq_false]

theorem trim_isEmpty (s : String) : (trim s).isEmpty = !printed s.toList := by
  rw [Bool.eq_iff_iff, String.isEmpty_iff, trim, String.ofList_eq_empty_iff, trimChars,
    List.reverse_eq_nil_iff, dropWhile_isBlank_eq_nil_iff, Bool.not_eq_true']
  rw [printed, List.any_reverse, List.any_dropWhile, Bool.not_eq_false', printed,
    List.any_eq_false, List.all_eq_true]
  simp

theorem any_trim_isEmpty (parts : List (List Char)) :
    ((parts.map fun cs => trim (String.ofList cs)).any fun part => part.isEmpty) =
      !parts.all printed := by
  rw [List.any_map, List.not_all_eq_any_not]
  simp only [Function.comp_def, trim_isEmpty, String.toList_ofList]

/-- Neither the first nor the last character is a blank. -/
def Unpadded (s : String) : Prop :=
  (∀ c ∈ s.toList.head?, isBlank c = false) ∧ ∀ c ∈ s.toList.getLast?, isBlank c = false

theorem dropWhile_isBlank_eq_self_iff {cs : List Char} :
    cs.dropWhile isBlank = cs ↔ ∀ c ∈ cs.head?, isBlank c = false := by
  cases cs with
  | nil => simp
  | cons c r => simp [List.dropWhile_eq_self_iff]

theorem rdropWhile_isBlank_eq_self_iff {cs : List Char} :
    cs.rdropWhile isBlank = cs ↔ ∀ c ∈ cs.getLast?, isBlank c = false := by
  rw [List.rdropWhile, List.reverse_eq_iff, dropWhile_isBlank_eq_self_iff, List.head?_reverse]

theorem trimChars_eq_self_iff {cs : List Char} :
    trimChars cs = cs ↔ cs.dropWhile isBlank = cs ∧ cs.rdropWhile isBlank = cs := by
  have ht : trimChars cs = (cs.dropWhile isBlank).rdropWhile isBlank := rfl
  constructor
  · intro h
    -- nothing is lost at the end, so nothing was lost at the beginning
    have hle : cs.length ≤ (cs.dropWhile isBlank).length := by
      have hp := (List.rdropWhile_prefix isBlank (l := cs.dropWhile isBlank)).length_le
      rwa [← ht, h] at hp
    have hs := List.dropWhile_suffix (l := cs) isBlank
    have hd : cs.dropWhile isBlank = cs := hs.eq_of_length (le_antisymm hs.length_le hle)
    rw [ht, hd] at h
    exact ⟨hd, h⟩
  · intro ⟨hd, hr⟩
    rw [ht, hd, hr]

theorem trim_eq_self_iff {s : String} : trim s = s ↔ Unpadded s := by
  rw [Unpadded, ← dropWhile_isBlank_eq_self_iff, ← rdropWhile_isBlank_eq_self_iff,
    ← trimChars_eq_self_iff, trim, ← String.toList_inj, String.toList_ofList]

theorem exists_append_trimChars (cs : List Char) : ∃ before after,
    cs = before ++ trimChars cs ++ after ∧ (∀ c ∈ before, isBlank c = true) ∧
      ∀ c ∈ after, isBlank c = true := by
  refine ⟨cs.takeWhile isBlank, (cs.dropWhile isBlank).rtakeWhile isBlank, ?_,
    fun c hc => List.mem_takeWhile_imp hc, fun c hc => List.mem_rtakeWhile_imp hc⟩
  have ht : trimChars cs = (cs.dropWhile isBlank).rdropWhile isBlank := rfl
  rw [ht, List.append_assoc, List.rdropWhile_append_rtakeWhile, List.takeWhile_append_dropWhile]

theorem trimChars_append {before word after : List Char} (hb : ∀ c ∈ before, isBlank c = true)
    (hf : ∀ c ∈ word.head?, isBlank c = false) (hl : ∀ c ∈ word.getLast?, isBlank c = false)
    (ha : ∀ c ∈ after, isBlank c = true) : trimChars (before ++ word ++ after) = word := by
  have hr : ∀ c ∈ after.reverse, isBlank c = true := fun c hc => ha c (List.mem_reverse.1 hc)
  rw [trimChars, List.append_assoc, List.dropWhile_append_of_pos hb]
  cases word with
  | nil =>
    rw [List.nil_append, List.dropWhile_eq_nil_iff.2 ha]
    rfl
  | cons c r =>
    have hc : (c :: r ++ after).dropWhile isBlank = c :: r ++ after := by
      rw [List.cons_append, List.dropWhile_cons_of_neg]
      simp [hf c rfl]
    rw [← List.head?_reverse] at hl
    rw [hc, List.reverse_append, List.dropWhile_append_of_pos hr,
      dropWhile_isBlank_eq_self_iff.2 hl, List.reverse_reverse]

/-- The first text is the second with blanks around it. -/
def Pads (s t : String) : Prop :=
  ∃ before after, s.toList = before ++ t.toList ++ after ∧ (∀ c ∈ before, isBlank c = true) ∧
    ∀ c ∈ after, isBlank c = true

theorem pads_trim (s : String) : Pads s (trim s) := by
  rw [Pads, trim, String.toList_ofList]
  exact exists_append_trimChars s.toList

section
variable {s t : String}

theorem Pads.mem_iff (h : Pads s t) {c : Char} (hc : isBlank c = false) :
    c ∈ s.toList ↔ c ∈ t.toList := by
  obtain ⟨before, after, hs, hb, ha⟩ := h
  have hnb : c ∉ before := fun hm => by simp [hb c hm] at hc
  have hna : c ∉ after := fun hm => by simp [ha c hm] at hc
  simp only [hs, List.mem_append, hnb, hna, false_or, or_false]

theorem Pads.printed_eq (h : Pads s t) : printed s.toList = printed t.toList := by
  rw [Bool.eq_iff_iff, printed_iff, printed_iff]
  constructor
  · exact fun ⟨c, hm, hc⟩ => ⟨c, (h.mem_iff hc).1 hm, hc⟩
  · exact fun ⟨c, hm, hc⟩ => ⟨c, (h.mem_iff hc).2 hm, hc⟩

theorem Pads.trim_eq (h : Pads s t) (ht : Unpadded t) : trim s = t := by
  obtain ⟨before, after, hs, hb, ha⟩ := h
  rw [trim, hs, trimChars_append hb ht.1 ht.2 ha, String.ofList_toList]

/-- The second text is what the first one is without the blanks around it. -/
structure TrimsTo (s t : String) : Prop where
  pads : Pads s t
  unpadded : Unpadded t

theorem unpadded_trim (s : String) : Unpadded (trim s) := by
  rw [Unpadded, trim, String.toList_ofList]
  have ht : trimChars s.toList = (s.toList.dropWhile isBlank).rdropWhile isBlank := rfl
  constructor
  · -- what is cut at the end leaves the beginning as it is
    intro c hc
    obtain ⟨r, hr⟩ := List.rdropWhile_prefix isBlank (s.toList.dropWhile isBlank)
    have hd : (s.toList.dropWhile isBlank).head? = some c := by
      rw [← hr, ← ht, List.head?_append, hc, Option.some_or]
    have hn := List.head?_dropWhile_not isBlank s.toList
    rwa [hd] at hn
  · rw [← rdropWhile_isBlank_eq_self_iff, ht, List.rdropWhile_idempotent]

theorem trimsTo_iff : TrimsTo s t ↔ trim s = t := by
  constructor
  · exact fun h => h.pads.trim_eq h.unpadded
  · rintro rfl
    exact ⟨pads_trim s, unpadded_trim s⟩

end

end Delegation.Text
