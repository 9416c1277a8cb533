import Delegation.Proofs.Reading

namespace Delegation

namespace Text

structure Slashed (s : String) (parts : List String) : Prop where
  ne_nil : parts ≠ []
  slashless : ∀ t ∈ parts, '/' ∉ t.toList
  joined : "/".intercalate parts = s

theorem slash_not_mem_of_mem_splitOn {cs part : List Char} (h : part ∈ cs.splitOn '/') :
    '/' ∉ part := by
  induction cs generalizing part with
  | nil =>
    rw [List.splitOn_nil, List.mem_singleton] at h
    simp [h]
  | cons c r ih =>
    rw [List.splitOn_cons_eq_if_modifyHead] at h
    split at h
    · rcases List.mem_cons.1 h with rfl | h
      · exact List.not_mem_nil
      · exact ih h
    · next hc =>
      obtain ⟨first, parts, hr⟩ := List.exists_cons_of_ne_nil (List.splitOn_ne_nil '/' r)
      rw [hr] at h ih
      rcases List.mem_cons.1 h with rfl | h
      · have hf := ih List.mem_cons_self
        simpa [hf] using Ne.symm (by simpa using hc)
      · exact ih (List.mem_cons_of_mem _ h)

/-- There is one way to part a text at its slashes. -/
theorem slashed_iff {s : String} {parts : List String} :
    Slashed s parts ↔ (s.toList.splitOn '/').map String.ofList = parts := by
  constructor
  · intro ⟨hne, hslash, hs⟩
    have hl : s.toList = ['/'].intercalate (parts.map String.toList) := by
      rw [← hs, String.toList_intercalate]
      rfl
    rw [hl, List.splitOn_intercalate '/' (by simpa using hslash) (by simpa using hne), List.map_map]
    simp [Function.comp_def]
  · rintro rfl
    refine ⟨by simp, ?_, ?_⟩
    · simp only [List.forall_mem_map, String.toList_ofList]
      exact fun part hp => slash_not_mem_of_mem_splitOn hp
    · rw [← String.toList_inj, String.toList_intercalate, List.map_map]
      simp [Function.comp_def, List.intercalate_splitOn]

theorem existsUnique_slashed (s : String) : ∃! parts, Slashed s parts :=
  ⟨_, slashed_iff.2 rfl, fun _ h => (slashed_iff.1 h).symm⟩

theorem forall₂_trimsTo_iff {texts names : List String} :
    List.Forall₂ TrimsTo texts names ↔ texts.map trim = names := by
  rw [← List.forall₂_eq_eq_eq, List.forall₂_map_left_iff]
  exact ⟨.imp fun _ _ => trimsTo_iff.1, .imp fun _ _ => trimsTo_iff.2⟩

end Text

namespace Document

def namesOf (fault : Fault) (texts : List String) : Checked Path :=
  if texts.all fun t => Text.printed t.toList then .ok ⟨texts.map Text.trim⟩ else .error fault

theorem columnReference_string (p : Place) (s : String) :
    columnReference p (.string s) = namesOf (.malformed p .emptyName) [s] := by
  rw [columnReference, namesOf, Text.blank_eq_not_printed]
  cases h : Text.printed s.toList <;> simp [h, Place.fail, Path.column]

theorem propertyPath_string (p : Place) {s : String} {parts : List String}
    (h : Text.Slashed s parts) :
    propertyPath p (.string s) = namesOf (.malformed p (.badPropertyPath s)) parts := by
  rw [← Text.slashed_iff.1 h, namesOf, propertyPath, slashParts_eq_splitOn, List.all_map,
    List.map_map]
  simp only [Text.any_trim_isEmpty, Function.comp_def, String.toList_ofList]
  cases (s.toList.splitOn '/').all Text.printed <;> rfl

/-- A reading tells these texts without the blanks around them, unless one of them is blank. -/
structure Tells (texts : List String) (fault : Fault) (c : Checked Path) : Prop where
  accepted : (∃ q, c = .ok q) ↔ ∀ t ∈ texts, Text.printed t.toList = true
  told : ∀ q, c = .ok q → List.Forall₂ Text.TrimsTo texts q.segments
  refused : ∀ f, c = .error f → f = fault

theorem tells_namesOf (texts : List String) (fault : Fault) :
    Tells texts fault (namesOf fault texts) := by
  rw [namesOf]
  split
  · next h => exact ⟨by simpa using h, by simp [Text.forall₂_trimsTo_iff], nofun⟩
  · next h => exact ⟨by simpa using h, nofun, by simp⟩

def IsName (j : Json) : Prop := ∃ s, j = .string s ∧ Text.printed s.toList = true

theorem isName_iff {j : Json} : IsName j ↔ ∃ n, NameReads j n := by
  constructor
  · rintro ⟨s, rfl, h⟩
    exact ⟨_, .text h⟩
  · rintro ⟨_, ⟨h⟩⟩
    exact ⟨_, rfl, h⟩

theorem exists_texts_of_nameReads {items : List Json} {names : List String}
    (h : List.Forall₂ NameReads items names) : ∃ texts : List String, items = texts.map .string ∧
      (∀ t ∈ texts, Text.printed t.toList = true) ∧ texts.map Text.trim = names := by
  induction h with
  | nil => exact ⟨[], rfl, nofun, rfl⟩
  | cons hj _ ih =>
    obtain @⟨s, hs⟩ := hj
    obtain ⟨texts, rfl, ht, rfl⟩ := ih
    exact ⟨s :: texts, rfl, List.forall_mem_cons.2 ⟨hs, ht⟩, rfl⟩

theorem segment_eq_error {p : Place} {j : Json} {f : Fault} (h : segment p j = .error f) :
    ¬ IsName j ∧ f = .malformed p .badSegment := by
  constructor
  · rw [isName_iff]
    rintro ⟨n, hn⟩
    rw [(segment_eq_ok_iff p j n).2 hn] at h
    cases h
  · cases j with
    | string s =>
      rw [segment] at h
      split at h
      · exact (Except.error.inj h).symm
      · cases h
    | _ => exact (Except.error.inj h).symm

/-- A reading takes the items for names: it tells them without the blanks around them when there are
some and each is a name, and else faults at the list itself or at the first item that is no name. -/
structure TellsItems (p : Place) (items : List Json) (c : Checked Path) : Prop where
  accepted : (∃ q, c = .ok q) ↔ items ≠ [] ∧ ∀ j ∈ items, IsName j
  told : ∀ q, c = .ok q →
    ∃ texts : List String, items = texts.map .string ∧ List.Forall₂ Text.TrimsTo texts q.segments
  empty : items = [] → c = p.fail .emptyPath
  refused : ∀ f, c = .error f → items ≠ [] → ∃ before j after, items = before ++ j :: after ∧
    (∀ i ∈ before, IsName i) ∧ ¬ IsName j ∧ f = .malformed (p.item before.length) .badSegment

theorem tellsItems_segments (p : Place) (items : List Json) :
    TellsItems p items (segments p items) where
  accepted := by
    have hall : (∃ names, eachItem p segment items = .ok names) ↔ ∀ j ∈ items, IsName j := by
      simp only [isName_iff]
      exact exists_eachItem_iff segment_eq_ok_iff
    rw [← hall]
    simp only [segments_eq_ok_iff, eachItem_eq_ok_iff segment_eq_ok_iff]
    constructor
    · exact fun ⟨q, hi, h⟩ => ⟨hi, _, h⟩
    · exact fun ⟨hi, names, h⟩ => ⟨⟨names⟩, hi, h⟩
  told := by
    intro q h
    obtain ⟨texts, ht, -, hn⟩ := exists_texts_of_nameReads (segments_eq_ok_iff.1 h).2
    exact ⟨texts, ht, Text.forall₂_trimsTo_iff.2 hn⟩
  empty := by
    rintro rfl
    rfl
  refused := by
    intro f h hi
    rw [segments, if_neg (by simpa using hi), map_eq_error_iff] at h
    obtain ⟨before, j, after, he, hb, hj⟩ := exists_of_eachItem_eq_error segment_eq_ok_iff h
    obtain ⟨hn, rfl⟩ := segment_eq_error hj
    exact ⟨before, j, after, he, fun i hm => isName_iff.2 (hb i hm), hn, rfl⟩

theorem exists_texts_of_reads {j : Json} {q : Path} (h : ReferenceReads j q ∨ PropertyReads j q) :
    ∃ texts : List String, texts ≠ [] ∧ (∀ t ∈ texts, Text.printed t.toList = true) ∧
      texts.map Text.trim = q.segments := by
  rcases h with (⟨⟨h⟩⟩ | ⟨hi, h⟩) | (@⟨s, h⟩ | ⟨hi, h⟩)
  · exact ⟨[_], by simp, by simpa using h, rfl⟩
  · obtain ⟨texts, rfl, ht, hm⟩ := exists_texts_of_nameReads h
    exact ⟨texts, by simpa using hi, ht, hm⟩
  · refine ⟨(s.toList.splitOn '/').map String.ofList, by simp, by simpa using h, ?_⟩
    rw [List.map_map]
    rfl
  · obtain ⟨texts, rfl, ht, hm⟩ := exists_texts_of_nameReads h
    exact ⟨texts, by simpa using hi, ht, hm⟩

theorem names_of_reads {j : Json} {q : Path} (h : ReferenceReads j q ∨ PropertyReads j q) :
    q ≠ .root ∧ ∀ n ∈ q.segments, Text.printed n.toList = true ∧ Text.Unpadded n := by
  obtain ⟨names⟩ := q
  obtain ⟨texts, hne, ht, rfl⟩ := exists_texts_of_reads h
  refine ⟨by simpa [Path.root] using hne, List.forall_mem_map.2 fun t hm => ?_⟩
  exact ⟨(Text.pads_trim t).printed_eq.symm.trans (ht t hm), Text.unpadded_trim t⟩

theorem propertyPath_joined (p : Place) {texts names : List String} (hne : names ≠ [])
    (hn : ∀ n ∈ names, Text.printed n.toList = true ∧ '/' ∉ n.toList)
    (ht : List.Forall₂ Text.TrimsTo texts names) :
    propertyPath p (.string ("/".intercalate texts)) = .ok ⟨names⟩ ∧
      propertyPath p (.strings names) = .ok ⟨names⟩ := by
  obtain rfl := Text.forall₂_trimsTo_iff.1 ht
  have hreads := nameReads_map fun n hm => (hn n hm).1
  rw [List.forall_mem_map] at hn
  have hprinted : ∀ t ∈ texts, Text.printed t.toList = true := fun t hm =>
    (Text.pads_trim t).printed_eq.trans (hn t hm).1
  -- a slash is no blank, so the blanks around a name bring in none
  have hslash : Text.isBlank '/' = false := rfl
  have hslashed : Text.Slashed ("/".intercalate texts) texts :=
    ⟨by simpa using hne, fun t hm => mt ((Text.pads_trim t).mem_iff hslash).1 (hn t hm).2, rfl⟩
  constructor
  · rw [propertyPath_string p hslashed, namesOf, if_pos (by simpa using hprinted)]
  · have htrim : (texts.map Text.trim).map Text.trim = texts.map Text.trim := by
      simp [Text.trim_eq_self_iff.2 (Text.unpadded_trim _)]
    rw [htrim] at hreads
    exact (propertyPath_eq_ok_iff p _ _).2 (.names (by simpa using hne) hreads)

/-- Both readers take a list for the names of its items. A text is one name to the reader of
references, slashes included, and the names between its slashes to the reader of property paths.
Whatever was written, a column that is read is below the root, and its names are neither blank nor
padded. Names without slashes give one property path as a list and as a text, with any blanks around
each name in the text. -/
theorem spellings_read_alike (p : Place) :
    (∀ items, columnReference p (.array items) = propertyPath p (.array items) ∧
      TellsItems p items (propertyPath p (.array items))) ∧
    (∀ s, Tells [s] (.malformed p .emptyName) (columnReference p (.string s))) ∧
    (∀ s, (∃! parts, Text.Slashed s parts) ∧ ∀ parts, Text.Slashed s parts →
      Tells parts (.malformed p (.badPropertyPath s)) (propertyPath p (.string s))) ∧
    (∀ j q, columnReference p j = .ok q ∨ propertyPath p j = .ok q →
      q ≠ .root ∧ ∀ n ∈ q.segments, Text.printed n.toList = true ∧ Text.Unpadded n) ∧
    ∀ names texts, names ≠ [] →
      (∀ n ∈ names, Text.printed n.toList = true ∧ '/' ∉ n.toList) →
      List.Forall₂ Text.TrimsTo texts names →
      propertyPath p (.string ("/".intercalate texts)) = .ok ⟨names⟩ ∧
        propertyPath p (.strings names) = .ok ⟨names⟩ := by
  refine ⟨fun items => ?_, fun s => ?_, fun s => ?_, fun j q h => ?_,
    fun names texts hne hn ht => propertyPath_joined p hne hn ht⟩
  · rw [columnReference, propertyPath]
    exact ⟨rfl, tellsItems_segments p items⟩
  · rw [columnReference_string]
    exact tells_namesOf _ _
  · refine ⟨Text.existsUnique_slashed s, fun parts h => ?_⟩
    rw [propertyPath_string p h]
    exact tells_namesOf _ _
  · rw [columnReference_eq_ok_iff, propertyPath_eq_ok_iff] at h
    exact names_of_reads h

theorem spellings_read_alike_city :
    List.Forall₂ Text.TrimsTo ["Place", " City\u3000"] ["Place", "City"] ∧
      propertyPath .root (.string "Place/ City\u3000") = .ok ⟨["Place", "City"]⟩ ∧
      propertyPath .root (.strings ["Place", "City"]) = .ok ⟨["Place", "City"]⟩ ∧
      Text.Slashed "Place//City" ["Place", "", "City"] ∧
      (¬ ∃ q, propertyPath .root (.string "Place//City") = .ok q) ∧
      columnReference .root (.string " Place/City") = .ok (.column "Place/City") ∧
      Text.Unpadded "Place/City" ∧
      ∃ f, columnReference .root (.array [.string "Place", .string "\u2003", .null]) = .error f ∧
        ∃ before j after, [.string "Place", .string "\u2003", .null] = before ++ j :: after ∧
          (∀ i ∈ before, IsName i) ∧ ¬ IsName j ∧
            f = .malformed (Place.root.item before.length) .badSegment := by
  obtain ⟨hlists, -, hparts, hnames, hjoined⟩ := spellings_read_alike .root
  have ht : List.Forall₂ Text.TrimsTo ["Place", " City\u3000"] ["Place", "City"] :=
    Text.forall₂_trimsTo_iff.2 rfl
  obtain ⟨htext, hlist⟩ := hjoined ["Place", "City"] _ (by simp) (by decide) ht
  have hs : Text.Slashed "Place//City" ["Place", "", "City"] := Text.slashed_iff.2 rfl
  have hmissing := ((hparts _).2 _ hs).accepted
  have hc : columnReference .root (.string " Place/City") = .ok (.column "Place/City") := rfl
  obtain ⟨halike, hitems⟩ := hlists [.string "Place", .string "\u2003", .null]
  have hu := ((hnames _ _ (.inl hc)).2 _ List.mem_cons_self).2
  refine ⟨ht, htext, hlist, hs, ?_, hc, hu, _, rfl, ?_⟩
  · rw [hmissing]
    decide
  · exact hitems.refused _ (halike.symm.trans rfl) (by simp)

end Document

end Delegation
