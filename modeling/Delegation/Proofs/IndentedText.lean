import Delegation.Proofs.Members

namespace Delegation.Json

/-- Both texts have the same tokens, whatever follows them. -/
def SameTokens (w w' : List Char) : Prop :=
  ∀ r r', Token.scan? r = Token.scan? r' → Token.scan? (w ++ r) = Token.scan? (w' ++ r')

section
variable {w w' v v' : List Char}

theorem SameTokens.append (h : SameTokens w w') (hv : SameTokens v v') :
    SameTokens (w ++ v) (w' ++ v') := by
  intro r r' hr
  rw [List.append_assoc, List.append_assoc]
  exact h _ _ (hv _ _ hr)

theorem sameTokens_token {c : Char} {t : Token} (hc : Token.isBlank c = false)
    (ht : ∀ r, Token.next? (c :: (w ++ r)) = some (t, r)) : SameTokens (c :: w) (c :: w) := by
  intro r r' hr
  rw [List.cons_append, List.cons_append, Token.scan?_of_next? hc (ht r),
    Token.scan?_of_next? hc (ht r'), hr]

theorem SameTokens.mark {c : Char} {t : Token} (h : SameTokens w w')
    (hc : Token.isBlank c = false) (ht : ∀ r, Token.next? (c :: r) = some (t, r)) :
    SameTokens (c :: w) (c :: w') :=
  (sameTokens_token (w := []) hc ht).append h

theorem sameTokens_quote (s : String) : SameTokens (quote s) (quote s) := by
  obtain ⟨ps, -, hp⟩ := exists_pieces s
  exact sameTokens_token rfl hp

theorem sameTokens_blanks (h : ∀ c ∈ w, Token.isBlank c = true) : SameTokens w [] := by
  intro r r' hr
  induction w with
  | nil => exact hr
  | cons c w ih =>
    obtain ⟨hc, hw⟩ := List.forall_mem_cons.1 h
    rw [List.cons_append, Token.scan?, if_pos hc, ih hw]

theorem sameTokens_newline (depth : Nat) : SameTokens (newline depth) [] := by
  apply sameTokens_blanks
  intro c hc
  rcases List.mem_cons.1 hc with rfl | hc
  · rfl
  · rw [List.eq_of_mem_replicate hc]
    rfl

theorem SameTokens.newline (h : SameTokens w w') (depth : Nat) :
    SameTokens (newline depth ++ w) w' :=
  (sameTokens_newline depth).append h

end

theorem sameTokens_items {items : List Json}
    (h : ∀ j ∈ items, ∀ depth, SameTokens (j.writeIndented depth) j.writeCompact) (depth : Nat) :
    SameTokens (indentedItems depth items) (writeItems items) := by
  induction items with
  | nil => exact (sameTokens_token (w := []) rfl fun _ => rfl).newline depth
  | cons j items ih =>
    obtain ⟨hj, hr⟩ := List.forall_mem_cons.1 h
    unfold indentedItems writeItems
    exact (((hj _).newline _).mark rfl fun _ => rfl).append (ih hr)

theorem sameTokens_member {j : Json} {depth : Nat}
    (h : SameTokens (j.writeIndented depth) j.writeCompact) (k : String) :
    SameTokens (quote k ++ ':' :: ' ' :: j.writeIndented depth)
      (quote k ++ ':' :: j.writeCompact) := by
  have hb : SameTokens [' '] [] := sameTokens_blanks (List.forall_mem_singleton.2 rfl)
  exact (sameTokens_quote k).append ((hb.append h).mark rfl fun _ => rfl)

theorem sameTokens_members {members : List (String × Json)}
    (h : ∀ m ∈ members, ∀ depth, SameTokens (m.2.writeIndented depth) m.2.writeCompact)
    (depth : Nat) : SameTokens (indentedMembers depth members) (writeMembers members) := by
  induction members with
  | nil => exact (sameTokens_token (w := []) rfl fun _ => rfl).newline depth
  | cons m members ih =>
    obtain ⟨k, j⟩ := m
    obtain ⟨hj, hr⟩ := List.forall_mem_cons.1 h
    unfold indentedMembers writeMembers
    have hm := ((sameTokens_member (hj (depth + 1)) k).newline (depth + 1)).mark
      (c := ',') rfl fun _ => rfl
    simpa only [List.cons_append, List.append_assoc] using hm.append (ih hr)

theorem Fits.sameTokens {d : Nat} {j : Json} (h : Fits d j) (depth : Nat) :
    SameTokens (j.writeIndented depth) j.writeCompact := by
  induction h generalizing depth with
  | null => exact sameTokens_token rfl fun _ => rfl
  | @bool d b => cases b <;> exact sameTokens_token rfl fun _ => rfl
  | @string d s => exact sameTokens_quote s
  | @array d items _ ih =>
    cases items with
    | nil => exact (sameTokens_token (w := []) rfl fun _ => rfl).mark rfl fun _ => rfl
    | cons j items =>
      obtain ⟨hj, hr⟩ := List.forall_mem_cons.1 ih
      unfold writeIndented writeCompact
      exact (((hj _).newline _).mark rfl fun _ => rfl).append (sameTokens_items hr depth)
  | @object d members _ ih =>
    cases members with
    | nil => exact (sameTokens_token (w := []) rfl fun _ => rfl).mark rfl fun _ => rfl
    | cons m members =>
      obtain ⟨k, j⟩ := m
      obtain ⟨hj, hr⟩ := List.forall_mem_cons.1 ih
      unfold writeIndented writeCompact
      have hm := ((sameTokens_member (hj (depth + 1)) k).newline (depth + 1)).mark
        (c := '\x7b') rfl fun _ => rfl
      simpa only [List.cons_append, List.append_assoc] using
        hm.append (sameTokens_members hr depth)

/-- Reading the indented text of a value gives the value, also when blanks follow it. -/
theorem parseRaw?_indented {j : Json} (h : Fits maxDepth j) {blanks : String}
    (hb : ∀ c ∈ blanks.toList, Token.isBlank c = true) :
    parseRaw? (j.indented ++ blanks) .whole = some j := by
  have hs : Token.scan? (j.indented ++ blanks).toList = Token.scan? j.compact.toList := by
    have ht := ((h.sameTokens 0).append (sameTokens_blanks hb)) [] [] rfl
    simpa only [indented, compact, String.toList_append, String.toList_ofList, List.append_nil]
      using ht
  rw [← parseRaw?_compact h, parseRaw?, parseRaw?, Tree.parse?, Tree.parse?, hs]

theorem mem_entries_foldl_insert {l : List (String × Json)} {m : SortedMap String Json}
    {e : String × Json} (h : e ∈ (l.foldl (fun m e => m.insert e.1 e.2) m).entries) :
    e ∈ l ∨ e ∈ m.entries := by
  induction l generalizing m with
  | nil => exact .inr h
  | cons a l ih =>
    rcases ih h with h | h
    · exact .inl (List.mem_cons_of_mem a h)
    · rw [← SortedMap.get?_eq_some_iff, SortedMap.get?_insert] at h
      split at h
      · next hk =>
        obtain rfl : a = e := Prod.ext hk.symm (Option.some.inj h)
        exact .inl List.mem_cons_self
      · exact .inr (SortedMap.get?_eq_some_iff.1 h)

theorem Fits.canonical {d : Nat} {j : Json} (h : Fits d j) : Fits d j.canonical := by
  induction h with
  | null => exact .null
  | bool => exact .bool
  | string => exact .string
  | @array d items _ ih =>
    rw [Json.canonical, canonicalItems_eq]
    exact .array (List.forall_mem_map.2 ih)
  | @object d members _ ih =>
    rw [Json.canonical, canonicalMembers_eq]
    refine .object fun m hm => ?_
    rcases mem_entries_foldl_insert hm with hm | hm
    · obtain ⟨m', hm', rfl⟩ := List.mem_map.1 hm
      exact ih m' hm'
    · cases hm

end Delegation.Json
