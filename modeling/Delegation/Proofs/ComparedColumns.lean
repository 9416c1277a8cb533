import Delegation.Comparator
import Delegation.Proofs.CompactText
import Mathlib.Data.List.Forall2

namespace Delegation.Comparator

open Json (Piece Tree Token)
open Json.Tree (State Frame)

/-- The kinds whose values are ordered other than as texts, the booleans apart. -/
def orderedKinds : List ScalarType :=
  [.number, .decimal, .currency, .date, .time, .dateTime, .color]

/-- How values of a kind are compared: 0 as booleans, 1 by their order, 2 as texts. -/
def kindCode (k : ScalarType) : Int :=
  if k = .boolean then 0 else if k ∈ orderedKinds then 1 else 2

theorem code_ofKind (k : ScalarType) : ((ofKind k).code : Int) = kindCode k := by
  cases k <;> decide

def literal (k : Comparator) : Json.Literal := ⟨false, [Decimal.digitChar k.code], [], none⟩

theorem digits_code (k : Comparator) : Decimal.digits k.code = [Decimal.digitChar k.code] := by
  rw [Decimal.digits, if_pos]
  cases k <;> decide

theorem number?_literal (k : Comparator) : k.literal.number? = some (.whole k.code) := by
  cases k <;> rfl

/-- A code ends where a comma or the closing brace stands. -/
theorem next?_code (k : Comparator) {c : Char} (hc : c = ',' ∨ c = '\x7d') (r : List Char) :
    Token.next? (Decimal.digits k.code ++ c :: r) = some (.number k.literal, c :: r) := by
  rw [digits_code]
  rcases hc with rfl | rfl <;> cases k <;> rfl

def entryMember (e : String × Comparator) : String × Json := (e.1, .number (.whole e.2.code))

theorem exists_reads_entry (e : String × Comparator) :
    ∃ ps t, (∀ d ms, Tree.valueMembers? d ((ps, t) :: ms) =
        (Tree.valueMembers? d ms).map (entryMember e :: ·)) ∧
      ∀ {s : State} {outer done}, (∀ k, s.step? (.string k) = some ⟨outer, .colon done k⟩) →
        ∀ {c : Char}, c = ',' ∨ c = '\x7d' → ∀ r, s.feed? (entryText e ++ c :: r) =
          State.feed? ⟨outer, .afterMember ((ps, t) :: done)⟩ (c :: r) := by
  obtain ⟨name, k⟩ := e
  obtain ⟨ps, hd, hp⟩ := Json.exists_pieces name
  refine ⟨ps, .number k.literal, fun d ms => ?_, fun {s outer done} hs {c} hc r => ?_⟩
  · rw [Tree.valueMembers?, Tree.value?, hd, number?_literal]
    cases Tree.valueMembers? d ms <;> simp [entryMember]
  · have hk := next?_code k hc r
    rw [digits_code] at hk
    rw [entryText, digits_code, List.append_assoc]
    calc s.feed? (Json.quote name ++ ':' :: Decimal.digitChar k.code :: c :: r)
        = State.feed? ⟨outer, .colon done ps⟩ (':' :: Decimal.digitChar k.code :: c :: r) :=
          State.feed?_token rfl (hp _) (hs ps)
      _ = State.feed? ⟨.members done ps :: outer, .value⟩ (Decimal.digitChar k.code :: c :: r) :=
          State.feed?_token rfl rfl rfl
      _ = _ := State.feed?_token (by cases k <;> rfl) hk rfl

theorem exists_reads_entries (e : String × Comparator) (r : List (String × Comparator)) :
    ∃ ms, (∀ d, Tree.valueMembers? d ms = some ((e :: r).map entryMember)) ∧
      ∀ {s : State} {outer done}, (∀ k, s.step? (.string k) = some ⟨outer, .colon done k⟩) →
        ∀ rest, s.feed? (joinEntries (e :: r) ++ '\x7d' :: rest) =
          (State.complete outer (.object (done.reverse ++ ms))).feed? rest := by
  induction r generalizing e with
  | nil =>
    obtain ⟨ps, t, hm, hfeed⟩ := exists_reads_entry e
    refine ⟨[(ps, t)], fun d => hm d [], fun {s outer done} hs rest => ?_⟩
    rw [joinEntries, hfeed hs (.inr rfl), State.feed?_token rfl rfl rfl, List.reverse_cons]
  | cons f r ih =>
    obtain ⟨ps, t, hm, hfeed⟩ := exists_reads_entry e
    obtain ⟨ms, hms, hrest⟩ := ih f
    refine ⟨(ps, t) :: ms, fun d => by rw [hm, hms]; rfl, fun {s outer done} hs rest => ?_⟩
    rw [joinEntries, List.append_assoc, List.cons_append]
    calc s.feed? (entryText e ++ ',' :: (joinEntries (f :: r) ++ '\x7d' :: rest))
        = State.feed? ⟨outer, .afterMember ((ps, t) :: done)⟩
            (',' :: (joinEntries (f :: r) ++ '\x7d' :: rest)) := hfeed hs (.inl rfl) _
      _ = State.feed? ⟨outer, .key ((ps, t) :: done)⟩
            (joinEntries (f :: r) ++ '\x7d' :: rest) := State.feed?_token rfl rfl rfl
      _ = _ := by
        rw [hrest fun _ => rfl, List.reverse_cons, List.append_assoc, List.singleton_append]

theorem parseRaw?_entries (es : List (String × Comparator)) :
    Json.parseRaw? (String.ofList ('\x7b' :: joinEntries es ++ ['\x7d'])) .whole =
      some (.object (es.map entryMember)) := by
  obtain ⟨ms, hms, hfeed⟩ : ∃ ms, (∀ d, Tree.valueMembers? d ms = some (es.map entryMember)) ∧
      State.feed? ⟨[], .firstKey⟩ (joinEntries es ++ ['\x7d']) =
        some ⟨[], .nothing (.object ms)⟩ := by
    cases es with
    | nil => exact ⟨[], fun d => rfl, (State.feed?_token rfl rfl rfl).trans (State.feed?_nil _)⟩
    | cons e r =>
      obtain ⟨ms, hms, hfeed⟩ := exists_reads_entries e r
      exact ⟨ms, hms, (hfeed (fun _ => rfl) []).trans (State.feed?_nil _)⟩
  have hopen : State.feed? ⟨[], .value⟩ ('\x7b' :: (joinEntries es ++ ['\x7d'])) =
      State.feed? ⟨[], .firstKey⟩ (joinEntries es ++ ['\x7d']) := State.feed?_token rfl rfl rfl
  rw [Json.parseRaw?, Tree.parse?_ofList, List.cons_append, hopen, hfeed]
  exact congrArg (Option.map Json.object) (hms _)

structure MemberOf (c : Column) (m : String × Json) : Prop where
  name : m.1 = c.name
  code : ∃ k, c.kind? = some k ∧ m.2 = .number (.whole (kindCode k))

theorem forall₂_compared (cs : List Column) :
    List.Forall₂ MemberOf (cs.filter fun c => c.isScalar && !c.optionSet)
      ((compared cs).map entryMember) := by
  induction cs with
  | nil => exact .nil
  | cons c r ih =>
    cases c with
    | record n fs o => exact ih
    | scalar n k o =>
      cases o with
      | true => exact ih
      | false => exact .cons ⟨rfl, k, rfl, by rw [entryMember, code_ofKind]⟩ ih

theorem map_fst_of_memberOf {cs : List Column} {members : List (String × Json)}
    (h : List.Forall₂ MemberOf cs members) : members.map Prod.fst = cs.map Column.name := by
  induction h with
  | nil => rfl
  | cons hm _ ih => rw [List.map_cons, List.map_cons, hm.name, ih]

/-- The text of the comparators is an object. Its members are the top-level scalar columns that are
no option set, in the order of the schema; each bears the column's name, whatever characters that
has, and the code of the column's kind, and no name comes twice. -/
theorem mappingText_reads_back (s : Schema) :
    ∃ members, Json.parseRaw? (mappingText s) .whole = some (.object members) ∧
      List.Forall₂ MemberOf (s.columns.filter fun c => c.isScalar && !c.optionSet) members ∧
      (members.map Prod.fst).Nodup := by
  have hm := forall₂_compared s.columns
  refine ⟨_, parseRaw?_entries (compared s.columns), hm, ?_⟩
  rw [map_fst_of_memberOf hm]
  exact s.wellNamed.1.2.sublist (List.filter_sublist.map _)

end Delegation.Comparator
