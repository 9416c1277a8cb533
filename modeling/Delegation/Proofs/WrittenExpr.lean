import Delegation.Expr.Json
import Delegation.Proofs.Members
import Delegation.Proofs.Reading

namespace Delegation

namespace Expr

def child (inside : Bool) (j : Json) : Child :=
  ⟨j, fun _ => ofJson inside j, fun _ => listOfJson inside j⟩

theorem childMembers_eq (members : List (String × Json)) :
    childMembers members = members.map fun m => (m.1, child true m.2) := by
  induction members with
  | nil => rfl
  | cons m r ih =>
    obtain ⟨k, j⟩ := m
    rw [childMembers, ih]
    rfl

theorem childItems_eq (items : List Json) : childItems items = items.map (child true) := by
  induction items with
  | nil => rfl
  | cons j r ih => rw [childItems, ih]; rfl

theorem tagOfJson_name (inside : Bool) (t : Tag) : Tag.ofJson inside (.string t.name) = .ok t := by
  cases t <;> rfl

theorem ofJson_object {members before after : List (String × Json)} {inside : Bool} {t : Tag}
    (hm : members = before ++ ("kind", .string t.name) :: after)
    (hk : ∀ m ∈ before ++ after, m.1 ≠ "kind") :
    ofJson inside (.object members) =
      (tagRecord t).ofMembers ((before ++ after).map fun m => (m.1, child true m.2)) := by
  have hfilter : ∀ {l : List (String × Json)}, (∀ m ∈ l, m.1 ≠ "kind") →
      (l.filter fun m => m.1 == "kind") = [] ∧ (l.filter fun m => m.1 != "kind") = l := by
    intro l hl
    constructor
    · exact List.filter_eq_nil_iff.2 fun m hm => by simpa using hl m hm
    · exact List.filter_eq_self.2 fun m hm => by simpa using hl m hm
  -- only one member is the tag, and what is left beside it are the fields
  obtain ⟨hb, ha⟩ := List.forall_mem_append.1 hk
  have htag : tagOfMembers inside members = .ok t := by
    have hone : (members.filter fun m => m.1 == "kind") = [("kind", .string t.name)] := by
      rw [hm, List.filter_append, (hfilter hb).1, List.filter_cons_of_pos rfl, (hfilter ha).1]
      rfl
    rw [tagOfMembers, hone]
    simp only [tagOfJson_name]
    rfl
  have hrest : (childMembers members).filter (fun m => m.1 != "kind") =
      (before ++ after).map fun m => (m.1, child true m.2) := by
    have hbeside : (members.filter fun m => m.1 != "kind") = before ++ after := by
      rw [hm, List.filter_append, (hfilter hb).2, List.filter_cons_of_neg (by simp), (hfilter ha).2]
    rw [childMembers_eq, List.filter_map, ← hbeside]
    rfl
  rw [ofJson, htag, hrest]
  rfl

section
variable {g : Json → Json}

/-- Where a tagged object is rearranged, its fields can still be looked up beside the tag. -/
theorem ofJson_rearranged_object (hg : Json.Rearranges g) {t : Tag} {members : List (String × Json)}
    (hd : ("kind" :: members.map Prod.fst).Nodup) {e : Expr}
    (h : ∀ s : Json.Record.Source Child, (∀ name j, name ≠ "kind" → members.lookup name = some j →
      s.present.lookup name = some (child true (g j))) → (tagRecord t).run 0 s = .ok e)
    (inside : Bool) :
    ofJson inside (g (.object (("kind", .string t.name) :: members))) = .ok e := by
  obtain ⟨members', hm, hd', hl⟩ := hg.object (("kind", .string t.name) :: members) hd
  have htag : members'.lookup "kind" = some (.string t.name) :=
    (hl "kind").trans (congrArg some (hg.string t.name))
  obtain ⟨before, after, rfl, -⟩ := List.lookup_eq_some_iff.1 htag
  obtain ⟨hk, hbeside⟩ := List.nodup_cons.1 ((List.perm_middle.map Prod.fst).nodup_iff.1 hd')
  rw [hm, ofJson_object rfl fun m hmem he => hk (List.mem_map.2 ⟨m, hmem, he⟩)]
  refine Json.Record.ofMembers_eq_ok (Json.Record.repeated?_eq_none _ ?_) fun absent => h _ ?_
  · rw [List.map_map]
    exact hbeside
  · intro name j hn hj
    have hlookup := hl name
    rw [List.lookup_append, SortedMap.lookup_cons_ite, if_neg hn, ← List.lookup_append,
      SortedMap.lookup_cons_ite, if_neg hn, hj] at hlookup
    rw [Json.lookup_map, hlookup]
    rfl

section
variable {s : Json.Record.Source Child} {i : Nat} {name : String} {j : Json}

open Json.Record

theorem run_string (hg : Json.Rearranges g) {n : String}
    (h : s.present.lookup name = some (child true (g (.string n)))) :
    (field name Child.string).run i s = .ok n := by
  refine run_field_of_lookup h ?_
  rw [Child.string, child, hg.string]
  rfl

theorem run_expr {e : Expr} (h : s.present.lookup name = some (child true j))
    (he : ofJson true j = .ok e) : (field name fun c : Child => c.expr ()).run i s = .ok e :=
  run_field_of_lookup h he

end

open Json.Record in
mutual
/-- Rearranging the members anywhere in a written expression does not matter. -/
theorem ofJson_rearranged (hg : Json.Rearranges g) (hn : ∀ x, g (.number x) = .number x)
    (inside : Bool) : ∀ e : Expr, ofJson inside (g e.toJson) = .ok e
  | .name n => by
    refine ofJson_rearranged_object hg (t := .firstName) (by simp) (fun s hs => ?_) inside
    exact run_map (run_string hg (hs "name" _ (by decide) rfl))
  | .member l r => by
    -- parts are read below an expression, whether or not the whole is
    refine ofJson_rearranged_object hg (t := .dottedName) (by simp) (fun s hs => ?_) inside
    refine run_seq (run_map ?left) ?right
    case left => exact run_expr (hs "left" _ (by decide) rfl) (ofJson_rearranged hg hn true l)
    case right => exact run_string hg (hs "right" _ (by decide) rfl)
  | .text v => by
    refine ofJson_rearranged_object hg (t := .strLit) (by simp) (fun s hs => ?_) inside
    exact run_map (run_string hg (hs "value" _ (by decide) rfl))
  | .number x => by
    refine ofJson_rearranged_object hg (t := .numLit) (by simp) (fun s hs => ?_) inside
    refine run_map (run_field_of_lookup (hs "value" _ (by decide) rfl) ?_)
    rw [child, hn]
    rfl
  | .truth b => by
    refine ofJson_rearranged_object hg (t := .boolLit) (by simp) (fun s hs => ?_) inside
    refine run_map (run_field_of_lookup (hs "value" _ (by decide) rfl) ?_)
    rw [child, hg.bool]
    rfl
  | .call f args => by
    refine ofJson_rearranged_object hg (t := .call) (by simp) (fun s hs => ?_) inside
    refine run_map (run_seq (run_map ?function) ?args)
    case function => exact run_string hg (hs "name" _ (by decide) rfl)
    case args =>
      exact run_optional_of_lookup (hs "args" _ (by decide) rfl)
        (listOfJson_rearranged hg hn true args)
  | .binary op l r => by
    refine ofJson_rearranged_object hg (t := .binaryOp) (by simp) (fun s hs => ?_) inside
    refine run_seq (run_seq (run_map ?op) ?left) ?right
    case op => exact run_string hg (hs "op" _ (by decide) rfl)
    case left => exact run_expr (hs "left" _ (by decide) rfl) (ofJson_rearranged hg hn true l)
    case right => exact run_expr (hs "right" _ (by decide) rfl) (ofJson_rearranged hg hn true r)

theorem listOfJson_rearranged (hg : Json.Rearranges g) (hn : ∀ x, g (.number x) = .number x)
    (inside : Bool) (args : List Expr) :
    listOfJson inside (g (.array (argsJson args))) = .ok args := by
  rw [hg.array, listOfJson]
  exact itemsOfJson_rearranged hg hn inside args

theorem itemsOfJson_rearranged (hg : Json.Rearranges g) (hn : ∀ x, g (.number x) = .number x)
    (inside : Bool) :
    ∀ args : List Expr, itemsOfJson inside ((argsJson args).map g) = .ok args
  | [] => rfl
  | e :: r => by
    rw [argsJson, List.map_cons, itemsOfJson, ofJson_rearranged hg hn inside e,
      itemsOfJson_rearranged hg hn inside r]
    rfl
end

end

section
open Document (bind_eq_ok_iff)

theorem tagOfJson_inside {j : Json} {t : Tag} (h : Tag.ofJson false j = .ok t) (inside : Bool) :
    Tag.ofJson inside j = .ok t := by
  cases j with
  | string s => exact h
  | number n => cases n <;> simp [Tag.ofJson] at h
  | _ => simp [Tag.ofJson] at h

theorem tagOfMembers_inside {members : List (String × Json)} {t : Tag}
    (h : tagOfMembers false members = .ok t) (inside : Bool) :
    tagOfMembers inside members = .ok t := by
  rw [tagOfMembers] at h ⊢
  split at h
  · simp at h
  · obtain ⟨u, hu, hone⟩ := bind_eq_ok_iff.1 h
    exact bind_eq_ok_iff.2 ⟨u, tagOfJson_inside hu inside, hone⟩

/-- What is read outside of other expressions is read likewise below them. -/
theorem ofJson_inside {j : Json} {e : Expr} (h : ofJson false j = .ok e) (inside : Bool) :
    ofJson inside j = .ok e := by
  cases j with
  | object members =>
    rw [ofJson] at h ⊢
    obtain ⟨t, ht, he⟩ := bind_eq_ok_iff.1 h
    exact bind_eq_ok_iff.2 ⟨t, tagOfMembers_inside ht inside, he⟩
  | array items =>
    cases items with
    | nil => simp [ofJson] at h
    | cons j items =>
      rw [ofJson] at h ⊢
      obtain ⟨t, ht, he⟩ := bind_eq_ok_iff.1 h
      exact bind_eq_ok_iff.2 ⟨t, tagOfJson_inside ht inside, he⟩
  | _ => simp [ofJson] at h

theorem itemsOfJson_inside {items : List Json} {args : List Expr}
    (h : itemsOfJson false items = .ok args) (inside : Bool) :
    itemsOfJson inside items = .ok args := by
  induction items generalizing args with
  | nil => exact h
  | cons j r ih =>
    rw [itemsOfJson] at h ⊢
    obtain ⟨e, he, hrest⟩ := bind_eq_ok_iff.1 h
    obtain ⟨es, hes, hargs⟩ := bind_eq_ok_iff.1 hrest
    exact bind_eq_ok_iff.2
      ⟨e, ofJson_inside he inside, bind_eq_ok_iff.2 ⟨es, ih hes, hargs⟩⟩

theorem listOfJson_inside {j : Json} {args : List Expr} (h : listOfJson false j = .ok args)
    (inside : Bool) : listOfJson inside j = .ok args := by
  cases j with
  | array items => exact itemsOfJson_inside h inside
  | _ => simp [listOfJson] at h

end

section
variable {i : Nat} {s : Json.Record.Source Child} {c : Call}

open Json.Record

theorem run_callRecord_eq_ok_iff : callRecord.run i s = .ok c ↔
    (∃ v, s.present.lookup "name" = some v ∧ v.string = .ok c.function) ∧
      ((∃ v, s.present.lookup "args" = some v ∧ v.list () = .ok c.args) ∨
        s.present.lookup "args" = none ∧ [] = c.args) := by
  rw [callRecord, run_seq_eq_ok_iff]
  simp only [run_map_eq_ok_iff, run_field_eq_ok_iff, run_optional_eq_ok_iff]
  constructor
  · rintro ⟨_, args, ⟨f, hf, rfl⟩, hargs, rfl⟩
    exact ⟨hf, hargs⟩
  · rintro ⟨hf, hargs⟩
    exact ⟨_, c.args, ⟨c.function, hf, rfl⟩, hargs, rfl⟩

theorem run_callRecord_inside {l : List (String × Json)} {absent : Nat → String → Json.Mismatch}
    (h : callRecord.run i ⟨l.map fun m => (m.1, child false m.2), absent⟩ = .ok c)
    (k : Nat) (absent' : Nat → String → Json.Mismatch) :
    callRecord.run k ⟨l.map fun m => (m.1, child true m.2), absent'⟩ = .ok c := by
  rw [run_callRecord_eq_ok_iff] at h ⊢
  simp only [Json.lookup_map, Option.map_eq_some_iff, Option.map_eq_none_iff] at h ⊢
  obtain ⟨⟨v, ⟨j, hj, rfl⟩, hf⟩, hargs⟩ := h
  refine ⟨⟨_, ⟨j, hj, rfl⟩, hf⟩, ?_⟩
  rcases hargs with ⟨v, ⟨j, hj, rfl⟩, hargs⟩ | hnone
  · exact .inl ⟨_, ⟨j, hj, rfl⟩, listOfJson_inside hargs true⟩
  · exact .inr hnone

end

end Expr

theorem Call.ofJson_rearranged {g : Json → Json} (hg : Json.Rearranges g)
    (hn : ∀ x, g (.number x) = .number x) (c : Call) : Call.ofJson (g c.toJson) = .ok c := by
  obtain ⟨members, hm, hd, hl⟩ := hg.object
    [("name", .string c.function), ("args", .array (Expr.argsJson c.args))] (by simp)
  rw [toJson, hm]
  refine Json.Record.ofMembers_eq_ok (Json.Record.repeated?_eq_none _ ?_) fun absent => ?_
  · rw [List.map_map]
    exact hd
  · rw [Expr.run_callRecord_eq_ok_iff]
    simp only [Json.lookup_map, hl]
    refine ⟨⟨_, rfl, ?_⟩, .inl ⟨_, rfl, Expr.listOfJson_rearranged hg hn false c.args⟩⟩
    rw [hg.string]
    rfl

theorem Call.ofJson_tagged {before after : List (String × Json)} {c : Call}
    (hk : ∀ m ∈ before ++ after, m.1 ≠ "kind") (h : Call.ofJson (.object (before ++ after)) = .ok c)
    (inside : Bool) :
    Expr.ofJson inside (.object (before ++ ("kind", .string "call") :: after)) = .ok c.toExpr := by
  obtain ⟨hn, hrun⟩ := Json.Record.ofMembers_eq_ok_iff.1 h
  refine (Expr.ofJson_object (t := .call) rfl hk).trans (Json.Record.ofMembers_eq_ok ?_ fun absent =>
    Json.Record.run_map (Expr.run_callRecord_inside hrun _ absent))
  rw [← hn]
  exact Json.Record.repeated?_congr _ (by simp [Function.comp_def])

theorem Call.ofJson_array_tagged {items : List Json} {c : Call}
    (h : Call.ofJson (.array items) = .ok c) (inside : Bool) :
    Expr.ofJson inside (.array (.string "call" :: items)) = .ok c.toExpr := by
  obtain ⟨hl, hrun⟩ := Json.Record.ofItems_eq_ok_iff.1 h
  have hread : Expr.ofJson inside (.array (.string "call" :: items)) =
      (Expr.tagRecord .call).ofItems Expr.Tag.call.title true (items.map (Expr.child true)) := by
    rw [Expr.ofJson, ← Expr.childItems_eq]
    rfl
  have hzip : ∀ inside, Expr.callRecord.names.zip (items.map (Expr.child inside)) =
      (Expr.callRecord.names.zip items).map fun m => (m.1, Expr.child inside m.2) := by
    intro inside
    rw [List.zip_map_right]
    rfl
  have hfields : Expr.callRecord.names.zip (items.map child) =
      (Expr.callRecord.names.zip items).map fun m => (m.1, Expr.child false m.2) := hzip false
  have hnames : (Expr.tagRecord .call).names = Expr.callRecord.names := rfl
  rw [hfields] at hrun
  rw [hread, Json.Record.ofItems_eq_ok_iff, hnames, hzip]
  exact ⟨by simpa using hl, Json.Record.run_map (Expr.run_callRecord_inside hrun _ _)⟩

/-- Expressions read back from the JSON that they are written as, as a whole or below other
expressions, also when the members stand in name order. So do calls that are written without a tag.
A call that is read without a tag is the same call when a tag is put anywhere among its members, or
in front of the array form. -/
theorem expr_reads_back :
    (∀ inside e, Expr.ofJson inside e.toJson = .ok e ∧
        Expr.ofJson inside e.toJson.canonical = .ok e) ∧
      (∀ c : Call, Call.ofJson c.toJson = .ok c ∧ Call.ofJson c.toJson.canonical = .ok c) ∧
      (∀ before after c, (∀ m ∈ before ++ after, m.1 ≠ "kind") →
        Call.ofJson (.object (before ++ after)) = .ok c → ∀ inside,
          Expr.ofJson inside (.object (before ++ ("kind", .string "call") :: after)) =
            .ok c.toExpr) ∧
      ∀ items c, Call.ofJson (.array items) = .ok c → ∀ inside,
        Expr.ofJson inside (.array (.string "call" :: items)) = .ok c.toExpr := by
  have hid : ∀ x, id (Json.number x) = .number x := fun x => rfl
  have hcanonical : ∀ x, (Json.number x).canonical = .number x := fun x => rfl
  refine ⟨fun inside e => ⟨?_, ?_⟩, fun c => ⟨?_, ?_⟩, fun before after c hk h => ?_,
    fun items c h => ?_⟩
  · exact Expr.ofJson_rearranged Json.rearranges_id hid inside e
  · exact Expr.ofJson_rearranged Json.rearranges_canonical hcanonical inside e
  · exact Call.ofJson_rearranged Json.rearranges_id hid c
  · exact Call.ofJson_rearranged Json.rearranges_canonical hcanonical c
  · exact Call.ofJson_tagged hk h
  · exact Call.ofJson_array_tagged h

/-- The arguments of a call before its name, and a member that is no field. -/
def scattered : List (String × Json) :=
  [("args", .array [(Expr.binary "&" (.text "a") (.member (.name "b") "c")).toJson]), ("note", .null)]

def scatteredCall : Call := ⟨"f", [.binary "&" (.text "a") (.member (.name "b") "c")]⟩

theorem expr_reads_back_scattered :
    (∀ m ∈ scattered ++ [("name", .string "f")], m.1 ≠ "kind") ∧
      Call.ofJson (.object (scattered ++ [("name", .string "f")])) = .ok scatteredCall ∧
      Expr.ofJson false (.object (scattered ++ [("kind", .string "call"), ("name", .string "f")])) =
        .ok scatteredCall.toExpr ∧
      Call.ofJson (.array [.string "f"]) = .ok ⟨"f", []⟩ ∧
      Expr.ofJson true (.array [.string "call", .string "f"]) = .ok (.call "f" []) := by
  obtain ⟨-, -, hobject, harray⟩ := expr_reads_back
  have hk : ∀ m ∈ scattered ++ [("name", .string "f")], m.1 ≠ "kind" := by
    simp [scattered]
  have hcall : Call.ofJson (.object (scattered ++ [("name", .string "f")])) = .ok scatteredCall := rfl
  have hbare : Call.ofJson (.array [.string "f"]) = .ok ⟨"f", []⟩ := rfl
  exact ⟨hk, hcall, hobject scattered [_] _ hk hcall false, hbare, harray _ _ hbare true⟩

end Delegation
