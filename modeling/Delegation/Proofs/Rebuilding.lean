import Delegation.Proofs.Members
import Delegation.Proofs.Views

namespace Delegation

open Json (Rearranges)

namespace Json.Rearranges
variable {g : Json → Json}

theorem strings (hg : Rearranges g) (l : List String) : g (.strings l) = .strings l := by
  rw [Json.strings, hg.array, List.map_map]
  exact congrArg Json.array (List.map_congr_left fun s _ => hg.string s)

theorem get?_object (hg : Rearranges g) {members : List (String × Json)}
    (hd : (members.map Prod.fst).Nodup) (name : String) :
    (g (.object members)).get? name = (members.lookup name).map g := by
  obtain ⟨members', hm, -, hl⟩ := hg.object members hd
  rw [hm]
  exact hl name

end Json.Rearranges

namespace Grant
variable {members : List (String × Json)}

theorem ofJson_object {c : Capabilities} {a : Bool} {o : Operators}
    (hd : (members.map Prod.fst).Nodup) (hc : members.lookup "kinds" = some c.toJson)
    (ha : members.lookup "ascendingOnly" = if a then some (.bool true) else none)
    (ho : members.lookup "filterOperators" = if o.isEmpty then none else some o.toJson) :
    ofJson (.object members) = .ok ⟨c, a, o⟩ := by
  refine Json.Record.ofMembers_eq_ok (Json.Record.repeated?_eq_none _ hd)
    fun absent => Json.Record.run_seq (Json.Record.run_seq (Json.Record.run_map
      (Json.Record.run_field_of_lookup hc (Capabilities.ofJson_toJson c))) ?ascendingOnly) ?operators
  case ascendingOnly =>
    cases a with
    | false => exact Json.Record.run_optional_of_lookup_none ha
    | true => exact Json.Record.run_optional_of_lookup ha rfl
  case operators =>
    cases h : o.isEmpty with
    | true =>
      obtain rfl : o = .empty :=
        FlagSet.ext fun b => by rw [FlagSet.isEmpty_iff.1 h, FlagSet.contains_empty]
      exact Json.Record.run_optional_of_lookup_none ho
    | false =>
      rw [h] at ho
      exact Json.Record.run_optional_of_lookup ho (Operators.ofJson_toJson o)

end Grant

namespace Index

def rowOfJson (row : Json) : Json.Reading (Path × Grant) := do
  let path ← Path.ofJson ((row.get? "path").getD .null)
  let grant ← Grant.ofJson row
  return (path, grant)

/-- The index for the schema of the rows in a written index, all taken as one section's grants. -/
def rebuild (schema : Schema) (written : Json) : Json.Reading Index := do
  let rows ← Json.asList rowOfJson ((written.get? "columns").getD .null)
  return build schema [rows.foldl (fun f e => Fragment.add f e.1 e.2) SortedMap.empty]

section
variable {g : Json → Json}

theorem nodup_row (p : Json) (h : Grant) : ((("path", p) :: h.members).map Prod.fst).Nodup := by
  obtain ⟨c, a, o⟩ := h
  cases a <;> cases ho : o.isEmpty <;> simp [Grant.members, ho]

theorem rowOfJson_rowJson (hg : Rearranges g) (e : Path × Grant) :
    rowOfJson (g (rowJson e)) = .ok e := by
  obtain ⟨p, c, a, o⟩ := e
  have hd := nodup_row p.toJson ⟨c, a, o⟩
  have hp : (g (rowJson (p, ⟨c, a, o⟩))).get? "path" = some p.toJson := by
    rw [rowJson, hg.get?_object hd]
    exact congrArg some (hg.strings p.segments)
  have hgrant : Grant.ofJson (g (rowJson (p, ⟨c, a, o⟩))) = .ok ⟨c, a, o⟩ := by
    obtain ⟨members, hm, hd', hl⟩ := hg.object _ hd
    rw [rowJson, hm]
    -- which members there are depends on the flag and on whether operators are listed
    apply Grant.ofJson_object hd'
    · exact (hl "kinds").trans (congrArg some (hg.strings _))
    · rw [hl]
      cases a
      · cases h : o.isEmpty <;> simp only [Grant.members, h] <;> rfl
      · exact congrArg some (hg.bool true)
    · rw [hl]
      cases h : o.isEmpty
      · have hs : g o.toJson = o.toJson := hg.strings _
        cases a <;> simp only [Grant.members, h] <;> exact congrArg some hs
      · cases a <;> simp only [Grant.members, h] <;> rfl
  rw [rowOfJson, hp, hgrant, Option.getD_some, Path.ofJson_toJson]
  rfl

theorem foldl_add_entries (rows : Fragment) :
    rows.entries.foldl (fun f e => Fragment.add f e.1 e.2) SortedMap.empty = rows := by
  apply Fragment.eq_of_any
  intro holds hh p
  rw [Fragment.any_get?_foldl_add hh, SortedMap.get?_empty, Option.any_none, Bool.false_or,
    Fragment.any_entries]

/-- The rows of an index are all kept when an index is built of them. -/
theorem build_rows (schema : Schema) (fs : List Fragment) :
    build schema [(build schema fs).rows] = build schema fs := by
  have hm : Fragment.mergeAll [(build schema fs).rows] = (build schema fs).rows :=
    foldl_add_entries _
  have hrows : ∀ p h, (build schema [(build schema fs).rows]).grant? p = some h ↔
      (build schema fs).grant? p = some h := by
    intro p h
    rw [grant?_eq_some_iff, hasRow_build_iff, hm]
    -- a row is about a column of the schema, and it allows something
    exact and_iff_left_of_imp fun hr => (hasRow_build_iff.1 (grant?_eq_some_iff.1 hr)).2
  rw [eq_ofRows_build schema [_], eq_ofRows_build schema fs]
  exact congrArg ofRows (SortedMap.ext fun p => Option.ext (hrows p))

theorem rebuild_rearranged (hg : Rearranges g) (schema : Schema) (fs : List Fragment) :
    rebuild schema (g (build schema fs).toJson) = .ok (build schema fs) := by
  have hc : (g (build schema fs).toJson).get? "columns" =
      some (.array (((build schema fs).rows.entries.map rowJson).map g)) := by
    rw [toJson, hg.get?_object (by simp)]
    exact congrArg some (hg.array _)
  have hread := Json.asList_map (rowOfJson_rowJson hg) (build schema fs).rows.entries
  rw [rebuild, hc, Option.getD_some, List.map_map]
  simp only [Function.comp_def, hread]
  exact congrArg Except.ok ((congrArg (fun f => build schema [f]) (foldl_add_entries _)).trans
    (build_rows schema fs))

end

/-- A built index comes back from the rows of its JSON, whether the members stand in name order or
as they are written: the same in its rows, its views and its table, and so with the same digest. -/
theorem rebuild_written (schema : Schema) (fs : List Fragment) :
    rebuild schema (build schema fs).toJson.canonical = .ok (build schema fs) ∧
      (rebuild schema (build schema fs).toJson.canonical).map digest =
        .ok (build schema fs).digest ∧
      rebuild schema (build schema fs).toJson = .ok (build schema fs) := by
  have hc := rebuild_rearranged Json.rearranges_canonical schema fs
  refine ⟨hc, ?_, rebuild_rearranged Json.rearranges_id schema fs⟩
  rw [hc]
  rfl

end Index

end Delegation
