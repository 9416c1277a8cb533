import Delegation.Proofs.Members
import Delegation.Proofs.WrittenColumns
import Mathlib.Logic.Function.Basic

namespace Delegation

open Json (Rearranges)

namespace WrittenColumn

def child (j : Json) : Child := ⟨j, fun _ => tableOfJson j, fun _ => columnsOfJson j⟩

theorem childMembers_eq (members : List (String × Json)) :
    childMembers members = members.map fun m => (m.1, child m.2) := by
  induction members with
  | nil => rfl
  | cons m r ih =>
    obtain ⟨k, j⟩ := m
    rw [childMembers, ih]
    rfl

section
variable {members : List (String × Json)}

theorem lookup_childMembers (members : List (String × Json)) (name : String) :
    (childMembers members).lookup name = (members.lookup name).map child := by
  rw [childMembers_eq, Json.lookup_map]

theorem nodup_childMembers (h : (members.map Prod.fst).Nodup) :
    ((childMembers members).map Prod.fst).Nodup := by
  rw [childMembers_eq, List.map_map]
  exact h

theorem tableOfJson_object {j : Json} {table : List WrittenColumn}
    (hd : (members.map Prod.fst).Nodup) (hc : members.lookup "columns" = some j)
    (hj : columnsOfJson j = .ok table) : tableOfJson (.object members) = .ok table := by
  rw [tableOfJson]
  refine Json.Record.ofMembers_eq_ok (Json.Record.repeated?_eq_none _ (nodup_childMembers hd))
    fun absent => Json.Record.run_field_of_lookup (v := child j) ?_ hj
  rw [lookup_childMembers, hc]
  rfl

theorem ofJson_object {n : String} {kind : Option ScalarType} {record : Option (List WrittenColumn)}
    {o : Bool} (hd : (members.map Prod.fst).Nodup)
    (hn : members.lookup "name" = some (.string n))
    (hk : members.lookup "kind" = kind.map fun k => .string k.name)
    (hr : ∀ table ∈ record, ∃ j ∈ members.lookup "record", tableOfJson j = .ok table)
    (hr' : record = none → members.lookup "record" = none)
    (ho : members.lookup "optionSet" = if o then some (.bool true) else none) :
    ofJson (.object members) = .ok (mk n kind record o) := by
  have hl := lookup_childMembers members
  rw [ofJson]
  -- the names differ, so each field is one lookup, wherever its member stands
  refine Json.Record.ofMembers_eq_ok (Json.Record.repeated?_eq_none _ (nodup_childMembers hd))
    fun absent => Json.Record.run_seq (Json.Record.run_seq (Json.Record.run_seq
      (Json.Record.run_map ?name) ?kind) ?record) ?optionSet
  case name =>
    apply Json.Record.run_field_of_lookup (v := child (.string n))
    · rw [hl, hn]
      rfl
    · rfl
  case kind =>
    cases kind with
    | none => exact Json.Record.run_optional_of_lookup_none (by rw [hl, hk]; rfl)
    | some k =>
      apply Json.Record.run_optional_of_lookup (v := child (.string k.name))
      · rw [hl, hk]
        rfl
      · have h : ScalarType.ofJson (.string k.name) = .ok k :=
          Json.named_name ScalarType.name_injective (ScalarType.mem_all k)
        exact congrArg (Except.map some) h
  case record =>
    cases record with
    | none => exact Json.Record.run_optional_of_lookup_none (by rw [hl, hr' rfl]; rfl)
    | some table =>
      obtain ⟨j, hj, ht⟩ := hr table rfl
      apply Json.Record.run_optional_of_lookup (v := child j)
      · rw [hl, hj]
        rfl
      · -- `null` is no table
        cases j with
        | null => simp [tableOfJson] at ht
        | _ => exact congrArg (Except.map some) ht
  case optionSet =>
    cases o with
    | false => exact Json.Record.run_optional_of_lookup_none (by rw [hl, ho]; rfl)
    | true =>
      apply Json.Record.run_optional_of_lookup (v := child (.bool true))
      · rw [hl, ho]
        rfl
      · rfl

end

section
variable {g : Json → Json}

theorem lookup_optionSetMember (hg : Rearranges g) (o : Bool) :
    ((Schema.optionSetMember o).lookup "optionSet").map g = if o then some (.bool true) else none := by
  cases o with
  | false => rfl
  | true => exact congrArg some (hg.bool true)

theorem ofJson_scalarJson (hg : Rearranges g) (n : String) (k : ScalarType) (o : Bool) :
    ofJson (g (Schema.columnJson (.scalar n k o))) = .ok (mk n (some k) none o) := by
  obtain ⟨members, hm, hd, hl⟩ := hg.object
    (("name", .string n) :: ("kind", .string k.name) :: Schema.optionSetMember o)
    (by cases o <;> simp [Schema.optionSetMember])
  rw [Schema.columnJson, hm]
  apply ofJson_object hd
  · exact (hl "name").trans (congrArg some (hg.string n))
  · exact (hl "kind").trans (congrArg some (hg.string k.name))
  · simp
  · intro _
    rw [hl]
    cases o <;> rfl
  · exact (hl "optionSet").trans (lookup_optionSetMember hg o)

theorem tableOfJson_columns (hg : Rearranges g) {cs : List Column}
    (hc : columnsOfJson (g (.array (Schema.columnsJson cs))) = .ok (writtenColumns cs)) :
    tableOfJson (g (.object [("columns", .array (Schema.columnsJson cs))])) =
      .ok (writtenColumns cs) := by
  obtain ⟨members, hm, hd, hl⟩ := hg.object [("columns", .array (Schema.columnsJson cs))] (by simp)
  rw [hm]
  exact tableOfJson_object hd (hl "columns") hc

theorem ofJson_recordJson (hg : Rearranges g) (n : String) {fs : List Column} (o : Bool)
    (hf : columnsOfJson (g (.array (Schema.columnsJson fs))) = .ok (writtenColumns fs)) :
    ofJson (g (Schema.columnJson (.record n fs o))) =
      .ok (mk n none (some (writtenColumns fs)) o) := by
  obtain ⟨members, hm, hd, hl⟩ := hg.object
    (("name", .string n) :: ("record", .object [("columns", .array (Schema.columnsJson fs))]) ::
      Schema.optionSetMember o) (by cases o <;> simp [Schema.optionSetMember])
  rw [Schema.columnJson, hm]
  apply ofJson_object hd
  · exact (hl "name").trans (congrArg some (hg.string n))
  · rw [hl]
    cases o <;> rfl
  · intro table ht
    obtain rfl := Option.some.inj ht
    exact ⟨_, hl "record", tableOfJson_columns hg hf⟩
  · simp
  · exact (hl "optionSet").trans (lookup_optionSetMember hg o)

mutual
theorem ofJson_columnJson (hg : Rearranges g) :
    ∀ c : Column, ofJson (g (Schema.columnJson c)) = .ok c.written
  | .scalar n k o => ofJson_scalarJson hg n k o
  | .record n fs o => by
    apply ofJson_recordJson hg n o
    rw [hg.array, columnsOfJson]
    exact listOfJson_columnsJson hg fs

theorem listOfJson_columnsJson (hg : Rearranges g) :
    ∀ cs : List Column, listOfJson ((Schema.columnsJson cs).map g) = .ok (writtenColumns cs)
  | [] => rfl
  | c :: r => by
    rw [Schema.columnsJson, List.map_cons, listOfJson, ofJson_columnJson hg c,
      listOfJson_columnsJson hg r]
    rfl
end

end

end WrittenColumn

namespace Schema

theorem ofJson_rearranged {g : Json → Json} (hg : Rearranges g) (s : Schema) :
    ofJson (g s.toJson) = .ok s := by
  have hc : WrittenColumn.columnsOfJson (g (.array (columnsJson s.columns))) =
      .ok (writtenColumns s.columns) := by
    rw [hg.array, WrittenColumn.columnsOfJson, WrittenColumn.listOfJson_columnsJson hg]
  have hs : ofWritten (writtenColumns s.columns) = .ok s := ofWritten_eq_ok_iff.2 rfl
  rw [ofJson, toJson, WrittenColumn.tableOfJson_columns hg hc]
  simp only [bind, Except.bind, hs]
  rfl

/-- A schema is read back from what it is written as, also when the members stand in name order. So
different schemas are written differently, and what was read as a schema is read as the same schema
once it is written again. -/
theorem ofJson_written :
    (∀ s : Schema, ofJson s.toJson = .ok s ∧ ofJson s.toJson.canonical = .ok s) ∧
      Function.Injective toJson ∧ Function.Injective (fun s : Schema => s.toJson.canonical) ∧
      ∀ j, ((ofJson j).bind fun s => ofJson s.toJson.canonical) = ofJson j := by
  have hread : ∀ s : Schema, ofJson s.toJson = .ok s := ofJson_rearranged Json.rearranges_id
  have hcanonical : ∀ s : Schema, ofJson s.toJson.canonical = .ok s :=
    ofJson_rearranged Json.rearranges_canonical
  refine ⟨fun s => ⟨hread s, hcanonical s⟩, ?_, ?_, fun j => ?_⟩
  · apply Function.Injective.of_comp (f := ofJson)
    rw [show ofJson ∘ toJson = Except.ok from funext hread]
    exact fun _ _ => Except.ok.inj
  · apply Function.Injective.of_comp (f := ofJson)
    rw [show (ofJson ∘ fun s : Schema => s.toJson.canonical) = Except.ok from funext hcanonical]
    exact fun _ _ => Except.ok.inj
  · cases ofJson j with
    | error m => rfl
    | ok s => exact hcanonical s

end Schema

end Delegation
