import Delegation.Document
import Delegation.Proofs.Reading

namespace Delegation.Document

/-- A place with the text that names it, the positions in it written in decimal. -/
structure Spot where
  place : Place
  text : String
deriving DecidableEq

namespace Spot

def root : Spot := ⟨.root, "$"⟩

def «section» (name : String) : Spot := ⟨.section name, name⟩

def member (s : Spot) (name : String) : Spot := ⟨s.place.member name, s.text ++ "." ++ name⟩

def item (s : Spot) (position : Nat) : Spot :=
  ⟨s.place.item position, s.text ++ "[" ++ position.repr ++ "]"⟩

end Spot

/-- All spots that break a rule for a value at a spot, in reading order. No schema and no reader has
a part in it. -/
abbrev Shape := Spot → Json → List Spot

namespace Shape

def boolean : Shape
  | _, .bool _ => []
  | p, _ => [p]

def text : Shape
  | _, .string _ => []
  | p, _ => [p]

def name : Shape
  | p, .string s => if Text.printed s.toList then [] else [p]
  | p, _ => [p]

def items (shape : Shape) (p : Spot) (js : List Json) : List Spot :=
  (js.zipIdx.map fun (j, i) => shape (p.item i) j).flatten

def array (shape : Shape) : Shape
  | p, .array js => items shape p js
  | p, _ => [p]

def names (p : Spot) (js : List Json) : List Spot := if js.isEmpty then [p] else items name p js

def reference : Shape
  | p, .array js => names p js
  | p, j => name p j

/-- Between slashes there is always a name. -/
def propertyPath : Shape
  | p, .string s => if (s.toList.splitOn '/').all Text.printed then [] else [p]
  | p, .array js => names p js
  | p, _ => [p]

/-- Whether a member may be left out, and whether `null` counts as left out. -/
inductive Presence where
  | required | optional | nullable

structure Field where
  name : String
  presence : Presence
  shape : Shape

/-- A member of an object at `p`, itself standing at `q`. A required one is missed at `p`. -/
def Field.violations (f : Field) (p q : Spot) (members : List (String × Json)) : List Spot :=
  match members.lookup f.name, f.presence with
  | none, .required => [p]
  | none, _ => []
  | some .null, .nullable => []
  | some j, _ => f.shape q j

def object (fields : List Field) : Shape
  | p, .object members => (fields.map fun f => f.violations p (p.member f.name) members).flatten
  | p, _ => [p]

def column : Field := ⟨"column", .required, reference⟩

def sortItem : Shape := object [column, ⟨"ascendingOnly", .nullable, boolean⟩]

def filterItem : Shape := object [column, ⟨"operators", .nullable, array text⟩]

def groupItem : Shape
  | p, .object members => object [column] p (.object members)
  | p, j => reference p j

def restriction (lists : List String) (switch : String) : Shape :=
  object ((lists.map fun l => ⟨l, .nullable, array propertyPath⟩) ++ [⟨switch, .nullable, boolean⟩])

def annotations : Shape :=
  object [
    ⟨"SortRestrictions", .nullable,
      restriction ["NonSortableProperties", "AscendingOnlyProperties"] "Sortable"⟩,
    ⟨"FilterRestrictions", .nullable, restriction ["NonFilterableProperties"] "Filterable"⟩,
    ⟨"GroupRestrictions", .nullable, restriction ["UngroupableProperties"] "Groupable"⟩]

def sections : List Field :=
  [⟨"sort", .optional, array sortItem⟩, ⟨"filter", .optional, array filterItem⟩,
    ⟨"group", .optional, array groupItem⟩, ⟨"odata", .optional, annotations⟩]

end Shape

def violations : Json → List Spot
  | .object members =>
    (Shape.sections.map fun f => f.violations .root (.section f.name) members).flatten
  | _ => [.root]

theorem digits_eq_toDigits (n : Nat) : Decimal.digits n = Nat.toDigits 10 n := by
  have hd : ∀ d < 10, Decimal.digitChar d = d.digitChar := by decide
  induction n using Decimal.digits.induct with
  | case1 n h => rw [Decimal.digits, if_pos h, Nat.toDigits_of_lt_base h, hd n h]
  | case2 n h ih =>
    rw [Decimal.digits, if_neg h, Nat.toDigits_eq_if (by decide), if_neg h, ih,
      hd _ (Nat.mod_lt n (by decide))]

def Place.spot (p : Place) : Spot := ⟨p, p.text⟩

theorem Place.spot_item (p : Place) (i : Nat) : (p.item i).spot = p.spot.item i := by
  rw [spot, text, Json.countText, digits_eq_toDigits, ← Nat.repr_eq_ofList_toDigits]
  rfl

/-- The fault is at the spot: it has its place, its text for a path, and names it in its message. -/
structure Fault.IsAt (f : Fault) (s : Spot) : Prop where
  place : f.place? = some s.place
  path : f.path? = some s.text
  message : ∃ c : Cause, f.message =
    "malformed capability document at " ++ Json.ticked s.text ++ ": " ++ c.message

theorem isAt_malformed (p : Place) (c : Cause) : (Fault.malformed p c).IsAt p.spot :=
  ⟨rfl, rfl, c, rfl⟩

theorem Fault.IsAt.eq {f : Fault} {s s' : Spot} (h : f.IsAt s) (h' : f.IsAt s') : s = s' := by
  -- the fault has one place and one path
  obtain ⟨place, text⟩ := s
  obtain ⟨place', text'⟩ := s'
  obtain rfl : place = place' := Option.some.inj (h.place.symm.trans h'.place)
  obtain rfl : text = text' := Option.some.inj (h.path.symm.trans h'.path)
  rfl

/-- A reading succeeds when nothing is violated, and else faults at the first violation. -/
def Faults {α : Type} (c : Checked α) (v : List Spot) : Prop :=
  match c with
  | .ok _ => v = []
  | .error f => ∃ s, v.head? = some s ∧ f.IsAt s

section
variable {α β : Type} {p : Place}

theorem faults_pure (a : α) : Faults (pure a : Checked α) [] := rfl

theorem faults_fail (c : Cause) : Faults (p.fail c : Checked α) [p.spot] :=
  ⟨_, rfl, isAt_malformed p c⟩

theorem Faults.bind {c : Checked α} {k : α → Checked β} {v w : List Spot} (hc : Faults c v)
    (hk : ∀ a, Faults (k a) w) : Faults (c >>= k) (v ++ w) := by
  cases c with
  | ok a =>
    obtain rfl : v = [] := hc
    exact hk a
  | error f =>
    obtain ⟨s, hs, hf⟩ := hc
    exact ⟨s, by rw [List.head?_append, hs, Option.some_or], hf⟩

theorem Faults.bind_pure {c : Checked α} {g : α → β} {v : List Spot} (hc : Faults c v) :
    Faults (c >>= fun a => pure (g a)) v := by
  rw [← List.append_nil v]
  exact hc.bind fun a => faults_pure (g a)

theorem Faults.map {c : Checked α} {g : α → β} {v : List Spot} (hc : Faults c v) :
    Faults (c.map g) v := by
  cases c <;> exact hc

theorem faults_eachItem {read : Place → Json → Checked α} {shape : Shape}
    (h : ∀ p j, Faults (read p j) (shape p.spot j)) (js : List Json) :
    Faults (eachItem p read js) (Shape.items shape p.spot js) := by
  -- the items after the first keep their positions, so the induction is for any first position
  suffices hn : ∀ n, Faults ((js.zipIdx n).mapM fun (j, i) => read (p.item i) j)
      ((js.zipIdx n).map fun (j, i) => shape (p.spot.item i) j).flatten from hn 0
  induction js with
  | nil => exact fun n => faults_pure []
  | cons j r ih =>
    intro n
    rw [List.zipIdx_cons, List.mapM_cons, List.map_cons, List.flatten_cons]
    have hj := h (p.item n) j
    rw [Place.spot_item] at hj
    exact hj.bind fun a => (ih (n + 1)).bind_pure

theorem faults_array {read : Place → Json → Checked α} {shape : Shape}
    (h : ∀ p j, Faults (read p j) (shape p.spot j)) (j : Json) :
    Faults (asArray p j >>= eachItem p read) (Shape.array shape p.spot j) := by
  cases j with
  | array js => exact faults_eachItem h js
  | _ => exact faults_fail .notArray

theorem faults_object {k : List (String × Json) → Checked α} {fields : List Shape.Field}
    (h : ∀ ms, Faults (k ms)
      (fields.map fun f => f.violations p.spot (p.member f.name).spot ms).flatten)
    (j : Json) : Faults (asObject p j >>= k) (Shape.object fields p.spot j) := by
  cases j with
  | object ms => exact h ms
  | _ => exact faults_fail .notObject

theorem violations_nullable (name : String) (shape : Shape) (s q : Spot)
    (members : List (String × Json)) :
    (Shape.Field.mk name .nullable shape).violations s q members =
      (given? members name).elim [] (shape q) := by
  rw [Shape.Field.violations, given?]
  cases members.lookup name with
  | none => rfl
  | some j => cases j <;> rfl

end

theorem faults_segment (p : Place) (j : Json) : Faults (segment p j) (Shape.name p.spot j) := by
  cases j with
  | string s =>
    rw [segment, Shape.name, Text.blank_eq_not_printed]
    cases Text.printed s.toList with
    | true => exact faults_pure _
    | false => exact faults_fail .badSegment
  | _ => exact faults_fail .badSegment

theorem faults_segments (p : Place) (js : List Json) :
    Faults (segments p js) (Shape.names p.spot js) := by
  rw [segments, Shape.names]
  cases js with
  | nil => exact faults_fail .emptyPath
  | cons j r => exact (faults_eachItem faults_segment (j :: r)).map

theorem faults_columnReference (p : Place) (j : Json) :
    Faults (columnReference p j) (Shape.reference p.spot j) := by
  cases j with
  | string s =>
    change Faults _ (Shape.name p.spot (.string s))
    rw [columnReference, Shape.name, Text.blank_eq_not_printed]
    cases Text.printed s.toList with
    | true => exact faults_pure _
    | false => exact faults_fail .emptyName
  | array js => exact faults_segments p js
  | _ => exact faults_fail .notReference

theorem faults_propertyPath (p : Place) (j : Json) :
    Faults (propertyPath p j) (Shape.propertyPath p.spot j) := by
  cases j with
  | string s =>
    simp only [propertyPath, Shape.propertyPath, slashParts_eq_splitOn, Text.any_trim_isEmpty]
    cases (s.toList.splitOn '/').all Text.printed with
    | true => exact faults_pure _
    | false => exact faults_fail (.badPropertyPath s)
  | array js => exact faults_segments p js
  | _ => exact faults_fail .notPropertyPath

theorem faults_flag (p : Place) (members : List (String × Json)) (name : String) (default : Bool) :
    Faults (flag p members name default)
      ((Shape.Field.mk name .nullable Shape.boolean).violations p.spot (p.member name).spot
        members) := by
  rw [flag, violations_nullable]
  cases given? members name with
  | none => exact faults_pure default
  | some j =>
    cases j with
    | bool b => exact faults_pure b
    | _ => exact faults_fail .notBoolean

theorem faults_itemColumn (p : Place) (members : List (String × Json)) :
    Faults (itemColumn p members) (Shape.column.violations p.spot (p.member "column").spot
      members) := by
  rw [itemColumn, Shape.Field.violations, Shape.column]
  cases members.lookup "column" with
  | none => exact faults_fail .noColumn
  | some j => cases j <;> exact faults_columnReference _ _

theorem faults_sortItem (p : Place) (j : Json) :
    Faults (sortItem p j) (Shape.sortItem p.spot j) := by
  refine faults_object (fun ms => ?_) j
  rw [List.map_cons, List.flatten_cons]
  refine (faults_itemColumn p ms).bind fun c => ?_
  rw [List.map_cons, List.flatten_cons]
  exact (faults_flag p ms "ascendingOnly" false).bind fun b => faults_pure _

theorem faults_operatorName (p : Place) (j : Json) :
    Faults (operatorName p j) (Shape.text p.spot j) := by
  cases j with
  | string s => exact faults_pure s
  | _ => exact faults_fail .notOperatorName

theorem faults_itemOperators (p : Place) (members : List (String × Json)) :
    Faults (itemOperators p members)
      ((Shape.Field.mk "operators" .nullable (Shape.array Shape.text)).violations p.spot
        (p.member "operators").spot members) := by
  rw [itemOperators, violations_nullable]
  cases given? members "operators" with
  | none => exact faults_pure _
  | some j =>
    have h := faults_array (p := p.member "operators") faults_operatorName j
    simpa only [bind_assoc, Option.elim_some] using h.bind_pure (g := operatorsNamed)

theorem faults_filterItem (p : Place) (j : Json) :
    Faults (filterItem p j) (Shape.filterItem p.spot j) := by
  refine faults_object (fun ms => ?_) j
  rw [List.map_cons, List.flatten_cons]
  refine (faults_itemColumn p ms).bind fun c => ?_
  rw [List.map_cons, List.flatten_cons]
  exact (faults_itemOperators p ms).bind fun o => faults_pure _

theorem faults_groupItem (p : Place) (j : Json) :
    Faults (groupItem p j) (Shape.groupItem p.spot j) := by
  cases j with
  | object ms =>
    change Faults _ ([Shape.column.violations p.spot (p.member "column").spot ms].flatten)
    rw [List.flatten_singleton]
    exact (faults_itemColumn p ms).bind_pure
  | _ => exact (faults_columnReference p _).bind_pure

/-- A section that lists columns one by one; the schema only sieves what was read. -/
theorem faults_listing {name : String} {read : Place → Json → Checked (Path × Grant)}
    {shape : Shape} (h : ∀ p j, Faults (read p j) (shape p.spot j)) (schema : Schema) (j : Json) :
    Faults (listing name read j schema) (Shape.array shape (.section name) j) := by
  have hr := faults_array (p := .section name) h j
  change Faults _ (Shape.array shape (Place.section name).spot j)
  simpa only [listing, bind_assoc] using hr.bind_pure (g := grantKnown schema)

theorem faults_propertyPaths (p : Place) (members : List (String × Json)) (name : String) :
    Faults (propertyPaths p members name)
      ((Shape.Field.mk name .nullable (Shape.array Shape.propertyPath)).violations p.spot
        (p.member name).spot members) := by
  rw [propertyPaths, violations_nullable]
  cases given? members name with
  | none => exact faults_pure _
  | some j => exact faults_array faults_propertyPath j

def RestrictionForm.lists (form : RestrictionForm) : List String :=
  form.exclusion :: form.ascending.toList

theorem faults_restriction? (form : RestrictionForm) (members : List (String × Json)) :
    Faults (restriction? form members)
      ((Shape.Field.mk form.name .nullable (Shape.restriction form.lists form.switch)).violations
        restrictionsPlace.spot (restrictionsPlace.member form.name).spot members) := by
  rw [restriction?, violations_nullable]
  cases given? members form.name with
  | none => exact faults_pure _
  | some j =>
    refine faults_object (fun ms => ?_) j
    have hs := faults_flag (restrictionsPlace.member form.name) ms form.switch true
    rw [RestrictionForm.lists, List.map_cons, List.cons_append, List.map_cons, List.flatten_cons]
    refine (faults_propertyPaths _ ms form.exclusion).bind fun excluded => ?_
    -- a form without a second list goes on to its switch
    cases form.ascending with
    | none =>
      change Faults _ ([_].flatten)
      rw [List.flatten_singleton]
      exact hs.bind_pure
    | some name =>
      change Faults _ ([_, _].flatten)
      rw [List.flatten_cons, List.flatten_singleton]
      exact (faults_propertyPaths _ ms name).bind fun ascending => hs.bind_pure

theorem faults_restrictionGrants (form : RestrictionForm) (members : List (String × Json))
    (leaves : List Path) :
    Faults (restrictionGrants form members leaves)
      ((Shape.Field.mk form.name .nullable (Shape.restriction form.lists form.switch)).violations
        restrictionsPlace.spot (restrictionsPlace.member form.name).spot members) := by
  rw [restrictionGrants, ← List.append_nil (Shape.Field.violations _ _ _ _)]
  refine (faults_restriction? form members).bind fun r? => ?_
  cases r? <;> exact faults_pure _

theorem faults_restrictionSection (schema : Schema) (j : Json) :
    Faults (restrictionSection j schema) (Shape.annotations restrictionsPlace.spot j) := by
  refine faults_object (fun ms => ?_) j
  rw [List.map_cons, List.flatten_cons]
  refine (faults_restrictionGrants sortForm ms schema.leaves).bind fun sorting => ?_
  rw [List.map_cons, List.flatten_cons]
  refine (faults_restrictionGrants filterForm ms schema.leaves).bind fun filtering => ?_
  rw [List.map_cons, List.map_nil, List.flatten_singleton]
  exact (faults_restrictionGrants groupForm ms schema.leaves).bind_pure

theorem faults_fragments_cons {schema : Schema} {members : List (String × Json)} {key : String}
    {read : SectionReader} {shape : Shape} {rest : List (String × SectionReader)} {w : List Spot}
    (h : ∀ j, Faults (read j schema) (shape (.section key) j))
    (hw : Faults (SectionTable.fragments schema members rest) w) :
    Faults (SectionTable.fragments schema members ((key, read) :: rest))
      ((Shape.Field.mk key .optional shape).violations .root (.section key) members ++ w) := by
  rw [SectionTable.fragments, Shape.Field.violations]
  cases members.lookup key with
  | none => exact hw
  | some j =>
    cases j <;> exact (h _).bind fun f => hw.bind_pure

theorem faults_index (schema : Schema) (j : Json) :
    Faults (index .standard schema j) (violations j) := by
  cases j with
  | object ms =>
    refine Faults.bind_pure (v := violations (.object ms)) ?_
    change Faults (SectionTable.fragments schema ms
      [("sort", sortSection), ("filter", filterSection), ("group", groupSection),
        ("odata", restrictionSection)]) _
    refine faults_fragments_cons (faults_listing faults_sortItem schema) ?_
    refine faults_fragments_cons (faults_listing faults_filterItem schema) ?_
    refine faults_fragments_cons (faults_listing faults_groupItem schema) ?_
    exact faults_fragments_cons (faults_restrictionSection schema) (faults_pure [])
  | _ => exact faults_fail .documentNotObject

/-- The standard reading of a document succeeds exactly when nothing in it breaks the grammar, and
faults exactly at the first place that does, under the name that the grammar has for it; the schema
has no part in it. -/
theorem index_faults_at_first_violation (schema : Schema) (j : Json) :
    ((∃ i, index .standard schema j = .ok i) ↔ violations j = []) ∧
      ∀ s, (∃ f, index .standard schema j = .error f ∧ f.IsAt s) ↔
        (violations j).head? = some s := by
  have h := faults_index schema j
  cases hi : index .standard schema j with
  | ok i =>
    rw [hi] at h
    have hv : violations j = [] := h
    simp [hv]
  | error f =>
    rw [hi] at h
    obtain ⟨first, hv, hf⟩ := h
    have hn : violations j ≠ [] := by
      intro he
      simp [he] at hv
    have hs : ∀ s, f.IsAt s ↔ first = s := fun s => ⟨hf.eq, fun he => he ▸ hf⟩
    simp [hn, hv, hs]

-- reading order is the order of the grammar, not that of the members
example : (violations (.object [("odata", .null), ("group", .array [.string "A", .object [("column",
    .array [.string "B", .string " "])]])])).map Spot.text = ["group[1].column[1]", "odata"] := by
  decide

end Delegation.Document
