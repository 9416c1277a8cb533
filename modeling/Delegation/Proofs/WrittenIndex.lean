import Delegation.Index.Digest
import Delegation.Proofs.CompactText

namespace Delegation

namespace Json
variable {α : Type}

theorem asList_map {read : Json → Reading α} {write : α → Json} (h : ∀ a, read (write a) = .ok a)
    (l : List α) : asList read (.array (l.map write)) = .ok l := by
  rw [asList]
  induction l with
  | nil => rfl
  | cons a l ih =>
    rw [List.map_cons, List.mapM_cons, h a, ih]
    rfl

theorem asList_strings {read : Json → Reading α} {name : α → String}
    (h : ∀ a, read (.string (name a)) = .ok a) (l : List α) :
    asList read (strings (l.map name)) = .ok l := by
  rw [strings, List.map_map]
  exact asList_map h l

theorem Fits.strings {d : Nat} (l : List String) : Fits (d + 1) (strings l) := by
  refine .array fun j hj => ?_
  obtain ⟨s, -, rfl⟩ := List.mem_map.1 hj
  exact .string

theorem named_name {all : List α} {name : α → String} (hn : ∀ {a b}, name a = name b → a = b)
    {a : α} (ha : a ∈ all) : named all name (name a) = .ok a := by
  rw [named, (find?_key_eq_some_iff fun _ _ _ _ => hn).2 ⟨ha, rfl⟩]

end Json

@[simp] theorem Path.ofJson_toJson (p : Path) : Path.ofJson p.toJson = .ok p := by
  have h := @Json.asList_strings _ Json.asString id (fun _ => rfl) p.segments
  rw [List.map_id] at h
  rw [ofJson, toJson, Json.asStrings, h]
  rfl

namespace FlagSet
variable {α : Type} [Flag α]

theorem ofList_toList (s : FlagSet α) : ofList s.toList = s :=
  ext fun a => by rw [Bool.eq_iff_iff, contains_ofList, mem_toList]

theorem ofNames_toNames {name : α → String} (hn : ∀ {a b}, name a = name b → a = b)
    (s : FlagSet α) :
    (Json.asList (Json.asVariant (Flag.all α) name) (.strings (s.toList.map name))).map ofList =
      .ok s := by
  rw [Json.asList_strings fun a => Json.named_name hn (mem_all a)]
  exact congrArg _ s.ofList_toList

end FlagSet

@[simp] theorem Capabilities.ofJson_toJson (s : Capabilities) : ofJson s.toJson = .ok s :=
  FlagSet.ofNames_toNames Capability.name_injective s

@[simp] theorem Operators.ofJson_toJson (s : Operators) : ofJson s.toJson = .ok s :=
  FlagSet.ofNames_toNames Operator.name_injective s

namespace Json.Record
variable {κ α β : Type} {i p : Nat} {s : Source κ} {name : String} {read : κ → Reading α}

theorem run_field {v : κ} {a : α} (hv : find? name s.present = some (p, v))
    (ha : read v = .ok a) : (field name read).run i s = .ok a := by
  simp only [field, hv, ha]
  rfl

theorem run_optional {v : κ} {a d : α} (hv : find? name s.present = some (p, v))
    (ha : read v = .ok a) : (optional name d read).run i s = .ok a := by
  simp only [optional, hv, ha]
  rfl

theorem run_optional_absent {d : α} (hv : find? name s.present = none) :
    (optional name d read).run i s = .ok d := by
  simp only [optional, hv]

theorem run_seq {f : Record κ (α → β)} {x : Record κ α} {g : α → β} {a : α}
    (hf : f.run i s = .ok g) (hx : x.run (i + f.names.length) s = .ok a) :
    (f <*> x).run i s = .ok (g a) := by
  change (both f x).run i s = _
  simp only [both, hf, hx]

theorem run_map {x : Record κ α} {g : α → β} {a : α} (hx : x.run i s = .ok a) :
    (g <$> x).run i s = .ok (g a) :=
  run_seq (f := pure g) rfl hx

theorem ofMembers_eq_ok {r : Record κ α} {members : List (String × κ)} {a : α}
    (hn : repeated? r.names members = none) (ha : ∀ absent, r.run 0 ⟨members, absent⟩ = .ok a) :
    r.ofMembers members = .ok a := by
  rw [ofMembers, hn]
  simp only [ha]
  rfl

end Json.Record

theorem Grant.ofJson_row (p : Json) (g : Grant) :
    Grant.ofJson (.object (("path", p) :: g.members)) = .ok g := by
  obtain ⟨c, a, o⟩ := g
  -- which members there are depends on the flag and on whether operators are listed
  refine Json.Record.ofMembers_eq_ok ?_ fun absent => Json.Record.run_seq (Json.Record.run_seq
    (Json.Record.run_map (Json.Record.run_field rfl (Capabilities.ofJson_toJson c))) ?_) ?_
  · cases a <;> cases h : o.isEmpty <;> simp only [members, h] <;> rfl
  · cases a <;> cases h : o.isEmpty <;> simp only [members, h] <;> rfl
  · cases h : o.isEmpty with
    | true =>
      obtain rfl : o = .empty :=
        FlagSet.ext fun b => by rw [FlagSet.isEmpty_iff.1 h, FlagSet.contains_empty]
      cases a <;> exact Json.Record.run_optional_absent rfl
    | false =>
      have hlast : (Json.Record.find? "filterOperators" (("path", p) :: members ⟨c, a, o⟩)).map
          Prod.snd = some (Operators.toJson o) := by
        cases a <;> simp only [members, h] <;> rfl
      obtain ⟨⟨q, v⟩, hv, rfl⟩ := Option.map_eq_some_iff.1 hlast
      exact Json.Record.run_optional hv (Operators.ofJson_toJson o)

namespace Index

theorem rowJson_injective {e e' : Path × Grant} (h : rowJson e = rowJson e') : e = e' := by
  obtain ⟨p, g⟩ := e
  obtain ⟨p', g'⟩ := e'
  have hm := Json.object.inj h
  have hp : p.toJson = p'.toJson := congrArg Prod.snd (List.head_eq_of_cons_eq hm)
  have hpath : p = p' := by
    have := congrArg Path.ofJson hp
    simpa using this
  have hgrant : g = g' := by
    have := congrArg Grant.ofJson h
    rw [rowJson, rowJson, Grant.ofJson_row, Grant.ofJson_row] at this
    exact Except.ok.inj this
  rw [hpath, hgrant]

theorem rows_eq_of_toJson_eq {i j : Index} (h : i.toJson = j.toJson) : i.rows = j.rows := by
  simp only [toJson, Json.object.injEq, List.cons.injEq, Prod.mk.injEq, true_and, and_true,
    Json.array.injEq] at h
  exact SortedMap.eq_of_entries_eq ((List.map_inj_right fun _ _ => rowJson_injective).1 h.2)

theorem fits_rowJson (d : Nat) (e : Path × Grant) : Json.Fits (d + 2) (rowJson e) := by
  refine .object fun m hm => ?_
  simp only [Grant.members, List.cons_append, List.mem_cons, List.mem_append] at hm
  rcases hm with rfl | rfl | hm | hm
  · exact .strings _
  · exact .strings _
  · split at hm
    · obtain rfl := List.mem_singleton.1 hm
      exact .bool
    · simp at hm
  · split at hm
    · simp at hm
    · obtain rfl := List.mem_singleton.1 hm
      exact .strings _

theorem fits_toJson (i : Index) : Json.Fits Json.maxDepth i.toJson := by
  refine .object fun m hm => ?_
  simp only [List.mem_cons, List.not_mem_nil, or_false] at hm
  rcases hm with rfl | rfl
  · exact .strings _
  · refine .array fun r hr => ?_
    obtain ⟨e, -, rfl⟩ := List.mem_map.1 hr
    exact fits_rowJson _ e

end Index

namespace Sha256

theorem hexDigit_inj {m n : Nat} (hm : m < 16) (hn : n < 16)
    (h : Text.hexDigit m = Text.hexDigit n) : m = n := by
  have hv := congrArg Json.Token.hexValue? h
  rw [Json.hexValue?_hexDigit hm, Json.hexValue?_hexDigit hn] at hv
  exact Option.some.inj hv

theorem hex_injective {l l' : List UInt8} (h : hex l = hex l') : l = l' := by
  have hc := String.ofList_injective h
  clear h
  induction l generalizing l' with
  | nil =>
    cases l' with
    | nil => rfl
    | cons b' l' => simp at hc
  | cons b l ih =>
    cases l' with
    | nil => simp at hc
    | cons b' l' =>
      simp only [List.flatMap_cons, List.cons_append, List.nil_append, List.cons.injEq] at hc
      obtain ⟨hhigh, hlow, hrest⟩ := hc
      have hb := b.toNat_lt
      have hb' := b'.toNat_lt
      have h₁ := hexDigit_inj (by omega) (by omega) hhigh
      have h₂ := hexDigit_inj (by omega) (by omega) hlow
      rw [ih hrest, UInt8.toNat_inj.1 (by omega : b.toNat = b'.toNat)]

/-- The texts do not collide. -/
def Separates (a b : String) : Prop :=
  digest a.toUTF8.toList = digest b.toUTF8.toList → a.toUTF8 = b.toUTF8

end Sha256

namespace Index

theorem eq_ofRows_build (s : Schema) (fs : List Fragment) :
    build s fs = ofRows (build s fs).rows := rfl

/-- The text that is digested determines an index, views and all. -/
theorem eq_of_canonicalText_eq {s t : Schema} {fs gs : List Fragment}
    (h : (build s fs).canonicalText = (build t gs).canonicalText) : build s fs = build t gs := by
  have hj := Json.compact_injective (fits_toJson _) (fits_toJson _) h
  rw [eq_ofRows_build s, eq_ofRows_build t, rows_eq_of_toJson_eq hj]

theorem separates_of_digest {i j : Index}
    (hs : Sha256.Separates i.canonicalText j.canonicalText) (h : i.digest = j.digest) :
    i.canonicalText = j.canonicalText := by
  have ht := Sha256.hex_injective ((String.append_right_inj _).1 h)
  exact String.toByteArray_inj.1 (hs ht)

/-- The digested bytes of two indices are the same if and only if the indices are, in their rows and
in everything beside them. Unless the two texts collide, the same is true of the digests. -/
theorem digest_faithful (s t : Schema) (fs gs : List Fragment) :
    ((build s fs).canonicalText.toUTF8 = (build t gs).canonicalText.toUTF8 ↔
        build s fs = build t gs) ∧
      (Sha256.Separates (build s fs).canonicalText (build t gs).canonicalText →
        ((build s fs).digest = (build t gs).digest ↔ build s fs = build t gs)) := by
  refine ⟨⟨fun h => ?_, fun h => by rw [h]⟩, fun hs => ⟨fun h => ?_, fun h => by rw [h]⟩⟩
  · exact eq_of_canonicalText_eq (String.toByteArray_inj.1 h)
  · exact eq_of_canonicalText_eq (separates_of_digest hs h)

def quotedName : Index :=
  build ⟨[.scalar "a\",\"b" .string false],
      have hn : LevelNamed ["a\",\"b"] := by decide
      ⟨hn, trivial, trivial⟩⟩
    [Fragment.add SortedMap.empty (.column "a\",\"b") (.sortable false)]

/-- A sortable column in a record. Between brackets its path differs from the column above only by
what is escaped. -/
def nestedName : Index :=
  build ⟨[.record "a" [.scalar "b" .string false] false],
      have hn : LevelNamed ["a"] := by decide
      have hf : LevelNamed ["b"] := by decide
      ⟨hn, ⟨hf, trivial, trivial⟩, trivial⟩⟩
    [Fragment.add SortedMap.empty ⟨["a", "b"]⟩ (.sortable false)]

theorem digest_faithful_quoted :
    Sha256.Separates quotedName.canonicalText nestedName.canonicalText ∧
      quotedName.rows.keys = [.column "a\",\"b"] ∧ nestedName.rows.keys = [⟨["a", "b"]⟩] ∧
      quotedName.digest ≠ nestedName.digest := by
  have hs : Sha256.Separates quotedName.canonicalText nestedName.canonicalText :=
    fun h => absurd h (by decide +kernel)
  refine ⟨hs, by decide +kernel, by decide +kernel, fun h => ?_⟩
  have he : quotedName = nestedName := ((digest_faithful _ _ _ _).2 hs).1 h
  exact absurd (congrArg (fun i : Index => i.rows.keys) he) (by decide +kernel)

end Index

end Delegation
