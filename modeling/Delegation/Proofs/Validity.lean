import Delegation.Proofs.Flaws

namespace Delegation

open WrittenColumn (toColumn toColumns)

/-- Each column has exactly one type, and the names are all different and none of them blank. -/
structure SoundLevel (level : List WrittenColumn) : Prop where
  typed : ∀ c ∈ level, c.Typed
  printed : ∀ c ∈ level, ∃ ch ∈ c.name.toList, Text.isBlank ch = false
  distinct : (level.map WrittenColumn.name).Nodup

def Sound (table : List WrittenColumn) : Prop :=
  ∀ records level, Level table records level → SoundLevel level

theorem blank_eq_false_iff {s : String} :
    Text.blank s = false ↔ ∃ ch ∈ s.toList, Text.isBlank ch = false := by
  rw [Text.blank, List.all_eq_false]
  simp only [Bool.not_eq_true]

theorem SoundLevel.not_on {level : List WrittenColumn} (h : SoundLevel level) (f : Flaw) :
    ¬ f.On level := by
  intro ho
  cases ho with
  | blankName hc hb =>
    have hp := blank_eq_false_iff.2 (h.printed _ hc)
    rw [hb] at hp
    exact Bool.noConfusion hp
  | @repeatedName n hn =>
    have hle := List.nodup_iff_count.1 h.distinct n
    omega
  | untyped hc ht => exact ht (h.typed _ hc)

theorem tableFlaws_eq_nil_of_sound {table : List WrittenColumn} (h : Sound table) :
    tableFlaws table = [] := by
  rw [List.eq_nil_iff_forall_not_mem]
  intro e he
  obtain ⟨level, hl, ho⟩ := placed_of_mem_tableFlaws he
  exact (h _ _ hl).not_on _ ho

theorem flaws_eq_nil_of_mem {cs : List WrittenColumn} (h : fieldFlaws cs = []) {c : WrittenColumn}
    (hc : c ∈ cs) : c.flaws = [] := by
  induction cs with
  | nil => simp at hc
  | cons d r ih =>
    rw [fieldFlaws, List.append_eq_nil_iff] at h
    rcases List.mem_cons.1 hc with rfl | hc
    · exact h.1
    · exact ih h.2 hc

theorem scalar_or_record_of_flaws_eq_nil {c : WrittenColumn} (h : c.flaws = []) :
    (∃ n k o, c = .mk n (some k) none o) ∨
      ∃ n fields o, c = .mk n none (some fields) o ∧ tableFlaws fields = [] := by
  rcases c with ⟨n, _ | k, _ | fields, o⟩
  · simp [WrittenColumn.flaws] at h
  · rw [WrittenColumn.flaws, List.map_eq_nil_iff] at h
    exact .inr ⟨n, fields, o, rfl, h⟩
  · exact .inl ⟨n, k, o, rfl⟩
  · simp [WrittenColumn.flaws] at h

theorem soundLevel_of_tableFlaws_eq_nil {table : List WrittenColumn} (h : tableFlaws table = []) :
    SoundLevel table := by
  obtain ⟨hf, hl⟩ := List.append_eq_nil_iff.1 h
  have hn : LevelNamed (table.map WrittenColumn.name) := by
    apply levelFault?_nil_eq_none_iff.1
    rw [levelFault?_eq_head?, List.map_eq_nil_iff.1 hl]
    rfl
  refine ⟨fun c hc => ?_, fun c hc => ?_, hn.2⟩
  · rcases scalar_or_record_of_flaws_eq_nil (flaws_eq_nil_of_mem hf hc) with
      ⟨n, k, o, rfl⟩ | ⟨n, fields, o, rfl, -⟩
    · exact Bool.noConfusion
    · exact Bool.noConfusion
  · exact blank_eq_false_iff.1 (hn.1 _ (List.mem_map_of_mem hc))

theorem sound_of_tableFlaws_eq_nil {table : List WrittenColumn} (h : tableFlaws table = []) :
    Sound table := by
  intro records level hl
  induction hl with
  | top table => exact soundLevel_of_tableFlaws_eq_nil h
  | inside hc hr _ ih =>
    apply ih
    rcases scalar_or_record_of_flaws_eq_nil
      (flaws_eq_nil_of_mem (List.append_eq_nil_iff.1 h).1 hc) with
      ⟨n, k, o, rfl⟩ | ⟨n, fields, o, rfl, hf⟩
    · simp [WrittenColumn.record?] at hr
    · obtain rfl := Option.some.inj hr
      exact hf

theorem tableFlaws_eq_nil_iff {table : List WrittenColumn} : tableFlaws table = [] ↔ Sound table :=
  ⟨sound_of_tableFlaws_eq_nil, tableFlaws_eq_nil_of_sound⟩

theorem exists_ofWritten_iff {table : List WrittenColumn} :
    (∃ s, Schema.ofWritten table = .ok s) ↔ Sound table := by
  rw [← tableFlaws_eq_nil_iff]
  have h := refusedFor_ofWritten table
  cases ho : Schema.ofWritten table with
  | ok s =>
    rw [ho] at h
    exact iff_of_true ⟨s, rfl⟩ h
  | error f =>
    obtain ⟨e, he, -⟩ := h.eq_error_iff.1 ho
    rw [← List.head?_eq_none_iff, he]
    simp

mutual
/-- The column, once the columns of its record have become a schema. -/
def Column.assemble : Column → Except SchemaFault Column
  | .scalar n k o => .ok (.scalar n k o)
  | .record n fs o => do
    let s ← (assembleColumns fs).bind Schema.ofColumns
    return .record n s.columns o

def assembleColumns : List Column → Except SchemaFault (List Column)
  | [] => .ok []
  | c :: r => do
    let c ← c.assemble
    return c :: (← assembleColumns r)
end

/-- The schema with these columns, when every record in them is made a schema of its own first. -/
def Schema.assemble (columns : List Column) : Except SchemaFault Schema :=
  (assembleColumns columns).bind ofColumns

namespace SchemaFault

/-- The same fault, said of the level alone. -/
def atRoot : SchemaFault → SchemaFault
  | emptyName _ => emptyName rootParent
  | duplicate n _ => duplicate n rootParent
  | untyped n => untyped n

theorem atRoot_within (n : String) (f : SchemaFault) : (f.within n).atRoot = f.atRoot := by
  cases f <;> rfl

end SchemaFault

theorem atRoot_of_levelFault? {seen names : List String} {f : SchemaFault}
    (h : levelFault? seen names = some f) : f.atRoot = f := by
  rw [levelFault?_eq_head?] at h
  obtain ⟨flaw, -, rfl⟩ := Option.map_eq_some_iff.1 h
  cases flaw <;> rfl

theorem mapError_ofColumns {cs : List Column} (h : AllFieldsNamed cs) :
    (Schema.ofColumns cs).mapError .atRoot = Schema.ofColumns cs := by
  cases ho : Schema.ofColumns cs with
  | ok s => rfl
  | error f =>
    exact congrArg Except.error (atRoot_of_levelFault? ((Schema.ofColumns_eq_error_iff h).1 ho))

theorem mapError_bind_ofColumns (table : List WrittenColumn) :
    ((toColumns table).bind Schema.ofColumns).mapError .atRoot =
      ((toColumns table).mapError .atRoot).bind Schema.ofColumns := by
  cases hc : toColumns table with
  | error f => rfl
  | ok cs => exact mapError_ofColumns ((toColumns_eq_ok_iff table cs).1 hc).2

mutual
theorem Column.assemble_eq : ∀ c : Column, c.assemble = (toColumn c.written).mapError .atRoot
  | .scalar n k o => by
    rw [Column.written, toColumn]
    rfl
  | .record n fs o => by
    have h : (assembleColumns fs).bind Schema.ofColumns =
        ((toColumns (writtenColumns fs)).bind Schema.ofColumns).mapError .atRoot := by
      rw [assembleColumns_eq fs, mapError_bind_ofColumns]
    rw [Column.assemble, Column.written, toColumn, h]
    cases (toColumns (writtenColumns fs)).bind Schema.ofColumns with
    | ok s => rfl
    | error f => exact congrArg Except.error (f.atRoot_within n).symm

theorem assembleColumns_eq : ∀ cs : List Column,
    assembleColumns cs = (toColumns (writtenColumns cs)).mapError .atRoot
  | [] => rfl
  | c :: r => by
    rw [assembleColumns, writtenColumns, toColumns, c.assemble_eq, assembleColumns_eq r]
    cases toColumn c.written with
    | error f => rfl
    | ok d => cases toColumns (writtenColumns r) <;> rfl
end

theorem Schema.assemble_eq (columns : List Column) :
    Schema.assemble columns = (Schema.ofWritten (writtenColumns columns)).mapError .atRoot := by
  rw [Schema.assemble, Schema.ofWritten, mapError_bind_ofColumns, assembleColumns_eq]

theorem mem_writtenColumns {cs : List Column} {w : WrittenColumn} :
    w ∈ writtenColumns cs ↔ ∃ c ∈ cs, c.written = w := by
  induction cs with
  | nil => simp [writtenColumns]
  | cons c r ih => rw [writtenColumns, List.mem_cons, ih]; simp [eq_comm]

theorem typed_of_level {columns : List Column} {records : List String} {level : List WrittenColumn}
    (h : Level (writtenColumns columns) records level) : ∀ c ∈ level, c.Typed := by
  generalize ht : writtenColumns columns = table at h
  induction h generalizing columns with
  | top table =>
    intro w hw
    rw [← ht] at hw
    obtain ⟨c, -, rfl⟩ := mem_writtenColumns.1 hw
    cases c <;> exact Bool.noConfusion
  | inside hc hr _ ih =>
    rw [← ht] at hc
    obtain ⟨c, -, rfl⟩ := mem_writtenColumns.1 hc
    cases c with
    | scalar => simp [Column.written, WrittenColumn.record?] at hr
    | record n fs o => exact ih (Option.some.inj hr)

def AllTyped (table : List WrittenColumn) : Prop :=
  ∀ records level, Level table records level → ∀ c ∈ level, c.Typed

theorem AllTyped.inside {table fields : List WrittenColumn} (h : AllTyped table) {c : WrittenColumn}
    (hc : c ∈ table) (hf : c.record? = some fields) : AllTyped fields :=
  fun _ _ hl => h _ _ (.inside hc hf hl)

mutual
theorem exists_written {table : List WrittenColumn} (h : AllTyped table) :
    ∀ w : WrittenColumn, w ∈ table → ∃ c : Column, c.written = w
  | .mk n (some k) none o, _ => ⟨.scalar n k o, rfl⟩
  | .mk n none (some fields) o, hw => by
    obtain ⟨fs, rfl⟩ := exists_writtenColumns (h.inside hw rfl) fields fun _ hm => hm
    exact ⟨.record n fs o, rfl⟩
  | .mk n none none o, hw => absurd rfl (h _ _ (.top table) _ hw)
  | .mk n (some k) (some fields) o, hw => absurd rfl (h _ _ (.top table) _ hw)

theorem exists_writtenColumns {table : List WrittenColumn} (h : AllTyped table) :
    ∀ ws : List WrittenColumn, (∀ w ∈ ws, w ∈ table) → ∃ cs, writtenColumns cs = ws
  | [], _ => ⟨[], rfl⟩
  | w :: r, hw => by
    obtain ⟨c, rfl⟩ := exists_written h w (hw w List.mem_cons_self)
    obtain ⟨cs, rfl⟩ := exists_writtenColumns h r fun v hv => hw v (List.mem_cons_of_mem _ hv)
    exact ⟨c :: cs, rfl⟩
end

theorem allTyped_iff {table : List WrittenColumn} :
    AllTyped table ↔ ∃ columns, writtenColumns columns = table := by
  constructor
  · exact fun h => exists_writtenColumns h table fun _ hw => hw
  · rintro ⟨columns, rfl⟩ records level hl
    exact typed_of_level hl

/-- A written table becomes a schema exactly when each of its levels is sound, and then it is what
the schema is written as. The trees with one type for each column are the written forms of columns;
put together from the inside out, the columns give the same schema, or the same fault with the root
as its parent. So every level of every schema is sound. -/
theorem valid_by_either_route :
    (∀ table, (∃ s, Schema.ofWritten table = .ok s) ↔ Sound table) ∧
      (∀ table s, Schema.ofWritten table = .ok s ↔ s.written = table) ∧
      (∀ table, AllTyped table ↔ ∃ columns, writtenColumns columns = table) ∧
      (∀ columns, Schema.assemble columns =
        (Schema.ofWritten (writtenColumns columns)).mapError .atRoot) ∧
      ∀ s : Schema, Sound s.written := by
  refine ⟨fun _ => exists_ofWritten_iff, fun _ _ => ofWritten_eq_ok_iff, fun _ => allTyped_iff,
    Schema.assemble_eq, fun s => ?_⟩
  exact exists_ofWritten_iff.1 ⟨s, ofWritten_eq_ok_iff.2 rfl⟩

end Delegation
