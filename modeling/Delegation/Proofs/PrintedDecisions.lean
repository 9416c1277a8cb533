import Delegation.CommandLine
import Delegation.Proofs.CaseDecisions
import Delegation.Proofs.IndentedText

namespace Delegation

namespace Status

theorem mem_all (s : Status) : s ∈ all := by cases s <;> decide

theorem name_injective {a b : Status} (h : a.name = b.name) : a = b := by
  cases a <;> cases b <;> first | rfl | exact absurd h (by decide)

end Status

namespace Event

theorem toJson_eq (e : Event) : e.toJson = .object (("status", .string e.status.name) ::
    ("function", .string e.function) :: ("node", .string e.node) ::
      e.hint.toList.map fun h => ("hint", .string h.name)) := by
  unfold toJson
  cases e.hint <;> rfl

theorem ofJson_rearranged {g : Json → Json} (hg : Json.Rearranges g) (e : Event) :
    ofJson (g e.toJson) = .ok e := by
  obtain ⟨members, hm, hd, hl⟩ := hg.object
    (("status", .string e.status.name) :: ("function", .string e.function) ::
      ("node", .string e.node) :: e.hint.toList.map fun h => ("hint", .string h.name))
    (by cases e.hint <;> simp)
  rw [toJson_eq, hm]
  refine Json.Record.ofMembers_eq_ok (Json.Record.repeated?_eq_none _ hd) fun absent =>
    Json.Record.run_seq (Json.Record.run_seq (Json.Record.run_seq (Json.Record.run_map
      ?status) ?function) ?node) ?hint
  case status =>
    apply Json.Record.run_field_of_lookup ((hl "status").trans (congrArg some (hg.string _)))
    exact Json.named_name Status.name_injective e.status.mem_all
  case function =>
    exact Json.Record.run_field_of_lookup ((hl "function").trans (congrArg some (hg.string _))) rfl
  case node =>
    exact Json.Record.run_field_of_lookup ((hl "node").trans (congrArg some (hg.string _))) rfl
  case hint =>
    cases h : e.hint with
    | none =>
      have hn : members.lookup "hint" = none := (hl "hint").trans (by rw [h]; rfl)
      exact Json.Record.run_optional_of_lookup_none hn
    | some hint =>
      have hs : members.lookup "hint" = some (.string hint.name) :=
        (hl "hint").trans (by rw [h]; exact congrArg some (hg.string hint.name))
      cases hint
      exact Json.Record.run_optional_of_lookup hs rfl

theorem fits_toJson (d : Nat) (e : Event) : Json.Fits (d + 1) e.toJson := by
  rw [toJson_eq]
  refine .object fun m hm => ?_
  simp only [List.mem_cons, List.mem_map] at hm
  rcases hm with rfl | rfl | rfl | ⟨h, -, rfl⟩ <;> exact .string

end Event

namespace CommandLine

/-- The lines that tell events: one for each event, with one for its hint if it has a hint. -/
inductive EventLines : List Event → List String → Prop
  | nil : EventLines [] []
  | plain {e events text} (h : e.hint = none) (hr : EventLines events text) :
      EventLines (e :: events)
        (("  Rejected: " ++ e.status.name ++ " at " ++ Json.ticked e.node) :: text)
  | hinted {e hint events text} (h : e.hint = some hint) (hr : EventLines events text) :
      EventLines (e :: events)
        (("  Rejected: " ++ e.status.name ++ " at " ++ Json.ticked e.node) ::
          ("    Hint: " ++ hint.message) :: text)

/-- A text shows a decision on a call: as a JSON object that the answer and the events can be read
from, or in lines. -/
inductive Shows (call : Call) (features : Features) (d : Decision) : Bool → String → Prop
  | json {text j} (hj : Json.parseRaw? text .whole = some j)
      (hcall : j.get? "call" = some (.string call.toText))
      (hanswer : j.get? "delegable" = some (.bool d.delegable))
      (hfeatures : j.get? "enhancedDelegation" = some (.bool features.enhancedDelegation))
      (hevents : (j.get? "diagnostics").map (Json.asList Event.ofJson) = some (.ok d.events)) :
      Shows call features d true text
  | lines {text} (h : EventLines d.events text) :
      Shows call features d false (lines ("pushdown sort-check" :: ("  Call: " ++ call.toText) ::
        ("  Delegable: " ++ if d.delegable then "yes" else "no") :: text))

theorem eventLines_flatMap (events : List Event) : EventLines events (events.flatMap eventLines) := by
  induction events with
  | nil => exact .nil
  | cons e events ih =>
    rw [List.flatMap_cons, eventLines]
    cases h : e.hint with
    | none => exact .plain h ih
    | some hint => exact .hinted h ih

theorem fits_decisionJson (call : Call) (features : Features) (d : Decision) :
    Json.Fits Json.maxDepth (decisionJson call features d) := by
  refine .object fun m hm => ?_
  simp only [List.mem_cons, List.not_mem_nil, or_false] at hm
  rcases hm with rfl | rfl | rfl | rfl
  · exact .string
  · exact .bool
  · exact .bool
  · exact .array (List.forall_mem_map.2 fun e _ => e.fits_toJson _)

theorem parseRaw?_jsonReport {j : Json} (h : Json.Fits Json.maxDepth j) :
    Json.parseRaw? (jsonReport j) .whole = some j.canonical := by
  have hl : jsonReport j = j.canonical.indented ++ "\n" := by
    unfold jsonReport lines
    simp [String.join]
  have hb : "\n".toList = ['\n'] := rfl
  rw [hl]
  apply Json.parseRaw?_indented h.canonical
  rw [hb]
  exact List.forall_mem_singleton.2 rfl

theorem shows_decisionReport (json : Bool) (call : Call) (features : Features) (d : Decision) :
    Shows call features d json (decisionReport json call features d) := by
  unfold decisionReport
  cases json with
  | false => exact .lines (eventLines_flatMap d.events)
  | true =>
    rw [if_pos rfl]
    have hg := Json.rearranges_canonical
    obtain ⟨members, hm, -, hl⟩ := hg.object
      [("call", .string call.toText), ("delegable", .bool d.delegable),
        ("enhancedDelegation", .bool features.enhancedDelegation),
        ("diagnostics", .array (d.events.map Event.toJson))] (by simp)
    have hget (name : String) : (decisionJson call features d).canonical.get? name =
        members.lookup name := by
      rw [decisionJson, hm]
      rfl
    refine .json (parseRaw?_jsonReport (fits_decisionJson call features d)) ?_ ?_ ?_ ?_
    · rw [hget]
      exact hl "call"
    · rw [hget]
      exact hl "delegable"
    · rw [hget]
      exact hl "enhancedDelegation"
    · have hd := (hl "diagnostics").trans (congrArg some (hg.array _))
      rw [hget, hd, List.map_map]
      exact congrArg some (Json.asList_map (Event.ofJson_rearranged hg) d.events)

theorem eq_ok_of_toOption {ε α : Type} {x : Except ε α} {a : α} (h : x.toOption = some a) :
    x = .ok a := by
  cases x with
  | error e => cases h
  | ok b => exact congrArg Except.ok (Option.some.inj h)

theorem readFile_eq_ok {α : Type} {files : Files} {label path text : String}
    {parse? : String → Option α} {a : α} (h : files path = .ok text) (ha : parse? text = some a) :
    readFile files label path parse? = .ok a := by
  unfold readFile
  rw [h]
  simp only [ha]

theorem report_sortCheck {files : Files} {path : String} {config : Option String} (json : Bool)
    {c : Case} {settings : Settings}
    (hc : readFile files "sort-check case" path Case.ofText? = .ok c)
    (hs : readSettings files config = .ok settings) :
    report files (.sortCheck path config json) =
      ((c.decide settings.features).mapError .case).map
        (decisionReport json c.call settings.features) := by
  rw [report, hc]
  change Except.bind (readSettings files config) _ = _
  rw [hs]
  rfl

/-- The command on a case file, with any settings and in either form. It ends with code 1 and prints
nothing on exactly the cases that are refused. On all others it ends with code 0 and shows the
answer and the events of the built-in functions' decision, over the one registry that the case
describes and with the names known from the case. The decision itself never finds the call misused.
-/
theorem run_sortCheck {files : Files} {arguments : List String} {path : String}
    {config : Option String} {json : Bool} {c : Case} {settings : Settings}
    (hr : Request.ofArguments arguments = .ok (.sortCheck path config json))
    (hc : readFile files "sort-check case" path Case.ofText? = .ok c)
    (hs : readSettings files config = .ok settings) :
    (((run files arguments).exitCode = 1 ∧ (run files arguments).stdout = "") ↔ c.Refused) ∧
    (¬ c.Refused → (run files arguments).exitCode = 0 ∧
      ∃ s d, Schema.ofJson c.schema = .ok s ∧ (∃ r, c.Holds s r) ∧
        (∀ r, c.Holds s r →
          Catalog.builtins.decide
            ⟨TableScope.environment ⟨c.table, s, c.asyncFunctions, c.constants⟩, r,
              settings.features⟩ c.call = .ok d) ∧
        Shows c.call settings.features d json (run files arguments).stdout) ∧
    ∀ m, c.decide settings.features ≠ .error (.misuse m) := by
  have hrun : run files arguments = answer files (.ok (.sortCheck path config json)) := by
    rw [run, hr]
  rw [hrun, answer, report_sortCheck json hc hs]
  rcases c.decide_cases settings.features with ⟨h, f, hf, hm⟩ | ⟨h, s, r, d, hs, hh, hd, hf⟩
  -- misuse would have a code of its own, but it never comes to that
  · have hcode : (Failure.case f).exitCode = 1 := by
      cases f with
      | misuse m => exact absurd rfl (hm m)
      | _ => rfl
    rw [hf]
    refine ⟨⟨fun _ => h, fun _ => ⟨hcode, rfl⟩⟩, fun hn => absurd h hn, fun m he => ?_⟩
    exact hm m (Except.error.inj he)
  · rw [hf]
    refine ⟨⟨fun hn => absurd hn.1 Nat.zero_ne_one, fun hn => absurd hn h⟩,
      fun _ => ⟨rfl, s, d, hs, ⟨r, hh⟩, ?_, shows_decisionReport json c.call _ d⟩, nofun⟩
    intro r' hh'
    rw [← hh.unique hh']
    exact hd

def descendingFile : Json :=
  .object [("table", .string "T"),
    ("schema", .object [("columns",
      .array [.object [("name", .string "A"), ("kind", .string "number")]])]),
    ("document", .object [("sort",
      .array [.object [("column", .string "A"), ("ascendingOnly", .bool true)]])]),
    ("call", Call.toJson ⟨"Sort", [.name "T", .name "A", .text "desc"]⟩)]

def descendingFiles : Files := fun path =>
  if path = "case.json" then .ok descendingFile.compact else .error .absent

def descendingRefusal : Decision :=
  .refuse .sortOrderNotSupportedByColumn "Sort" (.text "desc") true

theorem run_sortCheck_descending :
    Request.ofArguments ["sort-check", "--case", "case.json", "--json"] =
      .ok (.sortCheck "case.json" none true) ∧
    readSettings descendingFiles none = .ok .default ∧
    ∃ c, readFile descendingFiles "sort-check case" "case.json" Case.ofText? = .ok c ∧
      ¬ c.Refused ∧
      (run descendingFiles ["sort-check", "--case", "case.json", "--json"]).exitCode = 0 ∧
      Shows c.call .default descendingRefusal true
        (run descendingFiles ["sort-check", "--case", "case.json", "--json"]).stdout := by
  have hr : Request.ofArguments ["sort-check", "--case", "case.json", "--json"] =
      .ok (.sortCheck "case.json" none true) := by
    apply eq_ok_of_toOption
    decide +kernel
  have hread : (Case.ofText? descendingFile.compact).any
      (fun c => (c.decide .default).toOption = some descendingRefusal) = true := by
    rw [Case.ofText?, Json.parseRaw?, Json.Tree.parse?, Json.compact, String.toList_ofList]
    decide +kernel
  cases hc : Case.ofText? descendingFile.compact with
  | none => simp [hc] at hread
  | some c =>
    have hdecide : c.decide .default = .ok descendingRefusal := by
      apply eq_ok_of_toOption
      simpa [hc] using hread
    have hfile : readFile descendingFiles "sort-check case" "case.json" Case.ofText? = .ok c :=
      readFile_eq_ok (if_pos rfl) hc
    rcases c.decide_cases .default with ⟨-, f, hf, -⟩ | ⟨hn, s, r, d, hs, hh, hd, hf⟩
    · simp [hf] at hdecide
    · obtain rfl : d = descendingRefusal := Except.ok.inj (hf.symm.trans hdecide)
      obtain ⟨hcode, s', d', hs', -, hall, hshow⟩ := (run_sortCheck hr hfile rfl).2.1 hn
      obtain rfl : s = s' := Except.ok.inj (hs.symm.trans hs')
      obtain rfl : descendingRefusal = d' := Except.ok.inj (hd.symm.trans (hall r hh))
      exact ⟨hr, rfl, c, hfile, hn, hcode, hshow⟩

end CommandLine

end Delegation
