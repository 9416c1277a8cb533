import Delegation.Proofs.Registrations
import Delegation.Proofs.SortRule
import Delegation.Session
import Mathlib.Data.List.Nodup

namespace Delegation

def Function.Excludes (f : Function) (call : Call) : Prop :=
  call.args.length < f.least ∨ f.most < call.args.length

/-- Every call with a count in the window gets an answer. -/
def Function.Answers (f : Function) : Prop :=
  ∀ cx call, ¬ f.Excludes call → ∃ d, f.check cx f.name f.required call = .ok d

/-- The check of `Sort` is only given to functions with at least two arguments. -/
def Function.LeavesRoom (f : Function) : Prop := f.check = Decision.sort → 2 ≤ f.least

theorem Function.not_acceptsArity_iff {f : Function} {call : Call} :
    f.acceptsArity call.args.length = false ↔ f.Excludes call := by
  rw [acceptsArity, Bool.and_eq_false_iff, decide_eq_false_iff_not, decide_eq_false_iff_not,
    Nat.not_le, Nat.not_le, Excludes]

theorem Decision.exists_sort_eq_ok (cx : Context) (function : String) (required : Capabilities)
    {call : Call} (h : 2 ≤ call.args.length) :
    ∃ d, sort cx function required call = .ok d := by
  obtain ⟨callee, args⟩ := call
  match args, h with
  | source :: value :: orders, _ =>
    obtain ⟨d, hd, -⟩ := SortRule.sort_delegable_iff cx function required callee source value orders
    exact ⟨d, hd⟩

theorem Function.LeavesRoom.answers {f : Function} (h : f.LeavesRoom) (hs : f.check = Decision.sort) :
    f.Answers := by
  intro cx call hw
  rw [hs]
  exact Decision.exists_sort_eq_ok cx _ _
    ((h hs).trans (Nat.not_lt.1 fun hl => hw (.inl hl)))

theorem Function.sort_leavesRoom : Function.sort.LeavesRoom := fun _ => Nat.le_refl 2

namespace Catalog

def entry (f : Function) : String × Function := (f.name, f)

theorem lookup_map_entry (fs : List Function) (name : String) :
    (fs.map entry).lookup name = fs.find? (·.name == name) := by
  induction fs with
  | nil => rfl
  | cons f r ih =>
    rw [List.map_cons, entry, SortedMap.lookup_cons_ite, ih, List.find?_cons]
    by_cases h : name = f.name
    · simp [h]
    · have hb : (f.name == name) = false := by simpa using Ne.symm h
      simp [h, hb]

theorem map_entry_putList (f : Function) (fs : List Function) :
    (putList f fs).map entry = SectionTable.putList f.name f (fs.map entry) := by
  induction fs with
  | nil => rfl
  | cons g r ih =>
    rw [putList, List.map_cons, SectionTable.putList, ← ih, entry]
    split <;> rfl

def registerAll (c : Catalog) (fs : List Function) : Catalog := fs.foldl register c

/-- The catalogs that registrations start from, with the functions registered before. -/
inductive Initial : Catalog → List Function → Prop
  | empty : Initial empty []
  | builtins : Initial builtins [.sort]

open SectionTable (ListsLast)

theorem listsLast_registerAll {c : Catalog} {history : List Function}
    (h : ListsLast (history.map entry) (c.functions.map entry)) (fs : List Function) :
    ListsLast ((history ++ fs).map entry) ((c.registerAll fs).functions.map entry) := by
  have hs : (c.registerAll fs).functions.map entry =
      (fs.map entry).foldl (fun l e => SectionTable.putList e.1 e.2 l) (c.functions.map entry) := by
    rw [registerAll, List.foldl_map]
    exact (List.foldl_hom (fun c : Catalog => c.functions.map entry)
      fun c f => (map_entry_putList f c.functions).symm).symm
  rw [hs, List.map_append]
  exact h.putAll (fs.map entry)

theorem Initial.listsLast {c : Catalog} {first : List Function} (h : Initial c first) :
    ListsLast (first.map entry) (c.functions.map entry) := by
  cases h with
  | empty => exact SectionTable.listsLast_nil
  | builtins => exact @listsLast_registerAll Catalog.empty [] SectionTable.listsLast_nil [.sort]

section
variable {c : Catalog} {history : List Function}

theorem names_of_listsLast (h : ListsLast (history.map entry) (c.functions.map entry)) :
    c.names = (history.map Function.name).eraseDups ∧ c.names.Nodup := by
  have hn : ∀ fs : List Function, (fs.map entry).map Prod.fst = fs.map Function.name :=
    fun fs => List.map_map
  rw [names, ← hn, ← hn]
  exact ⟨h.keys, h.distinct⟩

theorem find?_eq_some_iff (h : c.names.Nodup) {name : String} {f : Function} :
    c.find? name = some f ↔ f ∈ c.functions ∧ f.name = name :=
  find?_key_eq_some_iff fun _ ha _ hb => List.inj_on_of_nodup_map h ha hb

theorem mem_map_entry_iff {fs : List Function} {name : String} {f : Function} :
    (name, f) ∈ fs.map entry ↔ f ∈ fs ∧ f.name = name := by
  simp only [List.mem_map, entry, Prod.mk.injEq]
  constructor
  · rintro ⟨g, hg, hn, rfl⟩
    exact ⟨hg, hn⟩
  · rintro ⟨hf, hn⟩
    exact ⟨f, hf, hn, rfl⟩

theorem find?_of_listsLast (h : ListsLast (history.map entry) (c.functions.map entry))
    (name : String) : c.find? name = history.reverse.find? (·.name == name) := by
  apply Option.ext
  intro f
  rw [find?_eq_some_iff (names_of_listsLast h).2, ← mem_map_entry_iff, h.bound, ← List.map_reverse,
    lookup_map_entry]

theorem mem_of_listsLast (h : ListsLast (history.map entry) (c.functions.map entry)) {f : Function}
    (hf : f ∈ c.functions) : f ∈ history := by
  have hl := (h.bound f.name f).1 (List.mem_map_of_mem hf)
  rw [← List.map_reverse, lookup_map_entry] at hl
  exact List.mem_reverse.1 (List.mem_of_find?_eq_some hl)

end

section
variable {c : Catalog} {sink : List Event} {cx : Context} {call : Call} {m : Misuse}

theorem decide_of_excludes {f : Function} (hf : c.find? call.function = some f)
    (hw : f.Excludes call) :
    c.decide cx call = .error (.arity f.name call.args.length f.least f.most) := by
  rw [decide, hf]
  simp only [Function.not_acceptsArity_iff.2 hw, if_neg Bool.false_ne_true]

theorem decide_of_not_excludes {f : Function} (hf : c.find? call.function = some f)
    (hw : ¬ f.Excludes call) : c.decide cx call = f.check cx f.name f.required call := by
  have ha : f.acceptsArity call.args.length = true := by
    rwa [← Bool.not_eq_false, Function.not_acceptsArity_iff]
  rw [decide, hf]
  exact if_pos ha

theorem decideInto_eq_error_iff :
    c.decideInto sink cx call = .error m ↔ c.decide cx call = .error m := by
  rw [decideInto]
  cases c.decide cx call <;> simp [bind, Except.bind, pure, Except.pure]

theorem decide_eq_error_iff : c.decide cx call = .error m ↔
    ∃ f, c.find? call.function = some f ∧
      (f.Excludes call ∧ m = .arity f.name call.args.length f.least f.most ∨
        ¬ f.Excludes call ∧ f.check cx f.name f.required call = .error m) := by
  cases hf : c.find? call.function with
  | none => simp [decide, hf]
  | some f =>
    by_cases hw : f.Excludes call
    · simp [decide_of_excludes hf hw, hw, eq_comm]
    · simp [decide_of_not_excludes hf hw, hw]

end

theorem forall_mem_registerAll {c : Catalog} {first fs : List Function} (h : Initial c first)
    {p : Function → Prop} (hsort : p .sort) (hp : ∀ f ∈ fs, p f) :
    ∀ f ∈ (c.registerAll fs).functions, p f := by
  intro f hf
  rcases List.mem_append.1 (mem_of_listsLast (listsLast_registerAll h.listsLast fs) hf) with hf | hf
  · cases h with
    | empty => simp at hf
    | builtins => rwa [List.mem_singleton.1 hf]
  · exact hp f hf

section
variable {c : Catalog} {sink : List Event} {cx : Context} {call : Call}

theorem decideInto_eq_error_iff_of_leavesRoom (h : ∀ f ∈ c.functions, f.LeavesRoom) {m : Misuse} :
    c.decideInto sink cx call = .error m ↔
      ∃ f, c.find? call.function = some f ∧
        (f.Excludes call ∧ m = .arity f.name call.args.length f.least f.most ∨
          ¬ f.Excludes call ∧ f.check ≠ Decision.sort ∧
            f.check cx f.name f.required call = .error m) := by
  rw [decideInto_eq_error_iff, decide_eq_error_iff]
  -- the check of `Sort` answers in its window, so an error there is of another check
  refine exists_congr fun f => and_congr_right fun hf =>
    or_congr_right (and_congr_right fun hw => (and_iff_right_of_imp fun he hc => ?_).symm)
  obtain ⟨d, hd⟩ := (h f (List.mem_of_find?_eq_some hf)).answers hc cx call hw
  rw [he] at hd
  nomatch hd

theorem exists_decideInto_eq_error_iff (h : ∀ f ∈ c.functions, f.Answers) :
    (∃ m, c.decideInto sink cx call = .error m) ↔
      ∃ f, c.find? call.function = some f ∧ f.Excludes call := by
  simp only [decideInto_eq_error_iff, decide_eq_error_iff]
  constructor
  · rintro ⟨m, f, hf, ⟨hw, -⟩ | ⟨hw, he⟩⟩
    · exact ⟨f, hf, hw⟩
    · obtain ⟨d, hd⟩ := h f (List.mem_of_find?_eq_some hf) cx call hw
      rw [he] at hd
      nomatch hd
  · rintro ⟨f, hf, hw⟩
    exact ⟨_, f, hf, .inl ⟨hw, rfl⟩⟩

end

end Catalog

theorem Session.next_decide_of_excludes {s : Session} {call : Call} {f : Function}
    (hf : s.catalog.find? call.function = some f) (hw : f.Excludes call) :
    s.step (.decide call) =
        .error (.misuse (.arity f.name call.args.length f.least f.most)) ∧
      s.next (.decide call) = s := by
  have hm : s.step (.decide call) =
      .error (.misuse (.arity f.name call.args.length f.least f.most)) := by
    rw [step, run_decide, Catalog.decideInto_eq_error_iff.2 (Catalog.decide_of_excludes hf hw)]
  exact ⟨hm, next_of_refused hm⟩

namespace Catalog

/-- After any registrations, from no functions or from those built in, where the check of `Sort` is
given to functions of at least two arguments only: each name has what was registered last for it,
and the names stand once each in the order of their first registration. The check of `Sort` answers
every call in its window, whatever the greatest count. A call has no decision exactly when its
function is known and its count of arguments is outside of the window, or another check has no
answer; when all other checks answer in their windows, the window alone decides. Without a decision
nothing is reported. -/
theorem decides_within_windows {c : Catalog} {first : List Function} (h : Initial c first)
    (fs : List Function) (hs : ∀ f ∈ fs, f.LeavesRoom) :
    ((∀ name, (c.registerAll fs).find? name = (first ++ fs).reverse.find? (·.name == name)) ∧
      (c.registerAll fs).names = ((first ++ fs).map Function.name).eraseDups ∧
      (c.registerAll fs).names.Nodup) ∧
    (∀ f ∈ (c.registerAll fs).functions, f.check = Decision.sort → f.Answers) ∧
    (∀ sink cx call m, (c.registerAll fs).decideInto sink cx call = .error m ↔
      ∃ f, (c.registerAll fs).find? call.function = some f ∧
        (f.Excludes call ∧ m = .arity f.name call.args.length f.least f.most ∨
          ¬ f.Excludes call ∧ f.check ≠ Decision.sort ∧
            f.check cx f.name f.required call = .error m)) ∧
    ((∀ f ∈ fs, f.check ≠ Decision.sort → f.Answers) → ∀ sink cx call,
      (∃ m, (c.registerAll fs).decideInto sink cx call = .error m) ↔
        ∃ f, (c.registerAll fs).find? call.function = some f ∧ f.Excludes call) ∧
    ∀ s : Session, s.catalog = c.registerAll fs → ∀ call f,
      (c.registerAll fs).find? call.function = some f → f.Excludes call →
        s.step (.decide call) =
            .error (.misuse (.arity f.name call.args.length f.least f.most)) ∧
          s.next (.decide call) = s := by
  have hlists := listsLast_registerAll h.listsLast fs
  have hroom := forall_mem_registerAll h Function.sort_leavesRoom hs
  refine ⟨⟨find?_of_listsLast hlists, names_of_listsLast hlists⟩, fun f hf => (hroom f hf).answers,
    fun sink cx call m => decideInto_eq_error_iff_of_leavesRoom hroom, fun ha sink cx call => ?_,
    fun s hc call f hf hw => Session.next_decide_of_excludes (hc ▸ hf) hw⟩
  have hother := forall_mem_registerAll h (fun hn => absurd rfl hn) ha
  refine exists_decideInto_eq_error_iff fun f hf => ?_
  by_cases hc : f.check = Decision.sort
  · exact (hroom f hf).answers hc
  · exact hother f hf hc

def neverDelegable : Check := fun _ _ _ _ => .ok ⟨false, []⟩

/-- A further function, `Sort` with another window, and its check under another name. -/
def furtherFunctions : List Function :=
  [⟨"Distinct", 2, 2, .singleton .read, neverDelegable⟩,
    ⟨"Sort", 2, 2, .singleton .read, Decision.sort⟩, ⟨"Top", 3, 9, .empty, Decision.sort⟩]

theorem decides_within_windows_further :
    Initial builtins [.sort] ∧ (∀ f ∈ furtherFunctions, f.LeavesRoom) ∧
      (builtins.registerAll furtherFunctions).names = ["Sort", "Distinct", "Top"] ∧
      (∀ sink cx source value order, (builtins.registerAll furtherFunctions).decideInto sink cx
        ⟨"Sort", [source, value, order]⟩ = .error (.arity "Sort" 3 2 2)) ∧
      (∀ sink cx args, ¬ ∃ m, (builtins.registerAll furtherFunctions).decideInto sink cx
        ⟨"sort", args⟩ = .error m) ∧
      ∀ sink cx args, args.length = 9 → ¬ ∃ m,
        (builtins.registerAll furtherFunctions).decideInto sink cx ⟨"Top", args⟩ = .error m := by
  have hs : ∀ f ∈ furtherFunctions, f.LeavesRoom := by
    simp [furtherFunctions, Function.LeavesRoom]
  have ha : ∀ f ∈ furtherFunctions, f.check ≠ Decision.sort → f.Answers := by
    simp [furtherFunctions, Function.Answers, neverDelegable]
  obtain ⟨⟨hfind, hnames, -⟩, -, herror, hpanic, -⟩ :=
    decides_within_windows .builtins furtherFunctions hs
  replace hpanic := hpanic ha
  refine ⟨.builtins, hs, hnames.trans (by decide), fun sink cx source value order => ?_,
    fun sink cx args => ?_, fun sink cx args hl => ?_⟩
  · exact (herror sink cx _ _).2 ⟨_, hfind _, .inl ⟨.inr (Nat.lt_succ_self 2), rfl⟩⟩
  · rw [hpanic, hfind]
    rintro ⟨f, hf, -⟩
    nomatch hf
  · rw [hpanic, hfind]
    rintro ⟨f, hf, hw⟩
    cases hf
    simp [Function.Excludes, hl] at hw

/-- A check that looks for the third argument, whether or not the function's window lets it be
missing. -/
def readsThird : Check := fun _ function _ call =>
  match call.args[2]? with
  | some order => .ok (.refuse .unsupportedSortOrder function order true)
  | none => .error (.argument call.args.length 2)

def ranked : Function := ⟨"Top", 2, 3, .empty, readsThird⟩

def rankedCall : Call := ⟨"Top", [.name "T", .name "Price"]⟩

/-- The windows alone do not decide: within its window a further check may miss an argument. -/
theorem misses_within_window :
    Initial builtins [.sort] ∧ (∀ f ∈ [ranked], f.LeavesRoom) ∧ ∀ sink cx,
      (builtins.registerAll [ranked]).decideInto sink cx rankedCall = .error (.argument 2 2) ∧
        ¬ ∃ f, (builtins.registerAll [ranked]).find? rankedCall.function = some f ∧
          f.Excludes rankedCall := by
  have hs : ∀ f ∈ [ranked], f.LeavesRoom := by
    simp [ranked, Function.LeavesRoom]
  refine ⟨.builtins, hs, fun sink cx => ⟨rfl, ?_⟩⟩
  rintro ⟨f, hf, hw⟩
  obtain rfl : ranked = f := Option.some.inj hf
  simp [Function.Excludes, ranked, rankedCall] at hw

end Catalog

end Delegation
