import Delegation.Direction

namespace Delegation

namespace Direction

def spellings : Direction → List String
  | ascending => ["ascending", "asc"]
  | descending => ["descending", "desc"]

/-- A word counts in any ASCII letter case, but not with blanks around it. -/
def Spelled (d : Direction) (s : String) : Prop := Text.lower s ∈ d.spellings

theorem ofToken?_eq_some_iff {s : String} {d : Direction} : ofToken? s = some d ↔ d.Spelled s := by
  rw [ofToken?, Spelled]
  generalize Text.lower s = t
  by_cases ha : t = "ascending" ∨ t = "asc"
  · rw [if_pos ha]
    rcases ha with rfl | rfl <;> cases d <;> decide
  · rw [if_neg ha]
    by_cases hd : t = "descending" ∨ t = "desc"
    · rw [if_pos hd]
      rcases hd with rfl | rfl <;> cases d <;> decide
    · rw [if_neg hd]
      cases d <;> simp only [spellings, List.mem_cons, List.not_mem_nil, or_false, ha, hd,
        reduceCtorEq]

/-- The expression is itself a word for the direction: a literal, a bare name or a member of the
enumeration of orders. -/
inductive Says : Expr → Direction → Prop
  | text {s d} (h : Spelled d s) : Says (.text s) d
  | name {n d} (h : Spelled d n) : Says (.name n) d
  | member {m d} (h : Spelled d m) : Says (.member (.name enumeration) m) d

/-- Bare names, members and calls may stand for a constant. -/
def mayBeConstant : Expr → Bool
  | .name _ | .member _ _ | .call _ _ => true
  | .text _ | .number _ | .truth _ | .binary _ _ _ => false

/-- The direction that an expression denotes: the one it says, else the one its constant spells. -/
inductive Denotes (env : Environment) (e : Expr) (d : Direction) : Prop
  | said (h : Says e d)
  | constant {s} (hc : mayBeConstant e = true) (hn : ∀ d', ¬ Says e d')
      (hs : env.constant? e = some s) (h : Spelled d s)

def said? : Expr → Option Direction
  | .text s => ofToken? s
  | .name n => ofToken? n
  | .member (.name n) m => if n = enumeration then ofToken? m else none
  | _ => none

theorem said?_eq_some_iff {e : Expr} {d : Direction} : said? e = some d ↔ Says e d := by
  constructor
  · intro h
    unfold said? at h
    split at h
    · exact .text (ofToken?_eq_some_iff.1 h)
    · exact .name (ofToken?_eq_some_iff.1 h)
    · next n m =>
      split at h
      · next hn => exact hn ▸ .member (ofToken?_eq_some_iff.1 h)
      · simp at h
    · simp at h
  · rintro (h | h | h)
    · exact ofToken?_eq_some_iff.2 h
    · exact ofToken?_eq_some_iff.2 h
    · rw [said?, if_pos rfl, ofToken?_eq_some_iff]
      exact h

theorem said?_eq_none_iff {e : Expr} : said? e = none ↔ ∀ d, ¬ Says e d := by
  simp only [Option.eq_none_iff_forall_ne_some, Ne, said?_eq_some_iff]

theorem ofExpr?_eq_or (env : Environment) (e : Expr) :
    ofExpr? env e = (said? e).or (if mayBeConstant e then ofConstant? env e else none) := by
  cases e with
  | member left m => cases left <;> simp [ofExpr?, said?, mayBeConstant]
  | _ => simp [ofExpr?, said?, mayBeConstant]

theorem ofExpr?_eq_some_iff {env : Environment} {e : Expr} {d : Direction} :
    ofExpr? env e = some d ↔ Denotes env e d := by
  rw [ofExpr?_eq_or, Option.or_eq_some_iff, said?_eq_some_iff, said?_eq_none_iff]
  constructor
  · rintro (h | ⟨hn, h⟩)
    · exact .said h
    · obtain ⟨hc, h⟩ := Option.ite_none_right_eq_some.1 h
      obtain ⟨s, hs, hd⟩ := Option.bind_eq_some_iff.1 h
      exact .constant hc hn hs (ofToken?_eq_some_iff.1 hd)
  · rintro (h | @⟨s, hc, hn, hs, h⟩)
    · exact .inl h
    · have hd : ofConstant? env e = some d := by
        rw [ofConstant?, hs]
        exact ofToken?_eq_some_iff.2 h
      exact .inr ⟨hn, (if_pos hc).trans hd⟩

theorem spelled_unique {s : String} {d d' : Direction} (h : d.Spelled s) (h' : d'.Spelled s) :
    d = d' := by
  have hd := ofToken?_eq_some_iff.2 h
  have hd' := ofToken?_eq_some_iff.2 h'
  exact Option.some.inj (hd.symm.trans hd')

theorem denotes_text_iff {env : Environment} {s : String} {d d' : Direction} (h : d.Spelled s) :
    Denotes env (.text s) d' ↔ d' = d := by
  constructor
  · intro hd
    cases hd with
    | said hs =>
      obtain ⟨hs⟩ := hs
      exact spelled_unique hs h
    | constant hc => simp [mayBeConstant] at hc
  · intro hd
    subst hd
    exact .said (.text h)

end Direction

end Delegation
