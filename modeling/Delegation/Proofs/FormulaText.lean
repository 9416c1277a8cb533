import Delegation.Proofs.Reports

namespace Delegation

/-- What identifiers are made of. Beyond ASCII any character may stand in one. -/
def isWordChar (c : Char) : Bool := c.isAlphanum || c == '_' || decide (128 ≤ c.toNat)

structure IsWord (w : List Char) : Prop where
  nonempty : w ≠ []
  chars : ∀ c ∈ w, isWordChar c = true

/-- A letter of ASCII or an underscore, then further characters of words; but no truth value. -/
structure Identifier (n : String) : Prop where
  first : ∃ c r, n.toList = c :: r ∧ (c.isAlpha = true ∨ c = '_')
  chars : ∀ c ∈ n.toList, isWordChar c = true
  not_true : n ≠ "true"
  not_false : n ≠ "false"

theorem Identifier.isWord {n : String} (h : Identifier n) : IsWord n.toList where
  nonempty := by
    obtain ⟨c, w, he, -⟩ := h.first
    simp [he]
  chars := h.chars

theorem IsWord.exists_first {w : List Char} (h : IsWord w) :
    ∃ c r, w = c :: r ∧ isWordChar c = true := by
  obtain ⟨c, r, rfl⟩ := List.exists_cons_of_ne_nil h.nonempty
  exact ⟨c, r, rfl, h.chars c List.mem_cons_self⟩

/-- Expressions without numbers and operators, all of whose names are identifiers. -/
inductive Expr.Formula : Expr → Prop
  | name {n} (h : Identifier n) : Formula (.name n)
  | member {left right} (hl : Formula left) (hr : Identifier right) : Formula (.member left right)
  | text (s) : Formula (.text s)
  | truth (b) : Formula (.truth b)
  | call {f args} (hf : Identifier f) (ha : ∀ a ∈ args, Formula a) : Formula (.call f args)

def EndsWord (r : List Char) : Prop := ∀ c, r.head? = some c → isWordChar c = false

/-- What may stand right after a part of an expression. -/
def Follows (r : List Char) : Prop := ∀ c, r.head? = some c → c = '.' ∨ c = ',' ∨ c = ')'

/-- What may stand right after a whole expression. -/
def Closes (r : List Char) : Prop := ∀ c, r.head? = some c → c = ',' ∨ c = ')'

section
variable {r r' : List Char}

theorem Closes.follows (h : Closes r) : Follows r := fun c hc => .inr (h c hc)

theorem Follows.endsWord (h : Follows r) : EndsWord r := by
  intro c hc
  rcases h c hc with rfl | rfl | rfl <;> decide

theorem endsWord_parenthesis (r : List Char) : EndsWord ('(' :: r) := by
  intro c hc
  obtain rfl : '(' = c := Option.some.inj hc
  decide

/-- A word reaches as far as it can. -/
theorem word_append_inj {w w' : List Char} (hw : IsWord w) (hw' : IsWord w') (hr : EndsWord r)
    (hr' : EndsWord r') (h : w ++ r = w' ++ r') : w = w' ∧ r = r' := by
  have htake : ∀ {w r : List Char}, IsWord w → EndsWord r →
      (w ++ r).takeWhile isWordChar = w := by
    intro w r hw hr
    rw [List.takeWhile_append_of_pos hw.chars]
    cases r with
    | nil => simp
    | cons c r => simp [hr c rfl]
  have he : w = w' := by rw [← htake hw hr, h, htake hw' hr']
  exact ⟨he, List.append_cancel_left (he ▸ h)⟩

theorem quoteChar_append_inj {c c' : Char} (h : Expr.quoteChar c ++ r = Expr.quoteChar c' ++ r') :
    c = c' ∧ r = r' := by
  simp only [Expr.quoteChar] at h
  split at h <;> split at h <;> grind

theorem head?_of_quoteChar {c : Char} (h : '"' :: r = Expr.quoteChar c ++ r') :
    r.head? = some '"' := by
  rw [Expr.quoteChar] at h
  split at h
  · rw [(List.cons.inj h).2]
    rfl
  · next hc => exact absurd (List.cons.inj h).1.symm hc

/-- The closing quote is the first that no other one follows. -/
theorem quoted_append_inj {s s' : List Char} (hr : Follows r) (hr' : Follows r')
    (h : s.flatMap Expr.quoteChar ++ '"' :: r = s'.flatMap Expr.quoteChar ++ '"' :: r') :
    s = s' ∧ r = r' := by
  have hq : ∀ {r}, Follows r → r.head? ≠ some '"' := by
    intro r hr hq
    rcases hr _ hq with h | h | h <;> exact absurd h (by decide)
  induction s generalizing s' with
  | nil =>
    cases s' with
    | nil => exact ⟨rfl, (List.cons.inj h).2⟩
    | cons c' s' =>
      rw [List.flatMap_cons, List.append_assoc] at h
      exact absurd (head?_of_quoteChar h) (hq hr)
  | cons c s ih =>
    rw [List.flatMap_cons, List.append_assoc] at h
    cases s' with
    | nil => exact absurd (head?_of_quoteChar h.symm) (hq hr')
    | cons c' s' =>
      rw [List.flatMap_cons, List.append_assoc] at h
      obtain ⟨rfl, hrest⟩ := quoteChar_append_inj h
      obtain ⟨rfl, he⟩ := ih hrest
      exact ⟨rfl, he⟩

def pointed (names : List String) : List Char := names.flatMap fun n => '.' :: n.toList

theorem follows_pointed (names : List String) (hr : Closes r) : Follows (pointed names ++ r) := by
  cases names with
  | nil => exact hr.follows
  | cons n names =>
    intro c hc
    exact .inl (Option.some.inj hc).symm

theorem pointed_append_inj {ns ns' : List String} (hn : ∀ n ∈ ns, Identifier n)
    (hn' : ∀ n ∈ ns', Identifier n) (hr : Closes r) (hr' : Closes r')
    (h : pointed ns ++ r = pointed ns' ++ r') : ns = ns' ∧ r = r' := by
  have hpoint : ∀ {n names} {r x : List Char}, Closes r → r ≠ pointed (n :: names) ++ x := by
    rintro n names r x hr rfl
    rcases hr '.' rfl with h | h <;> exact absurd h (by decide)
  induction ns generalizing ns' with
  | nil =>
    cases ns' with
    | nil => exact ⟨rfl, h⟩
    | cons n' ns' => exact absurd h (hpoint hr)
  | cons n ns ih =>
    cases ns' with
    | nil => exact absurd h.symm (hpoint hr')
    | cons n' ns' =>
      obtain ⟨hi, hns⟩ := List.forall_mem_cons.1 hn
      obtain ⟨hi', hns'⟩ := List.forall_mem_cons.1 hn'
      have hw : n.toList ++ (pointed ns ++ r) = n'.toList ++ (pointed ns' ++ r') := by
        simpa [pointed] using h
      obtain ⟨he, h⟩ := word_append_inj hi.isWord hi'.isWord (follows_pointed ns hr).endsWord
        (follows_pointed ns' hr').endsWord hw
      obtain ⟨rfl, rfl⟩ := ih hns hns' h
      exact ⟨by rw [String.toList_injective he], rfl⟩

end

namespace Expr

/-- An expression without the names that follow it after points. -/
def head : Expr → Expr
  | member left _ => left.head
  | e => e

def dots : Expr → List String
  | member left right => left.dots ++ [right]
  | _ => []

theorem render_eq_head_dots (e : Expr) : e.render = e.head.render ++ pointed e.dots := by
  match e with
  | member left right =>
    rw [render, render_eq_head_dots left, head, dots]
    simp [pointed]
  | name _ | text _ | number _ | truth _ | call _ _ | binary _ _ _ => exact (List.append_nil _).symm

theorem foldl_member_head (e : Expr) : e.dots.foldl member e.head = e := by
  match e with
  | member left right => rw [dots, head, List.foldl_append, foldl_member_head left]; rfl
  | name _ | text _ | number _ | truth _ | call _ _ | binary _ _ _ => rfl

theorem Formula.dots {e : Expr} (h : e.Formula) : ∀ n ∈ e.dots, Identifier n := by
  induction h with
  | member _ hr ih =>
    intro n hn
    rcases List.mem_append.1 hn with hn | hn
    · exact ih n hn
    · exact List.mem_singleton.1 hn ▸ hr
  | name | text | truth | call => intro n hn; simp [Expr.dots] at hn

/-- The formulas that are no member of another one. -/
inductive Atom : Expr → Prop
  | name {n} (h : Identifier n) : Atom (.name n)
  | text (s) : Atom (.text s)
  | truth (b) : Atom (.truth b)
  | call {f args} (hf : Identifier f) (ha : ∀ a ∈ args, Formula a) : Atom (.call f args)

theorem Formula.atom_head {e : Expr} (h : e.Formula) : e.head.Atom := by
  induction h with
  | name h => exact .name h
  | member _ _ ih => exact ih
  | text s => exact .text s
  | truth b => exact .truth b
  | call hf ha => exact .call hf ha

/-- The text of the expression, wherever it stands, is the text of no other formula. -/
def HasOwnText (a : Expr) : Prop :=
  ∀ ⦃b : Expr⦄, b.Formula → ∀ ⦃r r'⦄, Closes r → Closes r' → a.render ++ r = b.render ++ r' →
    a = b ∧ r = r'

def HasOwnHead (a : Expr) : Prop :=
  ∀ ⦃b : Expr⦄, b.Atom → ∀ ⦃r r'⦄, Follows r → Follows r' → a.head.render ++ r = b.render ++ r' →
    a.head = b ∧ r = r'

theorem HasOwnHead.hasOwnText {a : Expr} (h : a.HasOwnHead) (ha : a.Formula) : a.HasOwnText := by
  intro b hb r r' hr hr' he
  rw [render_eq_head_dots a, render_eq_head_dots b, List.append_assoc, List.append_assoc] at he
  obtain ⟨hhead, he⟩ := h hb.atom_head (follows_pointed _ hr) (follows_pointed _ hr') he
  obtain ⟨hdots, he⟩ := pointed_append_inj ha.dots hb.dots hr hr' he
  refine ⟨?_, he⟩
  rw [← foldl_member_head a, ← foldl_member_head b, hhead, hdots]

section
variable {b : Expr} {r r' w : List Char}

theorem isWord_truth (t : Bool) : IsWord (truth t).render where
  nonempty := by cases t <;> decide
  chars := List.all_eq_true.1 (by cases t <;> rfl)

theorem Atom.exists_first (hb : b.Atom) :
    ∃ c w, b.render = c :: w ∧ (isWordChar c = true ∨ c = '"') := by
  cases hb with
  | name hi =>
    obtain ⟨c, w, he, hc⟩ := hi.isWord.exists_first
    exact ⟨c, w, he, .inl hc⟩
  | text s => exact ⟨_, _, rfl, .inr rfl⟩
  | truth t =>
    obtain ⟨c, w, he, hc⟩ := (isWord_truth t).exists_first
    exact ⟨c, w, he, .inl hc⟩
  | call hi ha =>
    obtain ⟨c, w, he, hc⟩ := hi.isWord.exists_first
    exact ⟨c, _, by rw [render, he]; rfl, .inl hc⟩

theorem ne_quote_of_isWord (hw : IsWord w) : w ++ r ≠ '"' :: r' := by
  obtain ⟨c, w, rfl, hc⟩ := hw.exists_first
  intro h
  obtain rfl : c = '"' := (List.cons.inj h).1
  exact absurd hc (by decide)

theorem render_call_append (f : String) (args : List Expr) (r : List Char) :
    (call f args).render ++ r = f.toList ++ '(' :: (renderArgs args ++ ')' :: r) := by
  simp [render]

theorem Atom.of_word (hb : b.Atom) (hw : IsWord w) (hr : Follows r) (hr' : Follows r')
    (h : w ++ r = b.render ++ r') :
    ((∃ n, b = .name n ∧ n.toList = w) ∨ ∃ t, b = .truth t ∧ (Expr.truth t).render = w) ∧
      r = r' := by
  cases hb with
  | @name n hi =>
    obtain ⟨rfl, he⟩ := word_append_inj hw hi.isWord hr.endsWord hr'.endsWord h
    exact ⟨.inl ⟨n, rfl, rfl⟩, he⟩
  | truth t =>
    obtain ⟨rfl, he⟩ := word_append_inj hw (isWord_truth t) hr.endsWord hr'.endsWord h
    exact ⟨.inr ⟨t, rfl, rfl⟩, he⟩
  | text s => exact absurd h (ne_quote_of_isWord hw)
  | @call f args hi ha =>
    rw [render_call_append] at h
    obtain ⟨-, rfl⟩ := word_append_inj hw hi.isWord hr.endsWord (endsWord_parenthesis _) h
    rcases hr _ rfl with h | h | h <;> exact absurd h (by decide)

theorem Atom.ne_word (hb : b.Atom) (hn : ∀ n, b ≠ .name n) (ht : ∀ t, b ≠ .truth t) (hw : IsWord w)
    (hr : Follows r) (hr' : Follows r') : b.render ++ r ≠ w ++ r' := by
  intro h
  obtain ⟨⟨n, he, -⟩ | ⟨t, he, -⟩, -⟩ := hb.of_word hw hr' hr h.symm
  · exact hn n he
  · exact ht t he

end

def later (args : List Expr) : List Char := args.flatMap fun a => ',' :: ' ' :: a.render

theorem renderArgs_cons (a : Expr) (args : List Expr) :
    renderArgs (a :: args) = a.render ++ later args := by
  induction args generalizing a with
  | nil => exact (List.append_nil _).symm
  | cons b args ih => rw [renderArgs, ih]; rfl

theorem closes_later (args : List Expr) (r : List Char) : Closes (later args ++ ')' :: r) := by
  intro c hc
  cases args with
  | nil => exact .inr (Option.some.inj hc).symm
  | cons a args => exact .inl (Option.some.inj hc).symm

section
variable {args args' : List Expr} {r r' : List Char}

theorem later_append_inj (h : ∀ a ∈ args, a.HasOwnText) (h' : ∀ a ∈ args', a.Formula)
    (he : later args ++ ')' :: r = later args' ++ ')' :: r') : args = args' ∧ r = r' := by
  induction args generalizing args' with
  | nil =>
    cases args' with
    | nil => exact ⟨rfl, (List.cons.inj he).2⟩
    | cons b args' => simp [later] at he
  | cons a args ih =>
    cases args' with
    | nil => simp [later] at he
    | cons b args' =>
      obtain ⟨ha, hargs⟩ := List.forall_mem_cons.1 h
      obtain ⟨hb, hargs'⟩ := List.forall_mem_cons.1 h'
      have hab : a.render ++ (later args ++ ')' :: r) = b.render ++ (later args' ++ ')' :: r') := by
        simpa [later] using he
      obtain ⟨rfl, hrest⟩ := ha hb (closes_later args r) (closes_later args' r') hab
      obtain ⟨rfl, hr⟩ := ih hargs hargs' hrest
      exact ⟨rfl, hr⟩

theorem Formula.not_closes {e : Expr} (h : e.Formula) (r : List Char) : ¬ Closes (e.render ++ r) := by
  obtain ⟨c, w, he, hc⟩ := h.atom_head.exists_first
  intro hclosed
  rw [render_eq_head_dots, he] at hclosed
  rcases hclosed c rfl with rfl | rfl <;> simp [isWordChar] at hc

theorem renderArgs_append_inj (h : ∀ a ∈ args, a.HasOwnText) (hf : ∀ a ∈ args, a.Formula)
    (h' : ∀ a ∈ args', a.Formula)
    (he : renderArgs args ++ ')' :: r = renderArgs args' ++ ')' :: r') : args = args' ∧ r = r' := by
  have hclosed : ∀ {b : Expr} {args r r'}, b.Formula → ')' :: r ≠ renderArgs (b :: args) ++ r' := by
    intro b args r r' hb he
    rw [renderArgs_cons, List.append_assoc] at he
    exact hb.not_closes _ (he ▸ closes_later [] r)
  cases args with
  | nil =>
    cases args' with
    | nil => exact ⟨rfl, (List.cons.inj he).2⟩
    | cons b args' => exact absurd he (hclosed (h' b List.mem_cons_self))
  | cons a args =>
    cases args' with
    | nil => exact absurd he.symm (hclosed (hf a List.mem_cons_self))
    | cons b args' =>
      obtain ⟨ha, hargs⟩ := List.forall_mem_cons.1 h
      obtain ⟨hb, hargs'⟩ := List.forall_mem_cons.1 h'
      rw [renderArgs_cons, renderArgs_cons, List.append_assoc, List.append_assoc] at he
      obtain ⟨rfl, hrest⟩ := ha hb (closes_later args r) (closes_later args' r') he
      obtain ⟨rfl, hr⟩ := later_append_inj hargs hargs' hrest
      exact ⟨rfl, hr⟩

end

section
variable {f n s : String} {args : List Expr}

theorem hasOwnHead_name (hn : Identifier n) : HasOwnHead (name n) := by
  intro b hb r r' hr hr' h
  obtain ⟨⟨m, rfl, he⟩ | ⟨t, rfl, he⟩, hrest⟩ := hb.of_word hn.isWord hr hr' h
  · exact ⟨congrArg name (String.toList_injective he).symm, hrest⟩
  · -- the truth values are no identifiers
    cases t
    · exact absurd (String.toList_injective he).symm hn.not_false
    · exact absurd (String.toList_injective he).symm hn.not_true

theorem hasOwnHead_truth (t : Bool) : HasOwnHead (truth t) := by
  intro b hb r r' hr hr' h
  cases hb with
  | truth u =>
    obtain ⟨he, hrest⟩ := word_append_inj (isWord_truth t) (isWord_truth u) hr.endsWord hr'.endsWord h
    refine ⟨?_, hrest⟩
    cases t <;> cases u <;> first | rfl | exact absurd he (by decide)
  | name hm =>
    obtain ⟨he, -⟩ := hasOwnHead_name hm (.truth t) hr' hr h.symm
    exact absurd he nofun
  | text s => exact absurd h (ne_quote_of_isWord (isWord_truth t))
  | call hf ha => exact absurd h.symm ((Atom.call hf ha).ne_word nofun nofun (isWord_truth t) hr' hr)

theorem hasOwnHead_text (s : String) : HasOwnHead (text s) := by
  intro b hb r r' hr hr' h
  cases hb with
  | text s' =>
    have hq : s.toList.flatMap quoteChar ++ '"' :: r = s'.toList.flatMap quoteChar ++ '"' :: r' := by
      simpa [head, render] using h
    obtain ⟨he, hrest⟩ := quoted_append_inj hr hr' hq
    exact ⟨congrArg text (String.toList_injective he), hrest⟩
  | name hm => exact absurd h.symm (ne_quote_of_isWord hm.isWord)
  | truth t => exact absurd h.symm (ne_quote_of_isWord (isWord_truth t))
  | call hf ha =>
    rw [render_call_append] at h
    exact absurd h.symm (ne_quote_of_isWord hf.isWord)

theorem hasOwnHead_call (hf : Identifier f) (ha : ∀ a ∈ args, a.Formula)
    (h : ∀ a ∈ args, a.HasOwnText) : HasOwnHead (call f args) := by
  intro b hb r r' hr hr' he
  have hcall : (call f args).Atom := .call hf ha
  change (call f args).render ++ r = b.render ++ r' at he
  cases hb with
  | @call g args' hg hargs' =>
    rw [render_call_append, render_call_append] at he
    obtain ⟨hfg, hrest⟩ := word_append_inj hf.isWord hg.isWord (endsWord_parenthesis _)
      (endsWord_parenthesis _) he
    obtain ⟨rfl, hr⟩ := renderArgs_append_inj h ha hargs' (List.cons.inj hrest).2
    exact ⟨congrArg (call · args) (String.toList_injective hfg), hr⟩
  | name hm => exact absurd he (hcall.ne_word nofun nofun hm.isWord hr hr')
  | truth t => exact absurd he (hcall.ne_word nofun nofun (isWord_truth t) hr hr')
  | text s =>
    rw [render_call_append] at he
    exact absurd he (ne_quote_of_isWord hf.isWord)

end

theorem Formula.hasOwnHead {a : Expr} (h : a.Formula) : a.HasOwnHead := by
  induction h with
  | name hn => exact hasOwnHead_name hn
  | member _ _ ih => exact ih
  | text s => exact hasOwnHead_text s
  | truth t => exact hasOwnHead_truth t
  | call hf ha ih => exact hasOwnHead_call hf ha fun a hm => (ih a hm).hasOwnText (ha a hm)

theorem Formula.toText_inj {a b : Expr} (ha : a.Formula) (hb : b.Formula)
    (h : a.toText = b.toText) : a = b := by
  have hnil : Closes [] := fun c hc => by simp at hc
  have he : a.render ++ [] = b.render ++ [] := by rw [String.ofList_injective h]
  exact (ha.hasOwnHead.hasOwnText ha hb hnil hnil he).1

end Expr

namespace Catalog
variable {cx : Context} {call : Call} {d : Decision}

theorem sortArity_of_decide (h : builtins.decide cx call = .ok d) : call.SortArity := by
  obtain ⟨function, args⟩ := call
  rintro rfl
  by_cases ha : Function.sort.acceptsArity args.length = true
  · obtain ⟨hl, hl'⟩ := (Bool.and_eq_true _ _).mp ha
    have hleast : 2 ≤ args.length := of_decide_eq_true hl
    have hmost : args.length ≤ 3 := of_decide_eq_true hl'
    change args.length = 2 ∨ args.length = 3
    omega
  · have he : builtins.decide cx ⟨"Sort", args⟩ = .error (.arity "Sort" args.length 2 3) := if_neg ha
    simp [he] at h

theorem exists_blamed (h : builtins.decide cx call = .ok d) {e : Event} (he : e ∈ d.events) :
    ∃ blamed, call.args[e.status.position]? = some blamed ∧ e.node = blamed.toText := by
  obtain ⟨d', hd, ha⟩ := decide_answered cx (sortArity_of_decide h)
  obtain rfl : d = d' := Except.ok.inj (h.symm.trans hd)
  generalize d.delegable = answer at ha
  generalize d.events = events at ha he
  cases ha with
  | accepted => simp at he
  | refused _ hb =>
    obtain rfl := List.mem_singleton.1 he
    exact hb.node
  | unknown => simp at he

end Catalog

/-- Formulas with the same text are the same, whatever characters stand in their quoted texts. So
two events with the same text are about the same argument, even if they come of different calls that
were decided in different contexts. -/
theorem text_identifies :
    (∀ a b : Expr, a.Formula → b.Formula → a.toText = b.toText → a = b) ∧
      ∀ cx cx' call call' d d', Catalog.builtins.decide cx call = .ok d →
        Catalog.builtins.decide cx' call' = .ok d' →
        (∀ a ∈ call.args, a.Formula) → (∀ a ∈ call'.args, a.Formula) →
        ∀ e ∈ d.events, ∀ e' ∈ d'.events, e.node = e'.node →
          ∃ blamed, call.args[e.status.position]? = some blamed ∧
            call'.args[e'.status.position]? = some blamed := by
  refine ⟨fun a b => Expr.Formula.toText_inj, ?_⟩
  intro cx cx' call call' d d' hd hd' hf hf' e he e' he' hnode
  obtain ⟨blamed, hb, ht⟩ := Catalog.exists_blamed hd he
  obtain ⟨blamed', hb', ht'⟩ := Catalog.exists_blamed hd' he'
  have hsame : blamed = blamed' := by
    apply (hf _ (List.mem_of_getElem? hb)).toText_inj (hf' _ (List.mem_of_getElem? hb'))
    rw [← ht, ← ht', hnode]
  exact ⟨blamed, hb, hsame ▸ hb'⟩

/-- A quoted text with a comma, a quote and a parenthesis in it, as the argument of a call before a
point. -/
def quotedOrder : Expr := .member (.call "f" [.text "a\", (b", .truth true]) "c"

def splitOrder : Expr := .member (.call "f" [.text "a", .text " (b", .truth true]) "c"

theorem text_identifies_quoted :
    quotedOrder.Formula ∧ splitOrder.Formula ∧ quotedOrder.toText ≠ splitOrder.toText ∧
      ∃ e e', Catalog.builtins.decide SortRule.ascendingContext
          ⟨"Sort", [.name "T", .name "Amount", quotedOrder]⟩ = .ok ⟨false, [e]⟩ ∧
        Catalog.builtins.decide SortRule.ascendingContext
          ⟨"Sort", [.name "T", .name "Price", quotedOrder]⟩ = .ok ⟨false, [e']⟩ ∧
        e.node = e'.node ∧
        ∃ blamed, [Expr.name "T", .name "Amount", quotedOrder][e.status.position]? = some blamed ∧
          [Expr.name "T", .name "Price", quotedOrder][e'.status.position]? = some blamed := by
  have hid : ∀ n ∈ ["f", "c", "T", "Amount", "Price"], Identifier n := by
    intro n hn
    simp only [List.mem_cons, List.not_mem_nil, or_false] at hn
    rcases hn with rfl | rfl | rfl | rfl | rfl <;>
      exact ⟨⟨_, _, rfl, .inl (by decide)⟩, List.all_eq_true.1 rfl, by decide, by decide⟩
  have hf : Identifier "f" := hid _ (by decide)
  have hc : Identifier "c" := hid _ (by decide)
  have hq : quotedOrder.Formula := by
    refine .member (.call hf ?_) hc
    simp [Expr.Formula.text, Expr.Formula.truth]
  have hs : splitOrder.Formula := by
    refine .member (.call hf ?_) hc
    simp [Expr.Formula.text, Expr.Formula.truth]
  have hargs : ∀ n ∈ ["f", "c", "T", "Amount", "Price"], ∀ a ∈ [Expr.name "T", .name n, quotedOrder],
      a.Formula := by
    intro n hn
    simp [Expr.Formula.name (hid n hn), Expr.Formula.name (hid "T" (by decide)), hq]
  obtain ⟨htext, hevents⟩ := text_identifies
  refine ⟨hq, hs, fun h => ?_, SortRule.event "Sort" .sortOrderNotSupportedByColumn quotedOrder true,
    SortRule.event "Sort" .sortOrderNotSupportedByColumn quotedOrder true, rfl, rfl, rfl, ?_⟩
  · have he := htext _ _ hq hs h
    simp [quotedOrder, splitOrder] at he
  · exact hevents SortRule.ascendingContext SortRule.ascendingContext
      ⟨"Sort", [.name "T", .name "Amount", quotedOrder]⟩
      ⟨"Sort", [.name "T", .name "Price", quotedOrder]⟩ _ _ rfl rfl (hargs "Amount" (by decide))
      (hargs "Price" (by decide)) _ (List.mem_singleton_self _) _ (List.mem_singleton_self _) rfl

end Delegation
