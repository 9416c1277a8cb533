import Delegation.Json.Reader
import Delegation.Json.Writer
import Mathlib.Tactic.SplitIfs

namespace Delegation.Json

section
open Token

theorem hexValue?_hexDigit {n : Nat} (h : n < 16) : hexValue? (Text.hexDigit n) = some n := by
  revert n
  decide

theorem unit?_hexDigits {n : Nat} (h : n < 32) :
    unit? '0' '0' (Text.hexDigit (n / 16)) (Text.hexDigit (n % 16)) = some n := by
  have hz : hexValue? '0' = some 0 := rfl
  rw [unit?, hz, hexValue?_hexDigit (n := n / 16) (by omega),
    hexValue?_hexDigit (n := n % 16) (by omega)]
  simp only [Option.bind_eq_bind, Option.bind_some, Option.pure_def, Option.some.injEq]
  omega

/-- How a character is written between quotes, and the piece that it is read as. -/
inductive Escape (c : Char) : List Char → Piece → Prop
  | short {e} (h : simpleEscape? e = some c) : Escape c ['\\', e] (.char c)
  | code (h : c.toNat < 32) :
      Escape c ['\\', 'u', '0', '0', Text.hexDigit (c.toNat / 16), Text.hexDigit (c.toNat % 16)]
        (.unit c.toNat)
  | plain (h : ¬ c.toNat < 32) (hq : c ≠ '"') (hb : c ≠ '\\') : Escape c [c] (.char c)

theorem exists_escape (c : Char) : ∃ p, Escape c (escapeChar c) p := by
  have hc {n : Nat} (h : c.toNat = n) : Char.ofNat n = c := by rw [← h, Char.ofNat_toNat]
  rw [escapeChar]
  split_ifs with hq hb hn hr ht h8 h12 hs
  · exact ⟨_, .short (by rw [hq]; rfl)⟩
  · exact ⟨_, .short (by rw [hb]; rfl)⟩
  · exact ⟨_, .short (by rw [hn]; rfl)⟩
  · exact ⟨_, .short (by rw [hr]; rfl)⟩
  · exact ⟨_, .short (by rw [ht]; rfl)⟩
  · exact ⟨_, .short (congrArg some (hc h8))⟩
  · exact ⟨_, .short (congrArg some (hc h12))⟩
  · exact ⟨_, .code hs⟩
  · exact ⟨_, .plain hs hq hb⟩

variable {c : Char} {w : List Char} {p : Piece}

theorem Escape.pieces? (h : Escape c w p) (cs : List Char) :
    Token.pieces? (w ++ cs) = (Token.pieces? cs).map fun (ps, rest) => (p :: ps, rest) := by
  cases h with
  | @short e h =>
    have he : e ≠ 'u' := by
      rintro rfl
      exact absurd h nofun
    simp only [List.cons_append, List.nil_append]
    rw [Token.pieces?.eq_4 _ _ (by grind), h]
    cases Token.pieces? cs <;> rfl
  | code h =>
    simp only [List.cons_append, List.nil_append]
    rw [Token.pieces?, unit?_hexDigits h]
    cases Token.pieces? cs <;> rfl
  | plain h hq hb =>
    simp only [List.cons_append, List.nil_append]
    rw [Token.pieces?.eq_5 _ _ (by grind) (by grind) (by grind), if_neg (by grind)]
    cases Token.pieces? cs <;> rfl

theorem Escape.decode? (h : Escape c w p) (ps : List Piece) :
    Piece.decode? (p :: ps) = (Piece.decode? ps).map (c :: ·) := by
  cases h with
  | short h => rfl
  | plain h hq hb => rfl
  | code h =>
    -- a code below 32 is no surrogate, so that the pieces after it do not matter
    have hs : ¬ (0xD800 ≤ c.toNat ∧ c.toNat ≤ 0xDFFF) := by omega
    rcases ps with - | ⟨_ | l, ps⟩
    · simp only [Piece.decode?, if_neg hs, Char.ofNat_toNat]
    · simp only [Piece.decode?, if_neg hs, Char.ofNat_toNat]
    · rw [Piece.decode?, if_neg (by omega), if_neg hs, Char.ofNat_toNat]

theorem exists_pieces (s : String) : ∃ ps, Piece.decode? ps = some s.toList ∧
    ∀ r, next? (quote s ++ r) = some (.string ps, r) := by
  suffices h : ∀ cs, ∃ ps, Piece.decode? ps = some cs ∧
      ∀ r, Token.pieces? (cs.flatMap escapeChar ++ '"' :: r) = some (ps, r) by
    obtain ⟨ps, hd, hp⟩ := h s.toList
    refine ⟨ps, hd, fun r => ?_⟩
    simp only [quote, List.cons_append, List.append_assoc, List.nil_append]
    rw [next?, hp]
    rfl
  intro cs
  induction cs with
  | nil => exact ⟨[], rfl, fun r => rfl⟩
  | cons c cs ih =>
    obtain ⟨ps, hd, hp⟩ := ih
    obtain ⟨p, he⟩ := exists_escape c
    refine ⟨p :: ps, by rw [he.decode?, hd]; rfl, fun r => ?_⟩
    rw [List.flatMap_cons, List.append_assoc, he.pieces?, hp]
    rfl

end

theorem Token.scan?_of_next? {c : Char} {cs rest : List Char} {t : Token}
    (hc : isBlank c = false) (ht : next? (c :: cs) = some (t, rest)) :
    scan? (c :: cs) = (scan? rest).map (t :: ·) := by
  rw [scan?, hc, if_neg Bool.false_ne_true]
  split
  · next h => simp [ht] at h
  · next h =>
    obtain ⟨rfl, rfl⟩ : t = _ ∧ rest = _ := by simpa [ht] using h
    rfl

namespace Tree

def State.feed? (s : State) (cs : List Char) : Option State :=
  (Token.scan? cs).bind fun ts => ts.foldlM State.step? s

theorem State.feed?_token {s s' : State} {c : Char} {cs rest : List Char} {t : Token}
    (hc : Token.isBlank c = false) (ht : Token.next? (c :: cs) = some (t, rest))
    (hs : s.step? t = some s') : s.feed? (c :: cs) = s'.feed? rest := by
  rw [feed?, feed?, Token.scan?_of_next? hc ht, Option.bind_map]
  refine congrArg _ (funext fun ts => ?_)
  rw [Function.comp_apply, List.foldlM_cons, hs]
  rfl

theorem State.feed?_nil (s : State) : s.feed? [] = some s := by
  rw [feed?, Token.scan?]
  rfl

theorem parse?_ofList (cs : List Char) :
    parse? (String.ofList cs) = (State.feed? ⟨[], .value⟩ cs).bind State.result? := by
  rw [parse?, String.toList_ofList, State.feed?, Option.bind_assoc]
  rfl

/-- A value may come next, and it goes to these containers. -/
def State.Awaits (s : State) (outer : List Frame) : Prop :=
  ∀ t, t ≠ .closeArray → s.step? t = State.start? outer t

theorem awaits_value (outer : List Frame) : State.Awaits ⟨outer, .value⟩ outer :=
  fun _ _ => rfl

theorem awaits_firstItem (outer : List Frame) :
    State.Awaits ⟨outer, .firstItem⟩ (.items [] :: outer) := by
  intro t ht
  cases t <;> first | rfl | exact absurd rfl ht

end Tree

/-- The value has no numbers and at most so many containers around any part of it. -/
inductive Fits : Nat → Json → Prop
  | null {d} : Fits d .null
  | bool {d b} : Fits d (.bool b)
  | string {d s} : Fits d (.string s)
  | array {d items} (h : ∀ j ∈ items, Fits d j) : Fits (d + 1) (.array items)
  | object {d members} (h : ∀ m ∈ members, Fits d m.2) : Fits (d + 1) (.object members)

/-- The text of the value is read as the tree, whatever is around it, and the tree has this value.
-/
structure ReadsBack (d : Nat) (j : Json) (t : Tree) : Prop where
  feed : ∀ {s : Tree.State} {outer} (_ : s.Awaits outer) r,
    s.feed? (j.writeCompact ++ r) = (Tree.State.complete outer t).feed? r
  value : t.value? d = some j

section
open Json.Tree
variable {d : Nat}

theorem exists_readsBack_items {items : List Json} (h : ∀ j ∈ items, ∃ t, ReadsBack d j t) :
    ∃ ts, valueItems? d ts = some items ∧ ∀ outer done r,
      State.feed? ⟨outer, .afterItem done⟩ (writeItems items ++ r) =
        (State.complete outer (.array (done.reverse ++ ts))).feed? r := by
  induction items with
  | nil =>
    refine ⟨[], rfl, fun outer done r => ?_⟩
    rw [List.append_nil]
    exact State.feed?_token rfl rfl rfl
  | cons j items ih =>
    obtain ⟨⟨t, ht⟩, hr⟩ := List.forall_mem_cons.1 h
    obtain ⟨ts, hts, hfeed⟩ := ih hr
    refine ⟨t :: ts, by rw [valueItems?, ht.value, hts]; rfl, fun outer done r => ?_⟩
    rw [writeItems, List.cons_append, List.cons_append, List.append_assoc]
    calc State.feed? ⟨outer, .afterItem done⟩ (',' :: (j.writeCompact ++ (writeItems items ++ r)))
        = State.feed? ⟨.items done :: outer, .value⟩ (j.writeCompact ++ (writeItems items ++ r)) :=
          State.feed?_token rfl rfl rfl
      _ = State.feed? ⟨outer, .afterItem (t :: done)⟩ (writeItems items ++ r) :=
          ht.feed (awaits_value _) _
      _ = _ := by rw [hfeed, List.reverse_cons, List.append_assoc, List.singleton_append]

theorem ReadsBack.feed_member {j : Json} {t : Tree} (ht : ReadsBack d j t) {k : String}
    {ps : List Piece} (hk : ∀ r, Token.next? (quote k ++ r) = some (.string ps, r))
    {s : State} {outer : List Frame} {done : List (List Piece × Tree)}
    (hs : s.step? (.string ps) = some ⟨outer, .colon done ps⟩) (r : List Char) :
    s.feed? (quote k ++ ':' :: (j.writeCompact ++ r)) =
      State.feed? ⟨outer, .afterMember ((ps, t) :: done)⟩ r :=
  calc s.feed? (quote k ++ ':' :: (j.writeCompact ++ r))
      = State.feed? ⟨outer, .colon done ps⟩ (':' :: (j.writeCompact ++ r)) :=
        State.feed?_token rfl (hk _) hs
    _ = State.feed? ⟨.members done ps :: outer, .value⟩ (j.writeCompact ++ r) :=
        State.feed?_token rfl rfl rfl
    _ = _ := ht.feed (awaits_value _) r

theorem exists_readsBack_members {members : List (String × Json)}
    (h : ∀ m ∈ members, ∃ t, ReadsBack d m.2 t) :
    ∃ ts, valueMembers? d ts = some members ∧ ∀ outer done r,
      State.feed? ⟨outer, .afterMember done⟩ (writeMembers members ++ r) =
        (State.complete outer (.object (done.reverse ++ ts))).feed? r := by
  induction members with
  | nil =>
    refine ⟨[], rfl, fun outer done r => ?_⟩
    rw [List.append_nil]
    exact State.feed?_token rfl rfl rfl
  | cons m members ih =>
    obtain ⟨k, j⟩ := m
    obtain ⟨⟨t, ht⟩, hr⟩ := List.forall_mem_cons.1 h
    obtain ⟨ts, hts, hfeed⟩ := ih hr
    obtain ⟨ps, hd, hk⟩ := exists_pieces k
    refine ⟨(ps, t) :: ts, ?_, fun outer done r => ?_⟩
    · rw [valueMembers?, hd, ht.value, hts]
      simp
    · simp only [writeMembers, List.cons_append, List.append_assoc]
      calc State.feed? ⟨outer, .afterMember done⟩
            (',' :: (quote k ++ ':' :: (j.writeCompact ++ (writeMembers members ++ r))))
          = State.feed? ⟨outer, .key done⟩
              (quote k ++ ':' :: (j.writeCompact ++ (writeMembers members ++ r))) :=
            State.feed?_token rfl rfl rfl
        _ = State.feed? ⟨outer, .afterMember ((ps, t) :: done)⟩ (writeMembers members ++ r) :=
            ht.feed_member hk rfl _
        _ = _ := by rw [hfeed, List.reverse_cons, List.append_assoc, List.singleton_append]

theorem Fits.exists_readsBack {j : Json} (h : Fits d j) : ∃ t, ReadsBack d j t := by
  induction h with
  | null =>
    refine ⟨.null, fun hs r => ?_, rfl⟩
    exact State.feed?_token rfl rfl (hs _ nofun)
  | @bool d b =>
    refine ⟨.bool b, fun hs r => ?_, rfl⟩
    cases b <;> exact State.feed?_token rfl rfl (hs _ nofun)
  | @string d s =>
    obtain ⟨ps, hd, hp⟩ := exists_pieces s
    refine ⟨.string ps, fun hs r => ?_, by simp [Tree.value?, hd]⟩
    exact State.feed?_token rfl (hp r) (hs _ nofun)
  | @array d items _ ih =>
    -- what follows the first item closes the bracket, so the empty array is a case of its own
    cases items with
    | nil =>
      refine ⟨.array [], fun {s outer} hs r => ?_, rfl⟩
      calc s.feed? ('[' :: ']' :: r) = State.feed? ⟨outer, .firstItem⟩ (']' :: r) :=
            State.feed?_token rfl rfl (hs _ nofun)
        _ = _ := State.feed?_token rfl rfl rfl
    | cons j items =>
      obtain ⟨⟨t, ht⟩, hr⟩ := List.forall_mem_cons.1 ih
      obtain ⟨ts, hts, hfeed⟩ := exists_readsBack_items hr
      refine ⟨.array (t :: ts), fun {s outer} hs r => ?_, ?_⟩
      · rw [writeCompact, List.cons_append, List.cons_append, List.append_assoc]
        calc s.feed? ('[' :: (j.writeCompact ++ (writeItems items ++ r)))
            = State.feed? ⟨outer, .firstItem⟩ (j.writeCompact ++ (writeItems items ++ r)) :=
              State.feed?_token rfl rfl (hs _ nofun)
          _ = State.feed? ⟨outer, .afterItem [t]⟩ (writeItems items ++ r) :=
              ht.feed (awaits_firstItem _) _
          _ = _ := hfeed ..
      · rw [Tree.value?, valueItems?, ht.value, hts]
        rfl
  | @object d members _ ih =>
    cases members with
    | nil =>
      refine ⟨.object [], fun {s outer} hs r => ?_, rfl⟩
      calc s.feed? ('\x7b' :: '\x7d' :: r) = State.feed? ⟨outer, .firstKey⟩ ('\x7d' :: r) :=
            State.feed?_token rfl rfl (hs _ nofun)
        _ = _ := State.feed?_token rfl rfl rfl
    | cons m members =>
      obtain ⟨k, j⟩ := m
      obtain ⟨⟨t, ht⟩, hr⟩ := List.forall_mem_cons.1 ih
      obtain ⟨ts, hts, hfeed⟩ := exists_readsBack_members hr
      obtain ⟨ps, hd, hk⟩ := exists_pieces k
      refine ⟨.object ((ps, t) :: ts), fun {s outer} hs r => ?_, ?_⟩
      · simp only [writeCompact, List.cons_append, List.append_assoc]
        calc s.feed? ('\x7b' :: (quote k ++ ':' :: (j.writeCompact ++ (writeMembers members ++ r))))
            = State.feed? ⟨outer, .firstKey⟩
                (quote k ++ ':' :: (j.writeCompact ++ (writeMembers members ++ r))) :=
              State.feed?_token rfl rfl (hs _ nofun)
          _ = State.feed? ⟨outer, .afterMember [(ps, t)]⟩ (writeMembers members ++ r) :=
              ht.feed_member hk rfl _
          _ = _ := hfeed ..
      · rw [Tree.value?, valueMembers?, hd, ht.value, hts]
        simp

end

/-- Reading the compact text of a value gives the value. -/
theorem parseRaw?_compact {j : Json} (h : Fits maxDepth j) : parseRaw? j.compact .whole = some j := by
  obtain ⟨t, ht⟩ := h.exists_readsBack
  have hfeed := ht.feed (Tree.awaits_value []) []
  rw [List.append_nil] at hfeed
  have hparse : Tree.parse? j.compact = some t := by
    rw [compact, Tree.parse?_ofList, hfeed, Tree.State.feed?_nil]
    rfl
  rw [parseRaw?, hparse]
  exact ht.value

theorem compact_injective {j k : Json} (hj : Fits maxDepth j) (hk : Fits maxDepth k)
    (h : j.compact = k.compact) : j = k := by
  have hr := parseRaw?_compact hj
  rw [h, parseRaw?_compact hk] at hr
  exact (Option.some.inj hr).symm

end Delegation.Json
