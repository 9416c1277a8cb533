import Delegation.Json.Literal

namespace Delegation.Json

/-- One piece of a quoted text: a character, or an escaped UTF-16 code unit. -/
inductive Piece where
  | char (c : Char)
  | unit (n : Nat)
deriving DecidableEq

/-- The characters that pieces spell. A high surrogate needs a low one right after it; the result is
`none` where a surrogate stands alone. -/
def Piece.decode? : List Piece → Option (List Char)
  | [] => some []
  | .char c :: r => (decode? r).map (c :: ·)
  | .unit h :: .unit l :: r =>
    if 0xD800 ≤ h ∧ h ≤ 0xDBFF ∧ 0xDC00 ≤ l ∧ l ≤ 0xDFFF then
      (decode? r).map (Char.ofNat (0x10000 + (h - 0xD800) * 0x400 + (l - 0xDC00)) :: ·)
    else if 0xD800 ≤ h ∧ h ≤ 0xDFFF then none
    else (decode? (.unit l :: r)).map (Char.ofNat h :: ·)
  | .unit h :: r =>
    if 0xD800 ≤ h ∧ h ≤ 0xDFFF then none else (decode? r).map (Char.ofNat h :: ·)

inductive Token where
  | openArray | closeArray | openObject | closeObject | comma | colon
  | null
  | bool (b : Bool)
  | number (l : Literal)
  | string (pieces : List Piece)
deriving DecidableEq

namespace Token

def isBlank (c : Char) : Bool := c == ' ' || c == '\n' || c == '\t' || c == '\r'

def hexValue? (c : Char) : Option Nat :=
  if '0' ≤ c ∧ c ≤ '9' then some (c.toNat - 48)
  else if 'a' ≤ c ∧ c ≤ 'f' then some (c.toNat - 87)
  else if 'A' ≤ c ∧ c ≤ 'F' then some (c.toNat - 55)
  else none

def unit? (a b c d : Char) : Option Nat := do
  let a ← hexValue? a
  let b ← hexValue? b
  let c ← hexValue? c
  let d ← hexValue? d
  return ((a * 16 + b) * 16 + c) * 16 + d

def simpleEscape? : Char → Option Char
  | '"' => some '"'
  | '\\' => some '\\'
  | '/' => some '/'
  | 'b' => some (Char.ofNat 8)
  | 'f' => some (Char.ofNat 12)
  | 'n' => some '\n'
  | 'r' => some '\r'
  | 't' => some '\t'
  | _ => none

def pieces? : List Char → Option (List Piece × List Char)
  | [] => none
  | '"' :: r => some ([], r)
  | '\\' :: 'u' :: a :: b :: c :: d :: r => do
    let n ← unit? a b c d
    let (ps, rest) ← pieces? r
    return (.unit n :: ps, rest)
  | '\\' :: e :: r => do
    let c ← simpleEscape? e
    let (ps, rest) ← pieces? r
    return (.char c :: ps, rest)
  | c :: r =>
    if c.toNat < 32 ∨ c = '\\' then none
    else do
      let (ps, rest) ← pieces? r
      return (.char c :: ps, rest)

def digitsOf (cs : List Char) : List Char := cs.takeWhile Decimal.isDigit

def afterDigits (cs : List Char) : List Char := cs.dropWhile Decimal.isDigit

def fraction? : List Char → Option (List Char × List Char)
  | '.' :: r => if digitsOf r = [] then none else some (digitsOf r, afterDigits r)
  | r => some ([], r)

def exponentDigits? (negative : Bool) (r : List Char) :
    Option (Option (Bool × List Char) × List Char) :=
  if digitsOf r = [] then none else some (some (negative, digitsOf r), afterDigits r)

def exponent? : List Char → Option (Option (Bool × List Char) × List Char)
  | c :: r =>
    if c = 'e' ∨ c = 'E' then
      match r with
      | '+' :: r => exponentDigits? false r
      | '-' :: r => exponentDigits? true r
      | r => exponentDigits? false r
    else some (none, c :: r)
  | [] => some (none, [])

/-- The whole part is zero alone, or digits of which the first is not zero. -/
def whole? : List Char → Option (List Char × List Char)
  | '0' :: r => some (['0'], r)
  | r => if digitsOf r = [] then none else some (digitsOf r, afterDigits r)

def number? (negative : Bool) (cs : List Char) : Option (Literal × List Char) := do
  let (whole, r) ← whole? cs
  let (fraction, r) ← fraction? r
  let (exponent, r) ← exponent? r
  return (⟨negative, whole, fraction, exponent⟩, r)

def next? : List Char → Option (Token × List Char)
  | [] => none
  | '[' :: r => some (openArray, r)
  | ']' :: r => some (closeArray, r)
  | '\x7b' :: r => some (openObject, r)
  | '\x7d' :: r => some (closeObject, r)
  | ',' :: r => some (comma, r)
  | ':' :: r => some (colon, r)
  | 'n' :: 'u' :: 'l' :: 'l' :: r => some (null, r)
  | 't' :: 'r' :: 'u' :: 'e' :: r => some (bool true, r)
  | 'f' :: 'a' :: 'l' :: 's' :: 'e' :: r => some (bool false, r)
  | '"' :: r => (pieces? r).map fun (ps, rest) => (string ps, rest)
  | '-' :: r => (number? true r).map fun (l, rest) => (number l, rest)
  | c :: r =>
    if Decimal.isDigit c then (number? false (c :: r)).map fun (l, rest) => (number l, rest) else none

theorem pieces?_length {cs : List Char} {ps : List Piece} {rest : List Char}
    (h : pieces? cs = some (ps, rest)) : rest.length < cs.length := by
  fun_induction pieces? cs generalizing ps rest with
  | case1 => simp at h
  | case2 r => simp_all
  | case3 a b c d r ih =>
    simp only [Option.bind_eq_bind, Option.bind_eq_some_iff, Option.pure_def, Option.some.injEq] at h
    obtain ⟨n, -, ⟨ps', rest'⟩, h', he⟩ := h
    have := ih h'
    simp_all
    omega
  | case4 e r _ ih =>
    simp only [Option.bind_eq_bind, Option.bind_eq_some_iff, Option.pure_def, Option.some.injEq] at h
    obtain ⟨n, -, ⟨ps', rest'⟩, h', he⟩ := h
    have := ih h'
    simp_all
    omega
  | case5 => simp at h
  | case6 c r _ _ _ _ ih =>
    simp only [Option.bind_eq_bind, Option.bind_eq_some_iff, Option.pure_def, Option.some.injEq] at h
    obtain ⟨⟨ps', rest'⟩, h', he⟩ := h
    have := ih h'
    simp_all
    omega

theorem afterDigits_length (cs : List Char) : (afterDigits cs).length ≤ cs.length :=
  (List.dropWhile_sublist _).length_le

theorem afterDigits_length_lt {cs : List Char} (h : ¬ digitsOf cs = []) :
    (afterDigits cs).length < cs.length := by
  have := congrArg List.length (List.takeWhile_append_dropWhile (p := Decimal.isDigit) (l := cs))
  have := List.length_pos_iff.2 h
  simp only [List.length_append, digitsOf, afterDigits] at *
  omega

theorem whole?_length {cs ds rest : List Char} (h : whole? cs = some (ds, rest)) :
    rest.length < cs.length := by
  unfold whole? at h
  split at h
  · simp_all
  · split at h
    · simp at h
    · next hd =>
      have := afterDigits_length_lt hd
      simp_all

theorem fraction?_length {cs ds rest : List Char} (h : fraction? cs = some (ds, rest)) :
    rest.length ≤ cs.length := by
  unfold fraction? at h
  split at h
  · split at h
    · simp at h
    · next r _ =>
      have := afterDigits_length r
      simp_all
      omega
  · simp_all

theorem exponentDigits?_length {b : Bool} {cs : List Char} {e : Option (Bool × List Char)}
    {rest : List Char} (h : exponentDigits? b cs = some (e, rest)) : rest.length ≤ cs.length := by
  unfold exponentDigits? at h
  split at h
  · simp at h
  · have := afterDigits_length cs
    simp_all

theorem exponent?_length {cs : List Char} {e : Option (Bool × List Char)} {rest : List Char}
    (h : exponent? cs = some (e, rest)) : rest.length ≤ cs.length := by
  unfold exponent? at h
  split at h
  · split at h
    · split at h <;>
      · have := exponentDigits?_length h
        simp
        omega
    · simp_all
  · simp_all

theorem number?_length {b : Bool} {cs : List Char} {l : Literal} {rest : List Char}
    (h : number? b cs = some (l, rest)) : rest.length < cs.length := by
  simp only [number?, Option.bind_eq_bind, Option.bind_eq_some_iff, Option.pure_def,
    Option.some.injEq] at h
  obtain ⟨⟨w, r₁⟩, h₁, ⟨f, r₂⟩, h₂, ⟨e, r₃⟩, h₃, h⟩ := h
  have := whole?_length h₁
  have := fraction?_length h₂
  have := exponent?_length h₃
  simp_all
  omega

theorem next?_length {cs : List Char} {t : Token} {rest : List Char}
    (h : next? cs = some (t, rest)) : rest.length < cs.length := by
  unfold next? at h
  split at h <;> try (simp_all; done)
  all_goals try (simp only [Option.some.injEq, Prod.mk.injEq] at h; obtain ⟨-, rfl⟩ := h; simp; omega)
  · simp only [Option.map_eq_some_iff, Prod.mk.injEq] at h
    obtain ⟨⟨ps, rest'⟩, h', -, rfl⟩ := h
    have := pieces?_length h'
    simp only [List.length_cons] at *
    omega
  · simp only [Option.map_eq_some_iff, Prod.mk.injEq] at h
    obtain ⟨⟨ps, rest'⟩, h', -, rfl⟩ := h
    have := number?_length h'
    simp only [List.length_cons] at *
    omega
  · split at h
    · simp only [Option.map_eq_some_iff, Prod.mk.injEq] at h
      obtain ⟨⟨ps, rest'⟩, h', -, rfl⟩ := h
      exact number?_length h'
    · simp at h

def scan? : List Char → Option (List Token)
  | [] => some []
  | c :: r =>
    if isBlank c then scan? r
    else
      match _h : next? (c :: r) with
      | none => none
      | some (t, rest) => (scan? rest).map (t :: ·)
termination_by cs => cs.length
decreasing_by
  · simp
  · exact next?_length _h

end Token

end Delegation.Json
