import Delegation.Json.Mismatch

namespace Delegation.Json

/-- A mismatch and how many members were met before it. -/
structure Record.Fault where
  position : Nat
  cause : Mismatch

/-- What a record is read from: the fields that are present in the order of the text, and the fault
of an absent one, given its place among the fields and its name. -/
structure Record.Source (κ : Type) where
  present : List (String × κ)
  absent : Nat → String → Mismatch

/-- A reader of the fields `names`; `run` is told how many fields come before them. Of several
faults the one met first in the text is reported, and a missing field only when all that is present
was read. -/
structure Record (κ α : Type) where
  names : List String
  run : Nat → Record.Source κ → Except Record.Fault α

namespace Record
variable {κ α β : Type}

def find? (name : String) : List (String × κ) → Option (Nat × κ)
  | [] => none
  | (k, v) :: r => if k = name then some (0, v) else (find? name r).map fun (p, v) => (p + 1, v)

def field (name : String) (read : κ → Reading α) : Record κ α where
  names := [name]
  run i s :=
    match find? name s.present with
    | some (p, v) => (read v).mapError fun m => ⟨p, m⟩
    | none => .error ⟨s.present.length, s.absent i name⟩

def optional (name : String) (default : α) (read : κ → Reading α) : Record κ α where
  names := [name]
  run _ s :=
    match find? name s.present with
    | some (p, v) => (read v).mapError fun m => ⟨p, m⟩
    | none => .ok default

/-- Of two faults the one met first, and of two absent fields the first. -/
def both (f : Record κ (α → β)) (x : Record κ α) : Record κ β where
  names := f.names ++ x.names
  run i s :=
    match f.run i s, x.run (i + f.names.length) s with
    | .ok g, .ok a => .ok (g a)
    | .ok _, .error e => .error e
    | .error e, .ok _ => .error e
    | .error e, .error e' => .error (if e'.position < e.position then e' else e)

instance : Applicative (Record κ) where
  pure a := ⟨[], fun _ _ => .ok a⟩
  seq f x := both f (x ())

def repeated? (names : List String) : List (String × κ) → Option String
  | [] => none
  | (k, _) :: r =>
    if names.contains k ∧ (r.any fun m => m.1 == k) then some k else repeated? names r

def ofMembers (r : Record κ α) (members : List (String × κ)) : Reading α :=
  match repeated? r.names members with
  | some name => .error (.duplicate name)
  | none => (r.run 0 ⟨members, fun _ name => .missing name⟩).mapError Fault.cause

/-- Too many items are reported with the count that fits when the array was met inside a tagged
value, and without it elsewhere. -/
def ofItems (r : Record κ α) (title : String) (inside : Bool) (items : List κ) : Reading α := do
  let n := r.names.length
  let absent (i : Nat) (_ : String) : Mismatch := .length i (title ++ " with " ++ elements n)
  let a ← (r.run 0 ⟨r.names.zip items, absent⟩).mapError Fault.cause
  if n < items.length then
    let fit := if inside then elements n ++ " in sequence" else "fewer elements in array"
    throw (.length items.length fit)
  return a

def read (r : Record Json α) (title : String) : Json → Reading α
  | .object members => r.ofMembers members
  | .array items => r.ofItems title false items
  | j => .error (.type j title)

end Record

end Delegation.Json
