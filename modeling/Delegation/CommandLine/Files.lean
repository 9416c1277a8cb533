import Delegation.Decimal

namespace Delegation.CommandLine

inductive FileFault where
  /-- The path holds a zero character, so the system is not asked at all. -/
  | zeroInPath
  | system (reason : String) (number : Nat)
  /-- There are bytes, but they are no text. -/
  | notText
  | other (text : String)
deriving DecidableEq

namespace FileFault

def absent : FileFault := system "No such file or directory" 2
def notFolder : FileFault := system "Not a directory" 20
def folder : FileFault := system "Is a directory" 21
def nameTooLong : FileFault := system "File name too long" 36

def message : FileFault → String
  | zeroInPath => "file name contained an unexpected NUL byte"
  | system reason number =>
    reason ++ " (os error " ++ String.ofList (Decimal.digits number) ++ ")"
  | notText => "stream did not contain valid UTF-8"
  | other text => text

end FileFault

abbrev Files := String → Except FileFault String

namespace Files

inductive Place where
  | start
  | above
  | text (s : String)
deriving DecidableEq

/-- The place that a name leads to, in a folder with these texts; a text has nothing below it. -/
def step (texts : List (String × String)) (place : Place) (name : String) : Except FileFault Place :=
  match place with
  | .text _ => .error .notFolder
  | place =>
    if name = "" ∨ name = "." then .ok place
    else if name = ".." then .ok .above
    else if 255 < name.utf8ByteSize then .error .nameTooLong
    else
      match place, texts.lookup name with
      | .start, some s => .ok (.text s)
      | _, _ => .error .absent

def names : List Char → List (List Char)
  | [] => [[]]
  | c :: cs =>
    if c = '/' then [] :: names cs
    else
      match names cs with
      | [] => [[c]]
      | n :: ns => (c :: n) :: ns

/-- The texts of a folder by their paths; a slash in front leads above it. -/
def ofList (texts : List (String × String)) : Files := fun path => do
  if Char.ofNat 0 ∈ path.toList then throw .zeroInPath
  if path = "" then throw .absent
  if 4096 ≤ path.utf8ByteSize then throw .nameTooLong
  let root := if path.toList.head? = some '/' then Place.above else .start
  match ← ((names path.toList).map String.ofList).foldlM (step texts) root with
  | .text s => return s
  | _ => throw .folder

end Files

end Delegation.CommandLine
