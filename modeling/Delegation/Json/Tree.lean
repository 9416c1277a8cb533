import Delegation.Json.Token

namespace Delegation.Json

inductive Tree where
  | null
  | bool (b : Bool)
  | number (l : Literal)
  | string (pieces : List Piece)
  | array (items : List Tree)
  | object (members : List (List Piece × Tree))

namespace Tree

/-- A container that is still open, with what it holds so far in reverse. In an object the value of
`key` is being read. -/
inductive Frame where
  | items (done : List Tree)
  | members (done : List (List Piece × Tree)) (key : List Piece)

inductive Next where
  | value
  | firstItem
  | afterItem (done : List Tree)
  | firstKey
  | key (done : List (List Piece × Tree))
  | colon (done : List (List Piece × Tree)) (key : List Piece)
  | afterMember (done : List (List Piece × Tree))
  | nothing (read : Tree)

structure State where
  outer : List Frame
  next : Next

/-- A value is complete and goes to the innermost open container. -/
def State.complete (outer : List Frame) (t : Tree) : State :=
  match outer with
  | [] => ⟨[], .nothing t⟩
  | .items done :: outer => ⟨outer, .afterItem (t :: done)⟩
  | .members done key :: outer => ⟨outer, .afterMember ((key, t) :: done)⟩

def State.start? (outer : List Frame) : Token → Option State
  | .openArray => some ⟨outer, .firstItem⟩
  | .openObject => some ⟨outer, .firstKey⟩
  | .null => some (.complete outer .null)
  | .bool b => some (.complete outer (.bool b))
  | .number l => some (.complete outer (.number l))
  | .string ps => some (.complete outer (.string ps))
  | .closeArray | .closeObject | .comma | .colon => none

def State.step? (s : State) (t : Token) : Option State :=
  match s.next, t with
  | .value, t => State.start? s.outer t
  | .firstItem, .closeArray => some (.complete s.outer (.array []))
  | .firstItem, t => State.start? (.items [] :: s.outer) t
  | .afterItem done, .comma => some ⟨.items done :: s.outer, .value⟩
  | .afterItem done, .closeArray => some (.complete s.outer (.array done.reverse))
  | .firstKey, .closeObject => some (.complete s.outer (.object []))
  | .firstKey, .string k => some ⟨s.outer, .colon [] k⟩
  | .key done, .string k => some ⟨s.outer, .colon done k⟩
  | .colon done k, .colon => some ⟨.members done k :: s.outer, .value⟩
  | .afterMember done, .comma => some ⟨s.outer, .key done⟩
  | .afterMember done, .closeObject => some (.complete s.outer (.object done.reverse))
  | _, _ => none

def State.result? (s : State) : Option Tree :=
  match s.next with
  | .nothing t => some t
  | _ => none

def ofTokens? (ts : List Token) : Option Tree :=
  (ts.foldlM State.step? ⟨[], .value⟩).bind State.result?

def parse? (text : String) : Option Tree := (Token.scan? text.toList).bind ofTokens?

end Tree

end Delegation.Json
