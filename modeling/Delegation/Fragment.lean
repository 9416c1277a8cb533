import Delegation.Grant
import Delegation.Path

namespace Delegation

abbrev Fragment := SortedMap Path Grant

namespace Fragment

/-- A grant for one column, joined with what the column has already. -/
def add (f : Fragment) (p : Path) (g : Grant) : Fragment := SortedMap.place Grant.join p g f

def merge (f g : Fragment) : Fragment := g.entries.foldl (fun f e => f.add e.1 e.2) f

def mergeAll (fs : List Fragment) : Fragment := fs.foldl merge SortedMap.empty

end Fragment

end Delegation
