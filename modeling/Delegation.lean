import Delegation.Main
import Delegation.Session
import Delegation.Proofs.Annotations
import Delegation.Proofs.ArityWindows
import Delegation.Proofs.AsyncOrders
import Delegation.Proofs.ComparedColumns
import Delegation.Proofs.DocumentedSort
import Delegation.Proofs.ExplicitOrders
import Delegation.Proofs.FormulaText
import Delegation.Proofs.Grammar
import Delegation.Proofs.Histories
import Delegation.Proofs.Insertions
import Delegation.Proofs.LeafOrder
import Delegation.Proofs.Listings
import Delegation.Proofs.PrintedDecisions
import Delegation.Proofs.Rebuilding
import Delegation.Proofs.Registrations
import Delegation.Proofs.Reordering
import Delegation.Proofs.Separation
import Delegation.Proofs.SubSchema
import Delegation.Proofs.Validity
import Delegation.Proofs.WrittenExpr
import Delegation.Proofs.WrittenPaths
import Delegation.Proofs.WrittenSchema
import Delegation.Proofs.Spellings
