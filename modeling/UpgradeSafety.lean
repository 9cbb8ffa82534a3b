import UpgradeSafety.Main
import UpgradeSafety.Manifest.Reuse
import UpgradeSafety.Proofs.Compare.AppendOnly
import UpgradeSafety.Proofs.Compare.CarriedOver
import UpgradeSafety.Proofs.Compare.GapFree
import UpgradeSafety.Proofs.Compare.Renames
import UpgradeSafety.Proofs.Compare.RenamedInPlace
import UpgradeSafety.Proofs.Compare.CarriedNames
import UpgradeSafety.Proofs.Compare.Additions
import UpgradeSafety.Proofs.Compare.LastGap
import UpgradeSafety.Proofs.Compare.MemberGap
import UpgradeSafety.Proofs.Alignment.Optimal
import UpgradeSafety.Proofs.Alignment.Diagonal
import UpgradeSafety.Proofs.Compare.Independence
import UpgradeSafety.Proofs.Compare.Relaxation
import UpgradeSafety.Proofs.Manifest.Addresses
import UpgradeSafety.Proofs.Numeral.Rounding
import UpgradeSafety.Proofs.Manifest.Refinement
import UpgradeSafety.Proofs.Manifest.Proxies
import UpgradeSafety.Proofs.Manifest.ByAddress
import UpgradeSafety.Proofs.Manifest.Reuse
import UpgradeSafety.Proofs.Validation.Recorded
import UpgradeSafety.Proofs.Safety.Suppression
import UpgradeSafety.Proofs.Validation.Agreement
import UpgradeSafety.Proofs.Validation.UsedCode
import UpgradeSafety.Proofs.Validation.ListingOrder
import UpgradeSafety.Proofs.Manifest.Numbered
import UpgradeSafety.Proofs.Manifest.Isolation
import UpgradeSafety.Proofs.Alignment.Prefix
import UpgradeSafety.Proofs.Compare.Enums
import UpgradeSafety.Proofs.Validation.LatestRun
import UpgradeSafety.Proofs.Manifest.Forward
import UpgradeSafety.Proofs.Bytecode
import UpgradeSafety.Proofs.Layout.Placement
import UpgradeSafety.Proofs.Compare.Widening
import UpgradeSafety.Proofs.Compare.Footprint
import UpgradeSafety.Proofs.Compare.Visiting
import UpgradeSafety.Proofs.Compare.Recursion
import UpgradeSafety.Proofs.Compare.Calls
import UpgradeSafety.Proofs.Compare.GapSizes
import UpgradeSafety.Proofs.Layout.References
import UpgradeSafety.Proofs.TypeId.Escapes
import UpgradeSafety.Proofs.Report.Complete
import UpgradeSafety.Proofs.Syntax.Closure
import UpgradeSafety.Proofs.Namespaces
import UpgradeSafety.Proofs.Safety.Allowances
import UpgradeSafety.Proofs.Layout.Sharing
import UpgradeSafety.Proofs.Syntax.Annotations
import UpgradeSafety.Proofs.Syntax.Preorder
