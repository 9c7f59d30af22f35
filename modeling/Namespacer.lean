import Namespacer.Main
import Namespacer.Proofs.Disk.Apart
import Namespacer.Proofs.Disk.Evolution
import Namespacer.Proofs.Disk.Found
import Namespacer.Proofs.Disk.Located
import Namespacer.Proofs.Disk.Shape
import Namespacer.Proofs.Disk.Texts
import Namespacer.Proofs.Disk.Walk
import Namespacer.Proofs.Disk.Write
import Namespacer.Proofs.Import.BareUse
import Namespacer.Proofs.Import.Braces
import Namespacer.Proofs.Import.Bytes
import Namespacer.Proofs.Import.Collapse
import Namespacer.Proofs.Import.Completed
import Namespacer.Proofs.Import.Completion
import Namespacer.Proofs.Import.Dropped
import Namespacer.Proofs.Import.Fresh
import Namespacer.Proofs.Import.FullForm
import Namespacer.Proofs.Import.Grammar
import Namespacer.Proofs.Import.History
import Namespacer.Proofs.Import.Insertion
import Namespacer.Proofs.Import.Match
import Namespacer.Proofs.Import.Patched
import Namespacer.Proofs.Import.PathsOnly
import Namespacer.Proofs.Import.Provenance
import Namespacer.Proofs.Import.Qualify
import Namespacer.Proofs.Import.Reported
import Namespacer.Proofs.Import.Rest
import Namespacer.Proofs.Import.Scan
import Namespacer.Proofs.Import.Sequence
import Namespacer.Proofs.Import.Survey
import Namespacer.Proofs.Import.WarningOrder
import Namespacer.Proofs.Import.Within
import Namespacer.Proofs.Name.Kept
import Namespacer.Proofs.Name.OneToOne
import Namespacer.Proofs.Path.Below
import Namespacer.Proofs.Path.Climb
import Namespacer.Proofs.Path.Form
import Namespacer.Proofs.Path.Probed
import Namespacer.Proofs.Path.Settled
import Namespacer.Proofs.Path.Target
import Namespacer.Proofs.Run.Attempt
import Namespacer.Proofs.Run.Course
import Namespacer.Proofs.Run.Eliminated
import Namespacer.Proofs.Run.Failing
import Namespacer.Proofs.Run.Honoured
import Namespacer.Proofs.Run.Imports
import Namespacer.Proofs.Run.Naming
import Namespacer.Proofs.Run.Order
import Namespacer.Proofs.Run.PlainImports
import Namespacer.Proofs.Run.Repeat
import Namespacer.Proofs.Run.Suggested
import Namespacer.Proofs.Run.Totals
import Namespacer.Proofs.Run.Unattended
import Namespacer.Proofs.Run.Visit
import Namespacer.Proofs.Sorting
import Namespacer.Proofs.Text.ByteOrder
import Namespacer.Proofs.Text.Replace
import Namespacer.Proofs.Text.Split
