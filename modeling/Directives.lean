import Directives.Analysis.Walk
import Directives.Exchange.Diagnostic
import Directives.Exchange.Options
import Directives.Exchange.Text
import Directives.Tree.Draft
import Directives.Proofs.NonRectangularNest
import Directives.Proofs.Recheck
import Directives.Proofs.ImplicitClauses
import Directives.Proofs.ReportOrder
import Directives.Proofs.CountOperands
import Directives.Proofs.FrameEffect
import Directives.Proofs.NestingSafety
import Directives.Proofs.Cancellation
import Directives.Proofs.ReportExchange
import Directives.Proofs.SameVariables
import Directives.Proofs.LoopCounters
import Directives.Proofs.LocalVariables
import Directives.Proofs.StoppedWalks
import Directives.Proofs.WorksharingNesting
import Directives.Proofs.DiagnosedVariables
import Directives.Proofs.Bracketing
import Directives.Proofs.SkippedRegions
import Directives.Proofs.TaskPromotion
import Directives.Proofs.AddedDeclarations
import Directives.Proofs.PrivateCopies
import Directives.Proofs.WrappedCount
import Directives.Proofs.NormalForm
import Directives.Proofs.RecoveredCounters
import Directives.Proofs.WholeNests
import Directives.Proofs.OuterCounters
import Directives.Proofs.DecidingFrame
import Directives.Proofs.SingleReports
import Directives.Proofs.ClauseOrder
import Directives.Proofs.CoveredBounds
import Directives.Proofs.AttributeTable
import Directives.Proofs.LinearSteps
import Directives.Proofs.Classification
import Directives.Proofs.RefusedItems
import Directives.Proofs.AffineForm
import Directives.Proofs.CanonicalDeclarations
