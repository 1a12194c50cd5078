import SegmentedView.Config.Writer
import SegmentedView.Deletes.Family
import SegmentedView.Main
import SegmentedView.PositionTable
import SegmentedView.Proofs.Leases.Releases
import SegmentedView.Proofs.Refresh.Chain
import SegmentedView.Store.Overlay
import SegmentedView.System.Diagnostics
import SegmentedView.System.Run
import SegmentedView.Proofs.Leases.Generations
import SegmentedView.Proofs.Leases.Spent
import SegmentedView.Proofs.System.Isolation
import SegmentedView.Proofs.Refresh.Lineage
import SegmentedView.Proofs.Refresh.Tokens
import SegmentedView.Proofs.Store.Likeness
import SegmentedView.Proofs.Store.Revisions
import SegmentedView.Proofs.View.Outline
import SegmentedView.Proofs.View.Refusals
import SegmentedView.Proofs.Boundaries.Overflow
import SegmentedView.Proofs.Boundaries.Turns
import SegmentedView.Proofs.System.Openings
import SegmentedView.Proofs.Deletes.Resizing
import SegmentedView.Proofs.Refresh.FreshOpen
import SegmentedView.Proofs.Refresh.Skipping
import SegmentedView.Proofs.System.Verdicts
import SegmentedView.Proofs.System.Closure
import SegmentedView.Proofs.Store.Returns
import SegmentedView.Proofs.System.Failures
import SegmentedView.Proofs.Leases.Accounts
import SegmentedView.Proofs.Deletes.Families
import SegmentedView.Proofs.System.Counts
import SegmentedView.Proofs.Refresh.Currency
import SegmentedView.Proofs.System.Twins
import SegmentedView.Proofs.System.Copies
import SegmentedView.Proofs.Deletes.Waiting
import SegmentedView.Proofs.View.Succession
import SegmentedView.Proofs.View.FirstLive
import SegmentedView.Proofs.System.Tables
import SegmentedView.Proofs.View.StoredValues
import SegmentedView.Proofs.System.StoredValues
import SegmentedView.Proofs.Leases.Calls
import SegmentedView.Proofs.Store.Merging
import SegmentedView.Proofs.Refresh.MergedViews
import SegmentedView.Proofs.Store.MergedContent
import SegmentedView.Proofs.Refresh.Payloads
import SegmentedView.Proofs.CommandLine.Locating
import SegmentedView.Proofs.Config.RoundTrip
