import CostAudit.Config.Setting
import CostAudit.Audit
import CostAudit.Scenario.Script
import CostAudit.Proofs.Retention.Room
import CostAudit.Proofs.Loop.Pass
import CostAudit.Proofs.Loop.Sizes
import CostAudit.Proofs.Loop.Accounts
import CostAudit.Proofs.Retention.Live
import CostAudit.Proofs.Retention.Shelf
import CostAudit.Proofs.Retention.Own
import CostAudit.Proofs.Loop.Net
import CostAudit.Proofs.Loop.Failures
import CostAudit.Proofs.Verdict
import CostAudit.Proofs.Config
import CostAudit.Proofs.Verification
import CostAudit.Proofs.Vacuous
import CostAudit.Proofs.Growth.Anchor
import CostAudit.Proofs.Growth.Setup
import CostAudit.Proofs.Growth.Fit
import CostAudit.Proofs.Growth.Idle
import CostAudit.Proofs.Growth.Smoothing
import CostAudit.Proofs.Growth.Recurrence
import CostAudit.Proofs.Growth.Verdict
import CostAudit.Proofs.Growth.Wake
import CostAudit.Proofs.Growth.Ringing
import CostAudit.Proofs.Growth.Fall
import CostAudit.Proofs.Loop.Spikes
import CostAudit.Proofs.Loop.Stops
import CostAudit.Proofs.Loop.Clock
import CostAudit.Proofs.Loop.Overshoot
import CostAudit.Proofs.Verification.Rates
import CostAudit.Proofs.Binary64.Compare
import CostAudit.Proofs.Binary64.OfNat
import CostAudit.Proofs.Loop.Work
import CostAudit.Proofs.Json.RoundTrip
import CostAudit.Proofs.Json.Decoder
import CostAudit.Proofs.Report.RoundTrip
import CostAudit.Proofs.Loop.Steady
import CostAudit.Proofs.Inactive
import CostAudit.Proofs.Config.Setting
import CostAudit.Proofs.Report.Metadata
import CostAudit.Proofs.Growth.Rescaled
import CostAudit.Proofs.Scalar
import CostAudit.Proofs.Loop.Doubling
import CostAudit.Proofs.Growth.Series
import CostAudit.Proofs.Heap.Balance
import CostAudit.Proofs.Report.Box
import CostAudit.Proofs.Flag
import CostAudit.Proofs.Text.Fill
import CostAudit.Proofs.Growth.Stability
