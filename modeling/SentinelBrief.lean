import SentinelBrief.Shipper.TailRuns
import SentinelBrief.Shipper.TailRestarts
import SentinelBrief.Shipper.ReadFeed
import SentinelBrief.Shipper.Exit
import SentinelBrief.Worker.Idempotent
import SentinelBrief.Worker.Terminal
import SentinelBrief.Worker.LiveJobs
import SentinelBrief.Worker.Markers
import SentinelBrief.Api.Stream
import SentinelBrief.Api.Poison
import SentinelBrief.Core.EscalationRate
import SentinelBrief.Shipper.Caps
import SentinelBrief.Shipper.Conservation
import SentinelBrief.Shipper.Fifo
import SentinelBrief.Shipper.SpoolFaults
import SentinelBrief.Shipper.TailTruncated
import SentinelBrief.Api.Gates
import SentinelBrief.Api.CachedReads
import SentinelBrief.Api.VerdictEvents
import SentinelBrief.Evals.ScoringMatrices
import SentinelBrief.Evals.Judge
import SentinelBrief.Evals.Evidence
import SentinelBrief.Web.AlertStream
import SentinelBrief.Evals.AppendRow
import SentinelBrief.Evals.Sample
import SentinelBrief.Api.Fingerprint
import SentinelBrief.Worker.QuotaDiscipline
import SentinelBrief.Web.AlertsQuery
import SentinelBrief.Evals.Record
import SentinelBrief.Evals.Labeling
import SentinelBrief.Api.Delivery
import SentinelBrief.Evals.Candidates
import SentinelBrief.Evals.Annotation
import SentinelBrief.Api.RateLimit
import SentinelBrief.Api.Retriage
import SentinelBrief.Worker.Budget
import SentinelBrief.Worker.BudgetChecks
import SentinelBrief.Library.SignificantDigits
import SentinelBrief.Evals.Gate
import SentinelBrief.Library.EventLog
import SentinelBrief.Evals.Run
import SentinelBrief.Evals.Provenance
