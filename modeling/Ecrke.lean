import Ecrke.Durable.Program
import Ecrke.Durable.Semantics
import Ecrke.Durable.Contract
import Ecrke.Durable.Footprints
import Ecrke.Durable.Executions
import Ecrke.Durable.Scheduled
import Ecrke.Durable.Sequential
import Ecrke.Durable.Watched
import Ecrke.Durable.Timed
import Ecrke.Durable.Recorded
import Ecrke.Durable.Trusting
import Ecrke.Durable.Unhindered
import Ecrke.Durable.Interleaving
import Ecrke.Durable.Mirrored
import Ecrke.Durable.Rows
import Ecrke.Text.Regex
import Ecrke.Text.Substitution
import Ecrke.Text.Splitting
import Ecrke.Text.Replacement
import Ecrke.Text.Delimiters
import Ecrke.Text.Python
import Ecrke.Text.Strip
import Ecrke.Text.Utf8
import Ecrke.Text.Json
import Ecrke.Text.Compact
import Ecrke.Text.Grammar
import Ecrke.Text.Coverage
import Ecrke.Schema
import Ecrke.Db.Models
import Ecrke.Db.Database
import Ecrke.World
import Ecrke.Quiet
import Ecrke.Session
import Ecrke.Services.Normalizer
import Ecrke.Services.Tiling
import Ecrke.Services.Chunking
import Ecrke.Services.Redaction
import Ecrke.Services.SecretNames
import Ecrke.Services.SupportMatrix
import Ecrke.Services.AuditWriter
import Ecrke.Services.StructuralRedaction
import Ecrke.Services.KVCache
import Ecrke.Services.CostMeter
import Ecrke.Services.LLMGateway
import Ecrke.Services.Bookkeeping
import Ecrke.Services.Metering
import Ecrke.Services.Planner
import Ecrke.Services.Extractor
import Ecrke.Services.Verifier
import Ecrke.Services.ContradictionDetector
import Ecrke.Services.ReportRenderer
import Ecrke.Services.ReportGenerator
import Ecrke.Services.Collection
import Ecrke.Services.UrlConnector
import Ecrke.Pipeline.Context
import Ecrke.Pipeline.Checkpoint
import Ecrke.Pipeline.CircuitBreaker
import Ecrke.Pipeline.Stages
import Ecrke.Pipeline.Flows
import Ecrke.Pipeline.StageSteps
import Ecrke.Pipeline.StageSpecs
import Ecrke.Pipeline.WrittenKeys
import Ecrke.Pipeline.FlowSteps
import Ecrke.Pipeline.FlowSpecs
import Ecrke.Pipeline.RunHistory
import Ecrke.Pipeline.FlowLaws
import Ecrke.Pipeline.Footprints
import Ecrke.Pipeline.Blobs
import Ecrke.Pipeline.Ingest
import Ecrke.Api.Deps
import Ecrke.Api.Routes
import Ecrke.Api.Schemas
import Ecrke.Api.Endpoints
import Ecrke.Guarantees.Provenance
import Ecrke.Guarantees.Verification
import Ecrke.Guarantees.Resume
import Ecrke.Guarantees.Budget
import Ecrke.Guarantees.Outcome
import Ecrke.Guarantees.Breaker
import Ecrke.Guarantees.Findings
import Ecrke.Guarantees.Clusters
import Ecrke.Guarantees.Domains
import Ecrke.Guarantees.Report
import Ecrke.Guarantees.HandOff
import Ecrke.Guarantees.Storage
import Ecrke.Guarantees.BlobRedaction
import Ecrke.Guarantees.AuditTrail
import Ecrke.Guarantees.CleanRecords
import Ecrke.Guarantees.StartFailure
import Ecrke.Guarantees.RedactedKeys
import Ecrke.Guarantees.RedactionLimits
import Ecrke.Guarantees.Egress
import Ecrke.Guarantees.Extraction
import Ecrke.Guarantees.Overlap
import Ecrke.Guarantees.Hooks
import Ecrke.Guarantees.CachedCalls
import Ecrke.Guarantees.Spend
import Ecrke.Guarantees.MeteredCalls
import Ecrke.Guarantees.Attempts
import Ecrke.Guarantees.BoundedCalls
import Ecrke.Guarantees.CacheMap
import Ecrke.Guarantees.CacheKeys
import Ecrke.Guarantees.Detection
import Ecrke.Guarantees.Contradictions
import Ecrke.Guarantees.Idempotence
import Ecrke.Guarantees.Prompts
import Ecrke.Guarantees.RowOrder
import Ecrke.Guarantees.Candidates
import Ecrke.Guarantees.Measures
import Ecrke.Guarantees.Conclusions
import Ecrke.Guarantees.Verdicts
import Ecrke.Guarantees.RunIsolation
import Ecrke.Guarantees.Fallback
import Ecrke.Guarantees.Warnings
import Ecrke.Guarantees.CollectKeys
import Ecrke.Guarantees.Collectable
import Ecrke.Guarantees.CollectTotal
import Ecrke.Guarantees.Chunks
import Ecrke.Guarantees.Whitespace
import Ecrke.Guarantees.Rounding
import Ecrke.Guarantees.ServedReport
import Ecrke.Guarantees.Markup
import Ecrke.Guarantees.Parsing
import Ecrke.Guarantees.Pacing
import Ecrke.Guarantees.Tenants
import Ecrke.Guarantees.Noninterference
import Ecrke.Guarantees.Disclosure
