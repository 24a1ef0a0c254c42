import Beluga.Interact.Prog
import Beluga.Interact.System
import Beluga.Interact.Rules
import Beluga.Interact.Trace
import Beluga.Interact.Machine
import Beluga.Sso.Json
import Beluga.Sso.Store
import Beluga.Sso.Lifecycle
import Beluga.Sso.Sql
import Beluga.Sso.SqlRules
import Beluga.Sso.Trail
import Beluga.Sso.PrText
import Beluga.Sso.Ports
import Beluga.Sso.GithubApp
import Beluga.Sso.Reconciler
import Beluga.Sso.Routes
import Beluga.Sso.Protocol
import Beluga.Sso.Github
import Beluga.Sso.Discipline
import Beluga.Sso.Client
import Beluga.Sso.TickRules
import Beluga.Sso.RouteRules
import Beluga.Sso.StageSafety
import Beluga.Sso.Ledger
import Beluga.Sso.Submit
import Beluga.Sso.Audit
import Beluga.Sso.Cancel
import Beluga.Sso.Pulls
import Beluga.Sso.Orphans
import Beluga.Sso.CancelMerge
import Beluga.Sso.Rerun
import Beluga.Sso.RerunRules
import Beluga.Sso.Converge
import Beluga.Js.Schemas
import Beluga.Sso.SsoSchema
import Beluga.Sso.EditEngine
import Beluga.Sso.EditRules
import Beluga.Sso.FileForms
import Beluga.Sso.GroupAudit
import Beluga.Sso.GithubSsoAdapter
import Beluga.Sso.AdapterRules
import Beluga.Sso.AdapterSteps
import Beluga.Sso.AdapterFresh
import Beluga.Sso.AdapterInvalid
import Beluga.Sso.AdapterHead
import Beluga.Sso.Backoff
import Beluga.Js.Numbers
import Beluga.Upstream.Memo
import Beluga.Upstream.MemoRules
import Beluga.Graph.Walk
import Beluga.Js.Strings
import Beluga.Text.Regex
import Beluga.Text.Fences
import Beluga.Sso.PrTextRules
import Beluga.Text.Words
import Beluga.Text.Backtrack
import Beluga.Policy.Schema
import Beluga.Policy.Roles
import Beluga.Policy.Validate
import Beluga.Policy.Valid
import Beluga.Policy.Rego
import Beluga.Policy.RegoRules
import Beluga.Policy.Allow
import Beluga.Policy.Masks
import Beluga.Policy.Conflicts
import Beluga.Policy.Keycloak
import Beluga.Policy.PgSql
import Beluga.Policy.PgDdl
import Beluga.Policy.PgRules
import Beluga.Policy.Inheritance
import Beluga.Policy.Privileges
import Beluga.Policy.Reserved
import Beluga.Policy.Folding
import Beluga.Js.Template
import Beluga.Policy.RegoText
import Beluga.Js.Shuffle
import Beluga.Policy.Reorder
import Beluga.Policy.Order
import Beluga.Policy.Drift
import Beluga.Policy.DriftOrder
import Beluga.Policy.GrantLines
import Beluga.Policy.GrantText
import Beluga.Policy.NoDrift
import Beluga.Policy.DriftDesired
import Beluga.Policy.DriftFixpoint
import Beluga.Policy.DriftSound
import Beluga.Text.RegexLanguage
import Beluga.Text.SqlTokens
import Beluga.Policy.RowFilterText
import Beluga.Policy.RowFilterGrammar
import Beluga.Policy.RowFilterSpacing
import Beluga.Policy.RowFilter
import Beluga.Js.Replace
import Beluga.Upstream.AssetId
import Beluga.Upstream.AssetIdRules
import Beluga.Js.Rounding
import Beluga.Upstream.MemoSteps
import Beluga.Upstream.MemoServe
import Beluga.Upstream.SingleFlight
import Beluga.Interact.Limiter
import Beluga.Upstream.RequestLimits
import Beluga.Decision.IsolatedProvider
import Beluga.Decision.Bulkhead
import Beluga.Decision.Answers
import Beluga.Interact.Pages
import Beluga.Interact.Pool
import Beluga.Upstream.LakekeeperCatalog
import Beluga.Upstream.ListingRules
import Beluga.Text.Scan
import Beluga.Upstream.SqlRedaction
import Beluga.Upstream.SqlPieces
import Beluga.Upstream.RedactionRules
import Beluga.Correlation.Rules
import Beluga.Correlation.Links
import Beluga.Flink.Mapping
import Beluga.Flink.Pipelines
import Beluga.Flink.Snapshot
import Beluga.Flink.SnapshotCache
import Beluga.Flink.SnapshotRules
import Beluga.Flink.SnapshotAnswers
import Beluga.Flink.SnapshotLookup
import Beluga.Graph.DepthFirst
import Beluga.Graph.Layers
import Beluga.Web.GraphLayout
import Beluga.Web.LayoutRules
import Beluga.Web.LayoutPositions
import Beluga.Js.NumberText
import Beluga.Web.DataTableSort
import Beluga.Web.CatalogSql
import Beluga.Py.Values
import Beluga.Py.Dict
import Beluga.Ops.LiveDrift
import Beluga.Ops.DriftRules
import Beluga.Ops.DriftReports
import Beluga.Ops.DroppedApplications
import Beluga.Py.Access
import Beluga.Py.Strings
import Beluga.Agent.OperationsAgent
import Beluga.Agent.AgentRules
import Beluga.Sso.GatewayRoutes
import Beluga.Sso.GatewayRules
import Beluga.Kube.NetworkPolicy
import Beluga.Ops.NetworkCoverage
import Beluga.Ops.NetworkRules
import Beluga.Ops.SecurityBaseline
import Beluga.Apisix.Plugins
import Beluga.Apisix.RouteEntries
import Beluga.Apisix.RouteAudit
import Beluga.Apisix.RouteRules
import Beluga.Js.Values
import Beluga.Ci.VulnerabilityGate
import Beluga.Ci.VulnerabilityRules
import Beluga.Text.Split
import Beluga.Text.Spdx
import Beluga.Ci.LicensePolicy
import Beluga.Ci.LicenseRules
import Beluga.Py.Json
import Beluga.Py.JsonText
import Beluga.Release.RequiredChecks
import Beluga.Release.CheckRules
import Beluga.Text.Findall
import Beluga.Release.Images
import Beluga.Release.ImageLines
import Beluga.Release.ImageRules
import Beluga.Graph.Cycles
import Beluga.Policy.RoleGraph
import Beluga.Sso.Routine
import Beluga.Sso.OpenListing
import Beluga.Sso.Sweeps
import Beluga.Sso.SweepRules
import Beluga.Sso.Lease
import Beluga.Sso.LeaseRules
import Beluga.Text.Separated
import Beluga.Py.Digits
import Beluga.Text.Cron
import Beluga.Ci.BackupSchedule
import Beluga.Ci.ScheduleGrammar
import Beluga.Text.Search
import Beluga.Py.Lines
import Beluga.Py.JsonFiles
import Beluga.Release.Versions
import Beluga.Release.LicenseInventory
import Beluga.Release.AssetInventory
import Beluga.Release.Sbom
import Beluga.Release.EvidenceBundle
import Beluga.Release.EvidenceChecks
import Beluga.Release.EvidenceRules
import Beluga.Release.EvidenceSorted
import Beluga.Release.EvidenceBuild
import Beluga.Release.EvidenceForged
import Beluga.Web.StringGuard
import Beluga.Web.GuardValues
import Beluga.Web.GuardRules
import Beluga.Ops.SizingReport
import Beluga.Ops.SizingRules
import Beluga.Web.Navigation
import Beluga.Sso.FileAdapter
