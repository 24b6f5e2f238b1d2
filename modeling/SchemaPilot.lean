import SchemaPilot.Keyed
import SchemaPilot.PrefixCode
import SchemaPilot.Digest
import SchemaPilot.Json
import SchemaPilot.JsonText
import SchemaPilot.PyRepr
import SchemaPilot.Canonical
import SchemaPilot.Classifier
import SchemaPilot.PayloadPaths
import SchemaPilot.DiffReport
import SchemaPilot.Coverage
import SchemaPilot.SchemaInfer
import SchemaPilot.SchemaNotes
import SchemaPilot.NodeSummary
import SchemaPilot.Occurrences
import SchemaPilot.NodeTypes
import SchemaPilot.RequiredFields
import SchemaPilot.SchemaHash
import SchemaPilot.SchemaDiff
import SchemaPilot.OuterJoin
import SchemaPilot.SchemaDiffJoin
import SchemaPilot.DiffSeverity
import SchemaPilot.DiffTables
import SchemaPilot.ArrayOrder
import SchemaPilot.Registry
import SchemaPilot.StructuralType
import SchemaPilot.Engine
import SchemaPilot.StructuralOrder
import SchemaPilot.StructuralText
import SchemaPilot.StructuralPaths
import SchemaPilot.StructuralDrift
import SchemaPilot.Track
import SchemaPilot.FirstLog
import SchemaPilot.UpsertHistory
import SchemaPilot.Runs
import SchemaPilot.DraftRows
import SchemaPilot.TrackPayload
import SchemaPilot.LegacyRegistry
import SchemaPilot.BaselineElection
import SchemaPilot.BaselineStability
import SchemaPilot.BaselineRecovery
import SchemaPilot.MonitorRunner
import SchemaPilot.RegistryTxn
import SchemaPilot.RegistryHistory
import SchemaPilot.RegistryLock
import SchemaPilot.Webhook
import SchemaPilot.OutboxWorker
import SchemaPilot.Enqueue
import SchemaPilot.DeliverySystem
import SchemaPilot.DeliveryInvariant
import SchemaPilot.DeliverySteps
import SchemaPilot.DeliveryOnce
import SchemaPilot.DeliveryStuck
import SchemaPilot.InactiveSkipped
import SchemaPilot.OutboxRows
import SchemaPilot.OutboxLifecycle
import SchemaPilot.AffectedConsumers
import SchemaPilot.TrackRuns
import SchemaPilot.TrackRows
import SchemaPilot.TrackInvariant
import SchemaPilot.VersionClassification
import SchemaPilot.EventPublication
import SchemaPilot.NodeBuffer
import SchemaPilot.JsonReader
import SchemaPilot.Gateway
import SchemaPilot.GatewayRuns
import SchemaPilot.FingerprintRefinement
import SchemaPilot.BreakageVerdicts
import SchemaPilot.JsonLoads
import SchemaPilot.Normalizer
import SchemaPilot.OversizedBodies
import SchemaPilot.MonitorPool
import SchemaPilot.MonitorLock
import SchemaPilot.RefusedDetail
import SchemaPilot.Fetcher
import SchemaPilot.SessionTasks
import SchemaPilot.SessionExclusion
import SchemaPilot.RunVerdict
import SchemaPilot.MonitorRuns
import SchemaPilot.MonitorFailure
import SchemaPilot.SnapshotHistory
import SchemaPilot.GatherHistory
import SchemaPilot.MonitorHistory
import SchemaPilot.Changelogs
import SchemaPilot.ChangelogCache
import SchemaPilot.DeadLetters
import SchemaPilot.DeadLetterWorker
import SchemaPilot.DeadLetterCall
import SchemaPilot.DeadLetterRuns
import SchemaPilot.OpenapiDiff
import SchemaPilot.ContractReview
import SchemaPilot.Ddl
import SchemaPilot.Migrations
import SchemaPilot.InlineFailures
import SchemaPilot.DlqReplay
import SchemaPilot.ReplayRuns
import SchemaPilot.SubscriptionRouting
import SchemaPilot.Newest
import SchemaPilot.RetentionSweep
import SchemaPilot.RetryLoop
import SchemaPilot.ViolationLog
import SchemaPilot.JsonContext
import SchemaPilot.ElementCounts
import SchemaPilot.IsoTime
import SchemaPilot.DocumentStore
import SchemaPilot.ItemTypes
import SchemaPilot.NodePlaces
import SchemaPilot.ArrayGrowth
import SchemaPilot.Conservation
import SchemaPilot.ResponseLedger
import SchemaPilot.Redelivery
import SchemaPilot.GatewayIngest
import SchemaPilot.VersionChain
import SchemaPilot.RunCounters
import SchemaPilot.DeliveryLedger
import SchemaPilot.Liveness
import SchemaPilot.OutboxDrain
import SchemaPilot.RegistryRows
import SchemaPilot.RegistrySerial
import SchemaPilot.Journal
import SchemaPilot.DiffJournal
import SchemaPilot.SchemaGrowth
import SchemaPilot.SafeDrift
import SchemaPilot.AddedField
import SchemaPilot.ChangelogText
import SchemaPilot.StandIn
