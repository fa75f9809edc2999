import FeatureStore.Library.Table
import FeatureStore.Library.Fencing
import FeatureStore.Library.Execution
import FeatureStore.Library.Reservation
import FeatureStore.Library.IncrementalScan
import FeatureStore.Models
import FeatureStore.Database
import FeatureStore.JobService
import FeatureStore.JobExecutor
import FeatureStore.Ledger
import FeatureStore.JobTransactions
import FeatureStore.ControlPlane
import FeatureStore.LeaseFencing
import FeatureStore.IncrementalReservation
import FeatureStore.WatermarkOrder
import FeatureStore.OfflineStore
import FeatureStore.UnseenRows
import FeatureStore.OfflineAppend
import FeatureStore.OverlappingAppends
import FeatureStore.Backfill
import FeatureStore.BackfillRace
import FeatureStore.StagedRecovery
import FeatureStore.OnlineStore
import FeatureStore.Materialization
import FeatureStore.IncrementalCoverage
import FeatureStore.Library.Programs
import FeatureStore.StreamOperations
import FeatureStore.StreamConsumer
import FeatureStore.LedgerEvolution
import FeatureStore.HandOff
import FeatureStore.StreamInvariant
import FeatureStore.StreamInterference
import FeatureStore.IngestionHandOff
import FeatureStore.StreamEffects
import FeatureStore.ConsumerTriples
import FeatureStore.ConsumerMethods
import FeatureStore.OffsetCommit
import FeatureStore.OnlineDelivery
import FeatureStore.Library.Calendar
import FeatureStore.Library.FixedWidth
import FeatureStore.DateTimeText
import FeatureStore.Library.PrefixCode
import FeatureStore.JsonText
import FeatureStore.FiniteFloats
import FeatureStore.RegistryModels
import FeatureStore.SpecDifferences
import FeatureStore.RegistryStore
import FeatureStore.RegistryLifecycle
import FeatureStore.RegistryPlan
import FeatureStore.RegistryIntegrity
import FeatureStore.Library.Redirects
import FeatureStore.ReplacementLinks
import FeatureStore.InheritedDeprecation
import FeatureStore.MetadataPatch
import FeatureStore.Library.LastWriter
import FeatureStore.Library.Dictionaries
import FeatureStore.RedisTexts
import FeatureStore.OnlineConvergence
import FeatureStore.LatestRow
import FeatureStore.JsonParser
import FeatureStore.EntityKeys
import FeatureStore.RegistryQueries
import FeatureStore.OnlineRead
import FeatureStore.ValueEncoding
import FeatureStore.ConcurrentDeprecations
import FeatureStore.JobSystem
import FeatureStore.JobRows
import FeatureStore.RetryRaces
import FeatureStore.HistoricalAttempts
import FeatureStore.PublishedResults
import FeatureStore.Library.Contracts
import FeatureStore.StagedRows
import FeatureStore.StreamTyping
import FeatureStore.Library.AsOfJoin
import FeatureStore.PointInTime
import FeatureStore.HistoricalTable
import FeatureStore.ObservationRows
import FeatureStore.ObservationAnswers
import FeatureStore.AnsweredQueries
import FeatureStore.Library.CharacterEscapes
import FeatureStore.OutputColumns
import FeatureStore.CanonicalJson
import FeatureStore.LedgerIdentity
import FeatureStore.JsonPointers
import FeatureStore.EditRuns
import FeatureStore.SpecPatch
import FeatureStore.SpecAgreement
import FeatureStore.ConflictDifferences
import FeatureStore.AppendDeduplication
import FeatureStore.ClaimNext
import FeatureStore.StoredEvents
import FeatureStore.BatchOutput
import FeatureStore.BackfillRuns
import FeatureStore.BackfillProgress
import FeatureStore.BackfillFrame
import FeatureStore.BackfillResume
import FeatureStore.QuarantineTables
import FeatureStore.Library.Tiling
import FeatureStore.Library.KeyedSort
import FeatureStore.CursorChunks
import FeatureStore.Library.MarkedWalk
import FeatureStore.ReplacementWalk
import FeatureStore.CanonicalWarnings
import FeatureStore.PreflightWarnings
import FeatureStore.LifecycleFold
import FeatureStore.Library.Grouping
import FeatureStore.QualityRows
import FeatureStore.NamePatterns
import FeatureStore.ManifestParsing
import FeatureStore.SpecRoundTrip
import FeatureStore.QualityExactness
import FeatureStore.QualityTables
import FeatureStore.HeartbeatTiming
import FeatureStore.Library.GuardedWriter
import FeatureStore.StaleAttempts
import FeatureStore.ConcurrentApplies
import FeatureStore.ResultDownloads
import FeatureStore.QueueFairness
import FeatureStore.ServingParity
import FeatureStore.JobLookups
import FeatureStore.SourceFreshness
import FeatureStore.QualityEvents
import FeatureStore.Library.StepRelations
import FeatureStore.BufferCounts
import FeatureStore.ConsumerBuffers
import FeatureStore.ViewHistories
import FeatureStore.Library.Directories
import FeatureStore.StorageLayout
import FeatureStore.ResultRetention
