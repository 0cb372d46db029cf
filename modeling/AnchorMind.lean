import AnchorMind.Outbox.AttemptLimit
import AnchorMind.Hooks.ReflectConsumer
import AnchorMind.Recall.RecallScorer
import AnchorMind.Recall.Paging
import AnchorMind.Write.BatchVsSingle
import AnchorMind.Accounting.FragmentLimits
import AnchorMind.Index.StaleIds
import AnchorMind.Index.Segmenter
import AnchorMind.Index.Amendments
import AnchorMind.Link.Resolutions
import AnchorMind.Link.ScanWatermark
import AnchorMind.Consolidate.SplitOutcomes
import AnchorMind.Consolidate.Compression
import AnchorMind.Consolidate.BackfillOutcomes
import AnchorMind.Llm.Semaphore
import AnchorMind.Llm.CircuitBreaker
import AnchorMind.Write.Supersede
import AnchorMind.Session.WorkingMemory
import AnchorMind.Oauth.SingleUse
import AnchorMind.Oauth.KeyLineage
import AnchorMind.Audit.Interleaving
import AnchorMind.Consolidate.Digests
import AnchorMind.Transfer.ImportRuns
import AnchorMind.Workers.PoolGate
import AnchorMind.Workers.PollingWorker
import AnchorMind.Workers.EmbeddingWorker
import AnchorMind.Outbox.Windows
import AnchorMind.Admin.KeyRotations
import AnchorMind.Admin.OwnerProtection
import AnchorMind.Write.BatchRememberRetries
import AnchorMind.Admin.SessionRevocations
import AnchorMind.Cli.Rollbacks
import AnchorMind.Session.EndedSessions
import AnchorMind.Session.KeyStateCache
import AnchorMind.Link.PendingPairs
import AnchorMind.Reflect.MilestoneChains
import AnchorMind.Reflect.ConsumedItems
import AnchorMind.Admin.ReviewRuns
import AnchorMind.Session.ActivityTracker
import AnchorMind.Recall.HotCache
import AnchorMind.Recall.CountedCut
import AnchorMind.Recall.PoolOrder
import AnchorMind.Cli.LineDiff
import AnchorMind.Limits.RateLimiter
import AnchorMind.Link.Reconsolidation
import AnchorMind.Admin.ReviewListing
import AnchorMind.Outbox.DeliverAll
import AnchorMind.Recall.QueryFilters
import AnchorMind.Recall.PackLines
import AnchorMind.Write.GateDecisions
import AnchorMind.Recall.SeenCursors
import AnchorMind.Recall.SegmentMerge
import AnchorMind.Recall.RankFusion
import AnchorMind.Write.CollapsedInsert
import AnchorMind.Write.WorldTimes
import AnchorMind.Recall.TimeRanges
import AnchorMind.Link.GroupKeys
import AnchorMind.Consolidate.ExactNeighbors
import AnchorMind.Consolidate.ImportanceDecay
import AnchorMind.Consolidate.DedupNeighbors
import AnchorMind.Consolidate.DuplicateSurvivors
import AnchorMind.Write.ForgetPreview
import AnchorMind.Write.DuplicateHits
import AnchorMind.Admin.StrictTimestamp
import AnchorMind.Recall.ReviewVisibility
import AnchorMind.Recall.CausalChains
import AnchorMind.Recall.GroupGrants
import AnchorMind.Admin.Base32
import AnchorMind.Index.WorkingMemoryRows
import AnchorMind.Security.MaskedEmails
