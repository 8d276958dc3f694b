import Semcast.Misc.FloorSearch
import Semcast.Optimizer.Calibrate
import Semcast.Optimizer.Proofs.RecallAt
import Semcast.Optimizer.Proofs.PointEstimate
import Semcast.Misc.NormalQuantile
import Semcast.Misc.WilsonScore
import Semcast.Optimizer.Proofs.WilsonBound
import Semcast.Optimizer.Proofs.Certified
import Semcast.Model.Basic
import Semcast.Misc.FirstWrite
import Semcast.Misc.Run
import Semcast.Cache.Basic
import Semcast.Cache.Sqlite
import Semcast.Cache.Sharing
import Semcast.Cache.Writer
import Semcast.Cache.Proofs.Sections
import Semcast.Cache.Proofs.Lawful
import Semcast.Cache.Proofs.Histories
import Semcast.Cache.Proofs.Sharing
import Semcast.Cache.Proofs.OneAnswer
import Semcast.Cache.Proofs.WholeUnits
import Semcast.Cache.Proofs.Writer
import Semcast.Index.Basic
import Semcast.Optimizer.Proxy
import Semcast.Types.Json
import Semcast.Types.Basic
import Semcast.Physical.Verify
import Semcast.Physical.IndexScan
import Semcast.Physical.Extract
import Semcast.Physical.Proofs.Tranches
import Semcast.Physical.Proofs.ScoreLabels
import Semcast.Physical.Proofs.BestProxy
import Semcast.Physical.Proofs.CertifiedLoop
import Semcast.Physical.Proofs.LabelSample
import Semcast.Physical.Proofs.CacheWarmth
import Semcast.Physical.Proofs.Filters
import Semcast.Physical.Proofs.UnitReads
import Semcast.Misc.Fallible
import Semcast.Sql.Ddl
import Semcast.Types.Proofs.Units
import Semcast.Physical.Proofs.Pushdown
import Semcast.Physical.Classify
import Semcast.Misc.Delimited
import Semcast.Sql.Proofs.Printed
import Semcast.Physical.Rank
import Semcast.Physical.Proofs.Provenance
import Semcast.Physical.Proofs.RepeatedVerify
import Semcast.Physical.Proofs.ClassifyBatch
import Semcast.Physical.Proofs.LabelsAgree
import Semcast.Misc.Numbered
import Semcast.Misc.ReplaceFile
import Semcast.Server.Jobs
import Semcast.Server.Runner
import Semcast.Server.Proofs.Moves
import Semcast.Server.Proofs.Lifecycle
import Semcast.Server.Proofs.Recovery
import Semcast.Misc.FirstSeen
import Semcast.Physical.Proofs.Candidates
import Semcast.Logical.Expr
import Semcast.Logical.Plan
import Semcast.Optimizer.Rewrite
import Semcast.Optimizer.Proofs.LeftOver
import Semcast.Optimizer.Proofs.FilterPreserved
import Semcast.Optimizer.Classify
import Semcast.Optimizer.Proofs.SettledProjection
import Semcast.Optimizer.Proofs.ProjectionPreserved
import Semcast.Sql.ExtractUdf
import Semcast.Optimizer.Extract
import Semcast.Optimizer.Proofs.Markers
import Semcast.Optimizer.Proofs.ExtractNodes
import Semcast.Optimizer.Proofs.OwnExtraction
import Semcast.Physical.Planner
import Semcast.Physical.Proofs.PlannedGroups
import Semcast.Physical.Proofs.PlannedStages
import Semcast.Model.Fallback
import Semcast.Model.Proofs.Fallback
import Semcast.Model.Embed
import Semcast.Index.Chunk
import Semcast.Index.Lance
import Semcast.Index.Service
import Semcast.Index.Proofs.Moves
import Semcast.Index.Proofs.StoredOnce
import Semcast.Index.Proofs.OneSpace
import Semcast.Misc.Occurrences
import Semcast.Physical.Cluster
import Semcast.Physical.Proofs.ClusterNames
import Semcast.Index.Dedupe
import Semcast.Physical.Distinct
import Semcast.Index.Proofs.Dedupe
import Semcast.Physical.Proofs.DistinctKeys
import Semcast.Server.Proofs.SplitTokens
import Semcast.Server.Router
import Semcast.Sql.Ast
import Semcast.Sql.Visit
import Semcast.Sql.Cluster
import Semcast.Sql.Proofs.LabelScope
import Semcast.Sql.Distinct
import Semcast.Sql.Proofs.DistinctMarks
import Semcast.Optimizer.Rank
import Semcast.Optimizer.Proofs.RankLimits
import Semcast.Misc.Window
import Semcast.Physical.RankPlan
import Semcast.Physical.Proofs.RankedValues
import Semcast.Optimizer.Proofs.FailedLabels
import Semcast.Optimizer.Proofs.Confidence
import Semcast.Misc.Mixing
import Semcast.Physical.Proofs.SampleOrder
import Semcast.Physical.Proofs.LabelBudget
import Semcast.Sql.Lexer
import Semcast.Sql.Proofs.PlainLexer
import Semcast.Sql.Proofs.RoundTrip
import Semcast.Physical.Proofs.Decoding
import Semcast.Physical.Proofs.RecordedVariants
import Semcast.Server.History
import Semcast.Server.Proofs.FreshIds
import Semcast.Misc.DecimalOrder
import Semcast.Server.Proofs.Newest
import Semcast.Physical.Proofs.OverFetch
import Semcast.Physical.Proofs.Buckets
import Semcast.Index.Proofs.GreedyGroups
import Semcast.Misc.SlidingWindow
import Semcast.Index.Proofs.ChunkCover
import Semcast.Index.KMeans
import Semcast.Misc.MeanSquares
import Semcast.Index.Proofs.Nearest
import Semcast.Index.Proofs.Recentre
import Semcast.Index.Proofs.Seeds
import Semcast.Index.Proofs.Descent
import Semcast.Index.Proofs.OneEach
import Semcast.Misc.Utf8
import Semcast.Sql.Head
import Semcast.Sql.Proofs.Locations
import Semcast.Sql.Proofs.TokenCuts
import Semcast.Server.Proofs.SplitStable
import Semcast.Server.Proofs.Stretches
import Semcast.Server.SplitBytes
import Semcast.Server.Proofs.SplitBytes
import Semcast.Misc.SlotPool
import Semcast.Misc.Grid
import Semcast.Cache.Proofs.Groups
import Semcast.Server.Proofs.Turns
import Semcast.Server.Proofs.Handles
import Semcast.Server.Proofs.Slots
import Semcast.Server.Proofs.Starts
import Semcast.Server.Table
import Semcast.Server.Proofs.RecordRule
import Semcast.Server.Proofs.JobResults
import Semcast.Types.Prompt
import Semcast.Physical.ExtractBatch
import Semcast.Physical.Proofs.ExtractLoops
import Semcast.Physical.Proofs.ExtractedCells
import Semcast.Physical.Proofs.RepeatedExtract
import Semcast.Physical.RankScore
import Semcast.Physical.Proofs.ScoredOnce
import Semcast.Logical.GroupPlan
import Semcast.Optimizer.RowGroups
import Semcast.Optimizer.Proofs.GroupColumns
import Semcast.Optimizer.Proofs.GroupsReplaced
import Semcast.Optimizer.Proofs.GroupValues
import Semcast.Optimizer.Proofs.GroupNodes
import Semcast.Optimizer.Proofs.GroupPass
import Semcast.Physical.Proofs.ClusterLabels
import Semcast.Physical.Proofs.ClusterNaming
import Semcast.Misc.Channel
import Semcast.Server.Engine
import Semcast.Server.Proofs.Answers
import Semcast.Server.Routes
import Semcast.Server.Proofs.Routes
import Semcast.Optimizer.Clauses
import Semcast.Optimizer.Proofs.AttachedClauses
import Semcast.Optimizer.Proofs.AskedSimilarity
import Semcast.Sql.Proofs.Knobs
