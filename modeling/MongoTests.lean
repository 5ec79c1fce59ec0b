import MongoTests.Lib.Machine
import MongoTests.Resmoke.Job
import MongoTests.Resmoke.JobDrain
import MongoTests.Resmoke.JobHealthy
import MongoTests.Hooks.Stepdown
import MongoTests.Hooks.StepdownPause
import MongoTests.Hooks.StepdownFiles
import MongoTests.Hooks.BackgroundJob
import MongoTests.Lib.Firsts
import MongoTests.Suites.Selector
import MongoTests.Suites.Generate
import MongoTests.Lib.Program
import MongoTests.Override.Command
import MongoTests.Override.Server
import MongoTests.Override.Transaction
import MongoTests.Override.Failure
import MongoTests.Override.Committed
import MongoTests.Suites.Selection
import MongoTests.Suites.Misc
import MongoTests.Logging.Buildlogger
import MongoTests.Logging.BufferedHandler
import MongoTests.Resmoke.Executor
import MongoTests.Resmoke.ExecutorTeardown
import MongoTests.Resmoke.Report
import MongoTests.Resmoke.JobReport
import MongoTests.Fsm.ThreadManager
import MongoTests.Fsm.CheckFailed
import MongoTests.Fsm.Config
import MongoTests.Fsm.Composer
import MongoTests.Idl.Syntax
import MongoTests.Idl.SymbolTable
import MongoTests.Idl.Parser
import MongoTests.Idl.ParserTotal
import MongoTests.Lib.Worklist
import MongoTests.Idl.Import
import MongoTests.Idl.Ast
import MongoTests.Idl.Errors
import MongoTests.Idl.Binder
import MongoTests.Idl.BinderTotal
import MongoTests.Resmoke.CombineReports
import MongoTests.Lib.Lock
import MongoTests.Resmoke.Network
import MongoTests.Linter.Parallel
import MongoTests.Resmoke.Archival
import MongoTests.BackgroundOps.WaitForLock
import MongoTests.Logging.FlushCompletes
import MongoTests.ReplSets.InitialSyncTest
import MongoTests.ReplSets.RollbackTestDeluxe
import MongoTests.Lib.Heap
import MongoTests.Resmoke.Combine
import MongoTests.Resmoke.ReportFile
import MongoTests.Lib.Decimal
import MongoTests.Suites.Divide
import MongoTests.Suites.Names
import MongoTests.Fsm.Schedule
import MongoTests.Suites.MultiSelector
import MongoTests.Fsm.ThreadScaling
import MongoTests.Resmoke.RepeatPolicy
import MongoTests.Suites.TagGrammar
import MongoTests.Override.BackgroundOp
import MongoTests.Override.DropPending
import MongoTests.ReplSets.ContinuousStepdown
import MongoTests.Suites.IncludeTags
import MongoTests.Aggregation.AnyEq
import MongoTests.Aggregation.ResultsEq
import MongoTests.Fsm.AutoRetryTransaction
import MongoTests.Graphs.CycleDetection
import MongoTests.Graphs.MongoLock
import MongoTests.Lib.RoundRobin
import MongoTests.Override.RetryLoop
import MongoTests.Override.SafeErrors
import MongoTests.Suites.ParallelLists
import MongoTests.Suites.TestStats
import MongoTests.CiConfig.ResmokeArgs
import MongoTests.CiConfig.TagsConfig
import MongoTests.Globbing.Exact
import MongoTests.Hooks.KillSecondaries
import MongoTests.Idl.IncludeList
import MongoTests.Resmoke.FixtureCrash
import MongoTests.Resmoke.TestArchival
import MongoTests.Scons.CachePrune
import MongoTests.Suites.BurnInTimeouts
import MongoTests.ErrorCodes.Check
import MongoTests.ErrorCodes.Fix
import MongoTests.Idl.ArrayTypes
import MongoTests.Idl.EnumInt
import MongoTests.Idl.Literals
import MongoTests.Idl.StructLayout
import MongoTests.Lib.Der
import MongoTests.MultiVersion.CollectionData
import MongoTests.Resmoke.BenchmarkNames
import MongoTests.Ssl.Certs
import MongoTests.Ssl.MongoRoles
import MongoTests.Ssl.SelectItems
import MongoTests.Ssl.SortItems
import MongoTests.Explain.PlanStages
import MongoTests.Hooks.BackgroundInitialSync
import MongoTests.Hooks.DbHashAttempt
import MongoTests.Hooks.DbHashFailPoints
import MongoTests.Hooks.ValidateBackground
import MongoTests.Hooks.ValidateCollections
import MongoTests.Lib.Split
import MongoTests.Mongosymb.Complete
import MongoTests.MultiVersion.DownloadVersion
import MongoTests.Override.ManualIntervention
import MongoTests.ChangeStreams.ConsumeDrop
import MongoTests.Fsm.WeightedChoice
import MongoTests.Lib.Traced
import MongoTests.Override.StmtId
import MongoTests.ReplSets.RejectedTransition
import MongoTests.Suites.JsComment
import MongoTests.Suites.TestNames
import MongoTests.Idl.ComparisonOperators
import MongoTests.Idl.ElementOrder
import MongoTests.Idl.GeneratedSerializer
import MongoTests.Lib.Document
import MongoTests.Override.Concerns
import MongoTests.Override.ReadPreference
import MongoTests.Override.WrapFacets
import MongoTests.Fsm.AtomicityIsolation
import MongoTests.Fsm.CommittedWrites
import MongoTests.Fsm.RemoveQueue
import MongoTests.Fsm.SnapshotIsolation
