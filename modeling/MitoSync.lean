import MitoSync.Basic
import MitoSync.Planner
import MitoSync.Lib.Pool
import MitoSync.Lib.Chunks
import MitoSync.Slot
import MitoSync.Upload
import MitoSync.UploadSpec
import MitoSync.DiffUpload
import MitoSync.Download
import MitoSync.DownloadSpec
import MitoSync.PatchSpec
import MitoSync.Sync
import MitoSync.Run
import MitoSync.Lib.Levels
import MitoSync.Lib.Ending
import MitoSync.Lib.Crew
import MitoSync.LocalListing
import MitoSync.LocalWalk
import MitoSync.S3Listing
import MitoSync.Listings
import MitoSync.Gate
import MitoSync.Entry
import MitoSync.Mirror
import MitoSync.Crash
import MitoSync.PartPlan
import MitoSync.LocalWrites
import MitoSync.Adaptive
import MitoSync.Leftovers
import MitoSync.Registry
import MitoSync.Requests
import MitoSync.DiffRequests
import MitoSync.RegistrySpec
import MitoSync.Rm
import MitoSync.RmAccounts
import MitoSync.RmTargets
import MitoSync.Diff
import MitoSync.DiffSpec
import MitoSync.DiffReport
import MitoSync.DiffSound
import MitoSync.RangedRead
import MitoSync.Execution
import MitoSync.ExecutionSpec
import MitoSync.Containment
import MitoSync.SyncCommand
import MitoSync.MakeDirs
import MitoSync.DryRun
import MitoSync.RmCommand
import MitoSync.RmGone
import MitoSync.ExitCodes
import MitoSync.OnlyIn
import MitoSync.Lib.Retry
import MitoSync.ReadPair
import MitoSync.Presence
import MitoSync.Lib.Machine
import MitoSync.BoundedFile
import MitoSync.BlockAnalysis
import MitoSync.Metrics
import MitoSync.SharedMetrics
import MitoSync.FourPlanners
import MitoSync.Lib.OneCondition
import MitoSync.Lib.Stranding
import MitoSync.Lib.Tally
import MitoSync.WriteQueue
import MitoSync.TempSweep
import MitoSync.Lib.Throttle
import MitoSync.Lib.ThrottleLive
import MitoSync.SubmissionWindow
import MitoSync.ChunkCrcs
import MitoSync.ChunkCrcsSpec
import MitoSync.ChunkFanOuts
import MitoSync.UrlParser
import MitoSync.Lib.Interleaving
import MitoSync.CliArgs
import MitoSync.Lib.Search
import MitoSync.CloudMonitoring
import MitoSync.ChunkAnalysis
import MitoSync.Numerals
import MitoSync.TempNames
import MitoSync.Faultless
import MitoSync.Convergence
import MitoSync.Completion
import MitoSync.EditHistory
import MitoSync.DeleteAliases
import MitoSync.OwnSource
import MitoSync.Durations
import MitoSync.Relay
import MitoSync.FaultlessRun
import MitoSync.Recovery
import MitoSync.Lib.Crc
import MitoSync.ChunkEdits
import MitoSync.PreRead
import MitoSync.Lib.LockFree
import MitoSync.Recording
import MitoSync.SubmissionOrder
import MitoSync.Lib.Overlap
import MitoSync.Overlap
import MitoSync.ServerSideCopies
import MitoSync.Lib.Csv
import MitoSync.Report
