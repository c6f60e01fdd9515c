import Precizer.General.UniqueTable
import Precizer.General.TransactionStore
import Precizer.General.BlockHash
import Precizer.Rational.Return
import Precizer.Digest.Sha512Stream
import Precizer.Database.CompactStat
import Precizer.Traversal.HashExit
import Precizer.Pipeline.Run
import Precizer.Traversal.FilePass
import Precizer.Traversal.FileWrites
import Precizer.Traversal.PassRules
import Precizer.Database.CleanupRules
import Precizer.Pipeline.RunRules
import Precizer.Guarantees.SealedRow
import Precizer.Guarantees.ResumeState
import Precizer.Guarantees.RealChecksum
import Precizer.Database.StatLayouts
import Precizer.Database.Upgrade
import Precizer.Database.UpgradeRules
import Precizer.Guarantees.RestartableUpgrade
import Precizer.Guarantees.CurrentLayout
import Precizer.Database.Comparison
import Precizer.Guarantees.ExactComparison
import Precizer.General.SharedCell
import Precizer.Guarantees.InterruptKept
import Precizer.Database.RememberedMessages
import Precizer.Guarantees.ReplayedMessages
import Precizer.General.WriteBatches
import Precizer.Traversal.SaveBatches
import Precizer.Guarantees.TransactionalBatches
import Precizer.Database.SmoothCleanup
import Precizer.Database.PathsTable
import Precizer.Guarantees.CleanupRoots
import Precizer.Digest.Sha512Resume
import Precizer.Database.SmoothSession
import Precizer.Traversal.FileOutcome
import Precizer.Traversal.SmoothVisit
import Precizer.Traversal.SmoothFile
import Precizer.Traversal.SmoothWalk
import Precizer.Traversal.SmoothPass
import Precizer.Traversal.Tree
import Precizer.Traversal.OutcomeRules
import Precizer.Traversal.InterruptedRow
import Precizer.Traversal.PlanRules
import Precizer.Traversal.SeveralRoots
import Precizer.Pipeline.TreeRun
import Precizer.Pipeline.InterruptedRuns
import Precizer.Guarantees.MirroredTree
import Precizer.Guarantees.TransparentInterrupt
import Precizer.Guarantees.SharedRows
import Precizer.Database.FailedCleanup
import Precizer.Guarantees.DropPolicy
import Precizer.Traversal.VisitEvents
import Precizer.Traversal.MetFiles
import Precizer.Traversal.CompleteRow
import Precizer.Pipeline.MetRows
import Precizer.Guarantees.RehashPolicy
import Precizer.Guarantees.LockedOutcomes
import Precizer.General.SkippedSubtrees
import Precizer.Traversal.TraversedScope
import Precizer.Guarantees.TraversalScope
import Precizer.Database.PrefixRules
import Precizer.Guarantees.ReplacedPrefixes
import Precizer.General.Replacement
import Precizer.Logger.Sanitizer
import Precizer.Logger.Markup
import Precizer.Logger.Line
import Precizer.Guarantees.TerminalSafety
import Precizer.Logger.MachineLine
import Precizer.Logger.MachineRules
import Precizer.Guarantees.MachineLines
import Precizer.Database.IdleCleanup
import Precizer.Traversal.IdleVisit
import Precizer.Pipeline.RepeatedRun
import Precizer.Guarantees.SecondUpdate
import Precizer.General.Blocks
import Precizer.Logger.InPlaceReplacement
import Precizer.Guarantees.InPlaceReplacement
import Precizer.Guarantees.ExactSanitizer
import Precizer.Guarantees.PlainWording
import Precizer.Guarantees.PreservedMetadata
import Precizer.Traversal.OwnRow
import Precizer.Database.ConnectionRowid
import Precizer.Guarantees.OneRow
import Precizer.General.Elements
import Precizer.Libmem.Memory
import Precizer.Libmem.MemoryRules
import Precizer.Libmem.Resize
import Precizer.Libmem.ResizeRules
import Precizer.Guarantees.ExactResize
import Precizer.Libmem.StringCore
import Precizer.Libmem.StringRules
import Precizer.Libmem.StringSources
import Precizer.Guarantees.StringTransfer
import Precizer.Libmem.BufferCore
import Precizer.Guarantees.ByteTransfer
import Precizer.Traversal.RelativePathBuffer
import Precizer.Guarantees.RelativePaths
import Precizer.Libmem.Tracking
import Precizer.Libmem.StringArray
import Precizer.Libmem.StringArrayRules
import Precizer.Guarantees.StringArrays
import Precizer.General.Decimal
import Precizer.Rational.GroupedInteger
import Precizer.Guarantees.GroupedIntegers
import Precizer.General.UnitTexts
import Precizer.Rational.RenderedUnits
import Precizer.Rational.UnitBuffers
import Precizer.Guarantees.RenderedUnits
import Precizer.Guarantees.StringMeasurement
import Precizer.Libmem.Conversions
import Precizer.Guarantees.ConvertedStrings
import Precizer.Digest.Sha512Calls
import Precizer.Guarantees.ChunkedHashing
import Precizer.Guarantees.BalancedTelemetry
import Precizer.Guarantees.DescriptorInvariant
import Precizer.General.CommutingFolds
import Precizer.General.StoppedFold
import Precizer.Guarantees.SettingsDocuments
import Precizer.Guarantees.SettingsFiles
import Precizer.Guarantees.SettingsSources
import Precizer.Libmem.Ledger
import Precizer.Libmem.Moves
import Precizer.General.SharedCounters
import Precizer.Guarantees.HeapLedger
import Precizer.General.CounterSums
import Precizer.General.ExchangeLoops
import Precizer.General.SerializedCalls
import Precizer.Guarantees.ConcurrentTelemetry
