import Ramulator.Lib.Window
import Ramulator.Lib.Loop
import Ramulator.Lib.Run
import Ramulator.Lib.Fallible
import Ramulator.Lib.Elision
import Ramulator.Lib.TextStream
import Ramulator.Lib.TimedQueue
import Ramulator.Lib.Ticks
import Ramulator.Lib.Trace
import Ramulator.Lib.SwapTable
import Ramulator.Lib.Dict
import Ramulator.Lib.Join
import Ramulator.Lib.HeavyHitters
import Ramulator.Lib.TopCounts
import Ramulator.Lib.Blocks
import Ramulator.Lib.Periodic
import Ramulator.Lib.FloatFormat
import Ramulator.Lib.NumberText
import Ramulator.Lib.Json
import Ramulator.Lib.JsonLayout
import Ramulator.Lib.JsonFields
import Ramulator.Lib.Publish
import Ramulator.Lib.FileTree
import Ramulator.Lib.Durable
import Ramulator.Lib.Recorded
import Ramulator.Lib.MixedRadix
import Ramulator.Lib.CInt
import Ramulator.Base.Request
import Ramulator.Base.ConfigNode
import Ramulator.Base.Simulation
import Ramulator.Base.BatchSimulation
import Ramulator.Dram.Spec
import Ramulator.Dram.Command
import Ramulator.Dram.Node
import Ramulator.Dram.Timing
import Ramulator.Dram.Device
import Ramulator.Dram.Dispatch
import Ramulator.Dram.Occupancy
import Ramulator.Dram.Declaration
import Ramulator.Dram.Serialization
import Ramulator.Controller.Base
import Ramulator.Controller.Scheduler
import Ramulator.Controller.SchedulerLaw
import Ramulator.Controller.RowPolicy
import Ramulator.Controller.GenericDDR
import Ramulator.Controller.HBM
import Ramulator.Controller.GDDR7
import Ramulator.Controller.LPDDR
import Ramulator.Controller.PRAC
import Ramulator.Controller.PRACDispatch
import Ramulator.Controller.BlockHammer
import Ramulator.Controller.Kind
import Ramulator.Controller.Steps
import Ramulator.Controller.Issues
import Ramulator.Controller.Legality
import Ramulator.Controller.HBMPairing
import Ramulator.Controller.ActiveBuffer
import Ramulator.Controller.Service
import Ramulator.Controller.WriteSet
import Ramulator.Controller.Forwarding
import Ramulator.Controller.PRACRecovery
import Ramulator.Controller.PRACAlert
import Ramulator.Controller.Ordering
import Ramulator.Controller.AddrMapper
import Ramulator.Controller.AddrDecode
import Ramulator.Controller.RowSwap
import Ramulator.Controller.Quarantine
import Ramulator.Controller.HistoryWindow
import Ramulator.Controller.RotatingBloom
import Ramulator.Controller.VictimRefresh
import Ramulator.Controller.Exposure
import Ramulator.Controller.GrapheneBound
import Ramulator.Controller.SamsungTRR
import Ramulator.Controller.RFMManager
import Ramulator.Controller.IdealTRR
import Ramulator.Controller.TwiceLife
import Ramulator.Controller.HydraCount
import Ramulator.Controller.Atomic
import Ramulator.Controller.DelayQueue
import Ramulator.MemorySystem.GenericDRAM
import Ramulator.MemorySystem.AddressMap
import Ramulator.MemorySystem.Admission
import Ramulator.MemorySystem.Elision
import Ramulator.MemorySystem.PassThrough
import Ramulator.Gem5.Ramulator2Base
import Ramulator.Gem5.PortInvariant
import Ramulator.Gem5.PortSteps
import Ramulator.Gem5.PortProtocol
import Ramulator.Translation.RandomTranslation
import Ramulator.Frontend.ReadWriteTrace
import Ramulator.Frontend.SimpleO3Core
import Ramulator.Frontend.SimpleO3LLC
import Ramulator.Frontend.SimpleO3
import Ramulator.Frontend.SimpleO3Cohort
import Ramulator.Frontend.SimpleO3Sets
import Ramulator.Frontend.SimpleO3Service
import Ramulator.Frontend.SimpleO3Memory
import Ramulator.MemorySystem.SimpleO3Simulation
import Ramulator.Frontend.SyntheticPattern
import Ramulator.Frontend.PatternInit
import Ramulator.Frontend.PatternAddresses
import Ramulator.Frontend.BHO3LLC
import Ramulator.Frontend.BHO3Service
import Ramulator.Controller.AttackThrottler
import Ramulator.Controller.BinTraceRecorder
import Ramulator.Controller.HBMPerBankRefresh
import Ramulator.Controller.HBMRefreshOrder
import Ramulator.Controller.AllBankRefresh
import Ramulator.Controller.PerBankRefresh
import Ramulator.Controller.GDDR7ReadClock
import Ramulator.Frontend.LatencyThroughputTrace
import Ramulator.Frontend.LatTpAddresses
import Ramulator.Frontend.LatTpStreaming
import Ramulator.ChampSim.VirtualMemory
import Ramulator.ChampSim.Placement
import Ramulator.ChampSim.PlacementRuns
import Ramulator.ChiaLoop.Records
import Ramulator.ChiaLoop.StepLog
import Ramulator.ChiaLoop.Usage
import Ramulator.ChiaLoop.UsagePartition
import Ramulator.ChiaLoop.UsageRules
import Ramulator.ChiaLoop.Archive
import Ramulator.ChiaLoop.ArchiveExtraction
import Ramulator.ChiaLoop.ArchiveBundles
import Ramulator.ChiaLoop.Snapshots
import Ramulator.ChiaLoop.SnapshotFiles
import Ramulator.ChiaLoop.CandidateStore
import Ramulator.ChiaLoop.Tariff
import Ramulator.ChiaLoop.Quote
import Ramulator.ChiaLoop.Matching
import Ramulator.ChiaLoop.RequestMetrics
import Ramulator.ChiaLoop.Pairing
import Ramulator.ChiaLoop.Scoring
import Ramulator.ChiaLoop.Agreement
import Ramulator.ChiaLoop.ScoreViews
import Ramulator.ChiaLoop.Anonymity
import Ramulator.ChiaLoop.Promotion
import Ramulator.ChiaLoop.Campaign
import Ramulator.ChiaLoop.CampaignChain
import Ramulator.ChiaLoop.CampaignSearch
import Ramulator.ChiaLoop.CampaignRuns
import Ramulator.ChiaLoop.DiagnosticCases
import Ramulator.ChiaLoop.DiagnosticPattern
import Ramulator.ChiaLoop.TextChunks
import Ramulator.ChiaLoop.ToolGroups
import Ramulator.ChiaLoop.Compaction
import Ramulator.ChiaLoop.CompactionRuns
import Ramulator.ChiaLoop.ParetoArchive
