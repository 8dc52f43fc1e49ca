import GemFI.Lib.Binary
import GemFI.Lib.BitLinear
import GemFI.Lib.StraightLine
import GemFI.Lib.Lifetime
import GemFI.Lib.Run
import GemFI.Lib.Sample
import GemFI.Lib.Lists
import GemFI.Lib.Sweep
import GemFI.Lib.Drain
import GemFI.Lib.Force
import GemFI.Lib.Ring
import GemFI.Lib.Submodular
import GemFI.Lib.Table
import GemFI.Lib.Clock
import GemFI.Lib.Timer
import GemFI.Lib.Bytes
import GemFI.Lib.Flip
import GemFI.Lib.Crc
import GemFI.Lib.Footprint
import GemFI.Lib.BitSet
import GemFI.GateFU.Netlist
import GemFI.GateFU.Order
import GemFI.GateFU.Adder
import GemFI.GateFU.AdderRoles
import GemFI.GateFU.Observable
import GemFI.GateFU.Multiplier
import GemFI.GateFU.SynthOrder
import GemFI.GateFU.Evaluate
import GemFI.Cov.Analyzer
import GemFI.Cov.Frame
import GemFI.Cov.Timeline
import GemFI.Cov.Irf
import GemFI.Cov.Slice
import GemFI.Cov.Replay
import GemFI.Cov.Finish
import GemFI.Cov.CommitTags
import GemFI.Cov.Distance
import GemFI.Cov.Producers
import GemFI.Cov.Sdc
import GemFI.Cov.LSQUnit
import GemFI.Cov.StoreQueue
import GemFI.Cov.StoreSchedule
import GemFI.Cov.Cache
import GemFI.Cov.Bounds
import GemFI.Cov.Sensitivity
import GemFI.Cov.SlotLedgers
import GemFI.IQ.CHAOSIQ
import GemFI.IQ.Wake
import GemFI.IQ.Phase
import GemFI.IQ.Schedule
import GemFI.IQ.Ibr
import GemFI.Mem.Fault
import GemFI.Mem.CHAOSMem
import GemFI.Mem.StuckAt
import GemFI.Mem.Tags
import GemFI.Mem.CHAOSCache
import GemFI.Mem.Budget
import GemFI.Mem.TagAlias
import GemFI.Mem.Corrected
import GemFI.Mem.Paired
import GemFI.Mem.Window
import GemFI.Mem.Recheck
import GemFI.Mem.DrawnBits
import GemFI.Mem.FieldFault
import GemFI.Mem.RealError
import GemFI.Reg.Fault
import GemFI.Reg.PhysRegFile
import GemFI.Reg.CHAOSPhysReg
import GemFI.Reg.Stuck
import GemFI.Reg.PhysCheck
import GemFI.Reg.ReadTrace
import GemFI.Reg.CHAOSReg
import GemFI.Reg.Rearm
import GemFI.Reg.FaultBudget
import GemFI.Reg.CHAOSFreeList
import GemFI.Reg.Refire
import GemFI.Reg.PopWrong
import GemFI.Reg.CHAOSRenameMap
import GemFI.Reg.RenameTrace
import GemFI.Reg.Repin
import GemFI.Reg.Redirect
import GemFI.Reg.DistinctBits
import GemFI.Reg.Lane
import GemFI.IQ.Profile
import GemFI.IQ.Lanes
import GemFI.Lsq.CHAOSLSQFwd
import GemFI.Lsq.Source
import GemFI.Lsq.Window
import GemFI.Lsq.History
import GemFI.Arm.CHAOSPTW
import GemFI.Arm.Spurious
import GemFI.Arm.CHAOSArmTLB
import GemFI.Arm.PageFrame
import GemFI.Arm.ExclusiveMonitor
import GemFI.Tools.Classify
import GemFI.Tools.TrapClass
import GemFI.Tools.EdSelect
import GemFI.Lib.Text
import GemFI.Lib.Asm
import GemFI.Mem.ProtectionLog
import GemFI.Tools.FaultCount
import GemFI.Reg.PhysRegLog
import GemFI.Reg.RegLog
import GemFI.Reg.Verdict
import GemFI.Reg.RenameStage
import GemFI.Reg.Recovery
import GemFI.Tools.RunnerCommand
import GemFI.Tools.FailCount
import GemFI.Tools.RunOne
import GemFI.Tools.Campaign
import GemFI.Tools.EdProfile
import GemFI.Tools.EdScore
import GemFI.Tools.EdGains
import GemFI.Tools.Manifest
import GemFI.Tools.ReadTraceStats
import GemFI.Tools.EscapeDecomp
import GemFI.Tools.FisherTest
import GemFI.Tools.HarpAdvice
import GemFI.Tools.HarpWrap
import GemFI.Tools.HarpChecker
import GemFI.Tools.HarpPool
import GemFI.Tools.HarpSyntax
import GemFI.Tools.HarpEvolve
import GemFI.Tools.HarpOperands
import GemFI.Tools.HarpRng
import GemFI.Diag.LogParse
import GemFI.Diag.OopsReports
import GemFI.Diag.EsrDecode
import GemFI.Diag.Diagnose
import GemFI.Diag.Merge
import GemFI.Diag.MultiApp
