import XMonitor.Lib.BoundedLoop
import XMonitor.Lib.BoundedSearch
import XMonitor.Lib.ExceptRules
import XMonitor.Lib.SortFunc
import XMonitor.Lib.Cfi
import XMonitor.Lib.BpfHash
import XMonitor.Lib.EventRun
import XMonitor.Lib.CounterMap
import XMonitor.Frame.Context
import XMonitor.Frame.Program
import XMonitor.Frame.Table
import XMonitor.Frame.Build
import XMonitor.Frame.Location
import XMonitor.Frame.TableInvariant
import XMonitor.Frame.Decode
import XMonitor.Frame.Refinement
import XMonitor.Profile.Layout
import XMonitor.Profile.Search
import XMonitor.Profile.Lookup
import XMonitor.Profile.Walk
import XMonitor.Profile.Chunk
import XMonitor.Profile.Chain
import XMonitor.Collector.UnwindTables
import XMonitor.Collector.RefCount
import XMonitor.Collector.SampleCount
import XMonitor.Collector.Drain
import XMonitor.Lib.AListCount
import XMonitor.Utils.Strings
import XMonitor.Collector.CollectProfiles
import XMonitor.Sock.SockTable
import XMonitor.Apps.ProcessStatus
import XMonitor.Apps.AppStatus
import XMonitor.Apps.Match
import XMonitor.Apps.Ownership
import XMonitor.Apps.Accumulate
import XMonitor.Apps.Totals
import XMonitor.Apps.SockMetrics
import XMonitor.Lib.FirstSeen
import XMonitor.Cpu.CpuIndex
import XMonitor.Cgroups.Discovery
import XMonitor.Net.NetDevList
import XMonitor.Net.NetDevMirror
import XMonitor.Utils.Arl
import XMonitor.Utils.ArlEarlyStop
import XMonitor.Lib.IntrusiveList
import XMonitor.Utils.ArlPointers
import XMonitor.Utils.ArlSimulation
import XMonitor.Utils.ArlRefinement
import XMonitor.Lib.FreeList
import XMonitor.Utils.Mempool
import XMonitor.Utils.MempoolBlocks
import XMonitor.Utils.MempoolSafety
import XMonitor.Lib.RowTable
import XMonitor.Utils.Procfile
import XMonitor.Utils.ProcfileTables
import XMonitor.Utils.ProcfileReadall
import XMonitor.Cgroups.Memory
import XMonitor.Cgroups.Interference
import XMonitor.Lib.DoubleBuffer
import XMonitor.Disk.DiskStats
import XMonitor.Disk.Telescope
import XMonitor.Lib.Pool
import XMonitor.Hbm.Limiter
import XMonitor.Hbm.Budget
import XMonitor.Hbm.Rate
import XMonitor.Hbm.Machine
import XMonitor.Hbm.NoLeak
import XMonitor.Hbm.Statistics
import XMonitor.Utils.Durations
import XMonitor.Sched.CpuSched
import XMonitor.Sched.Accounting
import XMonitor.Lib.Chan
import XMonitor.Events.EventCenter
import XMonitor.Events.Delivery
import XMonitor.Events.ProcessExit
import XMonitor.Events.ExitSoundness
import XMonitor.Lib.PerCpuHash
import XMonitor.ProcessVM.Probes
import XMonitor.ProcessVM.Pairing
import XMonitor.ProcessVM.Accounting
import XMonitor.Nfs.Probes
import XMonitor.Nfs.Latency
import XMonitor.Utils.LatencyHistogram
import XMonitor.Bio.Requests
import XMonitor.Bio.Stages
import XMonitor.Bio.Counts
import XMonitor.Bio.Export
import XMonitor.Lib.SinglyLinked
import XMonitor.Plugins.PluginsD
import XMonitor.Plugins.Invariant
import XMonitor.Plugins.IsWorking
import XMonitor.Plugins.Workers
import XMonitor.Lib.ElementCounters
import XMonitor.Gather.CacheStat
import XMonitor.Gather.RunqLatency
import XMonitor.Lib.RWMutex
import XMonitor.Config.Config
import XMonitor.Config.Deadlock
import XMonitor.Redir.SockRedir
import XMonitor.Lib.BitMix
import XMonitor.Profile.StackId
import XMonitor.Collector.EhframeId
import XMonitor.Frame.Restore
import XMonitor.Profile.RowSearch
import XMonitor.Profile.LookupSound
import XMonitor.Lib.GreedyBudget
import XMonitor.Frame.Budget
import XMonitor.Frame.WellFormed
import XMonitor.Collector.MalformedFde
import XMonitor.Utils.ArlComplete
import XMonitor.Net.SockStat
import XMonitor.Collector.ModuleRanges
import XMonitor.Profile.Bottom
import XMonitor.Collector.EhframeFrames
import XMonitor.Utils.ProcfileSplit
import XMonitor.Utils.ProcfileOpen
import XMonitor.Process.Stat
import XMonitor.Process.StatFields
import XMonitor.Process.MemStatus
import XMonitor.Process.MemStatusLines
import XMonitor.Lib.LineReader
import XMonitor.Utils.Smaps
import XMonitor.Utils.SmapsSums
import XMonitor.Apps.Descendants
import XMonitor.Pressure.Psi
import XMonitor.Pressure.PsiRounds
import XMonitor.Cgroups.CpuMetrics
import XMonitor.Cgroups.CpuRules
import XMonitor.Cgroups.CpuParts
import XMonitor.Cgroups.CpuRuns
import XMonitor.Cgroups.CpuStat
import XMonitor.Cgroups.CpuTelescope
import XMonitor.Cgroups.UsageAll
import XMonitor.Cgroups.MemoryGauges
import XMonitor.Disk.Iostat
import XMonitor.Cpu.Jiffies
import XMonitor.Hbm.VerdictLaw
import XMonitor.Lib.BinaryRound
import XMonitor.Bio.Percent
import XMonitor.Bio.Update
import XMonitor.Lib.Runs
import XMonitor.Utils.ProcfileRuns
import XMonitor.Lib.Glob
import XMonitor.Utils.SimplePattern
import XMonitor.Utils.SimplePatternGlob
import XMonitor.Utils.Base64
import XMonitor.Utils.Base64RoundTrip
import XMonitor.Utils.Base64Input
import XMonitor.Utils.MountInfo
import XMonitor.Utils.MountInfoPrint
import XMonitor.Oom.OomKill
import XMonitor.Register.Zone
import XMonitor.Register.Retry
import XMonitor.Clean.Log
import XMonitor.Lib.SelectLoop
import XMonitor.Sched.Update
import XMonitor.Events.DrainLoops
import XMonitor.Utils.Heartbeat
import XMonitor.Utils.MempoolRange
import XMonitor.Memory.Meminfo
import XMonitor.Trace.SyscallEvents
import XMonitor.Lib.BinarySearch
import XMonitor.Lib.Qsort
import XMonitor.Utils.Ksym
import XMonitor.Utils.KsymFar
import XMonitor.Lib.Buffer
import XMonitor.Utils.Numbers
import XMonitor.Utils.SimplePatternName
import XMonitor.Utils.SimplePatternParts
import XMonitor.Utils.SimplePatternExtract
import XMonitor.Lib.MessageQueue
import XMonitor.Ringbuf.Offset
import XMonitor.Ringbuf.Machine
import XMonitor.Ringbuf.Invariant
import XMonitor.Ringbuf.Reserve
import XMonitor.Ringbuf.Cells
import XMonitor.Ringbuf.Producers
import XMonitor.Ringbuf.Consumer
import XMonitor.Ringbuf.Delivery
import XMonitor.Ringbuf.Drain
import XMonitor.Json.Item
import XMonitor.Json.Parse
import XMonitor.Json.ParseSafety
import XMonitor.Json.Print
import XMonitor.Json.PrintText
import XMonitor.Json.RoundTrip
import XMonitor.Lib.ByteLayout
import XMonitor.Lib.PerCpuArray
import XMonitor.Xdp.Counters
