import Mathlib.Algebra.BigOperators.Group.List.Basic
import Mathlib.Data.List.AList
import XMonitor.Apps.ProcessStatus

/-!
# Collecting the usage of apps

An app has a status with totals over its processes, and a table keyed by pid associates
processes with apps. A collection sets the totals to zero, reads the usage of every
process in the table and adds it to its app, drops the processes that could not be added
and finally the apps without processes.

A status is known by an identity that stands for its address. The additive fields of a
status are a family indexed by `AppField`, so that resetting and accumulating are one
definition each, with the fields as the source lists them. The loop also keeps a log of
the processes it has added, which no code reads.
-/

namespace XMonitor.Apps

open Sock

/-- The additive fields of `struct app_status`. -/
inductive AppField
  | minflt | cminflt | majflt | cmajflt | utime | stime | cutime | cstime | appTotalJiffies
  | numThreads | vmsize | vmrss | rssAnon | rssFile | rssShmem | vmswap
  | pss | pssAnon | pssFile | pssShmem | uss
  | ioLogicalBytesRead | ioLogicalBytesWritten | ioReadCalls | ioWriteCalls
  | ioStorageBytesRead | ioStorageBytesWritten | ioCancelledWriteBytes
  | openFds | nvcsw | nivcsw
deriving DecidableEq

/-- The fields of type `int32_t`; the others are `uint64_t`. -/
def AppField.isInt32 : AppField → Bool
  | .numThreads | .ioCancelledWriteBytes | .openFds => true
  | _ => false

def AppField.width (f : AppField) : Nat := if f.isInt32 then 32 else 64

/-- The number that the bits of a field stand for. -/
def AppField.value (f : AppField) (x : BitVec f.width) : Int :=
  if f.isInt32 then x.toInt else x.toNat

/-- What the loop adds to a field for a process. -/
def ProcessStatus.contribution (ps : ProcessStatus) : AppField → Int
  | .minflt => ps.minflt.toNat
  | .cminflt => ps.cminflt.toNat
  | .majflt => ps.majflt.toNat
  | .cmajflt => ps.cmajflt.toNat
  | .utime => ps.utime.toNat
  | .stime => ps.stime.toNat
  | .cutime => ps.cutime.toNat
  | .cstime => ps.cstime.toNat
  | .appTotalJiffies => ps.processCpuJiffies.toNat
  | .numThreads => ps.numThreads.toInt
  | .vmsize => ps.vmsize.toNat
  | .vmrss => ps.smapsRss.toNat
  | .rssAnon => ps.rssAnon.toNat
  | .rssFile => ps.rssFile.toNat
  | .rssShmem => ps.rssShmem.toNat
  | .vmswap => ps.vmswap.toNat
  | .pss => ps.smapsPss.toNat
  | .pssAnon => ps.smapsPssAnon.toNat
  | .pssFile => ps.smapsPssFile.toNat
  | .pssShmem => ps.smapsPssShmem.toNat
  | .uss => ps.smapsUss.toNat
  | .ioLogicalBytesRead => ps.ioLogicalBytesRead.toNat
  | .ioLogicalBytesWritten => ps.ioLogicalBytesWritten.toNat
  | .ioReadCalls => ps.ioReadCalls.toNat
  | .ioWriteCalls => ps.ioWriteCalls.toNat
  | .ioStorageBytesRead => ps.ioStorageBytesRead.toNat
  | .ioStorageBytesWritten => ps.ioStorageBytesWritten.toNat
  | .ioCancelledWriteBytes => ps.ioCancelledWriteBytes.toInt
  | .openFds => ps.processOpenFds.toInt
  | .nvcsw => ps.nvcsw.toNat
  | .nivcsw => ps.nivcsw.toNat

/-- `ps->oom_score + ps->oom_score_adj`. -/
def ProcessFiles.oomSum (ps : ProcessFiles) : Int := ps.oomScore.toInt + ps.oomScoreAdj.toInt

/-- `struct app_status`. -/
structure AppStatus where
  id : Nat
  appName : String
  appTypeName : String
  appPid : Pid
  processCount : Int := 0
  totals : (f : AppField) → BitVec f.width := fun _ => 0
  sst : SockStatistic := {}
  maxOomScore : Int16 := 0
  maxOomScoreAdj : Int16 := 0

def AppStatus.oomSum (as : AppStatus) : Int := as.maxOomScore.toInt + as.maxOomScoreAdj.toInt

/-- `struct app_assoc_process`, whose key in the table is the pid of its process. -/
structure AppAssocProcess where
  asTarget : Nat
  update : Bool
deriving DecidableEq

/-- `__app_assoc_process_table`. -/
abbrev AssocTable := AList fun _ : Pid => AppAssocProcess

/-- `__app_status_list` and the table, with the next free identity. -/
structure AppsState where
  apps : List AppStatus := []
  table : AssocTable := ∅
  nextId : Nat := 0

/-! ## Resetting -/

/-- The additive fields that `__zero_all_appstatus` sets to zero, in its order. -/
def resetFields : List AppField :=
  [.minflt, .cmajflt, .majflt, .cmajflt, .utime, .stime, .cutime, .cstime, .appTotalJiffies,
    .numThreads, .vmsize, .vmrss, .rssAnon, .rssFile, .rssShmem, .vmswap, .pss, .uss,
    .ioLogicalBytesRead, .ioLogicalBytesWritten, .ioReadCalls, .ioWriteCalls,
    .ioStorageBytesRead, .ioStorageBytesWritten, .ioCancelledWriteBytes, .openFds]

def AppStatus.zero (as : AppStatus) : AppStatus :=
  { as with
    totals := resetFields.foldl (fun totals f => Function.update totals f 0) as.totals
    sst := {} }

/-! ## Accumulating -/

/-- `__gather_sock_statistics`. One of the counters is assigned, not increased. -/
def gatherSockStatistics (app ps : SockStatistic) : SockStatistic where
  tcpEstablished := app.tcpEstablished + ps.tcpEstablished
  tcpCloseWait := app.tcpCloseWait + ps.tcpCloseWait
  tcpListen := app.tcpListen + ps.tcpListen
  tcp6Established := ps.tcp6Established
  tcp6CloseWait := app.tcp6CloseWait + ps.tcp6CloseWait
  tcp6Listen := app.tcp6Listen + ps.tcp6Listen
  udpEstablished := app.udpEstablished + ps.udpEstablished
  udpClose := app.udpClose + ps.udpClose
  udp6Established := app.udp6Established + ps.udp6Established
  udp6Close := app.udp6Close + ps.udp6Close
  unixEstablished := app.unixEstablished + ps.unixEstablished
  unixRecv := app.unixRecv + ps.unixRecv

/-- Add a process to the totals of its app. -/
def AppStatus.add (as : AppStatus) (ps : ProcessStatus) : AppStatus :=
  let as :=
    { as with
      totals := fun f => as.totals f + BitVec.ofInt f.width (ps.contribution f)
      sst := gatherSockStatistics as.sst ps.sst }
  if as.oomSum < ps.oomSum then
    { as with maxOomScore := ps.oomScore, maxOomScoreAdj := ps.oomScoreAdj }
  else as

def modifyApp (apps : List AppStatus) (id : Nat) (g : AppStatus → AppStatus) : List AppStatus :=
  apps.map fun as => if as.id = id then g as else as

/-- An order in which the hash table is iterated. -/
structure IterOrder where
  arrange : List Pid → List Pid
  perm : ∀ pids, (arrange pids).Perm pids

/-- What a collection reads: the table of sockets and the files of the processes, `none`
where one of them cannot be read, in the order of the hash table. -/
structure Reading where
  order : IterOrder
  sockTable : SockTable
  files : Pid → Option ProcessFiles

/-- `COLLECTOR_PROCESS_USAGE` for a pid. -/
def Reading.usage (r : Reading) (pid : Pid) : Option ProcessStatus :=
  (r.files pid).bind (collectorProcessUsage r.sockTable)

/-- The condition under which the loop adds a process to the app it is bound to. -/
def AppStatus.Takes (as : AppStatus) (pid : Pid) (ps : ProcessStatus) : Prop :=
  pid = as.appPid ∨ ps.ppid = as.appPid

instance (as : AppStatus) (pid : Pid) (ps : ProcessStatus) : Decidable (as.Takes pid ps) :=
  inferInstanceAs (Decidable (_ ∨ _))

/-- A process that was added, with the identity of its app. -/
structure Added where
  app : Nat
  pid : Pid
  ps : ProcessStatus

/-- The state of the accumulation loop. -/
structure Accumulation where
  apps : List AppStatus
  table : AssocTable
  added : List Added := []

/-- One iteration of the accumulation loop. A target is always in the list of apps. -/
def Accumulation.visit (r : Reading) (acc : Accumulation) (pid : Pid) : Accumulation :=
  match acc.table.lookup pid with
  | none => acc
  | some aap =>
      let skipped := { acc with table := acc.table.insert pid { aap with update := false } }
      match acc.apps.find? fun as => as.id = aap.asTarget with
      | none => skipped
      | some as =>
          match r.usage pid with
          | none => skipped
          | some ps =>
              if as.Takes pid ps then
                { apps := modifyApp acc.apps as.id fun as => as.add ps
                  table := acc.table.insert pid { aap with update := true }
                  added := acc.added ++ [{ app := as.id, pid, ps }] }
              else skipped

/-- The first half of `collecting_apps_usage`, up to the end of the accumulation loop. -/
def accumulate (s : AppsState) (r : Reading) : Accumulation :=
  (r.order.arrange s.table.keys).foldl (Accumulation.visit r)
    { apps := s.apps.map AppStatus.zero, table := s.table }

/-! ## Cleaning up -/

/-- `__del_app_assoc_process`, with the removal from the table. -/
def delAppAssocProcess (s : AppsState) (pid : Pid) (aap : AppAssocProcess) : AppsState :=
  { s with
    apps := modifyApp s.apps aap.asTarget fun as =>
      { as with processCount := as.processCount - 1 }
    table := s.table.erase pid }

/-- One iteration of the loop that drops processes. -/
def dropProcess (s : AppsState) (pid : Pid) : AppsState :=
  match s.table.lookup pid with
  | none => s
  | some aap => if aap.update then s else delAppAssocProcess s pid aap

def dropApps (s : AppsState) : AppsState :=
  { s with apps := s.apps.filter fun as => as.processCount ≠ 0 }

/-- The state after the accumulation loop. -/
def accumulated (s : AppsState) (r : Reading) : AppsState :=
  { s with apps := (accumulate s r).apps, table := (accumulate s r).table }

/-- `collecting_apps_usage`. Both loops go through the table in the same order. -/
def collectingAppsUsage (s : AppsState) (r : Reading) : AppsState :=
  if s.apps = [] then s
  else dropApps ((r.order.arrange s.table.keys).foldl dropProcess (accumulated s r))

end XMonitor.Apps
