import XMonitor.Sock.SockTable

/-!
# The usage of a process

`COLLECTOR_PROCESS_USAGE` fills a `process_status` from the files of a process and
either succeeds or fails as a whole. Most of its numbers are read from a file and are
given here with the process. The open files are counted by `collector_process_fd_usage`,
which follows the links of `/proc/<pid>/fd` and looks the sockets among them up in the
table of sockets.
-/

namespace XMonitor.Apps

open Sock

/-- A process id. The kernel numbers processes from one. -/
abbrev Pid := Nat

/-- `struct sock_statistic`, the counters that are ever written. -/
structure SockStatistic where
  tcpEstablished : UInt16 := 0
  tcpCloseWait : UInt16 := 0
  tcpListen : UInt16 := 0
  tcp6Established : UInt16 := 0
  tcp6CloseWait : UInt16 := 0
  tcp6Listen : UInt16 := 0
  udpEstablished : UInt16 := 0
  udpClose : UInt16 := 0
  udp6Established : UInt16 := 0
  udp6Close : UInt16 := 0
  unixEstablished : UInt16 := 0
  unixRecv : UInt16 := 0
deriving DecidableEq

/-- An entry of `/proc/<pid>/fd`, with what `readlinkat` would give. -/
structure FdEntry where
  name : CString
  isLnk : Bool
  link : Option CString

/-- The number that `%u` scans: a sign is allowed, a digit is needed, and the value is
cut to 32 bits. -/
def scanUnsigned (s : CString) : Option UInt32 :=
  let unsigned (s : CString) : Option Nat :=
    match s.takeWhile Char.isDigit with
    | [] => none
    | digits =>
        let n := digits.foldl (fun n c => n * 10 + (c.toNat - '0'.toNat)) 0
        some (min (2 ^ 64 - 1) n)
  match s.dropWhile Char.isWhitespace with
  | '-' :: s => (unsigned s).map fun n => UInt32.ofInt (-n)
  | '+' :: s => (unsigned s).map UInt32.ofNat
  | s => (unsigned s).map UInt32.ofNat

/-- The mark of a link to a socket. -/
def socketMark : CString := "socket:[".toList

/-- The inode of the socket that a descriptor stands for, if it stands for one. -/
def FdEntry.sockIno (fd : FdEntry) : Option UInt32 :=
  if fd.isLnk then
    match fd.link with
    | none => none
    | some path =>
        let lnkPath := path.take 31
        if socketMark <+: lnkPath then scanUnsigned (lnkPath.drop socketMark.length) else none
  else none

/-- `isdigit(fd_entry->d_name[0])`. -/
def FdEntry.isFd (fd : FdEntry) : Bool := fd.name.head?.any Char.isDigit

/-- The nested switch over the type and the state of a socket. -/
def SockStatistic.countSock (sst : SockStatistic) (si : SockInfo) : SockStatistic :=
  match si.sockType with
  | .tcp =>
      if si.sockState = SS_ESTABLISHED then { sst with tcpEstablished := sst.tcpEstablished + 1 }
      else if si.sockState = SS_CLOSE_WAIT then { sst with tcpCloseWait := sst.tcpCloseWait + 1 }
      else if si.sockState = SS_LISTEN then { sst with tcpListen := sst.tcpListen + 1 }
      else sst
  | .tcp6 =>
      if si.sockState = SS_ESTABLISHED then { sst with tcp6Established := sst.tcp6Established + 1 }
      else if si.sockState = SS_CLOSE_WAIT then { sst with tcp6CloseWait := sst.tcp6CloseWait + 1 }
      else if si.sockState = SS_LISTEN then { sst with tcp6Listen := sst.tcp6Listen + 1 }
      else sst
  | .udp =>
      if si.sockState = SS_ESTABLISHED then { sst with udpEstablished := sst.udpEstablished + 1 }
      else if si.sockState = SS_CLOSE then { sst with udpClose := sst.udpClose + 1 }
      else sst
  | .udp6 =>
      if si.sockState = SS_ESTABLISHED then { sst with udp6Established := sst.udp6Established + 1 }
      else if si.sockState = SS_CLOSE then { sst with udp6Close := sst.udp6Close + 1 }
      else sst
  | .unix =>
      if si.sockState = SS_ESTABLISHED then { sst with unixEstablished := sst.unixEstablished + 1 }
      else if si.sockState = SS_SYN_RECV then { sst with unixRecv := sst.unixRecv + 1 }
      else sst

/-- What `collector_process_fd_usage` counts. -/
structure FdUsage where
  processOpenFds : Int32 := 0
  sst : SockStatistic := {}

/-- One iteration over the directory of descriptors. -/
def FdUsage.visit (table : SockTable) (usage : FdUsage) (fd : FdEntry) : FdUsage :=
  if fd.isFd then
    let usage := { usage with processOpenFds := usage.processOpenFds + 1 }
    match fd.sockIno with
    | none => usage
    | some ino =>
        match findSockInfo table ino with
        | none => usage
        | some si => { usage with sst := usage.sst.countSock si }
  else usage

/-- `collector_process_fd_usage`, which fails when the directory cannot be opened. -/
def collectorProcessFdUsage (table : SockTable) (fds : Option (List FdEntry)) :
    Option FdUsage :=
  fds.map fun fds => fds.foldl (FdUsage.visit table) {}

/-- What the files of a process hold when they are read. -/
structure ProcessFiles where
  ppid : Pid
  minflt : UInt64
  cminflt : UInt64
  majflt : UInt64
  cmajflt : UInt64
  utime : UInt64
  stime : UInt64
  cutime : UInt64
  cstime : UInt64
  processCpuJiffies : UInt64
  numThreads : Int32
  vmsize : UInt64
  rssAnon : UInt64
  rssFile : UInt64
  rssShmem : UInt64
  vmswap : UInt64
  smapsRss : UInt64
  smapsPss : UInt64
  smapsPssAnon : UInt64
  smapsPssFile : UInt64
  smapsPssShmem : UInt64
  smapsUss : UInt64
  ioLogicalBytesRead : UInt64
  ioLogicalBytesWritten : UInt64
  ioReadCalls : UInt64
  ioWriteCalls : UInt64
  ioStorageBytesRead : UInt64
  ioStorageBytesWritten : UInt64
  ioCancelledWriteBytes : Int32
  oomScore : Int16
  oomScoreAdj : Int16
  nvcsw : UInt64
  nivcsw : UInt64
  fds : Option (List FdEntry)

/-- `struct process_status` after a successful collection. -/
structure ProcessStatus extends ProcessFiles where
  processOpenFds : Int32
  sst : SockStatistic

/-- `COLLECTOR_PROCESS_USAGE`, for a process whose other files can be read. -/
def collectorProcessUsage (table : SockTable) (files : ProcessFiles) : Option ProcessStatus :=
  (collectorProcessFdUsage table files.fds).map fun usage =>
    { files with processOpenFds := usage.processOpenFds, sst := usage.sst }

end XMonitor.Apps
