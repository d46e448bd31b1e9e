import XMonitor.Apps.Totals

/-!
# The socket gauges of an app

The sockets of an app pass through three layers on their way to the gauges: a process
counts its descriptors by type and state, the counts of the processes are gathered in
the status of the app, and the counters are exported under the names of a type and a
state. Two steps go wrong. Gathering assigns the established TCPv6 sockets instead of
adding them, and the export exchanges the closed sockets of UDP and UDPv6.
-/

namespace XMonitor.Apps

open Sock

/-- The twelve gauges, by the pair of a type and a state they stand for. -/
inductive SockGauge
  | tcpEstablished | tcpCloseWait | tcpListen
  | tcp6Established | tcp6CloseWait | tcp6Listen
  | udpEstablished | udpClose | udp6Established | udp6Close
  | unixEstablished | unixRecv
deriving DecidableEq

namespace SockGauge

def sockType : SockGauge → SockType
  | tcpEstablished | tcpCloseWait | tcpListen => .tcp
  | tcp6Established | tcp6CloseWait | tcp6Listen => .tcp6
  | udpEstablished | udpClose => .udp
  | udp6Established | udp6Close => .udp6
  | unixEstablished | unixRecv => .unix

def sockState : SockGauge → SockState
  | tcpEstablished | tcp6Established | udpEstablished | udp6Established | unixEstablished =>
      SS_ESTABLISHED
  | tcpCloseWait | tcp6CloseWait => SS_CLOSE_WAIT
  | tcpListen | tcp6Listen => SS_LISTEN
  | udpClose | udp6Close => SS_CLOSE
  | unixRecv => SS_SYN_RECV

/-- The counter of the pair. -/
def field (sst : SockStatistic) : SockGauge → UInt16
  | tcpEstablished => sst.tcpEstablished
  | tcpCloseWait => sst.tcpCloseWait
  | tcpListen => sst.tcpListen
  | tcp6Established => sst.tcp6Established
  | tcp6CloseWait => sst.tcp6CloseWait
  | tcp6Listen => sst.tcp6Listen
  | udpEstablished => sst.udpEstablished
  | udpClose => sst.udpClose
  | udp6Established => sst.udp6Established
  | udp6Close => sst.udp6Close
  | unixEstablished => sst.unixEstablished
  | unixRecv => sst.unixRecv

end SockGauge

/-- `sock_state_name`. -/
def sockStateName (ss : SockState) : String :=
  (["UNKNOWN", "ESTABLISHED", "SYN_SENT", "SYN_RECV", "FIN_WAIT1", "FIN_WAIT2", "TIME_WAIT",
    "CLOSE", "CLOSE_WAIT", "LAST_ACK", "LISTEN", "CLOSING"][ss.toNat]?).getD "UNKNOWN"

/-- The labels of a gauge of `metric_sock_fds`, besides those of the app. -/
structure SockLabels where
  sockState : String
  sockType : String
deriving DecidableEq

/-- `__set_app_sock_metrics`: the gauges in the order in which they are set. -/
def setAppSockMetrics (sst : SockStatistic) : List (SockLabels × UInt16) :=
  [(⟨sockStateName SS_ESTABLISHED, "Tcp"⟩, sst.tcpEstablished),
    (⟨sockStateName SS_CLOSE_WAIT, "Tcp"⟩, sst.tcpCloseWait),
    (⟨sockStateName SS_LISTEN, "Tcp"⟩, sst.tcpListen),
    (⟨sockStateName SS_ESTABLISHED, "Tcp6"⟩, sst.tcp6Established),
    (⟨sockStateName SS_CLOSE_WAIT, "Tcp6"⟩, sst.tcp6CloseWait),
    (⟨sockStateName SS_LISTEN, "Tcp6"⟩, sst.tcp6Listen),
    (⟨sockStateName SS_ESTABLISHED, "Udp"⟩, sst.udpEstablished),
    (⟨sockStateName SS_CLOSE, "Udp"⟩, sst.udp6Close),
    (⟨sockStateName SS_ESTABLISHED, "Udp6"⟩, sst.udp6Established),
    (⟨sockStateName SS_CLOSE, "Udp6"⟩, sst.udpClose),
    (⟨sockStateName SS_ESTABLISHED, "UnixDomain"⟩, sst.unixEstablished),
    (⟨sockStateName SS_SYN_RECV, "UnixDomain"⟩, sst.unixRecv)]

def sockTypeName : SockType → String
  | .tcp => "Tcp"
  | .tcp6 => "Tcp6"
  | .udp => "Udp"
  | .udp6 => "Udp6"
  | .unix => "UnixDomain"

/-- The value of the gauge of a pair after the metrics were set. -/
def exportedGauge (sst : SockStatistic) (g : SockGauge) : Option UInt16 :=
  let labels : SockLabels := ⟨sockStateName g.sockState, sockTypeName g.sockType⟩
  ((setAppSockMetrics sst).reverse.find? fun m => m.1 = labels).map Prod.snd

/-! ## What the gauges should show -/

/-- The descriptor is a socket of the type and the state of the gauge. -/
def SockGauge.counts (table : SockTable) (g : SockGauge) (fd : FdEntry) : Bool :=
  fd.isFd && (fd.sockIno.bind (findSockInfo table)).any fun si =>
    si.sockType = g.sockType ∧ si.sockState = g.sockState

/-- The number of sockets of a process. -/
def SockGauge.ofProcess (table : SockTable) (g : SockGauge) (ps : ProcessStatus) : Nat :=
  (ps.fds.getD []).countP (g.counts table)

/-- The number of sockets of some processes. -/
def SockGauge.total (table : SockTable) (g : SockGauge) (l : List ProcessStatus) : Nat :=
  (l.map (g.ofProcess table)).sum

/-! ## The three layers -/

theorem field_countSock (sst : SockStatistic) (si : SockInfo) (g : SockGauge) :
    g.field (sst.countSock si) =
      g.field sst + if si.sockType = g.sockType ∧ si.sockState = g.sockState then 1 else 0 := by
  obtain ⟨ino, sockType, sockState⟩ := si
  by_cases htype : sockType = g.sockType
  · subst htype
    by_cases hstate : sockState = g.sockState
    · subst hstate
      rw [if_pos ⟨rfl, rfl⟩]
      cases g <;> rfl
    · -- another counter of the type is incremented, or none
      rw [if_neg fun h => hstate h.2, UInt16.add_zero]
      cases g <;> simp only [SockStatistic.countSock, SockGauge.sockType, SockGauge.sockState]
          at hstate ⊢ <;>
        split_ifs <;> first | contradiction | rfl
  · rw [if_neg fun h => htype h.1, UInt16.add_zero]
    cases sockType <;> simp only [SockStatistic.countSock] <;> split_ifs <;> cases g <;>
      first | rfl | exact absurd rfl htype

/-- A descriptor moves the counters of its socket only. -/
theorem field_visit (table : SockTable) (usage : FdUsage) (fd : FdEntry) (g : SockGauge) :
    g.field (usage.visit table fd).sst =
      g.field usage.sst + if g.counts table fd then 1 else 0 := by
  unfold FdUsage.visit SockGauge.counts
  cases fd.isFd with
  | false => simp
  | true =>
      cases fd.sockIno with
      | none => simp
      | some ino =>
          cases hfind : findSockInfo table ino with
          | none => simp [hfind]
          | some si => simp [hfind, field_countSock]

theorem field_foldl_visit (table : SockTable) (fds : List FdEntry) (usage : FdUsage)
    (g : SockGauge) :
    g.field (fds.foldl (FdUsage.visit table) usage).sst =
      g.field usage.sst + UInt16.ofNat (fds.countP (g.counts table)) := by
  induction fds generalizing usage with
  | nil => simp
  | cons fd fds ih =>
      rw [List.foldl_cons, ih, field_visit, List.countP_cons, UInt16.ofNat_add]
      split
      · rw [UInt16.add_assoc, UInt16.add_comm (UInt16.ofNat _)]
        rfl
      · simp

theorem field_empty (g : SockGauge) : g.field {} = 0 := by
  cases g <;> rfl

/-- A process counts its sockets. -/
theorem field_usage {r : Reading} {pid : Pid} {ps : ProcessStatus} (h : r.usage pid = some ps)
    (g : SockGauge) : g.field ps.sst = UInt16.ofNat (g.ofProcess r.sockTable ps) := by
  obtain ⟨files, -, h⟩ := Option.bind_eq_some_iff.mp h
  obtain ⟨usage, husage, rfl⟩ := Option.map_eq_some_iff.mp h
  obtain ⟨fds, hfds, rfl⟩ := Option.map_eq_some_iff.mp husage
  simp only [SockGauge.ofProcess, hfds, Option.getD_some]
  rw [field_foldl_visit, field_empty, UInt16.zero_add]

/-- Gathering adds all counters but one. -/
theorem field_gather (app ps : SockStatistic) (g : SockGauge) :
    g.field (gatherSockStatistics app ps) =
      if g = .tcp6Established then g.field ps else g.field app + g.field ps := by
  cases g <;> rfl

/-- The gauge whose counter is exported under the labels of a gauge. -/
def SockGauge.exchanged : SockGauge → SockGauge
  | udpClose => udp6Close
  | udp6Close => udpClose
  | g => g

theorem exportedGauge_eq (sst : SockStatistic) (g : SockGauge) :
    exportedGauge sst g = some (g.exchanged.field sst) := by
  cases g <;> rfl

theorem AppStatus.add_sst (as : AppStatus) (ps : ProcessStatus) :
    (as.add ps).sst = gatherSockStatistics as.sst ps.sst := by
  unfold AppStatus.add
  simp only
  split <;> rfl

/-! ## The sockets of an app -/

section App

variable {table : SockTable} {l : List ProcessStatus}

theorem field_foldl_add {g : SockGauge} (hg : g ≠ .tcp6Established)
    (hl : ∀ ps ∈ l, g.field ps.sst = UInt16.ofNat (g.ofProcess table ps)) (as : AppStatus) :
    g.field (l.foldl AppStatus.add as).sst = g.field as.sst + UInt16.ofNat (g.total table l) := by
  induction l generalizing as with
  | nil => simp [SockGauge.total]
  | cons ps l ih =>
      obtain ⟨hps, hl⟩ := List.forall_mem_cons.mp hl
      rw [List.foldl_cons, ih hl, AppStatus.add_sst, field_gather, if_neg hg, hps,
        SockGauge.total, SockGauge.total, List.map_cons, List.sum_cons, UInt16.ofNat_add,
        UInt16.add_assoc]

/-- Only the established TCPv6 sockets of the last process are left. -/
theorem tcp6Established_foldl_add
    (hl : ∀ ps ∈ l, ps.sst.tcp6Established =
      UInt16.ofNat (SockGauge.tcp6Established.ofProcess table ps))
    {as : AppStatus} (has : as.sst.tcp6Established = 0) :
    (l.foldl AppStatus.add as).sst.tcp6Established =
      UInt16.ofNat ((l.getLast?.map (SockGauge.tcp6Established.ofProcess table)).getD 0) := by
  cases l using List.reverseRecOn with
  | nil => simpa using has
  | append_singleton l ps =>
      rw [List.foldl_append, List.getLast?_concat]
      change ((l.foldl AppStatus.add as).add ps).sst.tcp6Established = _
      rw [AppStatus.add_sst]
      exact hl ps (by simp)

theorem last_le_total (g : SockGauge) :
    (l.getLast?.map (g.ofProcess table)).getD 0 ≤ g.total table l := by
  cases l using List.reverseRecOn with
  | nil => simp
  | append_singleton l ps => simp [SockGauge.total]

/-- The last process has all the sockets exactly if the others have none. -/
theorem last_eq_total_iff (g : SockGauge) :
    (l.getLast?.map (g.ofProcess table)).getD 0 = g.total table l ↔
      ∀ ps ∈ l.dropLast, g.ofProcess table ps = 0 := by
  cases l using List.reverseRecOn with
  | nil => simp [SockGauge.total]
  | append_singleton l ps =>
      simp [SockGauge.total, List.sum_eq_zero_iff_forall_eq_nat]

end App

theorem usage_of_mem_aggregated {s : AppsState} {r : Reading} {id : Nat} {ps : ProcessStatus}
    (h : ps ∈ s.aggregated r id) : ∃ pid, r.usage pid = some ps := by
  obtain ⟨a, ha, rfl⟩ := List.mem_map.mp h
  obtain ⟨pid, -, hadds⟩ := List.mem_filterMap.mp (List.mem_filter.mp ha).1
  obtain ⟨aap, -, hadds⟩ := Option.bind_eq_some_iff.mp hadds
  obtain ⟨as, -, hadds⟩ := Option.bind_eq_some_iff.mp hadds
  obtain ⟨ps, hps, hadds⟩ := Option.bind_eq_some_iff.mp hadds
  refine ⟨pid, ?_⟩
  split at hadds
  · rw [hps, ← Option.some.inj hadds]
  · cases hadds

/-- Dropping processes does not touch the counters. -/
theorem foldl_dropProcess_sst (s : AppsState) (pids : List Pid) :
    (pids.foldl dropProcess s).apps.map (fun as => (as.id, as.sst)) =
      s.apps.map fun as => (as.id, as.sst) := by
  induction pids generalizing s with
  | nil => rfl
  | cons pid pids ih =>
      rw [List.foldl_cons, ih, dropProcess]
      cases s.table.lookup pid with
      | none => rfl
      | some aap =>
          simp only
          split
          · rfl
          · exact map_modifyApp fun _ => rfl

/-- The counters of an app that survives a collection are those of its processes. -/
theorem collectingAppsUsage_sst {s : AppsState} {r : Reading} {as : AppStatus}
    (h : as ∈ (collectingAppsUsage s r).apps) :
    ∃ old : AppStatus, as.sst = ((s.aggregated r as.id).foldl AppStatus.add old.zero).sst := by
  unfold collectingAppsUsage at h
  split at h
  · rename_i hempty
    rw [hempty] at h
    cases h
  · have hmem := List.mem_map_of_mem (List.mem_filter.mp h).1 (f := fun as => (as.id, as.sst))
    rw [foldl_dropProcess_sst] at hmem
    simp only [accumulated, accumulate_apps, List.map_map] at hmem
    obtain ⟨old, -, heq⟩ := List.mem_map.mp hmem
    obtain ⟨hid, hsst⟩ := Prod.mk.inj heq
    have hid : old.id = as.id := (foldl_add_shape _ old.zero).1.symm.trans hid
    exact ⟨old, hid ▸ hsst.symm⟩

/-- The gauges of an app show the number of its sockets. -/
def GaugesExact (table : SockTable) (as : AppStatus) (l : List ProcessStatus) : Prop :=
  ∀ g, (exportedGauge as.sst g).map UInt16.toNat = some (g.total table l)

theorem gaugesExact_iff {table : SockTable} {as old : AppStatus} {l : List ProcessStatus}
    (hsst : as.sst = (l.foldl AppStatus.add old.zero).sst)
    (hl : ∀ ps ∈ l, ∀ g : SockGauge, g.field ps.sst = UInt16.ofNat (g.ofProcess table ps))
    (hsmall : ∀ g : SockGauge, g.total table l < 2 ^ 16) :
    GaugesExact table as l ↔
      (∀ ps ∈ l.dropLast, SockGauge.tcp6Established.ofProcess table ps = 0) ∧
        SockGauge.udpClose.total table l = SockGauge.udp6Close.total table l := by
  have hfield (g : SockGauge) (hg : g ≠ .tcp6Established) :
      (g.field as.sst).toNat = g.total table l := by
    have hzero : g.field old.zero.sst = 0 := field_empty g
    rw [hsst, field_foldl_add hg (fun ps hps => hl ps hps g), hzero, UInt16.zero_add,
      UInt16.toNat_ofNat', Nat.mod_eq_of_lt (hsmall g)]
  have hlast : as.sst.tcp6Established.toNat =
      (l.getLast?.map (SockGauge.tcp6Established.ofProcess table)).getD 0 := by
    rw [hsst, tcp6Established_foldl_add (fun ps hps => hl ps hps .tcp6Established) rfl,
      UInt16.toNat_ofNat', Nat.mod_eq_of_lt]
    exact Nat.lt_of_le_of_lt (last_le_total .tcp6Established) (hsmall .tcp6Established)
  rw [← last_eq_total_iff]
  simp only [GaugesExact, exportedGauge_eq, Option.map_some, Option.some.injEq]
  constructor
  · intro h
    refine ⟨hlast.symm.trans (h .tcp6Established), ?_⟩
    exact (hfield .udpClose (by decide)).symm.trans (h .udp6Close)
  · rintro ⟨htcp6, hudp⟩ g
    cases g with
    | tcp6Established => exact hlast.trans htcp6
    | udpClose => exact (hfield .udp6Close (by decide)).trans hudp.symm
    | udp6Close => exact (hfield .udpClose (by decide)).trans hudp
    | tcpEstablished | tcpCloseWait | tcpListen | tcp6CloseWait | tcp6Listen | udpEstablished
    | udp6Established | unixEstablished | unixRecv => exact hfield _ (by decide)

/-- The socket gauges of an app are right after a collection exactly if only the process
that was visited last has established TCPv6 sockets and there are as many closed sockets
of UDP as of UDPv6. -/
theorem sock_gauges_exact_iff {s : AppsState} {r : Reading} {as : AppStatus}
    (h : as ∈ (collectingAppsUsage s r).apps)
    (hsmall : ∀ g : SockGauge, g.total r.sockTable (s.aggregated r as.id) < 2 ^ 16) :
    GaugesExact r.sockTable as (s.aggregated r as.id) ↔
      (∀ ps ∈ (s.aggregated r as.id).dropLast,
          SockGauge.tcp6Established.ofProcess r.sockTable ps = 0) ∧
        SockGauge.udpClose.total r.sockTable (s.aggregated r as.id) =
          SockGauge.udp6Close.total r.sockTable (s.aggregated r as.id) := by
  obtain ⟨old, hsst⟩ := collectingAppsUsage_sst h
  refine gaugesExact_iff hsst (fun ps hps g => ?_) hsmall
  obtain ⟨pid, husage⟩ := usage_of_mem_aggregated hps
  exact field_usage husage g

/-- An open socket with the inode 5. -/
def socketFive : FdEntry where
  name := "3".toList
  isLnk := true
  link := some "socket:[5]".toList

/-- The reading of a socket of the given type and state, which all processes have open. -/
def sockReading (sockType : SockType) (sockState : SockState) : Reading where
  order := tableOrder
  sockTable ino :=
    if ino = 5 then some { si := { ino, sockType, sockState }, isUpdate := 1 } else none
  files pid := some { plainFiles (pid - 1) 0 with fds := some [socketFive] }

/-- The app after a collection of such a reading. -/
def sockApp (sockType : SockType) (sockState : SockState) : AppStatus :=
  ((collectingAppsUsage (appRun [dbUpdate]) (sockReading sockType sockState)).apps.head?).getD
    { id := 0, appName := "", appTypeName := "", appPid := 0 }

/-- A listening socket that two processes share is counted for both. -/
theorem listening_sockets_counted :
    GaugesExact (sockReading .tcp SS_LISTEN).sockTable (sockApp .tcp SS_LISTEN)
      ((appRun [dbUpdate]).aggregated (sockReading .tcp SS_LISTEN) 0) := by
  have happ : sockApp .tcp SS_LISTEN ∈
      (collectingAppsUsage (appRun [dbUpdate]) (sockReading .tcp SS_LISTEN)).apps :=
    List.mem_of_mem_head? rfl
  have hsmall (g : SockGauge) : g.total (sockReading .tcp SS_LISTEN).sockTable
      ((appRun [dbUpdate]).aggregated (sockReading .tcp SS_LISTEN) 0) < 2 ^ 16 := by
    cases g <;> decide
  exact (sock_gauges_exact_iff happ hsmall).mpr ⟨by decide, by decide⟩

/-- Two processes with the same TCPv6 connection are shown as one. -/
theorem tcp6_connections_lost :
    ¬ GaugesExact (sockReading .tcp6 SS_ESTABLISHED).sockTable (sockApp .tcp6 SS_ESTABLISHED)
      ((appRun [dbUpdate]).aggregated (sockReading .tcp6 SS_ESTABLISHED) 0) := by
  intro h
  exact absurd (h .tcp6Established) (by decide)

end XMonitor.Apps
