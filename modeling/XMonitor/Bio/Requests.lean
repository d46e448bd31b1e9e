import XMonitor.Lib.BpfHash
import XMonitor.Profile.Walk
import XMonitor.Utils.LatencyHistogram

/-!
# The block request programs

The programs of `xm_bio` follow the requests of the block devices. A request is stamped
when it is inserted into a dispatch queue and when it is issued to the driver, and not
every request is inserted. When it completes, its latencies are counted in the entry of
its device, and a slow request is reported with the process that caused it.

The exporter reads the entries from time to time and resets each that it has read. An event
carries what a program reads while it runs: the clock, the fields of the request, and the
record that the ring buffer reserves, with the bytes it holds already.
-/

namespace XMonitor.Bio

open XMonitor Profile

/-- `struct bio_req_stage`, where 0 means that the request has not been there. -/
structure BioReqStage where
  insert : UInt64
  issue : UInt64
deriving DecidableEq

/-- `struct bio_pid_data`. -/
structure BioPidData where
  tid : Int32
  pid : Int32
  comm : Vector UInt8 16
deriving DecidableEq

/-- `struct xm_bio_key`. -/
structure XmBioKey where
  major : Int32
  firstMinor : Int32
  cmdFlags : UInt8
deriving DecidableEq

/-- `struct xm_bio_data`. -/
structure XmBioData where
  reqInQueueLatencySlots : LatencySlots
  reqLatencySlots : LatencySlots
  bytes : UInt64
  lastSector : UInt64
  sequentialCount : UInt64
  randomCount : UInt64
  reqErrCount : UInt64

/-- `__zero_bio_info`, and `__zeroBioInfoMapData` of the exporter. -/
def zeroBioInfo : XmBioData where
  reqInQueueLatencySlots _ := 0
  reqLatencySlots _ := 0
  bytes := 0
  lastSector := 0
  sequentialCount := 0
  randomCount := 0
  reqErrCount := 0

/-- `struct xm_bio_request_latency_evt_data`. -/
structure EvtData where
  len : UInt64
  reqInQueueLatencyUs : Int
  reqLatencyUs : Int
  major : Int32
  firstMinor : Int32
  tid : Int32
  pid : Int32
  cmdFlags : UInt8
  comm : Vector UInt8 16
deriving DecidableEq

/-- The constants that are set when the programs are loaded. -/
structure Args where
  filterPerCmdFlag : Bool
  requestMinLatencyNs : Int

/-- What the programs read of a `struct request` when it completes: the numbers of its disk,
if it has one, its flags and its first sector. -/
structure Request where
  disk : Option (Int32 × Int32)
  cmdFlags : UInt32
  sector : UInt64
deriving DecidableEq

abbrev BioInfoMap := BpfHash XmBioKey XmBioData 1024

/-- A request is known by its address. -/
structure State where
  requestPidData : BpfHash UInt64 BioPidData 10240
  requestStart : BpfHash UInt64 BioReqStage 10240
  bioInfo : BioInfoMap
  /-- The records submitted to the ring buffer, oldest first. -/
  sent : List EvtData

def State.init : State where
  requestPidData := BpfHash.empty
  requestStart := BpfHash.empty
  bioInfo := BpfHash.empty
  sent := []

/-! ## Stages -/

/-- `xm_trace_request`. The stamp of a known request is written in place. -/
def traceRequest (rq : UInt64) (insert : Bool) (nowNs : UInt64) (s : State) : State :=
  let stage := (s.requestStart.lookup rq).getD ⟨0, 0⟩
  if insert then
    { s with requestStart := s.requestStart.put rq { stage with insert := nowNs } }
  else if duration nowNs stage.insert < 0 then
    { s with requestStart := s.requestStart.delete rq }
  else
    { s with requestStart := s.requestStart.put rq { stage with issue := nowNs } }

/-- The latencies of a request in microseconds, and the whole one in nanoseconds. -/
structure Latency where
  inQueueDelta : Int
  completeDelta : Int
  delta : Int
deriving DecidableEq

/-- The latencies of a request that completes, unless its stamps are out of order. -/
def BioReqStage.latency (stage : BioReqStage) (nowNs : UInt64) : Option Latency :=
  if stage.insert ≠ 0 then
    let queued := duration stage.issue stage.insert
    let delta := duration nowNs stage.insert
    if queued < 0 then none
    else if delta < 0 then none
    else some ⟨queued / 1000, delta / 1000, delta⟩
  else
    let delta := duration nowNs stage.issue
    if delta < 0 then none else some ⟨0, delta / 1000, delta⟩

/-! ## Counts -/

/-- The key of the device of a request, if it has a disk. -/
def Args.bioKey (a : Args) (req : Request) : Option XmBioKey :=
  req.disk.map fun disk =>
    { major := disk.1
      firstMinor := disk.2
      cmdFlags := if a.filterPerCmdFlag then (req.cmdFlags &&& 0xFF).toUInt8 else 0 }

/-- A request that completes, as it is counted. -/
structure Completion where
  sector : UInt64
  nrBytes : UInt32
  error : Int32
  latency : Latency
deriving DecidableEq

/-- The sector after the last one of a request. -/
def Completion.endSector (c : Completion) : UInt64 := c.sector + (c.nrBytes >>> 9).toUInt64

/-- A request is sequential or random if the last sector of its device is known. -/
def XmBioData.countSector (data : XmBioData) (c : Completion) : XmBioData :=
  if data.lastSector ≠ 0 then
    let data :=
      if data.lastSector = c.sector then
        { data with sequentialCount := updateU64 data.sequentialCount 1 }
      else
        { data with randomCount := updateU64 data.randomCount 1 }
    { data with bytes := updateU64 data.bytes c.nrBytes.toUInt64 }
  else data

def XmBioData.countError (data : XmBioData) (c : Completion) : XmBioData :=
  if c.error < 0 then { data with reqErrCount := updateU64 data.reqErrCount 1 } else data

/-- The slot of a latency. -/
def slotOf (us : Int) : Fin 20 := latencySlot (UInt64.ofNat us.toNat)

def XmBioData.countLatency (data : XmBioData) (c : Completion) : XmBioData :=
  { data with
    reqInQueueLatencySlots := data.reqInQueueLatencySlots.add (slotOf c.latency.inQueueDelta)
    reqLatencySlots := data.reqLatencySlots.add (slotOf c.latency.completeDelta) }

/-- What a completion changes in the entry of its device. -/
def XmBioData.count (data : XmBioData) (c : Completion) : XmBioData :=
  let data := data.countSector c
  let data := { data with lastSector := c.endSector }
  (data.countError c).countLatency c

/-- The record of a slow request, which leaves the process of the reserved record if the
request has none. -/
def slowEvt (key : XmBioKey) (stage : BioReqStage) (c : Completion) (bpd : Option BioPidData)
    (reserved : EvtData) : EvtData where
  len := c.nrBytes.toUInt64
  reqInQueueLatencyUs := if stage.insert = 0 then -1 else c.latency.inQueueDelta
  reqLatencyUs := c.latency.completeDelta
  major := key.major
  firstMinor := key.firstMinor
  tid := bpd.elim reserved.tid (·.tid)
  pid := bpd.elim reserved.pid (·.pid)
  cmdFlags := key.cmdFlags
  comm := bpd.elim (reserved.comm.set 0 '?'.val.toUInt8) (·.comm)

/-- The entry of a device counts a completion, unless there is no room for the entry. -/
def countCompletion (key : XmBioKey) (c : Completion) (m : BioInfoMap) : BioInfoMap :=
  match m.lookupOrTryInit key zeroBioInfo with
  | none => m
  | some (m', data) => m'.put key (data.count c)

/-- A completion with the key of its device, if the request has a start entry, the stamps of
this are in order and the request has a disk. -/
def State.completion (s : State) (a : Args) (rq : UInt64) (req : Request) (error : Int32)
    (nrBytes : UInt32) (nowNs : UInt64) : Option (BioReqStage × XmBioKey × Completion) :=
  (s.requestStart.lookup rq).bind fun stage =>
    (stage.latency nowNs).bind fun latency =>
      (a.bioKey req).map fun key =>
        (stage, key, { sector := req.sector, nrBytes, error, latency })

/-- The part of `xm_tp_btf__block_rq_complete` that counts. -/
def State.account (s : State) (a : Args) (rq : UInt64) (stage : BioReqStage) (key : XmBioKey)
    (c : Completion) (reserved : Option EvtData) : State :=
  if (s.bioInfo.lookupOrTryInit key zeroBioInfo).isSome then
    { s with
      bioInfo := countCompletion key c s.bioInfo
      sent :=
        if a.requestMinLatencyNs ≤ c.latency.delta then
          s.sent ++ (reserved.map (slowEvt key stage c (s.requestPidData.lookup rq))).toList
        else s.sent }
  else s

/-- The end of `xm_tp_btf__block_rq_complete`. -/
def State.cleanup (s : State) (rq : UInt64) : State :=
  { s with
    requestStart := s.requestStart.delete rq
    requestPidData := s.requestPidData.delete rq }

/-- `xm_tp_btf__block_rq_complete`. -/
def blockRqComplete (a : Args) (rq : UInt64) (req : Request) (error : Int32) (nrBytes : UInt32)
    (nowNs : UInt64) (reserved : Option EvtData) (s : State) : State :=
  if (s.requestStart.lookup rq).isSome then
    match s.completion a rq req error nrBytes nowNs with
    | some (stage, key, c) => (s.account a rq stage key c reserved).cleanup rq
    | none => s.cleanup rq
  else s

/-! ## The exporter -/

/-- A partition that the exporter finds in `/proc/partitions`. -/
structure Partition where
  major : UInt32
  minor : UInt32
deriving DecidableEq

/-- The end of `bioProgram.Update` for a key that it has read: the entry of a device that is
still there is set to zero, which fails if there is no entry, and another is deleted. -/
def resetEntry (partitions : List Partition) (key : XmBioKey) (m : BioInfoMap) : BioInfoMap :=
  if partitions.any fun p =>
      p.major = key.major.toUInt32 && p.minor = key.firstMinor.toUInt32 then
    match m.lookup key with
    | some _ => m.put key zeroBioInfo
    | none => m
  else m.delete key

/-- What happens, in the order in which it happens. -/
inductive Event where
  /-- `blk_account_io_start` or one of the other two probes. -/
  | account (rq : UInt64) (bpd : BioPidData)
  | insert (rq : UInt64) (nowNs : UInt64)
  | issue (rq : UInt64) (nowNs : UInt64)
  | complete (rq : UInt64) (req : Request) (error : Int32) (nrBytes : UInt32) (nowNs : UInt64)
      (reserved : Option EvtData)
  | reset (partitions : List Partition) (key : XmBioKey)

def State.step (a : Args) (s : State) : Event → State
  | .account rq bpd => { s with requestPidData := s.requestPidData.put rq bpd }
  | .insert rq nowNs => traceRequest rq true nowNs s
  | .issue rq nowNs => traceRequest rq false nowNs s
  | .complete rq req error nrBytes nowNs reserved =>
      blockRqComplete a rq req error nrBytes nowNs reserved s
  | .reset partitions key => { s with bioInfo := resetEntry partitions key s.bioInfo }

def run (a : Args) (events : List Event) : State := events.foldl (State.step a) State.init

/-! ## What a step changes in the entries -/

/-- The completion that an event adds to the entry of its device. -/
def State.recorded (s : State) (a : Args) : Event → Option (XmBioKey × Completion)
  | .complete rq req error nrBytes nowNs _ =>
      (s.completion a rq req error nrBytes nowNs).bind fun r =>
        if (s.bioInfo.lookupOrTryInit r.2.1 zeroBioInfo).isSome then some r.2 else none
  | _ => none

theorem step_bioInfo_complete (a : Args) (s : State) (rq : UInt64) (req : Request) (error : Int32)
    (nrBytes : UInt32) (nowNs : UInt64) (reserved : Option EvtData) :
    (s.step a (.complete rq req error nrBytes nowNs reserved)).bioInfo =
      match s.completion a rq req error nrBytes nowNs with
      | some (_, key, c) => countCompletion key c s.bioInfo
      | none => s.bioInfo := by
  rw [State.step, blockRqComplete]
  split
  · cases hcompletion : s.completion a rq req error nrBytes nowNs with
    | none => rfl
    | some r =>
        obtain ⟨stage, key, c⟩ := r
        simp only [State.cleanup, State.account, countCompletion]
        cases s.bioInfo.lookupOrTryInit key zeroBioInfo <;> rfl
  · rename_i hnone
    rw [State.completion, Option.not_isSome_iff_eq_none.mp hnone]
    rfl

theorem step_requestStart_complete (a : Args) (s : State) (rq : UInt64) (req : Request)
    (error : Int32) (nrBytes : UInt32) (nowNs : UInt64) (reserved : Option EvtData) (rq' : UInt64) :
    (s.step a (.complete rq req error nrBytes nowNs reserved)).requestStart.lookup rq' =
      if rq' = rq then none else s.requestStart.lookup rq' := by
  rw [State.step, blockRqComplete]
  split
  · cases s.completion a rq req error nrBytes nowNs with
    | none => rfl
    | some r =>
        simp only [State.cleanup, State.account]
        split <;> rfl
  · rename_i hnone
    split
    · rename_i heq
      rw [heq]
      exact Option.not_isSome_iff_eq_none.mp hnone
    · rfl

end XMonitor.Bio
