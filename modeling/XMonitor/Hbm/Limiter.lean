import Mathlib.Algebra.GroupWithZero.Nat
import Mathlib.Algebra.Ring.Int.Defs

/-!
# The rate limiter of a cgroup

`xm_hbm_edt_out` runs for every packet that a cgroup sends. It keeps in `last_time` the
time at which the next packet may leave, stamps the packet with it, and drops or marks
the packet when that time is too far ahead of the clock.

A packet is modelled with everything that the program reads while it handles it: the
fields of the socket buffer, the configuration it finds for the cgroup, the clock, and
the results of the helpers that set the congestion mark and draw a random number. The
definitions follow the program from its entry to the update of the statistics. What the
parts do when several packets are handled at once is the matter of `Hbm.Machine`.
-/

namespace XMonitor.Hbm

def burstSizeNs : Nat := 300000
def markThreshNs : Nat := 150000
def dropThreshNs : Nat := 800000
def largePktDropThreshNs : Nat := dropThreshNs - 100000
def largePktThresh : Nat := 120
def markRegionSizeNs : Nat := largePktDropThreshNs - markThreshNs
def l2OverheadBytes : UInt32 := 24

/-- The part of `struct bpf_tcp_sock` that is read. -/
structure BpfTcpSock where
  sndCwnd : UInt32
  srttUs : UInt32
  packetsOut : UInt32

/-- A full socket. -/
structure BpfSock where
  protocol : UInt32
  tcpSock : Option BpfTcpSock

/-- The part of `struct __sk_buff` that is read. The segments are counted by the
kernel in 16 bits. -/
structure SkBuff where
  len : UInt32
  gsoSegs : UInt16
  ifindex : UInt32
  data : List UInt8
  fullsock : Option BpfSock

/-- The fields of `struct hbm_edt_stats` that configure the limiter. `no_cn` is documented as
the wish not to be told about congestion; no code reads it. -/
structure HbmEdtConfig where
  customRateMbps : UInt32
  stats : Bool
  noLoopback : Bool
  noCn : Bool := false

structure Packet where
  skb : SkBuff
  hes : Option HbmEdtConfig
  /-- Whether `bpf_get_local_storage` returns the information of the cgroup. -/
  storage : Bool
  nowNs : UInt64
  /-- The result of `bpf_skb_ecn_set_ce`. -/
  ecnSetCe : Bool
  randLen : UInt32

structure HbmSkbInfo where
  cwnd : Int32 := 0
  rtt : Int32 := 0
  packetsOut : Int32 := 0
  isIp : Bool := false
  isTcp : Bool := false
  ecn : Int16 := 0

/-- `struct hbm_edt_info`, without its lock. -/
structure HbmEdtInfo where
  lastTime : UInt64
  rateMbps : UInt32
  nsPerByte : UInt32
  deriving DecidableEq

/-! ## Reading the packet -/

def ipprotoTcp : Nat := 6
def inetEcnMask : UInt8 := 3

/-- `__xm_get_tcp_info`. -/
def getTcpInfo (skb : SkBuff) (hsi : HbmSkbInfo) : HbmSkbInfo :=
  match skb.fullsock with
  | some sk =>
      if sk.protocol.toNat = ipprotoTcp then
        match sk.tcpSock with
        | some tp =>
            { hsi with
              cwnd := tp.sndCwnd.toInt32
              rtt := (tp.srttUs >>> 3).toInt32
              packetsOut := tp.packetsOut.toInt32 }
        | none => { hsi with cwnd := 0, rtt := 0, packetsOut := 0 }
      else { hsi with cwnd := 0, rtt := 0, packetsOut := 0 }
  | none => { hsi with cwnd := 0, rtt := 0, packetsOut := 0 }

/-- What the header says, for a version, the length of its header, and the places of
the next protocol and of the bits for congestion. -/
def headerInfo (data : List UInt8) (headerLen protocol : Nat) (ecn : UInt8) : HbmSkbInfo :=
  if data.length < headerLen then {}
  else
    { isIp := true
      isTcp := (data.getD protocol 0).toNat = ipprotoTcp
      ecn := (ecn &&& inetEcnMask).toUInt16.toInt16 }

/-- `__xm_get_hbm_skb_info`. -/
def getHbmSkbInfo (skb : SkBuff) : HbmSkbInfo :=
  let version := skb.data.getD 0 0 >>> 4
  let hsi : HbmSkbInfo :=
    if skb.data = [] then {}
    else if version = 6 then headerInfo skb.data 40 6 (skb.data.getD 1 0 >>> 4)
    else if version = 4 then headerInfo skb.data 20 9 (skb.data.getD 1 0)
    else {}
  if hsi.isTcp then getTcpInfo skb hsi else hsi

/-- Packets that pass without the limiter: the cgroup is not configured, loopback is
exempted, or there is no storage. -/
def Packet.exempt (p : Packet) : Bool :=
  match p.hes with
  | none => true
  | some hes => (hes.noLoopback && p.skb.ifindex == 1) || !p.storage

def Packet.hsi (p : Packet) : HbmSkbInfo := getHbmSkbInfo p.skb

def Packet.segs (p : Packet) : UInt32 :=
  if p.hsi.isTcp ∧ 1 < p.skb.gsoSegs then p.skb.gsoSegs.toUInt32 else 1

def Packet.tcpGsoFlag (p : Packet) : Bool := 1 < p.segs

/-- `skb_len`, with the overhead of the segments. -/
def Packet.skbLen (p : Packet) : UInt64 :=
  p.skb.len.toUInt64 + (p.segs * l2OverheadBytes).toUInt64

def Packet.customRateMbps (p : Packet) : UInt32 := (p.hes.map HbmEdtConfig.customRateMbps).getD 0

/-! ## The rate -/

/-- `ns_per_byte` for a rate that is not zero. The sum wraps for the largest rates. -/
def nsPerByteOf (denom : UInt32) : UInt32 :=
  let nspb := (8000 + denom - 1) / denom
  if nspb ≠ 0 then nspb else 1

/-- The branches of `__xm_hbm_init_or_update`. -/
inductive InitBranch where
  | init
  | update
  | skip

/-- The tests that are made before the lock is taken. -/
def initBranch (hei : HbmEdtInfo) (rateMbps : UInt32) : InitBranch :=
  if hei.lastTime = 0 ∨ hei.rateMbps = 0 then .init
  else if rateMbps ≠ 0 ∧ rateMbps ≠ hei.rateMbps then .update
  else .skip

/-- The part of a branch that runs under the lock. -/
def lockedInit (hei : HbmEdtInfo) (nowNs : UInt64) (rateMbps : UInt32) :
    InitBranch → HbmEdtInfo
  | .init =>
      if hei.lastTime = 0 ∨ hei.rateMbps = 0 then
        let rate := if rateMbps ≠ 0 then rateMbps else 100
        let denom := if rate ≠ 0 then rate else 1
        { rateMbps := rate
          nsPerByte := nsPerByteOf denom
          lastTime := if hei.lastTime = 0 then nowNs - .ofNat burstSizeNs else hei.lastTime }
      else hei
  | .update =>
      if rateMbps ≠ 0 ∧ rateMbps ≠ hei.rateMbps then
        { hei with rateMbps := rateMbps, nsPerByte := nsPerByteOf rateMbps }
      else hei
  | .skip => hei

/-- `__xm_hbm_init_or_update`. -/
def hbmInitOrUpdate (hei : HbmEdtInfo) (nowNs : UInt64) (rateMbps : UInt32) : HbmEdtInfo :=
  lockedInit hei nowNs rateMbps (initBranch hei rateMbps)

/-! ## The budget and the decision -/

/-- What the critical section computes for a packet. -/
structure Admission where
  delta : Int
  sendTime : UInt64
  delayNs : UInt64

/-- The critical section: clip the credit, take the time for the packet and advance it. -/
def criticalSection (hei : HbmEdtInfo) (nowNs skbLen : UInt64) : HbmEdtInfo × Admission :=
  let delta := (hei.lastTime - nowNs).toInt64.toInt
  let clipped := delta < -burstSizeNs
  let sendTime := if clipped then nowNs - .ofNat burstSizeNs else hei.lastTime
  let delayNs := skbLen * hei.nsPerByte.toUInt64
  ({ hei with lastTime := sendTime + delayNs },
    { delta := if clipped then -burstSizeNs else delta, sendTime, delayNs })

structure Verdict where
  dropFlag : Bool := false
  cwrFlag : Bool := false
  congestionFlag : Bool := false
  ecnCeFlag : Bool := false
  deriving DecidableEq

def Packet.isLargePkt (p : Packet) : Bool := largePktThresh < p.skbLen.toNat

/-- The decision by the thresholds. -/
def Packet.thresholdVerdict (p : Packet) (delta : Int) : Verdict :=
  if dropThreshNs < delta ∨ largePktDropThreshNs < delta ∧ p.isLargePkt then
    { dropFlag := true, cwrFlag := p.hsi.isTcp && p.hsi.ecn == 0 }
  else if markThreshNs < delta then
    if p.hsi.isTcp then { congestionFlag := true } else { dropFlag := true }
  else {}

/-- The handling of congestion. -/
def Packet.markVerdict (p : Packet) (delta : Int) (v : Verdict) : Verdict :=
  if v.congestionFlag then
    if p.ecnSetCe then { v with ecnCeFlag := true }
    else if p.hsi.isTcp then
      if ((markThreshNs + p.randLen.toNat % markRegionSizeNs : Nat) : Int) ≤ delta then
        { v with cwrFlag := true }
      else v
    else if p.isLargePkt then { v with dropFlag := true, congestionFlag := false }
    else v
  else v

def Packet.verdict (p : Packet) (delta : Int) : Verdict :=
  p.markVerdict delta (p.thresholdVerdict delta)

def dropPkt : Nat := 0
def keepPkt : Nat := 1
def cwr : Nat := 2

/-- The value that is returned to the kernel. -/
def Verdict.ret (v : Verdict) : Nat :=
  let ret := if v.dropFlag then dropPkt else keepPkt
  if v.cwrFlag then ret ||| cwr else ret

/-- The roll back of a packet that is dropped. -/
def rollBack (hei : HbmEdtInfo) (delayNs : UInt64) : HbmEdtInfo :=
  { hei with lastTime := hei.lastTime + -delayNs }

/-! ## The statistics -/

/-- The counters of `struct hbm_edt_stats`. -/
inductive Counter where
  | bytesTotal
  | pktsTotal
  | bytesDropped
  | pktsDropped
  | bytesMarked
  | pktsMarked
  | sumCwnd
  | sumRtt
  | sumCwndCnt
  | pktsEcnCe
  | returnValCount (ret : Fin 4)
  | pktsTcpGso
  deriving DecidableEq

abbrev Counters := Counter → UInt64

/-- The atomic additions of `__xm_hbm_edt_update_stats`, in order. -/
def updateStats (skbLen : UInt32) (v : Verdict) (tcpGsoFlag : Bool) (hsi : HbmSkbInfo) :
    List (Counter × UInt64) :=
  [(.bytesTotal, skbLen.toUInt64), (.pktsTotal, 1)] ++
  (if v.congestionFlag then [(.bytesMarked, skbLen.toUInt64), (.pktsMarked, 1)] else []) ++
  (if v.dropFlag then [(.bytesDropped, skbLen.toUInt64), (.pktsDropped, 1)] else []) ++
  (if v.ecnCeFlag then [(.pktsEcnCe, 1)] else []) ++
  (if 0 < hsi.cwnd then [(.sumCwnd, hsi.cwnd.toInt64.toUInt64), (.sumCwndCnt, 1)] else []) ++
  (if hsi.rtt ≠ 0 then [(.sumRtt, hsi.rtt.toInt64.toUInt64)] else []) ++
  [(.returnValCount (Fin.ofNat 4 v.ret), 1)] ++
  (if tcpGsoFlag then [(.pktsTcpGso, 1)] else [])

def addTo (counters : Counters) (add : Counter × UInt64) : Counters :=
  fun c => if c = add.1 then counters c + add.2 else counters c

/-- What the program adds to the statistics for a packet. -/
def Packet.updates (p : Packet) (delta : Int) : List (Counter × UInt64) :=
  if (p.hes.map HbmEdtConfig.stats).getD false then
    updateStats p.skbLen.toUInt32 (p.verdict delta) p.tcpGsoFlag p.hsi
  else []

/-! ## The program -/

structure Cgroup where
  hei : HbmEdtInfo
  counters : Counters

/-- What happens to a packet: the value returned and, for a packet that is not exempt,
what the critical section has computed. `skb->tstamp` is set to its `sendTime`. -/
structure Outcome where
  ret : Nat
  admission : Option Admission

/-- `xm_hbm_edt_out`. -/
def xmHbmEdtOut (st : Cgroup) (p : Packet) : Cgroup × Outcome :=
  if p.exempt then (st, ⟨keepPkt, none⟩)
  else
    let hei := hbmInitOrUpdate st.hei p.nowNs p.customRateMbps
    let entered := criticalSection hei p.nowNs p.skbLen
    let v := p.verdict entered.2.delta
    let hei := if v.dropFlag then rollBack entered.1 entered.2.delayNs else entered.1
    ({ hei := hei, counters := (p.updates entered.2.delta).foldl addTo st.counters },
      ⟨v.ret, some entered.2⟩)

end XMonitor.Hbm
