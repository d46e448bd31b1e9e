import XMonitor.Lib.ByteLayout
import XMonitor.Lib.PerCpuArray

/-!
# `xm_xdp_pass.bpf.c`

The program is attached to a device and sees every packet before the kernel does. It finds the
IP protocol of the packet, counts it and lets the packet pass. Pointers into the packet are offsets
from `ctx->data`, so `data_end` is the length of the packet, and a program that loads a byte
behind `data_end` has no value.
-/

namespace XMonitor.Xdp

open Lib Lib.ByteLayout

/-- The packet, from `data` up to `data_end`. -/
abbrev Packet := List UInt8

def bpfHtons (x : UInt16) : UInt16 := swapBytes x

def bpfNtohs (x : UInt16) : UInt16 := swapBytes x

def ethP8021Q : UInt16 := 0x8100
def ethP8021AD : UInt16 := 0x88A8
def ethPIp : UInt16 := 0x0800
def ethPIpv6 : UInt16 := 0x86DD

def sizeofEthhdr : Nat := 14
def sizeofVlanHdr : Nat := 4
def sizeofIphdr : Nat := 20
def sizeofIpv6hdr : Nat := 40

def ipprotoIcmp : UInt32 := 1
def ipprotoTcp : UInt32 := 6
def ipprotoUdp : UInt32 := 17

def xdpAborted : UInt32 := 0
def xdpDrop : UInt32 := 1
def xdpPass : UInt32 := 2

/-- `XDP_REDIRECT + 1 + 1`. -/
def xdpActionMax : UInt32 := 6

/-! ## The headers -/

structure HdrCursor where
  pos : Nat
  deriving Repr, DecidableEq

/-- What a header parser leaves: its return value, the cursor and the header pointer, which is
set on success only. -/
structure Parsed where
  proto : UInt8
  nh : HdrCursor
  hdr : Option Nat
  deriving Repr, DecidableEq

def errorCode : UInt8 := 255

def xmProtoIsVlan (hProto : UInt16) : Bool :=
  hProto = bpfHtons ethP8021Q ∨ hProto = bpfHtons ethP8021AD

def xmParseIp4hdr (data : Packet) (nh : HdrCursor) : Option Parsed :=
  let iph := nh.pos
  if iph + sizeofIphdr > data.length then
    some ⟨errorCode, nh, none⟩
  else
    -- `ihl` is the lower half of the first byte.
    (load8 data iph).bind fun versionIhl =>
      let hdrsize := (versionIhl &&& 0x0f).toNat * 4
      if hdrsize < sizeofIphdr then
        some ⟨errorCode, nh, none⟩
      else if nh.pos + hdrsize > data.length then
        some ⟨errorCode, nh, none⟩
      else
        (load8 data (iph + 9)).map fun protocol => ⟨protocol, ⟨nh.pos + hdrsize⟩, some iph⟩

def xmParseIp6hdr (data : Packet) (nh : HdrCursor) : Option Parsed :=
  let ip6h := nh.pos
  if ip6h + sizeofIpv6hdr > data.length then
    some ⟨errorCode, nh, none⟩
  else
    (load8 data (ip6h + 6)).map fun nexthdr => ⟨nexthdr, ⟨ip6h + sizeofIpv6hdr⟩, some ip6h⟩

/-! ## The maps -/

structure XdpStatsDatarec where
  rxPackets : UInt64 := 0
  rxBytes : UInt64 := 0
  deriving Repr, DecidableEq

structure Maps (Cpu : Type*) where
  ipprotoRxCntMap : PerCpuArray Cpu UInt64 256 := ⟨fun _ _ => 0⟩
  xdpStatsMap : PerCpuArray Cpu XdpStatsDatarec 6 := ⟨fun _ _ => {}⟩

/-- One packet more. The length is a difference of two 32-bit numbers. -/
def XdpStatsDatarec.record (data : Packet) (rec : XdpStatsDatarec) : XdpStatsDatarec where
  rxPackets := rec.rxPackets + 1
  rxBytes := rec.rxBytes + (UInt32.ofNat data.length).toUInt64

/-- The lines of `trace_pipe`, with the arguments of `bpf_printk`. -/
inductive TraceLine
  | rxCnt (name : String) (ethProto : UInt16) (pktSz : Int32) (cnt : UInt64)
  | unknownProto (ethProto : UInt16) (pktSz : Int32) (ipProto : UInt32)
  | actionNotFound (action : UInt32)
  deriving Repr, DecidableEq

structure Result (Cpu : Type*) where
  maps : Maps Cpu
  action : UInt32
  trace : List TraceLine

section Program

variable {Cpu : Type*} [DecidableEq Cpu]

def xdpStatsRecordAction (maps : Maps Cpu) (cpu : Cpu) (data : Packet) (action : UInt32) :
    Result Cpu :=
  if action > xdpActionMax then
    ⟨maps, xdpAborted, []⟩
  else
    match maps.xdpStatsMap.lookup cpu action with
    | none => ⟨maps, xdpAborted, [.actionNotFound action]⟩
    | some _ =>
      ⟨{ maps with
          xdpStatsMap := maps.xdpStatsMap.modify cpu action (XdpStatsDatarec.record data) },
        action, []⟩

/-- The counter of a protocol, and the value that the trace prints. -/
def countIpProto (maps : Maps Cpu) (cpu : Cpu) (ipProto : UInt32) : Maps Cpu × UInt64 :=
  match maps.ipprotoRxCntMap.lookup cpu ipProto with
  | some cnt =>
    ({ maps with ipprotoRxCntMap := maps.ipprotoRxCntMap.modify cpu ipProto (· + 1) }, cnt + 1)
  | none =>
    ({ maps with ipprotoRxCntMap := maps.ipprotoRxCntMap.updateNoExist cpu ipProto 1 }, 1)

/-- The cases of the switch have no `break`. -/
def traceIpProto (ipProto : UInt32) (ethProto : UInt16) (pktSz : Int32) (cnt : UInt64) :
    List TraceLine :=
  let unknown := [.unknownProto ethProto pktSz ipProto]
  let udp := .rxCnt "UDP" ethProto pktSz cnt :: unknown
  let tcp := .rxCnt "TCP" ethProto pktSz cnt :: udp
  let icmp := .rxCnt "ICMP" ethProto pktSz cnt :: tcp
  if ipProto = ipprotoIcmp then icmp
  else if ipProto = ipprotoTcp then tcp
  else if ipProto = ipprotoUdp then udp
  else unknown

/-- The protocol of the packet behind the Ethernet header. -/
def ipProtoOf (data : Packet) (nhOff : Nat) (hProto : UInt16) : Option UInt32 :=
  if hProto = bpfHtons ethPIp then
    (xmParseIp4hdr data ⟨nhOff⟩).map (·.proto.toUInt32)
  else if hProto = bpfHtons ethPIpv6 then
    (xmParseIp6hdr data ⟨nhOff⟩).map (·.proto.toUInt32)
  else
    some 0

/-- From the comment `Extract L4 protocol` on. -/
def countAndPass (maps : Maps Cpu) (cpu : Cpu) (data : Packet) (nhOff : Nat) (hProto : UInt16) :
    Option (Result Cpu) :=
  (ipProtoOf data nhOff hProto).map fun ipProto =>
    let (maps, cnt) := countIpProto maps cpu ipProto
    let trace := traceIpProto ipProto (bpfNtohs hProto) (Int32.ofNat data.length) cnt
    let recorded := xdpStatsRecordAction maps cpu data xdpPass
    { recorded with trace := trace ++ recorded.trace }

def xdpProgSimple (maps : Maps Cpu) (cpu : Cpu) (data : Packet) : Option (Result Cpu) :=
  let nhOff := sizeofEthhdr
  if nhOff > data.length then
    some (xdpStatsRecordAction maps cpu data xdpDrop)
  else
    (load16 data 12).bind fun hProto =>
      if xmProtoIsVlan hProto then
        let vhdr := nhOff
        let nhOff := nhOff + sizeofVlanHdr
        if nhOff > data.length then
          -- This drop is not recorded.
          some ⟨maps, xdpDrop, []⟩
        else
          (load16 data (vhdr + 2)).bind fun hProto => countAndPass maps cpu data nhOff hProto
      else
        countAndPass maps cpu data nhOff hProto

end Program

end XMonitor.Xdp
