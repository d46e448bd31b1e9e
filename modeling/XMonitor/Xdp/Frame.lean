import XMonitor.Xdp.Pass

/-!
# Ethernet frames

What the program takes a packet for, written down as a format. A frame has at most one VLAN tag
and an Ethernet type, its payload may start with an IP header. Every packet that is long enough is
exactly one frame, and the program reads the fields of that frame.
-/

namespace XMonitor.Xdp

open Lib Lib.ByteLayout

/-- An IPv4 header with its options. The version is not looked at. -/
structure Ip4Header where
  version : Fin 16
  /-- From `tos` to `ttl`. -/
  before : List UInt8
  length_before : before.length = 8
  protocol : UInt8
  /-- The checksum and the addresses. -/
  after : List UInt8
  length_after : after.length = 10
  options : List UInt8
  whole_words : 4 ∣ options.length
  length_options : options.length ≤ 40

def Ip4Header.encode (h : Ip4Header) : Packet :=
  UInt8.ofNat (h.version * 16 + (5 + h.options.length / 4)) ::
    (h.before ++ h.protocol :: (h.after ++ h.options))

/-- An IPv6 header. What follows it, extension headers included, is the payload. -/
structure Ip6Header where
  before : List UInt8
  length_before : before.length = 6
  nexthdr : UInt8
  /-- The hop limit and the addresses. -/
  after : List UInt8
  length_after : after.length = 33

def Ip6Header.encode (h : Ip6Header) : Packet := h.before ++ h.nexthdr :: h.after

/-- The protocol that a payload is counted under. -/
inductive Carries : UInt16 → Packet → UInt8 → Prop
  | ip4 (h : Ip4Header) (body : Packet) : Carries ethPIp (h.encode ++ body) h.protocol
  | badIp4 {payload : Packet}
    (hbad : ∀ (h : Ip4Header) (body : Packet), payload ≠ h.encode ++ body) :
    Carries ethPIp payload errorCode
  | ip6 (h : Ip6Header) (body : Packet) : Carries ethPIpv6 (h.encode ++ body) h.nexthdr
  | badIp6 {payload : Packet}
    (hbad : ∀ (h : Ip6Header) (body : Packet), payload ≠ h.encode ++ body) :
    Carries ethPIpv6 payload errorCode
  | other {etherType : UInt16} {payload : Packet} (hip4 : etherType ≠ ethPIp)
    (hip6 : etherType ≠ ethPIpv6) : Carries etherType payload 0

def IsVlan (etherType : UInt16) : Prop := etherType = ethP8021Q ∨ etherType = ethP8021AD

structure VlanTag where
  tpid : UInt16
  tci : UInt16
  isVlan : IsVlan tpid

/-- A frame. Without a tag the type is not that of a tag. -/
structure Frame where
  addresses : List UInt8
  length_addresses : addresses.length = 12
  tag : Option VlanTag
  etherType : UInt16
  untagged : tag = none → ¬ IsVlan etherType
  payload : Packet

namespace Frame

def encodeTag : Option VlanTag → Packet
  | none => []
  | some tag => bigEndian16 tag.tpid ++ bigEndian16 tag.tci

def encodeHeader (f : Frame) : Packet :=
  f.addresses ++ (encodeTag f.tag ++ bigEndian16 f.etherType)

def encode (f : Frame) : Packet := f.encodeHeader ++ f.payload

end Frame

/-- A packet that ends inside its VLAN tag. -/
def TornTag (data : Packet) : Prop :=
  ∃ (addresses : List UInt8) (tpid : UInt16) (rest : List UInt8), addresses.length = 12 ∧
    IsVlan tpid ∧ rest.length < 4 ∧ data = addresses ++ (bigEndian16 tpid ++ rest)

/-! ## The lengths -/

@[simp] theorem Ip4Header.length_encode (h : Ip4Header) :
    h.encode.length = 20 + h.options.length := by
  simp only [encode, List.length_cons, List.length_append, h.length_before, h.length_after]
  omega

@[simp] theorem Ip6Header.length_encode (h : Ip6Header) : h.encode.length = 40 := by
  simp only [encode, List.length_cons, List.length_append, h.length_before, h.length_after]

/-! ## IPv4 -/

theorem lowNibble_toNat (b : UInt8) : (b &&& 0x0f).toNat = b.toNat % 16 := by
  rw [UInt8.toNat_and]
  exact Nat.and_two_pow_sub_one_eq_mod b.toNat 4

/-- The header length that the first byte of a header announces. -/
theorem Ip4Header.hdrsize_eq (h : Ip4Header) :
    (UInt8.ofNat (h.version * 16 + (5 + h.options.length / 4)) &&& 0x0f).toNat * 4 =
      h.encode.length := by
  have hversion := h.version.isLt
  have hoptions := h.length_options
  obtain ⟨k, hk⟩ := h.whole_words
  rw [lowNibble_toNat, UInt8.toNat_ofNat', Ip4Header.length_encode, hk]
  omega

section Parse

variable (front body : Packet)

theorem xmParseIp4hdr_encode (h : Ip4Header) :
    xmParseIp4hdr (front ++ (h.encode ++ body)) ⟨front.length⟩ =
      some ⟨h.protocol, ⟨front.length + h.encode.length⟩, some front.length⟩ := by
  have hlen : (front ++ (h.encode ++ body)).length =
      front.length + (20 + h.options.length + body.length) := by
    rw [List.length_append, List.length_append, Ip4Header.length_encode]
  have hroom : ¬ front.length + sizeofIphdr > (front ++ (h.encode ++ body)).length := by
    rw [hlen, sizeofIphdr]
    omega
  have hfirst : load8 (front ++ (h.encode ++ body)) front.length =
      some (UInt8.ofNat (h.version * 16 + (5 + h.options.length / 4))) :=
    load8_append_right front (h.encode ++ body) 0
  have hsize := h.hdrsize_eq
  have hmin : ¬ h.encode.length < sizeofIphdr := by
    rw [Ip4Header.length_encode, sizeofIphdr]
    omega
  have hmax : ¬ front.length + h.encode.length > (front ++ (h.encode ++ body)).length := by
    rw [hlen, Ip4Header.length_encode]
    omega
  have hprotocol : load8 (front ++ (h.encode ++ body)) (front.length + 9) = some h.protocol := by
    rw [load8_append_right, load8_append_left]
    · change (h.before ++ h.protocol :: (h.after ++ h.options))[8]? = _
      rw [List.getElem?_append_right (Nat.le_of_eq h.length_before), h.length_before]
      rfl
    · rw [Ip4Header.length_encode]
      omega
  simp only [xmParseIp4hdr, if_neg hroom, hfirst, Option.bind_some, hsize, if_neg hmin, if_neg hmax,
    hprotocol, Option.map_some]

/-- The fields behind the first byte. -/
theorem exists_fields (rest : List UInt8) (k : Nat) (h : 19 + k ≤ rest.length) :
    ∃ (before : List UInt8) (protocol : UInt8) (after options body : List UInt8),
      rest = before ++ protocol :: (after ++ (options ++ body)) ∧ before.length = 8 ∧
        after.length = 10 ∧ options.length = k := by
  refine ⟨rest.take 8, rest[8], (rest.drop 9).take 10, (rest.drop 19).take k,
    (rest.drop 19).drop k, ?_, ?_, ?_, ?_⟩
  · have hmiddle : rest.drop 19 = (rest.drop 9).drop 10 := by rw [List.drop_drop]
    rw [List.take_append_drop, hmiddle, List.take_append_drop, ← List.drop_eq_getElem_cons,
      List.take_append_drop]
  · rw [List.length_take]
    omega
  · rw [List.length_take, List.length_drop]
    omega
  · rw [List.length_take, List.length_drop]
    omega

/-- The header that a long enough payload starts with. -/
theorem exists_ip4Header (b : UInt8) (rest : List UInt8) (hmin : 20 ≤ (b &&& 0x0f).toNat * 4)
    (hmax : (b &&& 0x0f).toNat * 4 ≤ rest.length + 1) :
    ∃ (h : Ip4Header) (body : Packet), b :: rest = h.encode ++ body := by
  have hb := b.toNat_lt
  rw [lowNibble_toNat] at hmin hmax
  obtain ⟨before, protocol, after, options, body, rfl, hbefore, hafter, hoptions⟩ :=
    exists_fields rest (b.toNat % 16 * 4 - 20) (by omega)
  have hsum : b.toNat / 16 * 16 + (5 + options.length / 4) = b.toNat := by omega
  have hfirst : UInt8.ofNat (b.toNat / 16 * 16 + (5 + options.length / 4)) = b := by
    rw [hsum]
    exact UInt8.ofNat_toNat
  refine ⟨⟨⟨b.toNat / 16, by omega⟩, before, hbefore, protocol, after, hafter, options, ?_, ?_⟩,
    body, ?_⟩
  · exact ⟨b.toNat % 16 - 5, by omega⟩
  · omega
  · rw [Ip4Header.encode]
    change b :: _ = UInt8.ofNat (b.toNat / 16 * 16 + (5 + options.length / 4)) :: _ ++ body
    rw [hfirst]
    simp

/-- A payload without a header is refused, and the cursor stays. -/
theorem xmParseIp4hdr_of_ne {payload : Packet}
    (hbad : ∀ (h : Ip4Header) (body : Packet), payload ≠ h.encode ++ body) :
    xmParseIp4hdr (front ++ payload) ⟨front.length⟩ = some ⟨errorCode, ⟨front.length⟩, none⟩ := by
  rw [xmParseIp4hdr]
  split
  · rfl
  · next hroom =>
    rw [List.length_append, sizeofIphdr] at hroom
    cases payload with
    | nil => exact absurd hroom (by simp)
    | cons b rest =>
      have hload : load8 (front ++ b :: rest) front.length = some b :=
        load8_append_right front (b :: rest) 0
      simp only [hload, Option.bind_some]
      split
      · rfl
      · next hmin =>
        split
        · rfl
        · next hmax =>
          rw [List.length_append, List.length_cons] at hmax
          obtain ⟨h, body, heq⟩ := exists_ip4Header b rest
            (Nat.le_of_not_lt hmin) (by omega)
          exact absurd heq (hbad h body)

/-! ## IPv6 -/

theorem xmParseIp6hdr_encode (h : Ip6Header) :
    xmParseIp6hdr (front ++ (h.encode ++ body)) ⟨front.length⟩ =
      some ⟨h.nexthdr, ⟨front.length + h.encode.length⟩, some front.length⟩ := by
  have hroom : ¬ front.length + sizeofIpv6hdr > (front ++ (h.encode ++ body)).length := by
    rw [List.length_append, List.length_append, Ip6Header.length_encode, sizeofIpv6hdr]
    omega
  have hnexthdr : load8 (front ++ (h.encode ++ body)) (front.length + 6) = some h.nexthdr := by
    rw [load8_append_right, load8_append_left _ (by rw [Ip6Header.length_encode]; omega)]
    change (h.before ++ h.nexthdr :: h.after)[6]? = _
    rw [List.getElem?_append_right (Nat.le_of_eq h.length_before), h.length_before]
    rfl
  simp only [xmParseIp6hdr, if_neg hroom, hnexthdr, Option.map_some, Ip6Header.length_encode]
  rfl

theorem xmParseIp6hdr_of_ne {payload : Packet}
    (hbad : ∀ (h : Ip6Header) (body : Packet), payload ≠ h.encode ++ body) :
    xmParseIp6hdr (front ++ payload) ⟨front.length⟩ = some ⟨errorCode, ⟨front.length⟩, none⟩ := by
  rw [xmParseIp6hdr]
  split
  · rfl
  · next hroom =>
    have h40 : 40 ≤ payload.length := by
      rw [List.length_append] at hroom
      change ¬ front.length + 40 > front.length + payload.length at hroom
      omega
    refine absurd ?_ (hbad ⟨payload.take 6, ?_, payload[6], (payload.drop 7).take 33, ?_⟩
      (payload.drop 40))
    · have htail : payload.drop 40 = (payload.drop 7).drop 33 := by rw [List.drop_drop]
      rw [Ip6Header.encode, List.append_assoc, List.cons_append, htail, List.take_append_drop,
        ← List.drop_eq_getElem_cons, List.take_append_drop]
    · rw [List.length_take]
      omega
    · rw [List.length_take, List.length_drop]
      omega

end Parse

/-- The parser accepts exactly the headers, and it leaves the cursor behind the options. -/
theorem xmParseIp4hdr_eq_some_iff {data : Packet} {nh nh' : HdrCursor} {p : UInt8} {iph : Nat} :
    xmParseIp4hdr data nh = some ⟨p, nh', some iph⟩ ↔
      ∃ (front : Packet) (h : Ip4Header) (body : Packet), data = front ++ (h.encode ++ body) ∧
        nh = ⟨front.length⟩ ∧ iph = front.length ∧ p = h.protocol ∧
          nh' = ⟨front.length + h.encode.length⟩ := by
  constructor
  · intro hparse
    have hle : nh.pos ≤ data.length := by
      by_contra hgt
      have hshort : nh.pos + sizeofIphdr > data.length :=
        Nat.lt_of_lt_of_le (Nat.lt_of_not_le hgt) (Nat.le_add_right _ _)
      rw [xmParseIp4hdr, if_pos hshort] at hparse
      simp at hparse
    have hfront : (data.take nh.pos).length = nh.pos := List.length_take_of_le hle
    have hnh : nh = ⟨(data.take nh.pos).length⟩ := by rw [hfront]
    have hdata : data = data.take nh.pos ++ data.drop nh.pos := (List.take_append_drop _ _).symm
    by_cases hheader : ∃ (h : Ip4Header) (body : Packet), data.drop nh.pos = h.encode ++ body
    · obtain ⟨h, body, heq⟩ := hheader
      rw [heq] at hdata
      have haccept := xmParseIp4hdr_encode (data.take nh.pos) body h
      rw [← hdata, ← hnh, hparse] at haccept
      simp only [Option.some.injEq, Parsed.mk.injEq] at haccept
      obtain ⟨hp, hnh', hiph⟩ := haccept
      exact ⟨_, h, body, hdata, hnh, hiph, hp, hnh'⟩
    · have hrefuse := xmParseIp4hdr_of_ne (data.take nh.pos)
        fun h body heq => hheader ⟨h, body, heq⟩
      rw [← hdata, ← hnh, hparse] at hrefuse
      simp at hrefuse
  · rintro ⟨front, h, body, rfl, rfl, rfl, rfl, rfl⟩
    exact xmParseIp4hdr_encode front body h

/-! ## The protocol of a frame -/

/-- Where the payload starts, the program finds what the payload carries. -/
theorem ipProtoOf_of_carries (front : Packet) {etherType : UInt16} {payload : Packet} {p : UInt8}
    (h : Carries etherType payload p) :
    ipProtoOf (front ++ payload) front.length (bpfHtons etherType) = some p.toUInt32 := by
  have hne : ethPIpv6 ≠ ethPIp := by decide
  have hiff : ∀ t, bpfHtons etherType = bpfHtons t ↔ etherType = t := fun t => swapBytes_inj
  simp only [ipProtoOf, hiff]
  cases h with
  | ip4 h body => rw [if_pos rfl, xmParseIp4hdr_encode, Option.map_some]
  | badIp4 hbad =>
    rw [if_pos rfl, xmParseIp4hdr_of_ne front hbad, Option.map_some]
  | ip6 h body => rw [if_neg hne, if_pos rfl, xmParseIp6hdr_encode, Option.map_some]
  | badIp6 hbad =>
    rw [if_neg hne, if_pos rfl, xmParseIp6hdr_of_ne front hbad, Option.map_some]
  | other hip4 hip6 =>
    rw [if_neg hip4, if_neg hip6]
    rfl

/-- A payload is counted once. -/
theorem Carries.exists_unique (etherType : UInt16) (payload : Packet) :
    ∃! p, Carries etherType payload p := by
  have hexists : ∃ p, Carries etherType payload p := by
    by_cases hip4 : etherType = ethPIp
    · subst hip4
      by_cases h : ∃ (h : Ip4Header) (body : Packet), payload = h.encode ++ body
      · obtain ⟨h, body, rfl⟩ := h
        exact ⟨_, .ip4 h body⟩
      · exact ⟨_, .badIp4 fun header body heq => h ⟨header, body, heq⟩⟩
    · by_cases hip6 : etherType = ethPIpv6
      · subst hip6
        by_cases h : ∃ (h : Ip6Header) (body : Packet), payload = h.encode ++ body
        · obtain ⟨h, body, rfl⟩ := h
          exact ⟨_, .ip6 h body⟩
        · exact ⟨_, .badIp6 fun header body heq => h ⟨header, body, heq⟩⟩
      · exact ⟨_, .other hip4 hip6⟩
  obtain ⟨p, hp⟩ := hexists
  refine ⟨p, hp, fun q hq => ?_⟩
  have heq := (ipProtoOf_of_carries [] hq).symm.trans (ipProtoOf_of_carries [] hp)
  apply UInt8.toNat_inj.mp
  have hnat := congrArg UInt32.toNat (Option.some.inj heq)
  rwa [UInt8.toNat_toUInt32, UInt8.toNat_toUInt32] at hnat

/-! ## Packets and frames -/

theorem xmProtoIsVlan_iff {etherType : UInt16} :
    xmProtoIsVlan (bpfHtons etherType) = true ↔ IsVlan etherType := by
  rw [xmProtoIsVlan, decide_eq_true_iff]
  exact or_congr swapBytes_inj swapBytes_inj

/-- Two bytes are a field of the network. -/
theorem exists_bigEndian16 (data : Packet) (h : 2 ≤ data.length) :
    ∃ (x : UInt16) (rest : Packet), data = bigEndian16 x ++ rest := by
  obtain ⟨b, rest, rfl⟩ := List.exists_cons_of_length_pos (Nat.lt_of_lt_of_le Nat.two_pos h)
  have hrest : 0 < rest.length := Nat.lt_of_succ_lt_succ h
  obtain ⟨c, rest, rfl⟩ := List.exists_cons_of_length_pos hrest
  refine ⟨swapBytes (littleEndian16 b c), rest, ?_⟩
  rw [bigEndian16_swapBytes]
  rfl

/-- A packet is too short, or it ends inside its tag, or it is a frame. -/
theorem packet_cases (data : Packet) :
    data.length < 14 ∨ TornTag data ∨ ∃ f : Frame, f.encode = data := by
  by_cases hlen : data.length < 14
  · exact .inl hlen
  have haddr : (data.take 12).length = 12 := by
    rw [List.length_take]
    omega
  obtain ⟨t, rest, hrest⟩ := exists_bigEndian16 (data.drop 12) (by
    rw [List.length_drop]
    omega)
  have hdata : data = data.take 12 ++ (bigEndian16 t ++ rest) := by
    rw [← hrest, List.take_append_drop]
  by_cases hvlan : IsVlan t
  · by_cases hshort : rest.length < 4
    · exact .inr (.inl ⟨_, t, rest, haddr, hvlan, hshort, hdata⟩)
    · obtain ⟨tci, rest', rfl⟩ := exists_bigEndian16 rest (by omega)
      rw [List.length_append, length_bigEndian16] at hshort
      obtain ⟨inner, payload, rfl⟩ := exists_bigEndian16 rest' (by omega)
      refine .inr (.inr ⟨⟨data.take 12, haddr, some ⟨t, tci, hvlan⟩, inner, ?_, payload⟩, ?_⟩)
      · exact fun h => absurd h (Option.some_ne_none _)
      · conv_rhs => rw [hdata]
        simp [Frame.encode, Frame.encodeHeader, Frame.encodeTag]
  · refine .inr (.inr ⟨⟨data.take 12, haddr, none, t, fun _ => hvlan, rest⟩, ?_⟩)
    conv_rhs => rw [hdata]
    simp [Frame.encode, Frame.encodeHeader, Frame.encodeTag]

namespace Frame

theorem length_encodeHeader (f : Frame) :
    f.encodeHeader.length = if f.tag = none then 14 else 18 := by
  rw [encodeHeader, List.length_append, f.length_addresses, List.length_append]
  cases f.tag with
  | none => rfl
  | some tag => rfl

/-- A packet is one frame. -/
theorem encode_inj {f g : Frame} (h : f.encode = g.encode) : f = g := by
  obtain ⟨addresses, haddr, tag, etherType, huntagged, payload⟩ := f
  obtain ⟨addresses', haddr', tag', etherType', huntagged', payload'⟩ := g
  simp only [encode, encodeHeader, List.append_assoc] at h
  obtain ⟨rfl, hrest⟩ := List.append_inj h (haddr.trans haddr'.symm)
  cases tag with
  | none =>
    cases tag' with
    | none =>
      obtain ⟨rfl, rfl⟩ := bigEndian16_append_inj.mp hrest
      rfl
    | some tag =>
      simp only [encodeTag, List.append_assoc, List.nil_append] at hrest
      obtain ⟨rfl, -⟩ := bigEndian16_append_inj.mp hrest
      exact absurd tag.isVlan (huntagged rfl)
  | some tag =>
    obtain ⟨tpid, tci, hvlan⟩ := tag
    cases tag' with
    | none =>
      simp only [encodeTag, List.append_assoc, List.nil_append] at hrest
      obtain ⟨rfl, -⟩ := bigEndian16_append_inj.mp hrest
      exact absurd hvlan (huntagged' rfl)
    | some tag =>
      simp only [encodeTag, List.append_assoc] at hrest
      obtain ⟨rfl, htci⟩ := bigEndian16_append_inj.mp hrest
      obtain ⟨rfl, htype⟩ := bigEndian16_append_inj.mp htci
      obtain ⟨rfl, rfl⟩ := bigEndian16_append_inj.mp htype
      rfl

/-- The type field behind the addresses. -/
theorem load16_encode_of_tag_eq_none (f : Frame) (h : f.tag = none) :
    load16 f.encode 12 = some (bpfHtons f.etherType) := by
  have haddr := load16_append_right f.addresses (bigEndian16 f.etherType ++ f.payload) 0
  rw [f.length_addresses, load16_bigEndian16] at haddr
  rw [encode, encodeHeader, h, encodeTag, List.nil_append, List.append_assoc]
  exact haddr

theorem load16_encode_of_tag_eq_some (f : Frame) {tag : VlanTag} (h : f.tag = some tag) :
    load16 f.encode 12 = some (bpfHtons tag.tpid) ∧
      load16 f.encode 16 = some (bpfHtons f.etherType) := by
  have hencode : f.encode = f.addresses ++ (bigEndian16 tag.tpid ++
      (bigEndian16 tag.tci ++ (bigEndian16 f.etherType ++ f.payload))) := by
    rw [encode, encodeHeader, h, encodeTag]
    simp only [List.append_assoc]
  rw [hencode]
  constructor
  · have haddr := load16_append_right f.addresses (bigEndian16 tag.tpid ++
      (bigEndian16 tag.tci ++ (bigEndian16 f.etherType ++ f.payload))) 0
    rw [f.length_addresses, load16_bigEndian16] at haddr
    exact haddr
  · have hinner := load16_append_right
      (f.addresses ++ (bigEndian16 tag.tpid ++ bigEndian16 tag.tci))
      (bigEndian16 f.etherType ++ f.payload) 0
    rw [List.length_append, f.length_addresses, load16_bigEndian16] at hinner
    simp only [List.append_assoc] at hinner
    exact hinner

end Frame

/-! ## The program on a packet -/

/-- Every protocol has a counter. -/
theorem lookup_ipproto
    {Cpu : Type*} (maps : Maps Cpu) (cpu : Cpu) (p : UInt8) :
    maps.ipprotoRxCntMap.lookup cpu p.toUInt32 =
      some (maps.ipprotoRxCntMap.slots cpu ⟨p.toNat, p.toNat_lt⟩) :=
  PerCpuArray.lookup_of_lt _ _ p.toNat_lt

section Program

variable {Cpu : Type*} [DecidableEq Cpu] (maps : Maps Cpu) (cpu : Cpu)

/-- The maps after a packet with a recorded action. -/
def Maps.record (maps : Maps Cpu) (cpu : Cpu) (data : Packet) (action : UInt32) : Maps Cpu :=
  { maps with xdpStatsMap := maps.xdpStatsMap.modify cpu action (XdpStatsDatarec.record data) }

/-- The maps after a frame. -/
def Maps.count (maps : Maps Cpu) (cpu : Cpu) (p : UInt8) : Maps Cpu :=
  { maps with ipprotoRxCntMap := maps.ipprotoRxCntMap.modify cpu p.toUInt32 (· + 1) }

theorem xdpStatsRecordAction_of_lt (data : Packet) {action : UInt32} (h : action.toNat < 6) :
    xdpStatsRecordAction maps cpu data action = ⟨maps.record cpu data action, action, []⟩ := by
  have hmax : ¬ action > xdpActionMax := by
    rw [gt_iff_lt, UInt32.lt_iff_toNat_lt]
    change ¬ 6 < action.toNat
    omega
  rw [xdpStatsRecordAction, if_neg hmax, PerCpuArray.lookup_of_lt _ _ h]
  rfl

theorem xdpProgSimple_of_short {data : Packet} (h : data.length < 14) :
    xdpProgSimple maps cpu data = some ⟨maps.record cpu data xdpDrop, xdpDrop, []⟩ := by
  have hpos : sizeofEthhdr > data.length := h
  rw [xdpProgSimple, if_pos hpos, xdpStatsRecordAction_of_lt _ _ _ (by decide)]

theorem xdpProgSimple_of_tornTag {data : Packet} (h : TornTag data) :
    xdpProgSimple maps cpu data = some ⟨maps, xdpDrop, []⟩ := by
  obtain ⟨addresses, tpid, rest, haddr, hvlan, hrest, rfl⟩ := h
  have hlen : (addresses ++ (bigEndian16 tpid ++ rest)).length = 14 + rest.length := by
    rw [List.length_append, List.length_append, haddr, length_bigEndian16]
    omega
  have hload : load16 (addresses ++ (bigEndian16 tpid ++ rest)) 12 = some (bpfHtons tpid) := by
    have h := load16_append_right addresses (bigEndian16 tpid ++ rest) 0
    rwa [haddr, load16_bigEndian16] at h
  have hlong : ¬ sizeofEthhdr > (addresses ++ (bigEndian16 tpid ++ rest)).length := by
    rw [hlen, sizeofEthhdr]
    omega
  have hshort : sizeofEthhdr + sizeofVlanHdr >
      (addresses ++ (bigEndian16 tpid ++ rest)).length := by
    rw [hlen, sizeofEthhdr, sizeofVlanHdr]
    omega
  simp only [xdpProgSimple, if_neg hlong, hload, Option.bind_some,
    if_pos (xmProtoIsVlan_iff.mpr hvlan), if_pos hshort]

/-- With and without a tag the program reaches the payload. -/
theorem xdpProgSimple_encode (f : Frame) :
    xdpProgSimple maps cpu f.encode =
      countAndPass maps cpu f.encode f.encodeHeader.length (bpfHtons f.etherType) := by
  have hlen : f.encode.length = f.encodeHeader.length + f.payload.length :=
    List.length_append
  have hheader := f.length_encodeHeader
  cases htag : f.tag with
  | none =>
    rw [if_pos htag] at hheader
    have hlong : ¬ sizeofEthhdr > f.encode.length := by
      rw [hlen, hheader, sizeofEthhdr]
      omega
    have hvlan : ¬ xmProtoIsVlan (bpfHtons f.etherType) = true :=
      mt xmProtoIsVlan_iff.mp (f.untagged htag)
    simp only [xdpProgSimple, if_neg hlong, f.load16_encode_of_tag_eq_none htag, Option.bind_some,
      if_neg hvlan, hheader]
    rfl
  | some tag =>
    rw [if_neg (by simp [htag])] at hheader
    obtain ⟨hload, hinner⟩ := f.load16_encode_of_tag_eq_some htag
    have hlong : ¬ sizeofEthhdr > f.encode.length := by
      rw [hlen, hheader, sizeofEthhdr]
      omega
    have hlong' : ¬ sizeofEthhdr + sizeofVlanHdr > f.encode.length := by
      rw [hlen, hheader, sizeofEthhdr, sizeofVlanHdr]
      omega
    have hload' : load16 f.encode (sizeofEthhdr + 2) = some (bpfHtons f.etherType) := hinner
    simp only [xdpProgSimple, if_neg hlong, hload, Option.bind_some,
      if_pos (xmProtoIsVlan_iff.mpr tag.isVlan), if_neg hlong', hload', hheader]
    rfl

/-- A frame is counted under the protocol of its payload and passes. -/
theorem xdpProgSimple_of_carries (f : Frame) {p : UInt8}
    (h : Carries f.etherType f.payload p) :
    ∃ trace, xdpProgSimple maps cpu f.encode =
      some ⟨(maps.count cpu p).record cpu f.encode xdpPass, xdpPass, trace⟩ := by
  rw [xdpProgSimple_encode, countAndPass, Frame.encode, ipProtoOf_of_carries _ h, Option.map_some,
    countIpProto, lookup_ipproto]
  simp only [xdpStatsRecordAction_of_lt _ _ _ (show xdpPass.toNat < 6 by decide)]
  exact ⟨_, rfl⟩

end Program

end XMonitor.Xdp
