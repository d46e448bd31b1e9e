import XMonitor.Xdp.Frame
import Mathlib.Algebra.BigOperators.Group.Finset.Piecewise
import Mathlib.Algebra.GroupWithZero.Nat

/-!
# The counters over a run

Packets arrive on the CPUs, and every packet is handled to the end on its CPU. The program has a
value on every run, which means that it never leaves a packet, it lets exactly the frames pass, and
its counters are the numbers of the packets that they stand for. Packets that end inside their
VLAN tag are dropped without a trace in the counters.
-/

namespace XMonitor.Xdp

open Lib

variable {Cpu : Type*} [DecidableEq Cpu]

/-- Handle the packets one after the other, with the action of each. -/
def run (maps : Maps Cpu) : List (Cpu × Packet) → Option (Maps Cpu × List UInt32)
  | [] => some (maps, [])
  | (cpu, data) :: arrivals =>
    (xdpProgSimple maps cpu data).bind fun result =>
      (run result.maps arrivals).map fun rest => (rest.1, result.action :: rest.2)

/-! ## What the counters stand for -/

def IsFrame (data : Packet) : Prop := ∃ f : Frame, f.encode = data

def CountedAs (p : UInt8) (data : Packet) : Prop :=
  ∃ f : Frame, f.encode = data ∧ Carries f.etherType f.payload p

/-- The packets that a slot of `xdp_stats_map` records. -/
def Recorded (action : UInt32) (data : Packet) : Prop :=
  action = xdpPass ∧ IsFrame data ∨ action = xdpDrop ∧ data.length < 14

/-- The packets of a CPU with a property. -/
noncomputable def packetsOf (cpu : Cpu) (P : Packet → Prop) (arrivals : List (Cpu × Packet)) :
    List Packet :=
  open Classical in (arrivals.filter fun a => a.1 = cpu ∧ P a.2).map Prod.snd

/-- The lengths of packets, each as the difference of two 32-bit pointers. -/
def bytes (packets : List Packet) : Nat := (packets.map fun data => data.length % 2 ^ 32).sum

theorem packetsOf_cons (cpu : Cpu) (P : Packet → Prop) (a : Cpu × Packet)
    (arrivals : List (Cpu × Packet)) :
    packetsOf cpu P (a :: arrivals) =
      open Classical in
        if a.1 = cpu ∧ P a.2 then a.2 :: packetsOf cpu P arrivals
        else packetsOf cpu P arrivals := by
  classical
  rw [packetsOf, List.filter_cons]
  simp only [decide_eq_true_eq]
  split <;> rfl

theorem IsFrame.exists_countedAs {data : Packet} (h : IsFrame data) : ∃! p, CountedAs p data := by
  obtain ⟨f, rfl⟩ := h
  obtain ⟨p, hp, hunique⟩ := Carries.exists_unique f.etherType f.payload
  refine ⟨p, ⟨f, rfl, hp⟩, ?_⟩
  rintro q ⟨g, hg, hq⟩
  obtain rfl := Frame.encode_inj hg
  exact hunique q hq

theorem not_isFrame_of_short {data : Packet} (h : data.length < 14) : ¬ IsFrame data := by
  rintro ⟨f, rfl⟩
  have hheader := f.length_encodeHeader
  rw [Frame.encode, List.length_append] at h
  split at hheader <;> omega

theorem not_isFrame_of_tornTag {data : Packet} (h : TornTag data) : ¬ IsFrame data := by
  rintro ⟨f, rfl⟩
  obtain ⟨addresses, tpid, rest, haddr, hvlan, hrest, heq⟩ := h
  simp only [Frame.encode, Frame.encodeHeader, List.append_assoc] at heq
  obtain ⟨-, htail⟩ := List.append_inj heq (f.length_addresses.trans haddr.symm)
  cases htag : f.tag with
  | none =>
    rw [htag, Frame.encodeTag, List.nil_append] at htail
    obtain ⟨rfl, -⟩ := ByteLayout.bigEndian16_append_inj.mp htail
    exact f.untagged htag hvlan
  | some tag =>
    rw [htag, Frame.encodeTag, List.append_assoc] at htail
    obtain ⟨-, rfl⟩ := ByteLayout.bigEndian16_append_inj.mp htail
    simp at hrest
    omega

theorem TornTag.length_ge {data : Packet} (h : TornTag data) : ¬ data.length < 14 := by
  obtain ⟨addresses, tpid, rest, haddr, -, -, rfl⟩ := h
  simp [haddr]
  omega

/-! ## One packet -/

/-- The counters after one packet. -/
structure Counted (maps : Maps Cpu) (cpu : Cpu) (data : Packet) (maps' : Maps Cpu)
    (action : UInt32) : Prop where
  action_eq : action = xdpPass ∧ IsFrame data ∨ action = xdpDrop ∧ ¬ IsFrame data
  counter : ∀ cpu' (p : UInt8), maps'.ipprotoRxCntMap.lookup cpu' p.toUInt32 =
    open Classical in
      if cpu = cpu' ∧ CountedAs p data then
        (maps.ipprotoRxCntMap.lookup cpu' p.toUInt32).map (· + 1)
      else maps.ipprotoRxCntMap.lookup cpu' p.toUInt32
  stats : ∀ cpu' (slot : UInt32), maps'.xdpStatsMap.lookup cpu' slot =
    open Classical in
      if cpu = cpu' ∧ Recorded slot data then
        (maps.xdpStatsMap.lookup cpu' slot).map (XdpStatsDatarec.record data)
      else maps.xdpStatsMap.lookup cpu' slot

theorem lookup_record (maps : Maps Cpu) (cpu cpu' : Cpu) (data : Packet) (action slot : UInt32) :
    (maps.record cpu data action).xdpStatsMap.lookup cpu' slot =
      if cpu' = cpu ∧ slot = action then
        (maps.xdpStatsMap.lookup cpu' slot).map (XdpStatsDatarec.record data)
      else maps.xdpStatsMap.lookup cpu' slot :=
  PerCpuArray.lookup_modify _ _ _ _ _ _

theorem xdpProgSimple_counted (maps : Maps Cpu) (cpu : Cpu) (data : Packet) :
    ∃ result, xdpProgSimple maps cpu data = some result ∧
      Counted maps cpu data result.maps result.action := by
  have hne : xdpPass ≠ xdpDrop := by decide
  rcases packet_cases data with hshort | htorn | ⟨f, rfl⟩
  · have hframe := not_isFrame_of_short hshort
    refine ⟨_, xdpProgSimple_of_short maps cpu hshort, .inr ⟨rfl, hframe⟩, ?_, ?_⟩
    · intro cpu' p
      rw [if_neg]
      · rfl
      · exact fun h => hframe (h.2.imp fun _ hf => hf.1)
    · intro cpu' slot
      rw [lookup_record]
      congr 1
      simp only [Recorded, hframe, hshort, and_false, and_true, false_or, eq_comm]
  · have hframe := not_isFrame_of_tornTag htorn
    refine ⟨_, xdpProgSimple_of_tornTag maps cpu htorn, .inr ⟨rfl, hframe⟩, ?_, ?_⟩
    · intro cpu' p
      rw [if_neg]
      exact fun h => hframe (h.2.imp fun _ hf => hf.1)
    · intro cpu' slot
      rw [if_neg]
      rintro ⟨-, ⟨-, h⟩ | ⟨-, h⟩⟩
      · exact hframe h
      · exact htorn.length_ge h
  · have hframe : IsFrame f.encode := ⟨f, rfl⟩
    have hlong : ¬ f.encode.length < 14 := fun h => not_isFrame_of_short h hframe
    obtain ⟨p, hp, hunique⟩ := Carries.exists_unique f.etherType f.payload
    obtain ⟨trace, heq⟩ := xdpProgSimple_of_carries maps cpu f hp
    have hcounted : ∀ q, CountedAs q f.encode ↔ q.toUInt32 = p.toUInt32 := by
      intro q
      constructor
      · rintro ⟨g, hg, hq⟩
        obtain rfl := Frame.encode_inj hg
        rw [hunique q hq]
      · intro h
        have hnat := congrArg UInt32.toNat h
        rw [UInt8.toNat_toUInt32, UInt8.toNat_toUInt32] at hnat
        obtain rfl := UInt8.toNat_inj.mp hnat
        exact ⟨f, rfl, hp⟩
    refine ⟨_, heq, .inl ⟨rfl, hframe⟩, ?_, ?_⟩
    · intro cpu' q
      change (maps.ipprotoRxCntMap.modify cpu p.toUInt32 (· + 1)).lookup cpu' q.toUInt32 = _
      rw [PerCpuArray.lookup_modify]
      congr 1
      rw [hcounted, eq_comm (a := cpu')]
    · intro cpu' slot
      rw [lookup_record]
      change (if _ then (maps.xdpStatsMap.lookup cpu' slot).map _ else
        maps.xdpStatsMap.lookup cpu' slot) = _
      congr 1
      simp only [Recorded, hframe, hlong, and_false, and_true, or_false, eq_comm]

/-! ## A run -/

/-- A record with some packets more. -/
def XdpStatsDatarec.add (rec : XdpStatsDatarec) (packets : List Packet) : XdpStatsDatarec where
  rxPackets := rec.rxPackets + UInt64.ofNat packets.length
  rxBytes := rec.rxBytes + UInt64.ofNat (bytes packets)

theorem XdpStatsDatarec.add_record (rec : XdpStatsDatarec) (data : Packet)
    (packets : List Packet) : (rec.record data).add packets = rec.add (data :: packets) := by
  have hlen : (UInt32.ofNat data.length).toUInt64 = UInt64.ofNat (data.length % 2 ^ 32) := by
    apply UInt64.toNat_inj.mp
    rw [UInt32.toNat_toUInt64, UInt32.toNat_ofNat', UInt64.toNat_ofNat']
    omega
  have hcount : rec.rxPackets + 1 + UInt64.ofNat packets.length =
      rec.rxPackets + UInt64.ofNat (packets.length + 1) := by
    rw [UInt64.ofNat_add, UInt64.add_assoc, UInt64.add_comm 1]
    rfl
  have hbytes : rec.rxBytes + UInt64.ofNat (data.length % 2 ^ 32) + UInt64.ofNat (bytes packets) =
      rec.rxBytes + UInt64.ofNat (bytes (data :: packets)) := by
    rw [UInt64.add_assoc, ← UInt64.ofNat_add]
    rfl
  rw [add, record, add, hlen]
  change (⟨_, _⟩ : XdpStatsDatarec) = ⟨_, _⟩
  rw [hcount, hbytes]
  rfl

/-- The invariant of a run from any maps, by induction on the packets that are left. -/
theorem run_counted (arrivals : List (Cpu × Packet)) (maps : Maps Cpu) :
    ∃ maps' actions, run maps arrivals = some (maps', actions) ∧
      List.Forall₂ (fun a action => action = xdpPass ∧ IsFrame a.2 ∨
        action = xdpDrop ∧ ¬ IsFrame a.2) arrivals actions ∧
      (∀ cpu (p : UInt8), maps'.ipprotoRxCntMap.lookup cpu p.toUInt32 =
        (maps.ipprotoRxCntMap.lookup cpu p.toUInt32).map
          (· + UInt64.ofNat (packetsOf cpu (CountedAs p) arrivals).length)) ∧
      ∀ cpu slot, maps'.xdpStatsMap.lookup cpu slot =
        (maps.xdpStatsMap.lookup cpu slot).map
          (XdpStatsDatarec.add · (packetsOf cpu (Recorded slot) arrivals)) := by
  classical
  induction arrivals generalizing maps with
  | nil =>
    refine ⟨maps, [], rfl, .nil, fun cpu p => ?_, fun cpu slot => ?_⟩
    · simp [packetsOf]
    · simp [packetsOf, XdpStatsDatarec.add, bytes]
  | cons a arrivals ih =>
    obtain ⟨cpu, data⟩ := a
    obtain ⟨result, hresult, hcounted⟩ := xdpProgSimple_counted maps cpu data
    obtain ⟨maps', actions, hrun, hactions, hcounter, hstats⟩ := ih result.maps
    refine ⟨maps', result.action :: actions, ?_, .cons hcounted.action_eq hactions,
      fun cpu' p => ?_, fun cpu' slot => ?_⟩
    · rw [run, hresult, Option.bind_some, hrun]
      rfl
    · rw [hcounter, hcounted.counter, packetsOf_cons]
      split
      · rw [Option.map_map, List.length_cons]
        congr 1
        funext cnt
        change cnt + 1 + UInt64.ofNat _ = cnt + UInt64.ofNat (_ + 1)
        rw [UInt64.ofNat_add, UInt64.add_assoc, UInt64.add_comm 1]
        rfl
      · rfl
    · rw [hstats, hcounted.stats, packetsOf_cons]
      split
      · rw [Option.map_map]
        congr 1
        funext rec
        exact rec.add_record data _
      · rfl

/-- Every frame is in one of the protocol counters. -/
theorem sum_countedAs (cpu : Cpu) (arrivals : List (Cpu × Packet)) :
    ∑ p ∈ Finset.range 256, (packetsOf cpu (CountedAs (UInt8.ofNat p)) arrivals).length =
      (packetsOf cpu IsFrame arrivals).length := by
  classical
  induction arrivals with
  | nil => simp [packetsOf]
  | cons a arrivals ih =>
    simp only [packetsOf_cons]
    by_cases hframe : a.1 = cpu ∧ IsFrame a.2
    · obtain ⟨p, hp, hunique⟩ := hframe.2.exists_countedAs
      have hiff : ∀ q ∈ Finset.range 256, (a.1 = cpu ∧ CountedAs (UInt8.ofNat q) a.2) ↔
          q = p.toNat := by
        intro q hq
        have hq256 : q < 256 := Finset.mem_range.mp hq
        constructor
        · intro h
          rw [← hunique _ h.2, UInt8.toNat_ofNat']
          omega
        · rintro rfl
          rw [UInt8.ofNat_toNat]
          exact ⟨hframe.1, hp⟩
      have hterm : ∀ q ∈ Finset.range 256,
          (if a.1 = cpu ∧ CountedAs (UInt8.ofNat q) a.2 then
            a.2 :: packetsOf cpu (CountedAs (UInt8.ofNat q)) arrivals
          else packetsOf cpu (CountedAs (UInt8.ofNat q)) arrivals).length =
          (packetsOf cpu (CountedAs (UInt8.ofNat q)) arrivals).length +
            if q = p.toNat then 1 else 0 := by
        intro q hq
        simp only [hiff q hq]
        split <;> simp
      rw [Finset.sum_congr rfl hterm, Finset.sum_add_distrib, ih, Finset.sum_ite_eq',
        if_pos (Finset.mem_range.mpr p.toNat_lt), if_pos hframe, List.length_cons]
    · have hnone : ∀ q, ¬ (a.1 = cpu ∧ CountedAs (UInt8.ofNat q) a.2) :=
        fun q h => hframe ⟨h.1, h.2.imp fun _ hf => hf.1⟩
      simp only [hnone, hframe, if_false, ih]

/-- On every run, on any number of CPUs, no packet is read behind its end, exactly the frames
pass, and the counters are the numbers of the packets modulo their width. -/
theorem run_counters (arrivals : List (Cpu × Packet)) :
    ∃ maps actions, run ({} : Maps Cpu) arrivals = some (maps, actions) ∧
      List.Forall₂ (fun a action => action = xdpPass ∧ IsFrame a.2 ∨
        action = xdpDrop ∧ ¬ IsFrame a.2) arrivals actions ∧
      ∀ cpu,
        (∀ p : UInt8, maps.ipprotoRxCntMap.lookup cpu p.toUInt32 =
          some (UInt64.ofNat (packetsOf cpu (CountedAs p) arrivals).length)) ∧
        ∑ p ∈ Finset.range 256, (packetsOf cpu (CountedAs (UInt8.ofNat p)) arrivals).length =
          (packetsOf cpu IsFrame arrivals).length ∧
        maps.xdpStatsMap.lookup cpu xdpPass = some
          ⟨UInt64.ofNat (packetsOf cpu IsFrame arrivals).length,
            UInt64.ofNat (bytes (packetsOf cpu IsFrame arrivals))⟩ ∧
        maps.xdpStatsMap.lookup cpu xdpDrop = some
          ⟨UInt64.ofNat (packetsOf cpu (·.length < 14) arrivals).length,
            UInt64.ofNat (bytes (packetsOf cpu (·.length < 14) arrivals))⟩ := by
  obtain ⟨maps, actions, hrun, hactions, hcounter, hstats⟩ := run_counted arrivals ({} : Maps Cpu)
  have hpass : Recorded xdpPass = IsFrame := by
    funext data
    have hne : xdpPass ≠ xdpDrop := by decide
    simp [Recorded, hne]
  have hdrop : Recorded xdpDrop = (·.length < 14) := by
    funext data
    have hne : xdpDrop ≠ xdpPass := by decide
    simp [Recorded, hne]
  have hzero : ∀ cpu slot, slot.toNat < 6 →
      ({} : Maps Cpu).xdpStatsMap.lookup cpu slot = some {} :=
    fun cpu slot h => PerCpuArray.lookup_of_lt _ _ h
  have hadd : ∀ packets, ({} : XdpStatsDatarec).add packets =
      ⟨UInt64.ofNat packets.length, UInt64.ofNat (bytes packets)⟩ := by
    intro packets
    simp [XdpStatsDatarec.add]
  refine ⟨maps, actions, hrun, hactions, fun cpu =>
    ⟨fun p => ?_, sum_countedAs cpu arrivals, ?_, ?_⟩⟩
  · rw [hcounter, lookup_ipproto, Option.map_some]
    exact congrArg some (UInt64.zero_add _)
  · rw [hstats, hzero cpu _ (by decide), Option.map_some, hpass, hadd]
  · rw [hstats, hzero cpu _ (by decide), Option.map_some, hdrop, hadd]

end XMonitor.Xdp
