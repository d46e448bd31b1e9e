import XMonitor.Hbm.Budget
import XMonitor.Lib.EventRun

/-!
# Rate conformance

The packets of a cgroup are handled one after another. Between two packets that are
kept, the time stamps are at least as far apart as the kept packets in between take at
the rate of the cgroup, and each stamp is close to the clock. Hence the bytes that are
kept in any interval are bounded by the rate and a constant burst.
-/

namespace XMonitor.Hbm

open EventRun

/-- The state after a packet. -/
def afterPacket (st : Cgroup) (p : Packet) : Cgroup := (xmHbmEdtOut st p).1

/-- The information with which a packet enters the critical section. -/
def Packet.info (p : Packet) (st : Cgroup) : HbmEdtInfo :=
  hbmInitOrUpdate st.hei p.nowNs p.customRateMbps

/-- No 64-bit number overflows while the packet is handled. -/
def NoOverflow (st : Cgroup) (p : Packet) : Prop :=
  p.exempt = false → Fits (p.info st) p.nowNs p.skbLen

/-- What the critical section has computed for a packet that is limited and kept. -/
def Outcome.kept (o : Outcome) : Option Admission :=
  if o.ret &&& 1 = 1 then o.admission else none

/-- The bytes of a packet on the wire, with the overhead of its segments. -/
def Packet.wireBytes (p : Packet) : Nat := p.skb.len.toNat + p.segs.toNat * 24

/-- A quantity of the packets that are limited and kept, added up over a run. -/
def keptSum (f : Packet → Admission → Nat) (st : Cgroup) : List Packet → Nat
  | [] => 0
  | p :: ps => ((xmHbmEdtOut st p).2.kept.elim 0 (f p)) + keptSum f (afterPacket st p) ps

/-- The delays of the packets that are kept in a run. -/
def keptDelay : Cgroup → List Packet → Nat := keptSum fun _ a => a.delayNs.toNat

def keptBytes : Cgroup → List Packet → Nat := keptSum fun p _ => p.wireBytes

theorem toNat_segs (p : Packet) : p.segs.toNat < 2 ^ 16 := by
  rw [Packet.segs]
  split
  · exact p.skb.gsoSegs.toNat_lt
  · decide

theorem toNat_skbLen (p : Packet) : p.skbLen.toNat = p.wireBytes := by
  have hsegs := toNat_segs p
  have hlen := p.skb.len.toNat_lt
  have hover : (p.segs * l2OverheadBytes).toNat = p.segs.toNat * 24 := by
    rw [UInt32.toNat_mul]
    exact Nat.mod_eq_of_lt (show p.segs.toNat * 24 < 2 ^ 32 by omega)
  rw [Packet.skbLen, UInt64.toNat_add, UInt32.toNat_toUInt64, UInt32.toNat_toUInt64, hover,
    Nat.mod_eq_of_lt (by omega)]
  rfl

/-! ## One packet -/

section Packet

variable {st : Cgroup} {p : Packet}

theorem xmHbmEdtOut_exempt (h : p.exempt = true) :
    xmHbmEdtOut st p = (st, ⟨keepPkt, none⟩) := if_pos h

theorem kept_exempt (h : p.exempt = true) : (xmHbmEdtOut st p).2.kept = none := by
  rw [xmHbmEdtOut_exempt h]
  exact ite_self _

/-- The admission of a packet that is limited. -/
def Packet.admission (p : Packet) (st : Cgroup) : Admission :=
  (criticalSection (p.info st) p.nowNs p.skbLen).2

variable (h : p.exempt = false)

include h

theorem xmHbmEdtOut_limited :
    xmHbmEdtOut st p =
      ({ hei :=
          if (p.verdict (p.admission st).delta).dropFlag then
            rollBack (criticalSection (p.info st) p.nowNs p.skbLen).1 (p.admission st).delayNs
          else (criticalSection (p.info st) p.nowNs p.skbLen).1
         counters := (p.updates (p.admission st).delta).foldl addTo st.counters },
        ⟨(p.verdict (p.admission st).delta).ret, some (p.admission st)⟩) :=
  if_neg (Bool.eq_false_iff.mp h)

theorem kept_limited :
    (xmHbmEdtOut st p).2.kept =
      if (p.verdict (p.admission st).delta).dropFlag = false then some (p.admission st)
      else none := by
  rw [xmHbmEdtOut_limited h]
  by_cases hdrop : (p.verdict (p.admission st).delta).dropFlag = false
  · rw [if_pos hdrop]
    exact if_pos ((ret_and_one _).mpr hdrop)
  · rw [if_neg hdrop]
    exact if_neg fun hret => hdrop ((ret_and_one _).mp hret)

theorem rate_limited :
    (afterPacket st p).hei.rateMbps = (p.info st).rateMbps ∧
      (afterPacket st p).hei.nsPerByte = (p.info st).nsPerByte := by
  rw [afterPacket, xmHbmEdtOut_limited h]
  change (if _ then _ else _ : HbmEdtInfo).rateMbps = _ ∧
    (if _ then _ else _ : HbmEdtInfo).nsPerByte = _
  split <;> exact ⟨rfl, rfl⟩

/-- The budget follows the time of the packet, and its delay if the packet is kept. -/
theorem lastTime_limited (hfit : NoOverflow st p) :
    (afterPacket st p).hei.lastTime.toNat =
      (p.admission st).sendTime.toNat +
        (xmHbmEdtOut st p).2.kept.elim 0 fun a => a.delayNs.toNat := by
  have hlast := lastTime_criticalSection (hfit h)
  rw [kept_limited h, afterPacket, xmHbmEdtOut_limited h]
  change (if (p.verdict (p.admission st).delta).dropFlag = true then _
    else _ : HbmEdtInfo).lastTime.toNat = _
  cases hdrop : (p.verdict (p.admission st).delta).dropFlag with
  | false => exact hlast
  | true =>
      have hle : (p.admission st).delayNs.toNat ≤
          (criticalSection (p.info st) p.nowNs p.skbLen).1.lastTime.toNat := by
        rw [hlast]
        exact Nat.le_add_left _ _
      have hback := lastTime_rollBack hle
      rw [hlast] at hback
      exact hback.trans (Nat.add_sub_cancel _ _)

/-- The time of a packet is not before the budget it finds. -/
theorem lastTime_le_sendTime (hfit : NoOverflow st p) :
    st.hei.lastTime.toNat ≤ (p.admission st).sendTime.toNat := by
  have hinit : st.hei.lastTime.toNat ≤ (p.info st).lastTime.toNat := lastTime_lockedInit _ _
  have hsend : (p.admission st).sendTime.toNat = max (p.info st).lastTime.toNat
      (p.nowNs.toNat - burstSizeNs) := toNat_sendTime (hfit h)
  omega

end Packet

theorem admission_of_kept {st : Cgroup} {p : Packet} {a : Admission}
    (h : (xmHbmEdtOut st p).2.kept = some a) :
    p.exempt = false ∧ (p.verdict (p.admission st).delta).dropFlag = false ∧
      a = p.admission st := by
  have hlimited : p.exempt = false := by
    rw [← Bool.not_eq_true]
    intro hexempt
    rw [kept_exempt hexempt] at h
    cases h
  rw [kept_limited hlimited] at h
  split at h
  case isTrue hdrop =>
    cases h
    exact ⟨hlimited, hdrop, rfl⟩
  case isFalse => cases h

/-- The stamp of a kept packet is close to the clock. -/
theorem sendTime_of_kept {st : Cgroup} {p : Packet} {a : Admission} (hfit : NoOverflow st p)
    (h : (xmHbmEdtOut st p).2.kept = some a) :
    p.nowNs.toNat ≤ a.sendTime.toNat + burstSizeNs ∧
      a.sendTime.toNat ≤ p.nowNs.toNat + dropThreshNs := by
  obtain ⟨hlimited, hdrop, rfl⟩ := admission_of_kept h
  have hsend : (p.admission st).sendTime.toNat = max (p.info st).lastTime.toNat
      (p.nowNs.toNat - burstSizeNs) := toNat_sendTime (hfit hlimited)
  have hdelta : (p.admission st).delta = ((p.admission st).sendTime.toNat : Int) - p.nowNs.toNat :=
    delta_criticalSection (hfit hlimited)
  have hle := delta_le_of_kept hdrop
  omega

/-! ## Runs -/

theorem lastTime_afterPacket {st : Cgroup} {p : Packet} (hfit : NoOverflow st p) :
    st.hei.lastTime.toNat + ((xmHbmEdtOut st p).2.kept.elim 0 fun a => a.delayNs.toNat) ≤
      (afterPacket st p).hei.lastTime.toNat := by
  cases hexempt : p.exempt with
  | true =>
      rw [kept_exempt hexempt, afterPacket, xmHbmEdtOut_exempt hexempt]
      exact Nat.le_refl _
  | false =>
      have hle := lastTime_le_sendTime hexempt hfit
      rw [lastTime_limited hexempt hfit]
      omega

/-- The budget grows by the delays of all kept packets. -/
theorem lastTime_foldl {st : Cgroup} {ps : List Packet}
    (hfit : AllSteps afterPacket NoOverflow st ps) :
    st.hei.lastTime.toNat + keptDelay st ps ≤
      (ps.foldl afterPacket st).hei.lastTime.toNat := by
  induction ps generalizing st with
  | nil => exact Nat.le_refl _
  | cons p ps ih =>
      have hfirst := lastTime_afterPacket hfit.1
      have hrest := ih hfit.2
      rw [keptDelay, keptSum, List.foldl_cons]
      rw [keptDelay] at hrest
      omega

/-- The information of a cgroup that has sent a packet, while its configuration asks
for the same custom rate. -/
structure Settled (custom rate : UInt32) (hei : HbmEdtInfo) : Prop where
  rate_eq : hei.rateMbps = rate
  rate_ne : rate ≠ 0
  custom_eq : custom = 0 ∨ custom = rate
  paced : Paced hei
  lastTime_ne : hei.lastTime ≠ 0

theorem custom_hbmInitOrUpdate (hei : HbmEdtInfo) (nowNs : UInt64) (custom : UInt32) :
    custom = 0 ∨ custom = (hbmInitOrUpdate hei nowNs custom).rateMbps := by
  by_cases hcustom : custom = 0
  · exact .inl hcustom
  · refine .inr ?_
    rw [hbmInitOrUpdate, initBranch]
    split
    case isTrue hinit =>
      rw [lockedInit, if_pos hinit]
      exact (if_pos hcustom).symm
    case isFalse =>
      split
      case isTrue hnew => rw [lockedInit, if_pos hnew]
      case isFalse hsame =>
        by_contra hne
        exact hsame ⟨hcustom, hne⟩

theorem Paced.congr {hei hei' : HbmEdtInfo} (h : Paced hei) (hrate : hei'.rateMbps = hei.rateMbps)
    (hns : hei'.nsPerByte = hei.nsPerByte) : Paced hei' := by
  rw [Paced, hrate, hns]
  exact h

/-- The budget is past the start of the clock after a packet. -/
theorem lastTime_ne_zero {st : Cgroup} {p : Packet} (hst : Paced st.hei)
    (h : p.exempt = false) (hfit : NoOverflow st p) : (afterPacket st p).hei.lastTime ≠ 0 := by
  intro hzero
  have hlast := lastTime_limited h hfit
  rw [kept_limited h, hzero] at hlast
  change 0 = _ at hlast
  cases hdrop : (p.verdict (p.admission st).delta).dropFlag with
  | true =>
      have hdelta : (p.admission st).delta = ((p.admission st).sendTime.toNat : Int) -
          p.nowNs.toNat := delta_criticalSection (hfit h)
      have hahead := lt_delta_of_dropped hdrop
      omega
  | false =>
      have hdelay : (p.admission st).delayNs.toNat = p.skbLen.toNat * (p.info st).nsPerByte.toNat :=
        toNat_delayNs (hfit h)
      have hprice := (paced_lockedInit hst p.nowNs p.customRateMbps _
        (rateMbps_hbmInitOrUpdate _ _ _)).1
      have hsegs : 1 ≤ p.segs.toNat := by
        rw [Packet.segs]
        split
        case isTrue hgso => exact Nat.le_of_lt hgso.2
        case isFalse => decide
      have hbytes : 1 ≤ p.skbLen.toNat := by
        rw [toNat_skbLen, Packet.wireBytes]
        omega
      have hpos : 1 ≤ p.skbLen.toNat * (p.info st).nsPerByte.toNat := Nat.mul_le_mul hbytes hprice
      rw [hdrop, if_pos rfl] at hlast
      change 0 = _ + (p.admission st).delayNs.toNat at hlast
      omega

theorem settled_afterPacket {st : Cgroup} {p : Packet} (hst : Paced st.hei)
    (h : p.exempt = false) (hfit : NoOverflow st p) :
    Settled p.customRateMbps (p.info st).rateMbps (afterPacket st p).hei := by
  obtain ⟨hrate, hns⟩ := rate_limited h
  refine ⟨hrate, rateMbps_hbmInitOrUpdate _ _ _, custom_hbmInitOrUpdate _ _ _, ?_,
    lastTime_ne_zero hst h hfit⟩
  exact (paced_lockedInit hst p.nowNs p.customRateMbps _).congr hrate hns

theorem paced_afterPacket {st : Cgroup} (p : Packet) (hst : Paced st.hei) :
    Paced (afterPacket st p).hei := by
  cases h : p.exempt with
  | true =>
      rw [afterPacket, xmHbmEdtOut_exempt h]
      exact hst
  | false =>
      obtain ⟨hrate, hns⟩ := rate_limited h
      exact (paced_lockedInit hst p.nowNs p.customRateMbps _).congr hrate hns

/-- A settled rate does not change. -/
theorem Settled.info_rate {custom rate : UInt32} {st : Cgroup} {p : Packet}
    (hs : Settled custom rate st.hei) (hcustom : p.customRateMbps = custom) :
    (p.info st).rateMbps = rate := by
  have hnot : ¬(st.hei.lastTime = 0 ∨ st.hei.rateMbps = 0) :=
    not_or.mpr ⟨hs.lastTime_ne, hs.rate_eq ▸ hs.rate_ne⟩
  rw [Packet.info, hcustom, hbmInitOrUpdate, initBranch, if_neg hnot]
  split
  case isTrue hnew =>
    exact absurd (hs.custom_eq.resolve_left hnew.1) (hs.rate_eq ▸ hnew.2)
  case isFalse => exact hs.rate_eq

theorem Settled.afterPacket {custom rate : UInt32} {st : Cgroup} {p : Packet}
    (hs : Settled custom rate st.hei) (hcustom : p.exempt = false → p.customRateMbps = custom)
    (hfit : NoOverflow st p) : Settled custom rate (Hbm.afterPacket st p).hei := by
  cases h : p.exempt with
  | true =>
      rw [Hbm.afterPacket, xmHbmEdtOut_exempt h]
      exact hs
  | false =>
      have hnext := settled_afterPacket hs.paced h hfit
      rw [hcustom h, hs.info_rate (hcustom h)] at hnext
      exact hnext

/-- The delay of a packet pays for its bytes. -/
theorem bytes_le_delay {st : Cgroup} {p : Packet} (hst : Paced st.hei)
    (h : p.exempt = false) (hfit : NoOverflow st p) :
    p.wireBytes * 8000 ≤ (p.info st).rateMbps.toNat * (p.admission st).delayNs.toNat := by
  have hdelay : (p.admission st).delayNs.toNat = p.skbLen.toNat * (p.info st).nsPerByte.toNat :=
    toNat_delayNs (hfit h)
  have hprice := (paced_lockedInit hst p.nowNs p.customRateMbps _
    (rateMbps_hbmInitOrUpdate _ _ _)).2.2
  rw [hdelay, toNat_skbLen]
  calc p.wireBytes * 8000
      ≤ p.wireBytes * ((p.info st).nsPerByte.toNat * (p.info st).rateMbps.toNat) :=
        Nat.mul_le_mul_left _ hprice
    _ = (p.info st).rateMbps.toNat * (p.wireBytes * (p.info st).nsPerByte.toNat) := by
        rw [← Nat.mul_assoc, Nat.mul_comm]

/-- Over a run at a settled rate the kept bytes are paid for by the kept delays. -/
theorem keptBytes_le {custom rate : UInt32} {st : Cgroup} {ps : List Packet}
    (hs : Settled custom rate st.hei)
    (hcustom : ∀ p ∈ ps, p.exempt = false → p.customRateMbps = custom)
    (hfit : AllSteps afterPacket NoOverflow st ps) :
    keptBytes st ps * 8000 ≤ rate.toNat * keptDelay st ps := by
  induction ps generalizing st with
  | nil => exact Nat.le_of_eq (Nat.zero_mul _)
  | cons p ps ih =>
      obtain ⟨hp, hps⟩ := List.forall_mem_cons.mp hcustom
      have hrest := ih (hs.afterPacket hp hfit.1) hps hfit.2
      rw [keptBytes, keptDelay, keptSum, keptSum, Nat.add_mul, Nat.mul_add]
      apply Nat.add_le_add
      · cases hkept : (xmHbmEdtOut st p).2.kept with
        | none => exact Nat.le_of_eq (Nat.zero_mul _)
        | some a =>
            obtain ⟨hlimited, -, rfl⟩ := admission_of_kept hkept
            have hpay := bytes_le_delay hs.paced hlimited hfit.1
            rw [hs.info_rate (hp hlimited)] at hpay
            exact hpay
      · exact hrest

theorem settled_foldl {custom rate : UInt32} {st : Cgroup} {ps : List Packet}
    (hs : Settled custom rate st.hei)
    (hcustom : ∀ p ∈ ps, p.exempt = false → p.customRateMbps = custom)
    (hfit : AllSteps afterPacket NoOverflow st ps) :
    Settled custom rate (ps.foldl afterPacket st).hei := by
  induction ps generalizing st with
  | nil => exact hs
  | cons p ps ih =>
      obtain ⟨hp, hps⟩ := List.forall_mem_cons.mp hcustom
      exact ih (hs.afterPacket hp hfit.1) hps hfit.2

theorem paced_foldl {st : Cgroup} (hst : Paced st.hei) (ps : List Packet) :
    Paced (ps.foldl afterPacket st).hei := by
  have keep : ∀ (st : Cgroup) (p : Packet), Paced st.hei → Paced (afterPacket st p).hei :=
    fun _ p h => paced_afterPacket p h
  exact foldl_preserves keep hst ps

/-- Of two kept packets the later stamp is after the earlier one by at least the delays
of the kept packets from the one up to the other. -/
theorem sendTime_add_keptDelay {st : Cgroup} {between : List Packet} {pi pj : Packet}
    {ai aj : Admission} (hpi : NoOverflow st pi)
    (hbetween : AllSteps afterPacket NoOverflow (afterPacket st pi) between)
    (hpj : NoOverflow (between.foldl afterPacket (afterPacket st pi)) pj)
    (hi : (xmHbmEdtOut st pi).2.kept = some ai)
    (hj : (xmHbmEdtOut (between.foldl afterPacket (afterPacket st pi)) pj).2.kept = some aj) :
    ai.sendTime.toNat + keptDelay st (pi :: between) ≤ aj.sendTime.toNat := by
  obtain ⟨hlimited, -, rfl⟩ := admission_of_kept hi
  obtain ⟨hlimited', -, rfl⟩ := admission_of_kept hj
  have hlast := lastTime_limited hlimited hpi
  have hgrow := lastTime_foldl hbetween
  have hnext := lastTime_le_sendTime hlimited' hpj
  rw [hi] at hlast
  change _ = _ + (pi.admission st).delayNs.toNat at hlast
  have hsum : keptDelay st (pi :: between) =
      (pi.admission st).delayNs.toNat + keptDelay (afterPacket st pi) between := by
    rw [keptDelay, keptSum, hi]
    rfl
  omega

/-- The bytes kept from a packet on are paid for, at the rate that the packet finds. -/
theorem keptBytes_cons_le {custom : UInt32} {st : Cgroup} {pi : Packet} {between : List Packet}
    {ai : Admission} (hst : Paced st.hei) (hi : (xmHbmEdtOut st pi).2.kept = some ai)
    (hcustom : ∀ p ∈ pi :: between, p.exempt = false → p.customRateMbps = custom)
    (hfit : AllSteps afterPacket NoOverflow st (pi :: between)) :
    keptBytes st (pi :: between) * 8000 ≤
      (pi.info st).rateMbps.toNat * keptDelay st (pi :: between) := by
  obtain ⟨hlimited, -, rfl⟩ := admission_of_kept hi
  obtain ⟨hcustomi, hcustoms⟩ := List.forall_mem_cons.mp hcustom
  have hsettled := settled_afterPacket hst hlimited hfit.1
  rw [hcustomi hlimited] at hsettled
  have hrest := keptBytes_le hsettled hcustoms hfit.2
  have hfirst := bytes_le_delay hst hlimited hfit.1
  rw [keptBytes, keptDelay, keptSum, keptSum, hi, Nat.add_mul, Nat.mul_add]
  exact Nat.add_le_add hfirst hrest

/-- Of any two kept packets in any sequence: the later stamp is at least the delays of
the kept packets up to it after the earlier one, it is close to the clock, and the bytes
kept from the first packet up to the second conform to the rate. -/
theorem rate_conformance :
    (∀ (hei : HbmEdtInfo) (nowNs : UInt64) (custom : UInt32), Paced hei →
      1 ≤ (hbmInitOrUpdate hei nowNs custom).nsPerByte.toNat ∧
        8000 ≤ (hbmInitOrUpdate hei nowNs custom).nsPerByte.toNat *
          (hbmInitOrUpdate hei nowNs custom).rateMbps.toNat) ∧
    ∀ (st : Cgroup) (custom : UInt32) (before between after : List Packet) (pi pj : Packet)
      (ai aj : Admission), Paced st.hei →
      (∀ p ∈ before ++ pi :: (between ++ pj :: after),
        p.exempt = false → p.customRateMbps = custom) →
      AllSteps afterPacket NoOverflow st (before ++ pi :: (between ++ pj :: after)) →
      let sti := before.foldl afterPacket st
      let stj := (pi :: between).foldl afterPacket sti
      (xmHbmEdtOut sti pi).2.kept = some ai →
      (xmHbmEdtOut stj pj).2.kept = some aj →
      ai.sendTime.toNat + keptDelay sti (pi :: between) ≤ aj.sendTime.toNat ∧
      (pj.nowNs.toNat ≤ aj.sendTime.toNat + burstSizeNs ∧
        aj.sendTime.toNat ≤ pj.nowNs.toNat + dropThreshNs) ∧
      (keptBytes sti (pi :: between) * 8000 : Int) ≤
        (afterPacket stj pj).hei.rateMbps.toNat *
          ((pj.nowNs.toNat : Int) - pi.nowNs.toNat + burstSizeNs + dropThreshNs) := by
  refine ⟨fun hei nowNs custom hpaced => ?_, ?_⟩
  · have hprice := paced_lockedInit hpaced nowNs custom _
      (rateMbps_hbmInitOrUpdate hei nowNs custom)
    exact ⟨hprice.1, hprice.2.2⟩
  · intro st custom before between after pi pj ai aj hst hcustom hfit sti stj hi hj
    obtain ⟨-, hpi, hrest⟩ := allSteps_append.mp hfit
    obtain ⟨hbetween, hpj, -⟩ := allSteps_append.mp hrest
    have hsti : Paced sti.hei := paced_foldl hst before
    have hcustomi : ∀ p ∈ pi :: between, p.exempt = false → p.customRateMbps = custom :=
      fun p hp => hcustom p (by grind)
    have hgap : ai.sendTime.toNat + keptDelay sti (pi :: between) ≤ aj.sendTime.toNat :=
      sendTime_add_keptDelay hpi hbetween hpj hi hj
    have hclocki := sendTime_of_kept hpi hi
    have hclockj := sendTime_of_kept hpj hj
    refine ⟨hgap, hclockj, ?_⟩
    have hpaid := keptBytes_cons_le hsti hi hcustomi ⟨hpi, hbetween⟩
    have hrate : (afterPacket stj pj).hei.rateMbps = (pi.info sti).rateMbps := by
      have hsettled := settled_afterPacket hsti (admission_of_kept hi).1 hpi
      rw [hcustomi pi List.mem_cons_self (admission_of_kept hi).1] at hsettled
      have hstj := settled_foldl hsettled (fun p hp => hcustomi p (List.mem_cons_of_mem pi hp))
        hbetween
      exact (hstj.afterPacket (hcustom pj (by simp)) hpj).rate_eq
    rw [hrate]
    calc (keptBytes sti (pi :: between) * 8000 : Int)
        ≤ (pi.info sti).rateMbps.toNat * keptDelay sti (pi :: between) := by
          exact_mod_cast hpaid
      _ ≤ (pi.info sti).rateMbps.toNat *
          ((pj.nowNs.toNat : Int) - pi.nowNs.toNat + burstSizeNs + dropThreshNs) := by
          apply Int.mul_le_mul_of_nonneg_left _ (Int.natCast_nonneg _)
          omega

/-- A datagram of 100 bytes in a cgroup with 100 Mbps. -/
def datagram (nowNs : UInt64) : Packet where
  skb :=
    { len := 100
      gsoSegs := 0
      ifindex := 2
      data := [0x45, 0, 0, 100, 0, 0, 0, 0, 64, 17, 0, 0, 10, 0, 0, 1, 10, 0, 0, 2]
      fullsock := none }
  hes := some { customRateMbps := 100, stats := true, noLoopback := true }
  storage := true
  nowNs := nowNs
  ecnSetCe := false
  randLen := 0

/-- The state of a cgroup that has not sent anything. -/
def freshCgroup : Cgroup := { hei := ⟨0, 0, 0⟩, counters := fun _ => 0 }

theorem rate_conformance_datagrams :
    (keptBytes freshCgroup [datagram 1000000] * 8000 : Int) ≤ 100 * (500 + 300000 + 800000) := by
  have hconform := (rate_conformance.2 freshCgroup 100 [] [] [] (datagram 1000000)
    (datagram 1000500) ((datagram 1000000).admission freshCgroup)
    ((datagram 1000500).admission (afterPacket freshCgroup (datagram 1000000)))
    (fun h => absurd rfl h) (by decide) ⟨fun _ => by decide, fun _ => by decide, trivial⟩
    (by rfl) (by rfl)).2.2
  apply Int.le_trans hconform
  decide

end XMonitor.Hbm
