import XMonitor.Hbm.Limiter
import XMonitor.Utils.Durations

/-!
# The arithmetic of one packet

The budget and the clock are unsigned 64-bit numbers, their difference is a signed one.
As long as nothing overflows, the critical section moves `last_time` up to the time of
the packet and adds its delay, and the roll back takes the same delay away.
-/

namespace XMonitor.Hbm

/-- Nothing in the critical section overflows: the difference to the clock fits 63 bits
and a sign, and the budget after the packet fits 64 bits. -/
def Fits (hei : HbmEdtInfo) (nowNs skbLen : UInt64) : Prop :=
  nowNs.toNat ≤ hei.lastTime.toNat + 2 ^ 63 ∧ hei.lastTime.toNat < nowNs.toNat + 2 ^ 63 ∧
    max hei.lastTime.toNat (nowNs.toNat - burstSizeNs) +
      skbLen.toNat * hei.nsPerByte.toNat < 2 ^ 64

instance (hei : HbmEdtInfo) (nowNs skbLen : UInt64) : Decidable (Fits hei nowNs skbLen) :=
  inferInstanceAs (Decidable (_ ∧ _ ∧ _))

/-- The price of a byte is what the rate asks for. Storage that has not been used yet
has no rate. -/
def Paced (hei : HbmEdtInfo) : Prop :=
  hei.rateMbps ≠ 0 → 1 ≤ hei.nsPerByte.toNat ∧ hei.nsPerByte.toNat ≤ 8000 ∧
    8000 ≤ hei.nsPerByte.toNat * hei.rateMbps.toNat

/-! ## The rate -/

theorem nsPerByteOf_spec {denom : UInt32} (h : denom ≠ 0) :
    1 ≤ (nsPerByteOf denom).toNat ∧ (nsPerByteOf denom).toNat ≤ 8000 ∧
      8000 ≤ (nsPerByteOf denom).toNat * denom.toNat := by
  have hlt := denom.toNat_lt
  have hpos : 0 < denom.toNat := Nat.pos_of_ne_zero fun h0 => h (UInt32.toNat_inj.mp h0)
  have hquot : ((8000 + denom - 1) / denom).toNat =
      (8000 + denom.toNat + (2 ^ 32 - 1)) % 2 ^ 32 / denom.toNat := by
    have hbase : (8000 : UInt32).toNat = 8000 := rfl
    have hone : (1 : UInt32).toNat = 1 := rfl
    have hsum : (2 ^ 32 - 1 + (8000 + denom.toNat) % 2 ^ 32) % 2 ^ 32 =
        (8000 + denom.toNat + (2 ^ 32 - 1)) % 2 ^ 32 := by omega
    rw [UInt32.toNat_div, UInt32.toNat_sub, UInt32.toNat_add, hbase, hone, hsum]
  by_cases hwrap : 8000 + denom.toNat ≤ 2 ^ 32
  · -- The division rounds up.
    have hsum : (8000 + denom.toNat + (2 ^ 32 - 1)) % 2 ^ 32 = 7999 + denom.toNat := by omega
    rw [hsum] at hquot
    have hone : 1 ≤ (7999 + denom.toNat) / denom.toNat :=
      (Nat.le_div_iff_mul_le hpos).mpr (by omega)
    have hmax : (7999 + denom.toNat) / denom.toNat ≤ 8000 := by
      apply Nat.div_le_of_le_mul
      have hmul : 7999 * 1 ≤ 7999 * denom.toNat := Nat.mul_le_mul_left _ hpos
      omega
    have hceil : 8000 ≤ (7999 + denom.toNat) / denom.toNat * denom.toNat := by
      have hmod := Nat.mod_lt (7999 + denom.toNat) hpos
      have hdiv := Nat.div_add_mod' (7999 + denom.toNat) denom.toNat
      omega
    have hne : (8000 + denom - 1) / denom ≠ 0 := by
      intro h0
      rw [h0] at hquot
      change 0 = _ at hquot
      omega
    rw [nsPerByteOf, if_pos hne, hquot]
    exact ⟨hone, hmax, hceil⟩
  · -- The sum wraps to less than the rate, and the price is the least one.
    have hsum : (8000 + denom.toNat + (2 ^ 32 - 1)) % 2 ^ 32 < denom.toNat := by omega
    rw [Nat.div_eq_of_lt hsum] at hquot
    have hzero : (8000 + denom - 1) / denom = 0 := UInt32.toNat_inj.mp hquot
    rw [nsPerByteOf, hzero]
    change 1 ≤ 1 ∧ 1 ≤ 8000 ∧ 8000 ≤ 1 * denom.toNat
    omega

/-- The branch, and what the lock may find changed since it was chosen, do not matter. -/
theorem paced_lockedInit {hei : HbmEdtInfo} (h : Paced hei) (nowNs : UInt64)
    (rateMbps : UInt32) (branch : InitBranch) :
    Paced (lockedInit hei nowNs rateMbps branch) := by
  cases branch with
  | init =>
      rw [lockedInit]
      split
      · intro hrate
        have hdenom : (if (if rateMbps ≠ 0 then rateMbps else 100) ≠ 0 then
            (if rateMbps ≠ 0 then rateMbps else 100) else 1) =
            if rateMbps ≠ 0 then rateMbps else 100 := if_pos hrate
        change 1 ≤ (nsPerByteOf _).toNat ∧ (nsPerByteOf _).toNat ≤ 8000 ∧
          8000 ≤ (nsPerByteOf _).toNat * _
        rw [hdenom]
        exact nsPerByteOf_spec hrate
      · exact h
  | update =>
      rw [lockedInit]
      split
      · exact fun hrate => nsPerByteOf_spec hrate
      · exact h
  | skip => exact h

/-- After the initialisation there is a rate. -/
theorem rateMbps_hbmInitOrUpdate (hei : HbmEdtInfo) (nowNs : UInt64) (rateMbps : UInt32) :
    (hbmInitOrUpdate hei nowNs rateMbps).rateMbps ≠ 0 := by
  rw [hbmInitOrUpdate, initBranch]
  split
  case isTrue h =>
    rw [lockedInit, if_pos h]
    change (if rateMbps ≠ 0 then rateMbps else 100) ≠ 0
    split
    · assumption
    · decide
  case isFalse h =>
    obtain ⟨-, hrate⟩ := not_or.mp h
    split
    case isTrue hnew =>
      rw [lockedInit, if_pos hnew]
      exact hnew.1
    case isFalse => exact hrate

theorem lastTime_lockedInit {hei : HbmEdtInfo} {nowNs : UInt64} (rateMbps : UInt32)
    (branch : InitBranch) :
    hei.lastTime.toNat ≤ (lockedInit hei nowNs rateMbps branch).lastTime.toNat := by
  cases branch with
  | init =>
      rw [lockedInit]
      split
      · change _ ≤ (if hei.lastTime = 0 then _ else _ : UInt64).toNat
        split
        case isTrue hzero =>
          rw [hzero]
          exact Nat.zero_le _
        case isFalse => exact Nat.le_refl _
      · exact Nat.le_refl _
  | update =>
      rw [lockedInit]
      split <;> exact Nat.le_refl _
  | skip => exact Nat.le_refl _

theorem lastTime_lockedInit_le {hei : HbmEdtInfo} {nowNs : UInt64}
    (h : burstSizeNs ≤ nowNs.toNat) (rateMbps : UInt32) (branch : InitBranch) :
    (lockedInit hei nowNs rateMbps branch).lastTime.toNat ≤
      max hei.lastTime.toNat nowNs.toNat := by
  have hburst : UInt64.ofNat burstSizeNs ≤ nowNs := h
  cases branch with
  | init =>
      rw [lockedInit]
      split
      · change (if hei.lastTime = 0 then _ else _ : UInt64).toNat ≤ _
        split
        · rw [UInt64.toNat_sub_of_le _ _ hburst]
          exact Nat.le_trans (Nat.sub_le _ _) (Nat.le_max_right _ _)
        · exact Nat.le_max_left _ _
      · exact Nat.le_max_left _ _
  | update =>
      rw [lockedInit]
      split <;> exact Nat.le_max_left _ _
  | skip => exact Nat.le_max_left _ _

/-! ## The critical section -/

section CriticalSection

variable {hei : HbmEdtInfo} {nowNs skbLen : UInt64} (h : Fits hei nowNs skbLen)

include h

theorem toNat_sendTime :
    (criticalSection hei nowNs skbLen).2.sendTime.toNat =
      max hei.lastTime.toNat (nowNs.toNat - burstSizeNs) := by
  have hsend : (criticalSection hei nowNs skbLen).2.sendTime =
      if (hei.lastTime - nowNs).toInt64.toInt < -burstSizeNs then
        nowNs - .ofNat burstSizeNs
      else hei.lastTime := rfl
  rw [hsend, toNat_toInt64_sub h.1 h.2.1]
  split
  case isTrue hclip =>
    have hburst : UInt64.ofNat burstSizeNs ≤ nowNs :=
      show burstSizeNs ≤ nowNs.toNat by omega
    rw [UInt64.toNat_sub_of_le _ _ hburst]
    change nowNs.toNat - burstSizeNs = _
    omega
  case isFalse hclip => omega

theorem delta_criticalSection :
    (criticalSection hei nowNs skbLen).2.delta =
      ((criticalSection hei nowNs skbLen).2.sendTime.toNat : Int) - nowNs.toNat := by
  have hdelta : (criticalSection hei nowNs skbLen).2.delta =
      if (hei.lastTime - nowNs).toInt64.toInt < -burstSizeNs then -(burstSizeNs : Int)
      else (hei.lastTime - nowNs).toInt64.toInt := rfl
  rw [hdelta, toNat_sendTime h, toNat_toInt64_sub h.1 h.2.1]
  split <;> omega

theorem toNat_delayNs :
    (criticalSection hei nowNs skbLen).2.delayNs.toNat =
      skbLen.toNat * hei.nsPerByte.toNat := by
  have hfit := h.2.2
  change (skbLen * hei.nsPerByte.toUInt64).toNat = _
  rw [UInt64.toNat_mul, UInt32.toNat_toUInt64]
  exact Nat.mod_eq_of_lt (by omega)

theorem lastTime_criticalSection :
    (criticalSection hei nowNs skbLen).1.lastTime.toNat =
      (criticalSection hei nowNs skbLen).2.sendTime.toNat +
        (criticalSection hei nowNs skbLen).2.delayNs.toNat := by
  have hfit := h.2.2
  have hsend := toNat_sendTime h
  have hdelay := toNat_delayNs h
  change ((criticalSection hei nowNs skbLen).2.sendTime +
    (criticalSection hei nowNs skbLen).2.delayNs).toNat = _
  rw [UInt64.toNat_add, Nat.mod_eq_of_lt (by omega)]

end CriticalSection

theorem lastTime_rollBack {hei : HbmEdtInfo} {delayNs : UInt64}
    (h : delayNs.toNat ≤ hei.lastTime.toNat) :
    (rollBack hei delayNs).lastTime.toNat = hei.lastTime.toNat - delayNs.toNat := by
  have hsub : hei.lastTime + -delayNs = hei.lastTime - delayNs :=
    (UInt64.sub_eq_add_neg _ _).symm
  change (hei.lastTime + -delayNs).toNat = _
  rw [hsub]
  exact UInt64.toNat_sub_of_le _ _ h

/-! ## The decision -/

/-- A packet that is not dropped is not far ahead. -/
theorem delta_le_of_kept {p : Packet} {delta : Int} (h : (p.verdict delta).dropFlag = false) :
    delta ≤ dropThreshNs := by
  by_contra hlt
  have hthresh : (p.thresholdVerdict delta).dropFlag = true ∧
      (p.thresholdVerdict delta).congestionFlag = false := by
    rw [Packet.thresholdVerdict, if_pos (.inl (Int.not_le.mp hlt))]
    exact ⟨rfl, rfl⟩
  rw [Packet.verdict, Packet.markVerdict, hthresh.2] at h
  exact absurd (hthresh.1.symm.trans h) (by decide)

/-- A packet that is dropped is ahead of the clock. -/
theorem lt_delta_of_dropped {p : Packet} {delta : Int}
    (h : (p.verdict delta).dropFlag = true) : markThreshNs < delta := by
  by_contra hle
  have hnot : ¬(dropThreshNs < delta ∨
      largePktDropThreshNs < delta ∧ p.isLargePkt = true) := by
    have hdrop : markThreshNs ≤ dropThreshNs := by decide
    have hlarge : markThreshNs ≤ largePktDropThreshNs := by decide
    omega
  have hthresh : p.thresholdVerdict delta = {} := by
    rw [Packet.thresholdVerdict, if_neg hnot, if_neg hle]
  rw [Packet.verdict, hthresh] at h
  cases h

theorem ret_and_one (v : Verdict) : v.ret &&& 1 = 1 ↔ v.dropFlag = false := by
  obtain ⟨drop, cwr, congestion, ecnCe⟩ := v
  cases drop <;> cases cwr <;> decide +revert

end XMonitor.Hbm
