import Mathlib.Algebra.Order.Field.Rat
import Mathlib.Tactic.Linarith
import Mathlib.Tactic.Ring
import XMonitor.Disk.DiskStats

/-!
# The figures of `iostat`

From two consecutive samples of a device `collector_proc_diskstats` computes what `iostat`
shows. The figures are quotients of `double`; here they are the exact quotients. The
differences inside them are those of the source, modulo `2 ^ 64`.

The same kilobytes are computed twice, from sectors of the size that the device reports and
from sectors of half a kilobyte, and the same ticks are divided by different counts.
-/

namespace XMonitor.Disk

/-- The gauges of one interval. -/
structure Iostat where
  tpsPerSec : ℚ
  rdIosPerSec : ℚ
  wrIosPerSec : ℚ
  rdKbPerSec : ℚ
  wrKbPerSec : ℚ
  rdMergesPerSec : ℚ
  wrMergesPerSec : ℚ
  rAwait : ℚ
  wAwait : ℚ
  await : ℚ
  aquSz : ℚ
  utils : ℚ
  areqSz : ℚ
  rareqSz : ℚ
  wareqSz : ℚ

/-- A difference of two counters, as `double`. -/
def double (n : UInt64) : ℚ := n.toNat

/-- A share of each operation, zero if there was none. -/
def perIo (amount ios : UInt64) : ℚ := if ios ≠ 0 then double amount / double ios else 0

/-- `dt_sec`, from microseconds. -/
def dtSec (dt : UInt64) : ℚ := double dt / 1000000

def IoStats.nrIos (s : IoStats) : UInt64 := s.rdIos + s.wrIos + s.dcIos

/-- The computation of the metrics in `collector_proc_diskstats`. -/
def iostat (sectorSize : Int32) (dt : UInt64) (prev curr : IoStats) : Iostat where
  tpsPerSec := double (curr.rdIos - prev.rdIos + curr.wrIos - prev.wrIos) / dtSec dt
  rdIosPerSec := double (curr.rdIos - prev.rdIos) / dtSec dt
  wrIosPerSec := double (curr.wrIos - prev.wrIos) / dtSec dt
  rdKbPerSec := double (curr.rdSectors - prev.rdSectors) * sectorSize.toInt / 1024 / dtSec dt
  wrKbPerSec := double (curr.wrSectors - prev.wrSectors) * sectorSize.toInt / 1024 / dtSec dt
  rdMergesPerSec := double (curr.rdMerges - prev.rdMerges) / dtSec dt
  wrMergesPerSec := double (curr.wrMerges - prev.wrMerges) / dtSec dt
  rAwait := perIo (curr.rdTicks - prev.rdTicks) (curr.rdIos - prev.rdIos)
  wAwait := perIo (curr.wrTicks - prev.wrTicks) (curr.wrIos - prev.wrIos)
  await :=
    perIo (curr.rdTicks - prev.rdTicks + (curr.wrTicks - prev.wrTicks) +
      (curr.dcTicks - prev.dcTicks)) (curr.nrIos - prev.nrIos)
  aquSz := double (curr.weightedIoTicks - prev.weightedIoTicks) / dtSec dt / 1000
  utils := double (curr.iosTotalTicks - prev.iosTotalTicks) / dtSec dt / 10
  areqSz :=
    perIo (curr.rdSectors - prev.rdSectors + (curr.wrSectors - prev.wrSectors))
      (curr.nrIos - prev.nrIos) / 2
  rareqSz := perIo (curr.rdSectors - prev.rdSectors) (curr.rdIos - prev.rdIos) / 2
  wareqSz := perIo (curr.wrSectors - prev.wrSectors) (curr.wrIos - prev.wrIos) / 2

/-! ## Agreement -/

/-- How much a counter has grown. -/
def grown (field : IoStats → UInt64) (prev curr : IoStats) : Nat :=
  (field curr).toNat - (field prev).toNat

/-- The counters of the figures do not decrease. -/
structure NonDecreasing (prev curr : IoStats) : Prop where
  rdIos : prev.rdIos ≤ curr.rdIos
  rdSectors : prev.rdSectors ≤ curr.rdSectors
  rdTicks : prev.rdTicks ≤ curr.rdTicks
  wrIos : prev.wrIos ≤ curr.wrIos
  wrSectors : prev.wrSectors ≤ curr.wrSectors
  wrTicks : prev.wrTicks ≤ curr.wrTicks
  dcIos : prev.dcIos ≤ curr.dcIos
  dcTicks : prev.dcTicks ≤ curr.dcTicks

section

variable (sectorSize : Int32) (dt : UInt64) (prev curr : IoStats)

/-- The operations of the interval. -/
def allIos : Nat :=
  grown IoStats.rdIos prev curr + grown IoStats.wrIos prev curr + grown IoStats.dcIos prev curr

/-- The figures of one round agree with each other. -/
structure FiguresAgree : Prop where
  read : grown IoStats.rdIos prev curr ≠ 0 →
    (iostat sectorSize dt prev curr).rdKbPerSec * dtSec dt =
      (iostat sectorSize dt prev curr).rareqSz * grown IoStats.rdIos prev curr
  write : grown IoStats.wrIos prev curr ≠ 0 →
    (iostat sectorSize dt prev curr).wrKbPerSec * dtSec dt =
      (iostat sectorSize dt prev curr).wareqSz * grown IoStats.wrIos prev curr
  tps : (iostat sectorSize dt prev curr).tpsPerSec =
    (iostat sectorSize dt prev curr).rdIosPerSec + (iostat sectorSize dt prev curr).wrIosPerSec
  await : (iostat sectorSize dt prev curr).await * allIos prev curr =
    (iostat sectorSize dt prev curr).rAwait * grown IoStats.rdIos prev curr +
      (iostat sectorSize dt prev curr).wAwait * grown IoStats.wrIos prev curr +
        grown IoStats.dcTicks prev curr

/-- The ticks of operations of a kind that has completed none. -/
def strayTicks : Nat :=
  (if grown IoStats.rdIos prev curr = 0 then grown IoStats.rdTicks prev curr else 0) +
    if grown IoStats.wrIos prev curr = 0 then grown IoStats.wrTicks prev curr else 0

/-- The other ticks. -/
def countedTicks : Nat :=
  (if grown IoStats.rdIos prev curr = 0 then 0 else grown IoStats.rdTicks prev curr) +
    (if grown IoStats.wrIos prev curr = 0 then 0 else grown IoStats.wrTicks prev curr) +
    grown IoStats.dcTicks prev curr

/-- Without operations there are no ticks, and with some there are no stray ones. Sums of
64 bits are told apart modulo `2 ^ 64` only, and where the operations do not fit into 64 bits
the ticks have to lose the same share. -/
def TicksAgree : Prop :=
  if allIos prev curr = 0 then countedTicks prev curr = 0
  else if allIos prev curr < 2 ^ 64 then
    countedTicks prev curr < 2 ^ 64 ∧ 2 ^ 64 ∣ strayTicks prev curr
  else if allIos prev curr % 2 ^ 64 = 0 then countedTicks prev curr = 0
  else countedTicks prev curr * (allIos prev curr % 2 ^ 64) =
    (countedTicks prev curr + strayTicks prev curr) % 2 ^ 64 * allIos prev curr

/-- When the figures agree. -/
structure SamplesAgree : Prop where
  read : grown IoStats.rdIos prev curr ≠ 0 →
    sectorSize = 512 ∨ grown IoStats.rdSectors prev curr = 0
  write : grown IoStats.wrIos prev curr ≠ 0 →
    sectorSize = 512 ∨ grown IoStats.wrSectors prev curr = 0
  tps : grown IoStats.rdIos prev curr + grown IoStats.wrIos prev curr < 2 ^ 64
  ticks : TicksAgree prev curr

end

variable {sectorSize : Int32} {dt : UInt64} {prev curr : IoStats}

theorem toNat_sub_eq_grown {field : IoStats → UInt64} (h : field prev ≤ field curr) :
    (field curr - field prev).toNat = grown field prev curr :=
  UInt64.toNat_sub_of_le _ _ h

theorem double_sub {field : IoStats → UInt64} (h : field prev ≤ field curr) :
    double (field curr - field prev) = grown field prev curr := by
  rw [double, toNat_sub_eq_grown h]

theorem dtSec_pos (h : 0 < dt) : 0 < dtSec dt := by
  have hdt : 0 < dt.toNat := UInt64.lt_iff_toNat_lt.mp h
  have hcast : (0 : ℚ) < dt.toNat := Nat.cast_pos.mpr hdt
  exact div_pos hcast (by norm_num)

/-- The share of each operation times the operations is the amount. -/
theorem perIo_mul {amount ios : UInt64} :
    perIo amount ios * ios.toNat = if ios.toNat = 0 then 0 else (amount.toNat : ℚ) := by
  rw [perIo]
  by_cases h : ios = 0
  · subst h
    simp
  · have hne : ios.toNat ≠ 0 := fun hzero => h (UInt64.toNat_inj.mp hzero)
    have hcast : (ios.toNat : ℚ) ≠ 0 := Nat.cast_ne_zero.mpr hne
    rw [if_pos h, if_neg hne]
    exact div_mul_cancel₀ _ hcast

/-- The kilobytes of the two computations, for reads and for writes. -/
theorem kilobytes_agree_iff {sectors ios : IoStats → UInt64} (hdt : 0 < dt)
    (hsectors : sectors prev ≤ sectors curr) (hios : ios prev ≤ ios curr)
    (hpos : grown ios prev curr ≠ 0) :
    double (sectors curr - sectors prev) * sectorSize.toInt / 1024 / dtSec dt * dtSec dt =
        perIo (sectors curr - sectors prev) (ios curr - ios prev) / 2 * grown ios prev curr ↔
      sectorSize = 512 ∨ grown sectors prev curr = 0 := by
  have hshare : perIo (sectors curr - sectors prev) (ios curr - ios prev) / 2 *
      grown ios prev curr = (grown sectors prev curr : ℚ) / 2 := by
    rw [div_mul_eq_mul_div, ← toNat_sub_eq_grown hios, perIo_mul, toNat_sub_eq_grown hios,
      if_neg hpos, toNat_sub_eq_grown hsectors]
  have hsize : (sectorSize.toInt : ℚ) = 512 ↔ sectorSize = 512 := by
    rw [← Int32.toInt_inj]
    exact_mod_cast Iff.rfl
  rw [div_mul_cancel₀ _ (dtSec_pos hdt).ne', hshare, double_sub hsectors, ← hsize, or_comm,
    ← Nat.cast_eq_zero (R := ℚ)]
  constructor
  · intro h
    have hprod : (grown sectors prev curr : ℚ) * (sectorSize.toInt - 512) = 0 := by linarith
    obtain hzero | hzero := mul_eq_zero.mp hprod
    · exact .inl hzero
    · exact .inr (sub_eq_zero.mp hzero)
  · rintro (hzero | hfull)
    · rw [hzero]
      norm_num
    · rw [hfull]
      ring

theorem tps_agree_iff (h : NonDecreasing prev curr) (hdt : 0 < dt) :
    (iostat sectorSize dt prev curr).tpsPerSec =
        (iostat sectorSize dt prev curr).rdIosPerSec +
          (iostat sectorSize dt prev curr).wrIosPerSec ↔
      grown IoStats.rdIos prev curr + grown IoStats.wrIos prev curr < 2 ^ 64 := by
  have hsum : (curr.rdIos - prev.rdIos + curr.wrIos - prev.wrIos).toNat =
      (grown IoStats.rdIos prev curr + grown IoStats.wrIos prev curr) % 2 ^ 64 := by
    rw [UInt64.sub_eq_add_neg (_ + _), UInt64.add_assoc, ← UInt64.sub_eq_add_neg,
      UInt64.toNat_add, toNat_sub_eq_grown h.rdIos, toNat_sub_eq_grown h.wrIos]
  simp only [iostat]
  rw [← add_div, div_left_inj' (dtSec_pos hdt).ne', double, double_sub h.rdIos,
    double_sub h.wrIos, hsum]
  norm_cast
  exact ⟨fun heq => heq ▸ Nat.mod_lt _ (by norm_num), Nat.mod_eq_of_lt⟩

theorem nrIos_sub (h : NonDecreasing prev curr) :
    (curr.nrIos - prev.nrIos).toNat = allIos prev curr % 2 ^ 64 := by
  have hsplit : curr.nrIos - prev.nrIos =
      curr.rdIos - prev.rdIos + (curr.wrIos - prev.wrIos) + (curr.dcIos - prev.dcIos) := by
    simp only [IoStats.nrIos]
    grind
  rw [hsplit, UInt64.toNat_add, UInt64.toNat_add, toNat_sub_eq_grown h.rdIos,
    toNat_sub_eq_grown h.wrIos, toNat_sub_eq_grown h.dcIos, Nat.mod_add_mod, allIos]

theorem ticks_toNat (h : NonDecreasing prev curr) :
    (curr.rdTicks - prev.rdTicks + (curr.wrTicks - prev.wrTicks) +
        (curr.dcTicks - prev.dcTicks)).toNat =
      (countedTicks prev curr + strayTicks prev curr) % 2 ^ 64 := by
  rw [UInt64.toNat_add, UInt64.toNat_add, toNat_sub_eq_grown h.rdTicks,
    toNat_sub_eq_grown h.wrTicks, toNat_sub_eq_grown h.dcTicks, Nat.mod_add_mod,
    countedTicks, strayTicks]
  congr 1
  split <;> split <;> omega

/-- The ticks that the shares of reads and writes account for. -/
theorem awaited_ticks (h : NonDecreasing prev curr) :
    (iostat sectorSize dt prev curr).rAwait * grown IoStats.rdIos prev curr +
        (iostat sectorSize dt prev curr).wAwait * grown IoStats.wrIos prev curr +
        grown IoStats.dcTicks prev curr =
      (countedTicks prev curr : ℚ) := by
  have hread : perIo (curr.rdTicks - prev.rdTicks) (curr.rdIos - prev.rdIos) *
      grown IoStats.rdIos prev curr =
      if grown IoStats.rdIos prev curr = 0 then 0 else (grown IoStats.rdTicks prev curr : ℚ) := by
    rw [← toNat_sub_eq_grown h.rdIos, perIo_mul, toNat_sub_eq_grown h.rdTicks]
  have hwrite : perIo (curr.wrTicks - prev.wrTicks) (curr.wrIos - prev.wrIos) *
      grown IoStats.wrIos prev curr =
      if grown IoStats.wrIos prev curr = 0 then 0 else (grown IoStats.wrTicks prev curr : ℚ) := by
    rw [← toNat_sub_eq_grown h.wrIos, perIo_mul, toNat_sub_eq_grown h.wrTicks]
  simp only [iostat]
  rw [hread, hwrite, countedTicks]
  push_cast
  rfl

theorem await_eq (h : NonDecreasing prev curr) :
    (iostat sectorSize dt prev curr).await =
      if allIos prev curr % 2 ^ 64 = 0 then 0
      else (((countedTicks prev curr + strayTicks prev curr) % 2 ^ 64 : Nat) : ℚ) /
        ((allIos prev curr % 2 ^ 64 : Nat) : ℚ) := by
  simp only [iostat, perIo, double]
  rw [nrIos_sub h, ticks_toNat h]
  by_cases hios : allIos prev curr % 2 ^ 64 = 0
  · have hzero : curr.nrIos - prev.nrIos = 0 := UInt64.toNat_inj.mp ((nrIos_sub h).trans hios)
    rw [if_neg (not_not.mpr hzero), if_pos hios]
  · have hne : curr.nrIos - prev.nrIos ≠ 0 := by
      intro hzero
      rw [← nrIos_sub h, hzero] at hios
      exact hios rfl
    rw [if_pos hne, if_neg hios]

theorem await_agree_iff (h : NonDecreasing prev curr) :
    (iostat sectorSize dt prev curr).await * allIos prev curr =
        (iostat sectorSize dt prev curr).rAwait * grown IoStats.rdIos prev curr +
          (iostat sectorSize dt prev curr).wAwait * grown IoStats.wrIos prev curr +
          grown IoStats.dcTicks prev curr ↔
      TicksAgree prev curr := by
  rw [awaited_ticks h, await_eq h, TicksAgree]
  split_ifs with hmod hnone hfit hnone hfit
  · rw [zero_mul, eq_comm, Nat.cast_eq_zero]
  · omega
  · rw [zero_mul, eq_comm, Nat.cast_eq_zero]
  · omega
  · have hcast : (allIos prev curr : ℚ) ≠ 0 := Nat.cast_ne_zero.mpr hnone
    rw [Nat.mod_eq_of_lt hfit, div_mul_cancel₀ _ hcast, Nat.cast_inj]
    omega
  · have hcast : ((allIos prev curr % 2 ^ 64 : Nat) : ℚ) ≠ 0 := Nat.cast_ne_zero.mpr hmod
    rw [div_mul_eq_mul_div, div_eq_iff hcast, eq_comm]
    norm_cast

/-- The figures of a round agree with each other exactly if the sectors are those of half a
kilobyte, the sums do not wrap and each tick belongs to an operation. -/
theorem figures_agree_iff (sectorSize : Int32) (dt : UInt64) (prev curr : IoStats)
    (h : NonDecreasing prev curr) (hdt : 0 < dt) :
    FiguresAgree sectorSize dt prev curr ↔ SamplesAgree sectorSize prev curr := by
  constructor
  · intro hagree
    exact ⟨fun hios => (kilobytes_agree_iff hdt h.rdSectors h.rdIos hios).mp (hagree.read hios),
      fun hios => (kilobytes_agree_iff hdt h.wrSectors h.wrIos hios).mp (hagree.write hios),
      (tps_agree_iff h hdt).mp hagree.tps, (await_agree_iff h).mp hagree.await⟩
  · intro hsamples
    exact ⟨fun hios =>
        (kilobytes_agree_iff hdt h.rdSectors h.rdIos hios).mpr (hsamples.read hios),
      fun hios => (kilobytes_agree_iff hdt h.wrSectors h.wrIos hios).mpr (hsamples.write hios),
      (tps_agree_iff h hdt).mpr hsamples.tps, (await_agree_iff h).mpr hsamples.ticks⟩

/-- One read of four kilobytes, which are eight sectors of the kernel. -/
def oneRead : IoStats := { rdIos := 1, rdSectors := 8, rdTicks := 3 }

theorem nonDecreasing_oneRead : NonDecreasing {} oneRead := by
  constructor
  all_goals decide

theorem one_read_agrees : FiguresAgree 512 1000000 {} oneRead :=
  (figures_agree_iff 512 1000000 {} oneRead nonDecreasing_oneRead (by decide)).mpr
    ⟨fun _ => .inl rfl, fun hios => absurd rfl hios, by decide, by rw [TicksAgree]; decide⟩

/-- On a device with sectors of four kilobytes it is counted as 32 kilobytes, or as four. -/
theorem large_sectors_disagree :
    ¬∀ sectorSize dt prev curr, NonDecreasing prev curr → 0 < dt →
      FiguresAgree sectorSize dt prev curr := by
  intro hclaim
  have hagree := (hclaim 4096 1000000 {} oneRead nonDecreasing_oneRead (by decide)).read (by decide)
  have hread : (iostat 4096 1000000 {} oneRead).rdKbPerSec * dtSec 1000000 = 32 := by
    decide +kernel
  have hshare : (iostat 4096 1000000 {} oneRead).rareqSz * grown IoStats.rdIos {} oneRead = 4 := by
    decide +kernel
  rw [hread, hshare] at hagree
  exact absurd hagree (by decide)

end XMonitor.Disk
