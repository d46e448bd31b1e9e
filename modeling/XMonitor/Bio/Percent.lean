import XMonitor.Lib.BinaryRound
import Mathlib.Algebra.Order.Field.Rat
import Mathlib.Data.Rat.Floor
import Mathlib.Tactic.FieldSimp

/-!
# Percentages

The percentages that are exported for a device are computed in numbers of 24 binary digits. Each
of the steps rounds, so a whole percentage can be missed from below and, for large counts, reached
too early.
-/

namespace XMonitor.Bio

open XMonitor Lib

/-- A number as a `float32`, or the result of an operation. The numbers here are far from the
ends of the range. -/
def float32 (x : ℚ) : ℚ := roundTo 24 x

/-- `float32(count) / float32(total) * 100.0`. -/
def percent (count total : ℕ) : ℚ := float32 (float32 (float32 count / float32 total) * 100)

/-- A percentage as a `uint32`. What becomes of a quotient by zero, or of a number that is too
large, depends on the machine. -/
def ratio (count total : UInt64) : Option UInt32 :=
  if total = 0 ∨ 2 ^ 32 ≤ percent count.toNat total.toNat then none
  else some (UInt32.ofNat ⌊percent count.toNat total.toNat⌋₊)

/-- A quotient whose percentage is rounded to a whole number or more. It is behind the middle
under the first `float32` whose hundredfold is behind the middle under the number. -/
def PercentReached (k : ℕ) (quotient : ℚ) : Prop := Reaches 24 (halfPoint 24 (k : ℚ) / 100) quotient

instance (k : ℕ) (quotient : ℚ) : Decidable (PercentReached k quotient) :=
  inferInstanceAs (Decidable (Reaches 24 (halfPoint 24 (k : ℚ) / 100) quotient))

/-- The counts as `float32` are on the same side of each whole percentage as the counts. -/
def RatioKept (count total : ℕ) : Prop :=
  let quotient := float32 count / float32 total
  let k := 100 * count / total
  (k = 0 ∨ PercentReached k quotient) ∧ ¬ PercentReached (k + 1) quotient

instance (count total : ℕ) : Decidable (RatioKept count total) :=
  inferInstanceAs (Decidable ((_ = 0 ∨ PercentReached _ _) ∧ ¬ PercentReached _ _))

section Percent

variable {count total k : ℕ}

theorem float32_nonneg {x : ℚ} (h : 0 ≤ x) : 0 ≤ float32 x := roundTo_nonneg (by decide) h

theorem float32_natCast {n : ℕ} (h : n ≤ 2 ^ 24) : float32 n = n := roundTo_natCast (by decide) h

theorem quotient_nonneg (count total : ℕ) : 0 ≤ float32 count / float32 total :=
  div_nonneg (float32_nonneg (Nat.cast_nonneg count)) (float32_nonneg (Nat.cast_nonneg total))

theorem percent_nonneg (count total : ℕ) : 0 ≤ percent count total :=
  float32_nonneg (mul_nonneg (float32_nonneg (quotient_nonneg count total)) (by norm_num))

theorem le_percent_iff (hk : 0 < k) (hk' : k ≤ 101) :
    (k : ℚ) ≤ percent count total ↔ PercentReached k (float32 count / float32 total) := by
  have hkpos : (0 : ℚ) < k := Nat.cast_pos.mpr hk
  have hquotient := quotient_nonneg count total
  have hclog : Nat.clog 2 k < 24 :=
    (Nat.clog_mono_right 2 hk').trans_lt (by decide +kernel)
  rw [percent, float32, le_roundTo_iff (by decide) hkpos
    (mul_nonneg (float32_nonneg hquotient) (by norm_num)), Reaches,
    if_pos (even_ceilUnits_natCast hclog), ← div_le_iff₀ (by norm_num), PercentReached, float32,
    ← le_roundTo_iff (by decide) (div_pos (halfPoint_pos (by decide) hkpos) (by norm_num))
      hquotient]

theorem floor_percent_eq_iff (hk : k ≤ 100) :
    ⌊percent count total⌋₊ = k ↔
      (k = 0 ∨ PercentReached k (float32 count / float32 total)) ∧
        ¬ PercentReached (k + 1) (float32 count / float32 total) := by
  have hsucc : ((k : ℚ) + 1) = ((k + 1 : ℕ) : ℚ) := (Nat.cast_succ k).symm
  rw [Nat.floor_eq_iff (percent_nonneg count total), ← not_le, hsucc,
    le_percent_iff (Nat.succ_pos k) (by omega)]
  refine and_congr_left fun _ => ?_
  obtain rfl | hpos := Nat.eq_zero_or_pos k
  · exact iff_of_true (by rw [Nat.cast_zero]; exact percent_nonneg count total) (.inl rfl)
  · rw [le_percent_iff hpos (by omega), or_iff_right hpos.ne']

end Percent

/-- Where there is a percentage at all, it is the floor of the rounded quotient. -/
theorem ratio_eq_iff {count total : UInt64} (h : total ≠ 0) {k : ℕ} (hk : k ≤ 100) :
    ratio count total = some (UInt32.ofNat k) ↔ ⌊percent count.toNat total.toNat⌋₊ = k := by
  have hnonneg := percent_nonneg count.toNat total.toNat
  rw [ratio]
  split
  · rename_i hlarge
    have hlarge := hlarge.resolve_left h
    have hfloor : 2 ^ 32 ≤ ⌊percent count.toNat total.toNat⌋₊ := by
      rw [Nat.le_floor_iff hnonneg]
      exact_mod_cast hlarge
    constructor
    · intro hnone
      cases hnone
    · intro hfloor'
      omega
  · rename_i hsmall
    have hfloor : ⌊percent count.toNat total.toNat⌋₊ < 2 ^ 32 := by
      rw [Nat.floor_lt hnonneg]
      exact_mod_cast not_le.mp (not_or.mp hsmall).2
    rw [Option.some_inj, ← UInt32.toNat_inj, UInt32.toNat_ofNat_of_lt' hfloor,
      UInt32.toNat_ofNat_of_lt' (by rw [UInt32.size]; omega)]

theorem ratio_exact_iff {count total : UInt64} (h : total ≠ 0) (hle : count ≤ total) :
    ratio count total = some (UInt32.ofNat (100 * count.toNat / total.toNat)) ↔
      RatioKept count.toNat total.toNat := by
  have hle' := UInt64.le_iff_toNat_le.mp hle
  have hk : 100 * count.toNat / total.toNat ≤ 100 := by
    apply Nat.div_le_of_le_mul
    rw [Nat.mul_comm total.toNat]
    exact Nat.mul_le_mul_left 100 hle'
  rw [ratio_eq_iff h hk, floor_percent_eq_iff hk, RatioKept]

/-- With a total that is less than the count, the percentage is not less than a hundred. -/
theorem hundred_le_percent {count total : ℕ} (hpos : 0 < total) (h : total ≤ count) :
    100 ≤ percent count total := by
  have htotal : 1 ≤ float32 total := by
    have hone : float32 (1 : ℕ) = (1 : ℕ) := float32_natCast (by decide)
    rw [← Nat.cast_one, ← hone]
    exact roundTo_mono (by decide) (Nat.cast_nonneg 1) (Nat.cast_le.mpr hpos)
  have hcount : float32 total ≤ float32 count :=
    roundTo_mono (by decide) (Nat.cast_nonneg total) (Nat.cast_le.mpr h)
  have hquotient : 1 ≤ float32 count / float32 total := by
    rw [le_div_iff₀ (by linarith), one_mul]
    exact hcount
  have hone : (1 : ℚ) ≤ float32 (float32 count / float32 total) := by
    have hfloat : float32 (1 : ℕ) = (1 : ℕ) := float32_natCast (by decide)
    rw [← Nat.cast_one, ← hfloat]
    exact roundTo_mono (by decide) (Nat.cast_nonneg 1) (by rw [Nat.cast_one]; exact hquotient)
  have hhundred : float32 (100 : ℕ) = (100 : ℕ) := float32_natCast (by decide)
  have hle : ((100 : ℕ) : ℚ) ≤ float32 (float32 count / float32 total) * 100 := by
    push_cast
    linarith
  calc (100 : ℚ) = float32 (100 : ℕ) := by rw [hhundred, Nat.cast_ofNat]
    _ ≤ percent count total := roundTo_mono (by decide) (Nat.cast_nonneg 100) hle

/-! ## Small counts -/

section Small

variable {count total k : ℕ}

theorem percentReached_above : ∀ k < 101, PercentReached (k + 1) ((k + 1 : ℕ) / 100) ∨
    k + 1 = 53 ∨ k + 1 = 59 := by
  decide +kernel

theorem not_percentReached_exact : ∀ k < 101, k + 1 = 53 ∨ k + 1 = 59 →
    ¬ PercentReached (k + 1) ((k + 1 : ℕ) / 100) := by
  decide +kernel

theorem percentReached_behind : ∀ k < 101,
    PercentReached (k + 1) ((k + 1 : ℕ) / 100 + 1 / (100 * 2 ^ 17)) := by
  decide +kernel

theorem not_percentReached_before : ∀ k < 101,
    ¬ PercentReached (k + 1) ((k + 1 : ℕ) / 100 - 1 / (100 * 2 ^ 17)) := by
  decide +kernel

/-- Up to `2 ^ 17` requests, two percentages are missed where they are met exactly, and no other
one is. -/
theorem percentReached_iff (hpos : 0 < total) (htotal : total ≤ 2 ^ 17) (hk : 0 < k)
    (hk' : k ≤ 101) : PercentReached k (count / total) ↔
      k * total ≤ 100 * count ∧ ¬ (k * total = 100 * count ∧ (k = 53 ∨ k = 59)) := by
  obtain ⟨k, rfl⟩ : ∃ j, k = j + 1 := ⟨k - 1, by omega⟩
  have hposQ : (0 : ℚ) < total := Nat.cast_pos.mpr hpos
  have hstep : (1 : ℚ) / (100 * 2 ^ 17) ≤ 1 / (100 * total) := by
    apply one_div_le_one_div_of_le (by positivity)
    have : (total : ℚ) ≤ 2 ^ 17 := by exact_mod_cast htotal
    linarith
  obtain hlt | heq | hgt := lt_trichotomy (100 * count) ((k + 1) * total)
  · have hle : (count : ℚ) / total ≤ ((k + 1 : ℕ) : ℚ) / 100 - 1 / (100 * total) := by
      have hcast : (100 * count + 1 : ℚ) ≤ ((k + 1 : ℕ) : ℚ) * total := by exact_mod_cast hlt
      rw [div_le_iff₀ hposQ, sub_mul, div_mul_eq_mul_div, div_mul_eq_mul_div]
      have hone : 1 * (total : ℚ) / (100 * total) = 1 / 100 := by field_simp
      rw [hone]
      linarith
    refine iff_of_false (fun h => ?_) (fun h => absurd h.1 (by omega))
    exact not_percentReached_before k (by omega) (Reaches.mono h (by linarith))
  · have hquotient : (count : ℚ) / total = ((k + 1 : ℕ) : ℚ) / 100 := by
      have hcast : (100 * count : ℚ) = ((k + 1 : ℕ) : ℚ) * total := by exact_mod_cast heq
      rw [div_eq_div_iff hposQ.ne' (by norm_num)]
      linarith
    rw [hquotient]
    constructor
    · intro h
      exact ⟨heq.ge, fun hex => not_percentReached_exact k (by omega) hex.2 h⟩
    · rintro ⟨-, hnot⟩
      exact (percentReached_above k (by omega)).resolve_right fun h => hnot ⟨heq.symm, h⟩
  · have hle : ((k + 1 : ℕ) : ℚ) / 100 + 1 / (100 * total) ≤ (count : ℚ) / total := by
      have hcast : ((k + 1 : ℕ) : ℚ) * total + 1 ≤ (100 * count : ℚ) := by exact_mod_cast hgt
      rw [le_div_iff₀ hposQ, add_mul, div_mul_eq_mul_div, div_mul_eq_mul_div]
      have hone : 1 * (total : ℚ) / (100 * total) = 1 / 100 := by field_simp
      rw [hone]
      linarith
    refine iff_of_true (Reaches.mono (percentReached_behind k (by omega)) (by linarith)) ?_
    exact ⟨hgt.le, fun h => absurd h.1 (by omega)⟩

theorem ratioKept_iff_of_le (hle : count ≤ total) (hpos : 0 < total) (htotal : total ≤ 2 ^ 17) :
    RatioKept count total ↔ 100 * count ≠ 53 * total ∧ 100 * count ≠ 59 * total := by
  have htotal' : total ≤ 2 ^ 24 := htotal.trans (by norm_num)
  have hexact : ∀ k, 100 * count = k * total → 100 * count / total = k :=
    fun k h => by rw [h, Nat.mul_div_cancel k hpos]
  have hk : 100 * count / total ≤ 100 := by
    apply Nat.div_le_of_le_mul
    rw [Nat.mul_comm total]
    exact Nat.mul_le_mul_left 100 hle
  have hlow : 100 * count / total * total ≤ 100 * count := Nat.div_mul_le_self _ _
  have hhigh : ¬ PercentReached (100 * count / total + 1) (count / total) := by
    rw [percentReached_iff hpos htotal (Nat.succ_pos _) (by omega)]
    exact fun h => absurd h.1 (Nat.not_le.mpr (Nat.lt_mul_of_div_lt (Nat.lt_succ_self _) hpos))
  rw [RatioKept, float32_natCast htotal', float32_natCast (hle.trans htotal'),
    and_iff_left hhigh]
  constructor
  · intro h
    have hne : ∀ k, k = 53 ∨ k = 59 → 100 * count ≠ k * total := by
      intro k hk' heq
      have hdiv := hexact k heq
      rw [hdiv] at h
      have hkpos : 0 < k := by omega
      have hreached := (percentReached_iff hpos htotal hkpos (by omega)).mp
        (h.resolve_left hkpos.ne')
      exact hreached.2 ⟨heq.symm, hk'⟩
    exact ⟨hne 53 (.inl rfl), hne 59 (.inr rfl)⟩
  · rintro ⟨h53, h59⟩
    obtain hzero | hkpos := Nat.eq_zero_or_pos (100 * count / total)
    · exact .inl hzero
    · refine .inr ((percentReached_iff hpos htotal hkpos (by omega)).mpr ⟨hlow, ?_⟩)
      rintro ⟨heq, h | h⟩
      · rw [h] at heq
        exact h53 heq.symm
      · rw [h] at heq
        exact h59 heq.symm

end Small

end XMonitor.Bio
