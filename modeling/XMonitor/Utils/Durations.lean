import Mathlib.Algebra.GroupWithZero.Nat
import Mathlib.Algebra.Ring.Int.Defs

/-!
# Durations

A program measures a duration as the signed difference of two clock values, which is the
time that has passed as long as the clock does not go back and stays below `2 ^ 63`.

Durations are sorted into slots by their binary logarithm, which a program without loops
computes by comparing and shifting. The last slot takes every larger duration.
-/

namespace XMonitor

/-- The clock values that are read one after another: none is less than the one before,
and each is a number of nanoseconds that fits a signed word. -/
structure MonotoneClock (reads : List UInt64) : Prop where
  pairwise : reads.Pairwise (· ≤ ·)
  lt : ∀ t ∈ reads, t.toNat < 2 ^ 63

-- the members are tested one by one, not all words
instance (reads : List UInt64) : Decidable (MonotoneClock reads) :=
  decidable_of_iff (reads.Pairwise (· ≤ ·) ∧ reads.all (fun t => t.toNat < 2 ^ 63) = true)
    ⟨fun h => ⟨h.1, by simpa using h.2⟩, fun h => ⟨h.1, by simpa using h.2⟩⟩

/-- The difference of two clock values as a signed number. -/
def duration (nowNs startNs : UInt64) : Int := (nowNs - startNs).toInt64.toInt

/-- The time that has passed between two clock values. -/
def elapsed (nowNs startNs : UInt64) : Int := nowNs.toNat - startNs.toNat

theorem toNat_toInt64_sub {a b : UInt64} (h : b.toNat ≤ a.toNat + 2 ^ 63)
    (h' : a.toNat < b.toNat + 2 ^ 63) : (a - b).toInt64.toInt = (a.toNat : Int) - b.toNat := by
  have ha := a.toNat_lt
  have hb := b.toNat_lt
  have hsub := UInt64.toNat_sub a b
  have hint : (a - b).toInt64.toInt = (a - b).toBitVec.toInt := rfl
  have hnat : (a - b).toBitVec.toNat = (a - b).toNat := rfl
  rw [hint, BitVec.toInt_eq_toNat_cond, hnat, hsub]
  split <;> omega

theorem duration_eq {nowNs startNs : UInt64} (hle : startNs ≤ nowNs)
    (hlt : nowNs.toNat < 2 ^ 63) : duration nowNs startNs = elapsed nowNs startNs := by
  have hle' := UInt64.le_iff_toNat_le.mp hle
  apply toNat_toInt64_sub
  · omega
  · omega

/-- Either clock value may be the later one. -/
theorem duration_of_lt {nowNs startNs : UInt64} (hnow : nowNs.toNat < 2 ^ 63)
    (hstart : startNs.toNat < 2 ^ 63) : duration nowNs startNs = elapsed nowNs startNs := by
  apply toNat_toInt64_sub
  · omega
  · omega

/-- `__xm_log2`, which has no loop. -/
def xmLog2 (v : UInt32) : UInt64 :=
  let r := (if 0xFFFF < v then (1 : UInt32) else 0) <<< 4
  let v := v >>> r
  let shift := (if 0xFF < v then (1 : UInt32) else 0) <<< 3
  let v := v >>> shift
  let r := r ||| shift
  let shift := (if 0xF < v then (1 : UInt32) else 0) <<< 2
  let v := v >>> shift
  let r := r ||| shift
  let shift := (if 0x3 < v then (1 : UInt32) else 0) <<< 1
  let v := v >>> shift
  let r := r ||| shift
  (r ||| (v >>> 1)).toUInt64

/-- `__xm_log2l`. -/
def xmLog2l (v : UInt64) : UInt64 :=
  let hi := (v >>> 32).toUInt32
  if hi ≠ 0 then xmLog2 hi + 32 else xmLog2 v.toUInt32

theorem log2_shiftRight {n k : Nat} (h : 2 ^ k ≤ n) : k + (n >>> k).log2 = n.log2 := by
  induction k with
  | zero => simp
  | succ k ih =>
      have hpow : 2 ^ k * 2 ≤ n := by rwa [← Nat.pow_succ]
      have htwo : 2 ≤ n >>> k := by
        rw [Nat.shiftRight_eq_div_pow]
        exact (Nat.le_div_iff_mul_le (Nat.two_pow_pos k)).mpr (by omega)
      rw [← ih (by omega), Nat.log2_def (n >>> k), if_pos htwo, Nat.shiftRight_succ]
      omega

/-- A step of the search drops the lower `n` bits of a word of `n + n` bits if there is a
bit above them, and then counts them. -/
theorem exists_shift {v b e k : UInt32} {m n : Nat} (hv : v.toNat < 2 ^ m) (hm : n + n = m)
    (hk : 1 <<< e = k) (hn : k.toNat = n) (hlt : n < 32) (hb : b.toNat + 1 = 2 ^ n) :
    ∃ shift, (if b < v then (1 : UInt32) else 0) <<< e = shift ∧ (shift = 0 ∨ shift = k) ∧
      (v >>> shift).toNat < 2 ^ n ∧
      v.toNat.log2 = shift.toNat + (v >>> shift).toNat.log2 := by
  by_cases h : b < v
  · have hshift : (v >>> k).toNat = v.toNat >>> n := by
      rw [UInt32.toNat_shiftRight, hn, Nat.mod_eq_of_lt hlt]
    have hle : 2 ^ n ≤ v.toNat := by
      have := UInt32.lt_iff_toNat_lt.mp h
      omega
    refine ⟨k, by rw [if_pos h, hk], .inr rfl, ?_, ?_⟩
    · rw [hshift, Nat.shiftRight_eq_div_pow]
      apply Nat.div_lt_of_lt_mul
      rwa [← Nat.pow_add, hm]
    · rw [hshift, hn, log2_shiftRight hle]
  · refine ⟨0, by rw [if_neg h, UInt32.zero_shiftLeft], .inl rfl, ?_, by simp⟩
    have hle := UInt32.lt_iff_toNat_lt.not.mp h
    rw [UInt32.shiftRight_zero]
    omega

/-- The digits found by the steps do not overlap. -/
theorem toNat_or_digits {a b c d e : UInt32} (ha : a = 0 ∨ a = 16) (hb : b = 0 ∨ b = 8)
    (hc : c = 0 ∨ c = 4) (hd : d = 0 ∨ d = 2) (he : e = 0 ∨ e = 1) :
    (a ||| b ||| c ||| d ||| e).toNat =
      a.toNat + (b.toNat + (c.toNat + (d.toNat + e.toNat))) := by
  rcases ha with rfl | rfl <;> rcases hb with rfl | rfl <;> rcases hc with rfl | rfl <;>
    rcases hd with rfl | rfl <;> rcases he with rfl | rfl <;> rfl

theorem log2_of_lt_four {w : UInt32} (h : w.toNat < 2 ^ 2) :
    w.toNat.log2 = (w >>> 1).toNat ∧ (w >>> 1 = 0 ∨ w >>> 1 = 1) := by
  have hw : w = 0 ∨ w = 1 ∨ w = 2 ∨ w = 3 := by
    simp only [← UInt32.toNat_inj]
    change w.toNat = 0 ∨ w.toNat = 1 ∨ w.toNat = 2 ∨ w.toNat = 3
    omega
  rcases hw with rfl | rfl | rfl | rfl <;> decide

theorem xmLog2_toNat (v : UInt32) : (xmLog2 v).toNat = v.toNat.log2 := by
  obtain ⟨a, ha, ha', hv, hlog⟩ := exists_shift (b := 0xFFFF) (e := 4) (n := 16) v.toNat_lt
    rfl rfl rfl (by decide) (by decide)
  obtain ⟨b, hb, hb', hv, hlogb⟩ := exists_shift (b := 0xFF) (e := 3) (n := 8) hv rfl rfl rfl
    (by decide) (by decide)
  obtain ⟨c, hc, hc', hv, hlogc⟩ := exists_shift (b := 0xF) (e := 2) (n := 4) hv rfl rfl rfl
    (by decide) (by decide)
  obtain ⟨d, hd, hd', hv, hlogd⟩ := exists_shift (b := 0x3) (e := 1) (n := 2) hv rfl rfl rfl
    (by decide) (by decide)
  obtain ⟨hlast, he'⟩ := log2_of_lt_four hv
  simp only [xmLog2, ha, hb, hc, hd]
  rw [UInt32.toNat_toUInt64, toNat_or_digits ha' hb' hc' hd' he', hlog, hlogb, hlogc, hlogd,
    hlast]

theorem xmLog2l_toNat (v : UInt64) : (xmLog2l v).toNat = v.toNat.log2 := by
  have hlt : v.toNat >>> 32 < 2 ^ 32 := by
    rw [Nat.shiftRight_eq_div_pow]
    exact Nat.div_lt_of_lt_mul v.toNat_lt
  have hhi : (v >>> 32).toUInt32.toNat = v.toNat >>> 32 := by
    rw [UInt64.toNat_toUInt32, UInt64.toNat_shiftRight]
    exact Nat.mod_eq_of_lt hlt
  rw [xmLog2l]
  split
  next h =>
    have hle : 2 ^ 32 ≤ v.toNat := by
      apply Nat.le_of_not_lt
      intro hsmall
      apply h
      rw [← UInt32.toNat_inj, hhi, Nat.shiftRight_eq_div_pow]
      exact Nat.div_eq_of_lt (by omega)
    have hne : v.toNat >>> 32 ≠ 0 := by
      rw [Nat.shiftRight_eq_div_pow]
      omega
    have hlog := (Nat.log2_lt hne).mpr hlt
    rw [UInt64.toNat_add, xmLog2_toNat, hhi, ← log2_shiftRight hle]
    change ((v.toNat >>> 32).log2 + 32) % 2 ^ 64 = _
    omega
  next h =>
    have hsmall : v.toNat < 2 ^ 32 := by
      have hzero : v.toNat >>> 32 = 0 := by
        rw [← hhi, not_not.mp h]
        rfl
      rw [Nat.shiftRight_eq_div_pow] at hzero
      omega
    rw [xmLog2_toNat, UInt64.toNat_toUInt32, Nat.mod_eq_of_lt hsmall]

/-- The slot of a value among `n + 1` slots. -/
def logSlot (n : Nat) (v : UInt64) : Fin (n + 1) :=
  if h : (xmLog2l v).toNat < n + 1 then ⟨(xmLog2l v).toNat, h⟩ else Fin.last n

theorem logSlot_val (n : Nat) (v : UInt64) : (logSlot n v).val = min v.toNat.log2 n := by
  rw [logSlot]
  split
  next h =>
    rw [xmLog2l_toNat] at h
    change (xmLog2l v).toNat = _
    rw [xmLog2l_toNat, Nat.min_eq_left (by omega)]
  next h =>
    rw [xmLog2l_toNat] at h
    rw [Fin.val_last, Nat.min_eq_right (by omega)]

end XMonitor
