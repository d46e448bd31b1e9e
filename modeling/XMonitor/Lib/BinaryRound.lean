import Mathlib.Algebra.Order.Floor.Ring
import Mathlib.Data.Int.Log
import Mathlib.Tactic.Linarith
import Mathlib.Tactic.Positivity
import Mathlib.Tactic.Ring

/-!
# Rounding to binary digits

`roundTo p x` keeps `p` binary digits of a positive number, as a binary floating-point number
does, and decides for the even neighbour in the middle between two.

Rounding is best known by what reaches a bound. `L ≤ roundTo p x` holds if `x` is behind the
middle between two neighbours, `halfPoint p L`, of which the upper one is the first that is not
less than `L` (`le_roundTo_iff`). Monotonicity follows.
-/

namespace XMonitor.Lib

variable {K : Type*} [Field K] [LinearOrder K] [IsStrictOrderedRing K] [FloorRing K]

/-- The nearest integer, or the even one of two. -/
def halfEven (y : K) : ℤ :=
  let rest := 2 * (y - ⌊y⌋)
  if rest < 1 then ⌊y⌋
  else if 1 < rest then ⌊y⌋ + 1
  else if Even ⌊y⌋ then ⌊y⌋
  else ⌊y⌋ + 1

/-- The place of the last of `p` digits. -/
def unit (p : ℕ) (x : K) : K := (2 : ℕ) ^ (Int.log 2 x + 1 - p)

def roundTo (p : ℕ) (x : K) : K := halfEven (x / unit p x) * unit p x

/-- The distance of the neighbours below a number. -/
def unitBelow (p : ℕ) (L : K) : K := (2 : ℕ) ^ (Int.clog 2 L - p)

/-- The first neighbour that is not less, in units. -/
def ceilUnits (p : ℕ) (L : K) : ℤ := ⌈L / unitBelow p L⌉

/-- The middle between the last neighbour that is less and the first that is not. -/
def halfPoint (p : ℕ) (L : K) : K := (2 * ceilUnits p L - 1) * unitBelow p L / 2

/-- The middle itself is rounded to the even neighbour. -/
def Reaches (p : ℕ) (L x : K) : Prop :=
  if Even (ceilUnits p L) then halfPoint p L ≤ x else halfPoint p L < x

instance (p : ℕ) (L x : K) : Decidable (Reaches p L x) :=
  inferInstanceAs
    (Decidable (if Even (ceilUnits p L) then halfPoint p L ≤ x else halfPoint p L < x))

section HalfEven

variable {n : ℤ} {y : K}

theorem le_halfEven_of_lt (h : 2 * n - 1 < 2 * y) : n ≤ halfEven y := by
  have hfloor := Int.floor_le y
  have hlt := Int.lt_floor_add_one y
  have hn : n ≤ ⌊y⌋ + 1 := by
    by_contra hgt
    have hcast : (⌊y⌋ : K) + 2 ≤ n := by exact_mod_cast (by omega : ⌊y⌋ + 2 ≤ n)
    linarith
  rw [halfEven]
  obtain hle | rfl : n ≤ ⌊y⌋ ∨ n = ⌊y⌋ + 1 := by omega
  · split
    · exact hle
    · split
      · omega
      · split <;> omega
  · push_cast at h
    rw [if_neg (by linarith), if_pos (by linarith)]

theorem le_halfEven_of_even (hn : Even n) (h : 2 * n - 1 ≤ 2 * y) : n ≤ halfEven y := by
  obtain hlt | heq := lt_or_eq_of_le h
  · exact le_halfEven_of_lt hlt
  · have hfloor : ⌊y⌋ = n - 1 := by
      rw [Int.floor_eq_iff]
      push_cast
      constructor <;> linarith
    have hodd : ¬ Even ⌊y⌋ := by
      rw [hfloor, Int.even_sub_one, not_not]
      exact hn
    have hrest : 2 * (y - ⌊y⌋) = 1 := by
      rw [hfloor]
      push_cast
      linarith
    rw [halfEven, hrest, if_neg (lt_irrefl _), if_neg (lt_irrefl _), if_neg hodd, hfloor]
    omega

theorem halfEven_lt_of_lt (h : 2 * y < 2 * n - 1) : halfEven y < n := by
  have hfloor := Int.floor_le y
  have hle : ⌊y⌋ ≤ n - 1 := by
    by_contra hgt
    have hcast : (n : K) ≤ ⌊y⌋ := by exact_mod_cast (by omega : n ≤ ⌊y⌋)
    linarith
  rw [halfEven]
  obtain hle | heq : ⌊y⌋ + 1 < n ∨ ⌊y⌋ = n - 1 := by omega
  · split
    · omega
    · split
      · omega
      · split <;> omega
  · have hcast : (⌊y⌋ : K) = n - 1 := by exact_mod_cast heq
    rw [if_pos (by rw [hcast]; linarith)]
    omega

theorem halfEven_lt_of_odd (hn : ¬ Even n) (h : 2 * y ≤ 2 * n - 1) : halfEven y < n := by
  obtain hlt | heq := lt_or_eq_of_le h
  · exact halfEven_lt_of_lt hlt
  · have hfloor : ⌊y⌋ = n - 1 := by
      rw [Int.floor_eq_iff]
      push_cast
      constructor <;> linarith
    have heven : Even ⌊y⌋ := by
      rw [hfloor, Int.even_sub_one]
      exact hn
    have hrest : 2 * (y - ⌊y⌋) = 1 := by
      rw [hfloor]
      push_cast
      linarith
    rw [halfEven, hrest, if_neg (lt_irrefl _), if_neg (lt_irrefl _), if_pos heven, hfloor]
    omega

theorem le_halfEven_iff :
    n ≤ halfEven y ↔ if Even n then 2 * (n : K) - 1 ≤ 2 * y else 2 * (n : K) - 1 < 2 * y := by
  split
  · rename_i hn
    refine ⟨fun h => ?_, le_halfEven_of_even hn⟩
    by_contra hlt
    exact absurd (halfEven_lt_of_lt (not_le.mp hlt)) (by omega)
  · rename_i hn
    refine ⟨fun h => ?_, le_halfEven_of_lt⟩
    by_contra hle
    exact absurd (halfEven_lt_of_odd hn (not_lt.mp hle)) (by omega)

theorem le_halfEven_of_le (h : (n : K) ≤ y) : n ≤ halfEven y := le_halfEven_of_lt (by linarith)

theorem halfEven_le_of_le (h : y ≤ n) : halfEven y ≤ n := by
  have hlt : halfEven y < n + 1 := by
    apply halfEven_lt_of_lt
    push_cast
    linarith
  omega

theorem halfEven_intCast (n : ℤ) : halfEven (n : K) = n :=
  le_antisymm (halfEven_le_of_le le_rfl) (le_halfEven_of_le le_rfl)

end HalfEven

section RoundTo

variable {p : ℕ} {x y L : K}

theorem unit_pos (p : ℕ) (x : K) : 0 < unit p x := zpow_pos (by norm_num) _

theorem unitBelow_pos (p : ℕ) (L : K) : 0 < unitBelow p L := zpow_pos (by norm_num) _

omit [IsStrictOrderedRing K] in
/-- The binade of a number in units. -/
theorem zpow_mul_unit (p : ℕ) (x : K) :
    (2 : K) ^ p * unit p x = (2 : K) ^ (Int.log 2 x + 1) := by
  rw [unit, ← zpow_natCast, Nat.cast_ofNat, ← zpow_add₀ (by norm_num)]
  congr 1
  ring

omit [IsStrictOrderedRing K] in
theorem zpow_mul_unitBelow (p : ℕ) (L : K) :
    (2 : K) ^ p * unitBelow p L = (2 : K) ^ Int.clog 2 L := by
  rw [unitBelow, ← zpow_natCast, Nat.cast_ofNat, ← zpow_add₀ (by norm_num)]
  congr 1
  ring

theorem zpow_log_le (hx : 0 < x) : (2 : K) ^ Int.log 2 x ≤ x := by
  simpa using Int.zpow_log_le_self (b := 2) (by decide) hx

theorem lt_zpow_log (x : K) : x < (2 : K) ^ (Int.log 2 x + 1) := by
  simpa using Int.lt_zpow_succ_log_self (b := 2) (by decide) x

theorem le_zpow_clog (L : K) : L ≤ (2 : K) ^ Int.clog 2 L := by
  simpa using Int.self_le_zpow_clog (b := 2) (by decide) L

theorem zpow_clog_lt (hL : 0 < L) : (2 : K) ^ (Int.clog 2 L - 1) < L := by
  simpa using Int.zpow_pred_clog_lt_self (b := 2) (by decide) hL

theorem two_zpow_mono {a b : ℤ} (h : a ≤ b) : (2 : K) ^ a ≤ (2 : K) ^ b :=
  zpow_le_zpow_right₀ (by norm_num) h

omit [IsStrictOrderedRing K] in
theorem two_zpow_succ (a : ℤ) : (2 : K) ^ (a + 1) = 2 * (2 : K) ^ a := by
  rw [zpow_add_one₀ (by norm_num), mul_comm]

/-- A number is not rounded out of its binade, apart from the upper end. -/
theorem roundTo_le (p : ℕ) (x : K) : roundTo p x ≤ (2 : K) ^ (Int.log 2 x + 1) := by
  have hle : halfEven (x / unit p x) ≤ 2 ^ p := by
    apply halfEven_le_of_le
    push_cast
    rw [div_le_iff₀ (unit_pos p x), zpow_mul_unit]
    exact (lt_zpow_log x).le
  have hcast : (halfEven (x / unit p x) : K) ≤ 2 ^ p := by exact_mod_cast hle
  rw [roundTo, ← zpow_mul_unit p]
  exact mul_le_mul_of_nonneg_right hcast (unit_pos p x).le

theorem zpow_log_le_roundTo (hp : 0 < p) (hx : 0 < x) : (2 : K) ^ Int.log 2 x ≤ roundTo p x := by
  obtain ⟨k, rfl⟩ : ∃ k, p = k + 1 := ⟨p - 1, by omega⟩
  have hunit : (2 : K) ^ k * unit (k + 1) x = (2 : K) ^ Int.log 2 x := by
    have h := zpow_mul_unit (k + 1) x
    rw [two_zpow_succ, pow_succ] at h
    linarith
  have hle : 2 ^ k ≤ halfEven (x / unit (k + 1) x) := by
    apply le_halfEven_of_le
    push_cast
    rw [le_div_iff₀ (unit_pos (k + 1) x), hunit]
    exact zpow_log_le hx
  have hcast : (2 : K) ^ k ≤ halfEven (x / unit (k + 1) x) := by exact_mod_cast hle
  rw [roundTo, ← hunit]
  exact mul_le_mul_of_nonneg_right hcast (unit_pos (k + 1) x).le

/-- The first neighbour that is not less than a bound lies in the binade of the bound. -/
theorem ceilUnits_le (p : ℕ) (L : K) : (ceilUnits p L : K) * unitBelow p L ≤ 2 ^ Int.clog 2 L := by
  have hle : ceilUnits p L ≤ 2 ^ p := by
    rw [ceilUnits, Int.ceil_le]
    push_cast
    rw [div_le_iff₀ (unitBelow_pos p L), zpow_mul_unitBelow]
    exact le_zpow_clog L
  have hcast : (ceilUnits p L : K) ≤ 2 ^ p := by exact_mod_cast hle
  rw [← zpow_mul_unitBelow p]
  exact mul_le_mul_of_nonneg_right hcast (unitBelow_pos p L).le

theorem lt_halfPoint (hp : 0 < p) (hL : 0 < L) : (2 : K) ^ (Int.clog 2 L - 1) < halfPoint p L := by
  obtain ⟨k, rfl⟩ : ∃ k, p = k + 1 := ⟨p - 1, by omega⟩
  have hpos := unitBelow_pos (k + 1) L
  have hunit : (2 : K) ^ k * unitBelow (k + 1) L = (2 : K) ^ (Int.clog 2 L - 1) := by
    have h := zpow_mul_unitBelow (k + 1) L
    have hclog : Int.clog 2 L = Int.clog 2 L - 1 + 1 := by ring
    rw [hclog, two_zpow_succ, pow_succ] at h
    linarith
  have hlt : 2 ^ k < ceilUnits (k + 1) L := by
    rw [ceilUnits, Int.lt_ceil]
    push_cast
    rw [lt_div_iff₀ hpos, hunit]
    exact zpow_clog_lt hL
  have hcast : (2 : K) ^ k + 1 ≤ ceilUnits (k + 1) L := by exact_mod_cast hlt
  have hmul := mul_le_mul_of_nonneg_right hcast hpos.le
  rw [halfPoint, ← hunit]
  linarith

theorem halfPoint_pos (hp : 0 < p) (hL : 0 < L) : 0 < halfPoint p L :=
  (zpow_pos (by norm_num) _).trans (lt_halfPoint hp hL)

theorem halfPoint_lt (p : ℕ) (L : K) : halfPoint p L < 2 ^ Int.clog 2 L := by
  have hpos := unitBelow_pos p L
  have hle := ceilUnits_le p L
  rw [halfPoint]
  linarith

omit [IsStrictOrderedRing K] in
theorem reaches_of_lt (h : halfPoint p L < x) : Reaches p L x := by
  rw [Reaches]
  split
  · exact h.le
  · exact h

omit [IsStrictOrderedRing K] in
theorem not_reaches_of_lt (h : x < halfPoint p L) : ¬ Reaches p L x := by
  rw [Reaches]
  split
  · exact not_le.mpr h
  · exact not_lt.mpr h.le

theorem roundTo_zero (p : ℕ) : roundTo p (0 : K) = 0 := by
  have h := halfEven_intCast (K := K) 0
  rw [Int.cast_zero] at h
  rw [roundTo, zero_div, h, Int.cast_zero, zero_mul]

/-- What is rounded to a bound or more. The three cases are the places of the binades. -/
theorem le_roundTo_iff (hp : 0 < p) (hL : 0 < L) (hx : 0 ≤ x) :
    L ≤ roundTo p x ↔ Reaches p L x := by
  obtain rfl | hx := hx.eq_or_lt
  · rw [roundTo_zero]
    exact iff_of_false (not_le.mpr hL) (not_reaches_of_lt (halfPoint_pos hp hL))
  · obtain hlt | heq | hgt := lt_trichotomy (Int.log 2 x + 1) (Int.clog 2 L)
    · have hbinade : (2 : K) ^ (Int.log 2 x + 1) ≤ 2 ^ (Int.clog 2 L - 1) :=
        two_zpow_mono (by omega)
      apply iff_of_false
      · exact not_le.mpr (((roundTo_le p x).trans hbinade).trans_lt (zpow_clog_lt hL))
      · exact not_reaches_of_lt (((lt_zpow_log x).trans_le hbinade).trans (lt_halfPoint hp hL))
    · have hunit : unit p x = unitBelow p L := by rw [unit, unitBelow, heq]
      have hpos := unitBelow_pos p L
      rw [roundTo, hunit, ← div_le_iff₀ hpos, ← Int.ceil_le, ← ceilUnits, le_halfEven_iff, Reaches,
        mul_div_assoc', le_div_iff₀ hpos, lt_div_iff₀ hpos, halfPoint, div_le_iff₀ (by norm_num),
        div_lt_iff₀ (by norm_num), mul_comm x]
    · have hbinade : (2 : K) ^ Int.clog 2 L ≤ 2 ^ Int.log 2 x := two_zpow_mono (by omega)
      apply iff_of_true
      · exact ((le_zpow_clog L).trans hbinade).trans (zpow_log_le_roundTo hp hx)
      · exact reaches_of_lt (((halfPoint_lt p L).trans_le hbinade).trans_le (zpow_log_le hx))

omit [IsStrictOrderedRing K] in
theorem Reaches.mono (h : Reaches p L x) (hxy : x ≤ y) : Reaches p L y := by
  rw [Reaches] at h ⊢
  split at h
  · rename_i heven
    rw [if_pos heven]
    exact h.trans hxy
  · rename_i hodd
    rw [if_neg hodd]
    exact h.trans_le hxy

theorem roundTo_nonneg (hp : 0 < p) (hx : 0 ≤ x) : 0 ≤ roundTo p x := by
  obtain rfl | hx := hx.eq_or_lt
  · rw [roundTo_zero]
  · exact (zpow_pos (by norm_num) _).le.trans (zpow_log_le_roundTo hp hx)

theorem roundTo_mono (hp : 0 < p) (hx : 0 ≤ x) (hxy : x ≤ y) : roundTo p x ≤ roundTo p y := by
  obtain h | h := (roundTo_nonneg hp hx).eq_or_lt
  · rw [← h]
    exact roundTo_nonneg hp (hx.trans hxy)
  · have hreaches := (le_roundTo_iff hp h hx).mp le_rfl
    exact (le_roundTo_iff hp h (hx.trans hxy)).mpr (hreaches.mono hxy)

/-- A number that needs fewer than `p` digits is an even neighbour. -/
theorem even_ceilUnits_natCast {n : ℕ} (h : Nat.clog 2 n < p) :
    Even (ceilUnits p (n : K)) := by
  obtain ⟨k, hk⟩ : ∃ k, p = Nat.clog 2 n + (k + 1) := ⟨p - Nat.clog 2 n - 1, by omega⟩
  have hunit : unitBelow p (n : K) = ((2 : K) ^ (k + 1))⁻¹ := by
    rw [unitBelow, Int.clog_natCast, Nat.cast_ofNat, hk, Nat.cast_add, sub_add_cancel_left,
      zpow_neg, zpow_natCast]
  have hceil : ceilUnits p (n : K) = n * 2 ^ (k + 1) := by
    have hcast : (n : K) * 2 ^ (k + 1) = ((n * 2 ^ (k + 1) : ℤ) : K) := by push_cast; rfl
    rw [ceilUnits, hunit, div_inv_eq_mul, hcast, Int.ceil_intCast]
  rw [hceil, pow_succ]
  exact (Int.even_mul.mpr (.inr even_two)).mul_left _

/-- A number of at most `p` digits stays as it is. -/
theorem roundTo_eq_of_units {m : ℤ} (h : x = m * unit p x) : roundTo p x = x := by
  have hdiv : x / unit p x = m := (div_eq_iff (unit_pos p x).ne').mpr h
  rw [roundTo, hdiv, halfEven_intCast, ← h]

theorem roundTo_natCast (hp : 0 < p) {n : ℕ} (h : n ≤ 2 ^ p) : roundTo p (n : K) = n := by
  obtain rfl | hn := Nat.eq_zero_or_pos n
  · rw [Nat.cast_zero, roundTo_zero]
  · by_cases hlog : Nat.log 2 n < p
    · obtain ⟨k, hk⟩ : ∃ k, p = Nat.log 2 n + 1 + k := ⟨p - (Nat.log 2 n + 1), by omega⟩
      have hunit : unit p (n : K) = (2 : K) ^ (-(k : ℤ)) := by
        rw [unit, Int.log_natCast, Nat.cast_ofNat]
        congr 1
        omega
      apply roundTo_eq_of_units (m := n * 2 ^ k)
      rw [hunit, zpow_neg, zpow_natCast]
      push_cast
      rw [mul_assoc, mul_inv_cancel₀ (by positivity), mul_one]
    · have hpow : n = 2 ^ p := by
        apply le_antisymm h
        calc 2 ^ p ≤ 2 ^ Nat.log 2 n := Nat.pow_le_pow_right (by decide) (not_lt.mp hlog)
          _ ≤ n := Nat.pow_log_le_self 2 hn.ne'
      obtain ⟨k, rfl⟩ : ∃ k, p = k + 1 := ⟨p - 1, by omega⟩
      have hunit : unit (k + 1) (n : K) = 2 := by
        rw [unit, Int.log_natCast, hpow, Nat.log_pow (by decide), Nat.cast_ofNat]
        have hone : ((k + 1 : ℕ) : ℤ) + 1 - ((k + 1 : ℕ) : ℤ) = 1 := by ring
        rw [hone, zpow_one]
      apply roundTo_eq_of_units (m := 2 ^ k)
      rw [hunit, hpow]
      push_cast
      rw [pow_succ]

end RoundTo

end XMonitor.Lib
