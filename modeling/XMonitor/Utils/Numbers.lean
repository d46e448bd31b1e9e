import XMonitor.Lib.Buffer
import XMonitor.Utils.Strings

/-!
# Printing numbers

`uint64_2_str` knows how many digits a number has before it writes them, from the last to the
first and two at a time. How many there are is estimated by the binary length of the number times
1233 / 4096, which is a bit less than the logarithm of 2 to base 10, and corrected by a table.
-/

namespace XMonitor

open Lib

/-- The first entry is zero, and so no number is below it. -/
def powersOf10 : List Nat :=
  [0, 10, 100, 1000, 10000, 100000, 1000000, 10000000, 100000000, 1000000000, 10000000000,
    100000000000, 1000000000000, 10000000000000, 100000000000000, 1000000000000000,
    10000000000000000, 100000000000000000, 1000000000000000000, 10000000000000000000]

def powersOf10U32 : List Nat :=
  [0, 10, 100, 1000, 10000, 100000, 1000000, 10000000, 100000000, 1000000000]

/-- The table with its terminating zero. -/
def digitPairs : List Char :=
  ["00010203040506070809",
    "10111213141516171819",
    "20212223242526272829",
    "30313233343536373839",
    "40414243444546474849",
    "50515253545556575859",
    "60616263646566676869",
    "70717273747576777879",
    "80818283848586878889",
    "90919293949596979899"].flatMap String.toList ++ ['\x00']

/-- `__builtin_clz` and `__builtin_clzll`: the zeros in front of a number that is not zero. -/
def builtinClz (width n : Nat) : Nat := width - 1 - n.log2

/-- The estimate of how many digits a number has, or one less. -/
def digitsEstimate (width n : Nat) : Nat :=
  ((width - builtinClz width (n ||| 1)) * 1233) >>> 12

/-- The body that `digits10_uint64` and its variants share. -/
def digits10 (width : Nat) (powers : List Nat) (n : Nat) : Nat :=
  let t := digitsEstimate width n
  t - (if n < powers.getD t 0 then 1 else 0) + 1

def digits10Uint64 (n : UInt64) : UInt32 := UInt32.ofNat (digits10 64 powersOf10 n.toNat)
def digits10Uint32 (n : UInt32) : UInt32 := UInt32.ofNat (digits10 32 powersOf10U32 n.toNat)

-- the narrow numbers are converted to `uint32_t` first
def digits10Uint16 (v : UInt16) : UInt32 := UInt32.ofNat (digits10 32 powersOf10U32 v.toNat)
def digits10Uint8 (v : UInt8) : UInt32 := UInt32.ofNat (digits10 32 powersOf10U32 v.toNat)

/-- The bytes from `digit_pairs + 2 * r` on that `memcpy` takes. -/
def digitPair (r : Nat) : List Char := (digitPairs.drop (2 * r)).take 2

/-- The loop of `uint64_2_str` and what is behind it. The last digits belong at `c`. -/
def writeDigits (v : Nat) (c : Int) (dst : Buffer Char) : Buffer Char :=
  if 100 ≤ v then writeDigits (v / 100) (c - 2) (dst.copy (c - 1) (digitPair (v % 100)))
  else if v < 10 then dst.put c (Char.ofNat ('0'.toNat + v))
  else dst.copy (c - 1) (digitPair v)
termination_by v
decreasing_by omega

/-- `uint64_2_str`, with what it returns. -/
def uint642str (v : UInt64) (dst : Buffer Char) : UInt32 × Buffer Char :=
  let size := digits10Uint64 v
  (size, writeDigits v.toNat (size - 1).toNat dst)

/-! ## How many digits there are -/

/-- A table that the estimate for numbers of some width does not leave. -/
structure PowerTable (width : Nat) (powers : List Nat) : Prop where
  width_le : width ≤ 64
  length_eq : powers.length = ((width * 1233) >>> 12) + 1
  zero : powers.getD 0 0 = 0
  entry : ∀ t, 1 ≤ t → t < powers.length → powers.getD t 0 = 10 ^ t

theorem powerTable_powersOf10 : PowerTable 64 powersOf10 where
  width_le := Nat.le_refl 64
  length_eq := rfl
  zero := rfl
  entry t hpos ht := by
    have hentries : ∀ t < 20, 1 ≤ t → powersOf10.getD t 0 = 10 ^ t := by decide
    exact hentries t ht hpos

theorem powerTable_powersOf10U32 : PowerTable 32 powersOf10U32 where
  width_le := by decide
  length_eq := rfl
  zero := rfl
  entry t hpos ht := by
    have hentries : ∀ t < 10, 1 ≤ t → powersOf10U32.getD t 0 = 10 ^ t := by decide
    exact hentries t ht hpos

section Digits

variable {width n : Nat} {powers : List Nat}

theorem log2_or_one (n : Nat) : (n ||| 1).log2 = n.log2 := by
  by_cases hn : 2 ≤ n
  · have hor : 2 ≤ n ||| 1 := Nat.le_trans hn Nat.left_le_or
    have hhalf : (n ||| 1) / 2 = n / 2 := by
      rw [Nat.or_div_two]
      exact Nat.or_zero _
    rw [Nat.log2_def, if_pos hor, hhalf, Nat.log2_def n, if_pos hn]
  · obtain rfl | rfl : n = 0 ∨ n = 1 := by omega
    · rfl
    · rfl

theorem digitsEstimate_eq (hn : n < 2 ^ width) (hwidth : 0 < width) :
    digitsEstimate width n = ((n.log2 + 1) * 1233) >>> 12 := by
  have hlog : n.log2 < width := by
    by_cases hzero : n = 0
    · rw [hzero, Nat.log2_zero]
      exact hwidth
    · exact (Nat.log2_lt hzero).mpr hn
  have hlength : width - (width - 1 - n.log2) = n.log2 + 1 := by omega
  rw [digitsEstimate, builtinClz, log2_or_one, hlength]

/-- The estimate is an entry of the table. -/
theorem digitsEstimate_lt (h : PowerTable width powers) (n : Nat) :
    digitsEstimate width n < powers.length := by
  have hle : (width - builtinClz width (n ||| 1)) * 1233 ≤ width * 1233 :=
    Nat.mul_le_mul_right _ (Nat.sub_le _ _)
  rw [h.length_eq, digitsEstimate, Nat.shiftRight_eq_div_pow, Nat.shiftRight_eq_div_pow]
  exact Nat.lt_succ_of_le (Nat.div_le_div_right hle)

/-- The powers of 10 around the numbers of some binary length, up to 64. -/
theorem pow_estimate : ∀ b < 64, 10 ^ (((b + 1) * 1233) >>> 12) ≤ 10 * 2 ^ b ∧
    2 ^ (b + 1) ≤ 10 ^ ((((b + 1) * 1233) >>> 12) + 1) := by decide

/-- The number of digits, from an estimate that may be one too small. -/
theorem length_toDigits_eq {k : Nat} (hlow : 10 ^ (k + 1) ≤ 10 * n) (hhigh : n < 10 ^ (k + 2)) :
    (Nat.toDigits 10 n).length = if n < 10 ^ (k + 1) then k + 1 else k + 2 := by
  have hupper : (Nat.toDigits 10 n).length ≤ k + 2 :=
    (Nat.length_toDigits_le_iff (by decide) (Nat.succ_pos _)).mpr hhigh
  have hmiddle : (Nat.toDigits 10 n).length ≤ k + 1 ↔ n < 10 ^ (k + 1) :=
    Nat.length_toDigits_le_iff (by decide) (Nat.succ_pos k)
  have hlower : k < (Nat.toDigits 10 n).length := by
    cases k with
    | zero => exact Nat.length_toDigits_pos
    | succ k =>
        have hbelow : 10 ^ (k + 1) ≤ n := by
          rw [Nat.pow_succ] at hlow
          omega
        apply Nat.lt_of_not_le
        rw [Nat.length_toDigits_le_iff (by decide) (Nat.succ_pos k)]
        exact Nat.not_lt.mpr hbelow
  split
  · rename_i hn
    have := hmiddle.mpr hn
    omega
  · rename_i hn
    have := mt hmiddle.mp hn
    omega

/-- The corrected estimate is the number of decimal digits. -/
theorem digits10_eq (h : PowerTable width powers) (hwidth : 0 < width) (hn : n < 2 ^ width) :
    digits10 width powers n = (Nat.toDigits 10 n).length := by
  have hlt := digitsEstimate_lt h n
  have hestimate := digitsEstimate_eq hn hwidth
  rw [digits10]
  by_cases hzero : n = 0
  · rw [hestimate, hzero]
    show 0 - (if 0 < powers.getD 0 0 then 1 else 0) + 1 = 1
    rw [h.zero]
    rfl
  · have hlog : n.log2 < 64 := Nat.lt_of_lt_of_le ((Nat.log2_lt hzero).mpr hn) h.width_le
    obtain ⟨hlow, hhigh⟩ := pow_estimate _ hlog
    rw [← hestimate] at hlow hhigh
    have hself : 2 ^ n.log2 ≤ n := Nat.log2_self_le hzero
    have hover : n < 2 ^ (n.log2 + 1) := Nat.lt_log2_self
    cases ht : digitsEstimate width n with
    | zero =>
        rw [ht] at hhigh
        have hone : (Nat.toDigits 10 n).length ≤ 1 :=
          (Nat.length_toDigits_le_iff (by decide) Nat.one_pos).mpr (Nat.lt_of_lt_of_le hover hhigh)
        have hpos : 0 < (Nat.toDigits 10 n).length := Nat.length_toDigits_pos
        rw [h.zero, if_neg (Nat.not_lt_zero n)]
        omega
    | succ k =>
        rw [ht] at hlow hhigh hlt
        have hlength := length_toDigits_eq (Nat.le_trans hlow (Nat.mul_le_mul_left 10 hself))
          (Nat.lt_of_lt_of_le hover hhigh)
        rw [h.entry (k + 1) (Nat.succ_pos k) hlt, hlength]
        split
        · rfl
        · rfl

/-- The result fits into the type of the functions. -/
theorem toNat_digits10 (h : PowerTable width powers) (hwidth : 0 < width) (hn : n < 2 ^ width) :
    (UInt32.ofNat (digits10 width powers n)).toNat = (Nat.toDigits 10 n).length := by
  have hn64 : n < 2 ^ 64 :=
    Nat.lt_of_lt_of_le hn (Nat.pow_le_pow_right (by decide) h.width_le)
  have hlength : (Nat.toDigits 10 n).length ≤ 20 :=
    (Nat.length_toDigits_le_iff (by decide) (by decide)).mpr (Nat.lt_trans hn64 (by decide))
  rw [digits10_eq h hwidth hn]
  exact UInt32.toNat_ofNat_of_lt (Nat.lt_of_le_of_lt hlength (by decide))

end Digits

theorem digits10Uint64_toNat (n : UInt64) :
    (digits10Uint64 n).toNat = (Nat.toDigits 10 n.toNat).length :=
  toNat_digits10 powerTable_powersOf10 (by decide) n.toNat_lt

theorem digits10Uint32_toNat (n : UInt32) :
    (digits10Uint32 n).toNat = (Nat.toDigits 10 n.toNat).length :=
  toNat_digits10 powerTable_powersOf10U32 (by decide) n.toNat_lt

theorem digits10Uint16_toNat (v : UInt16) :
    (digits10Uint16 v).toNat = (Nat.toDigits 10 v.toNat).length :=
  toNat_digits10 powerTable_powersOf10U32 (by decide) (Nat.lt_trans v.toNat_lt (by decide))

theorem digits10Uint8_toNat (v : UInt8) :
    (digits10Uint8 v).toNat = (Nat.toDigits 10 v.toNat).length :=
  toNat_digits10 powerTable_powersOf10U32 (by decide) (Nat.lt_trans v.toNat_lt (by decide))

/-! ## What is written -/

/-- The table without its terminating zero, as digits. -/
theorem digitPairs_eq : digitPairs = ((List.range 100).flatMap fun r =>
    [Nat.digitChar (r / 10), Nat.digitChar (r % 10)]) ++ ['\x00'] := by
  decide +kernel

/-- The entries of a table that lie one behind the other. -/
theorem take_drop_flatMap_pair {f : Nat → List Char} (hf : ∀ r, (f r).length = 2) (rest : List Char)
    {l : List Nat} {k : Nat} (hk : k < l.length) :
    ((l.flatMap f ++ rest).drop (2 * k)).take 2 = f l[k] := by
  induction l generalizing k with
  | nil => cases hk
  | cons r l ih =>
      rw [List.flatMap_cons, List.append_assoc]
      cases k with
      | zero => exact List.take_left' (hf r)
      | succ k =>
          have hdrop : 2 * (k + 1) = (f r).length + 2 * k := by
            rw [hf]
            omega
          rw [hdrop, List.drop_length_add_append, List.getElem_cons_succ]
          exact ih (Nat.lt_of_succ_lt_succ hk)

/-- A pair of the table is the two digits of its index. -/
theorem digitPair_eq {r : Nat} (hr : r < 100) :
    digitPair r = [Nat.digitChar (r / 10), Nat.digitChar (r % 10)] := by
  have hlength : r < (List.range 100).length := by
    rw [List.length_range]
    exact hr
  rw [digitPair, digitPairs_eq, take_drop_flatMap_pair (fun _ => rfl) _ hlength, List.getElem_range]

theorem length_digitPair {r : Nat} (hr : r < 100) : (digitPair r).length = 2 := by
  rw [digitPair_eq hr]
  rfl

theorem digitChar_eq {d : Nat} (hd : d < 10) : Char.ofNat ('0'.toNat + d) = Nat.digitChar d := by
  have hdigits : ∀ d < 10, Char.ofNat ('0'.toNat + d) = Nat.digitChar d := by decide
  exact hdigits d hd

/-- Two digits are split off a number that has more. -/
theorem toDigits_pair {v : Nat} (hv : 100 ≤ v) :
    Nat.toDigits 10 v = Nat.toDigits 10 (v / 100) ++ digitPair (v % 100) := by
  have hpair := digitPair_eq (Nat.mod_lt v (by decide : 100 > 0))
  have htens : v / 10 % 10 = v % 100 / 10 := by omega
  have hones : v % 10 = v % 100 % 10 := by omega
  rw [Nat.toDigits_of_base_le (by decide) (by omega : 10 ≤ v),
    Nat.toDigits_of_base_le (by decide) (by omega : 10 ≤ v / 10), Nat.div_div_eq_div_mul,
    List.append_assoc, hpair, htens, hones]
  rfl

theorem toDigits_two {v : Nat} (hten : 10 ≤ v) (hv : v < 100) :
    Nat.toDigits 10 v = digitPair v := by
  rw [Nat.toDigits_of_base_le (by decide) hten, Nat.toDigits_of_lt_base (by omega : v / 10 < 10),
    digitPair_eq hv]
  rfl

/-- The loop stores the digits of `v`, of which the last is at `c`. -/
theorem writeDigits_stores (v : Nat) (c : Int) (dst : Buffer Char) :
    Buffer.Stores dst (writeDigits v c dst) (c + 1 - (Nat.toDigits 10 v).length)
      (Nat.toDigits 10 v) := by
  fun_induction writeDigits v c dst with
  | case1 v c dst hv ih =>
      have hpair := Buffer.stores_copy dst (c - 1) (digitPair (v % 100))
      have hlength : (digitPair (v % 100)).length = 2 := length_digitPair (Nat.mod_lt v (by decide))
      have hstart : c + 1 - ((Nat.toDigits 10 (v / 100) ++ digitPair (v % 100)).length : Int) =
          c - 2 + 1 - (Nat.toDigits 10 (v / 100)).length := by
        rw [List.length_append, hlength]
        omega
      have hend : c - 1 = c - 2 + 1 - ((Nat.toDigits 10 (v / 100)).length : Int) +
          (Nat.toDigits 10 (v / 100)).length := by
        omega
      rw [toDigits_pair hv, hstart]
      -- the digits at the end are the first that are stored
      exact Buffer.stores_append (.inr ⟨hend ▸ hpair, ih⟩)
  | case2 v c dst hv hsmall =>
      have hstart : c + 1 - (([Nat.digitChar v] : List Char).length : Int) = c := by
        rw [List.length_singleton]
        omega
      rw [Nat.toDigits_of_lt_base hsmall, digitChar_eq hsmall, hstart]
      exact Buffer.stores_put dst c _
  | case3 v c dst hv hsmall =>
      have hstart : c + 1 - ((digitPair v).length : Int) = c - 1 := by
        rw [length_digitPair (Nat.lt_of_not_le hv)]
        omega
      rw [toDigits_two (Nat.le_of_not_lt hsmall) (Nat.lt_of_not_le hv), hstart]
      exact Buffer.stores_copy dst (c - 1) _

/-- A scan ends at the digits if no digit follows them. -/
theorem scanDigits_append {α : Type} [Add α] [Mul α] (ofNat : Nat → α) (n : α) (digits : CString)
    {rest : CString} (hrest : ∀ c ∈ rest.head?, c.isDigit = false) :
    scanDigits ofNat n (digits ++ rest) = scanDigits ofNat n digits := by
  induction digits generalizing n with
  | nil =>
      cases rest with
      | nil => rfl
      | cons c rest =>
          have hc : ¬ c.isDigit = true := by simpa using hrest c rfl
          show scanDigits ofNat n (c :: rest) = n
          rw [scanDigits, if_neg hc]
  | cons c digits ih =>
      rw [List.cons_append, scanDigits, scanDigits]
      split
      · exact ih _
      · rfl

/-- `uint64_2_str` writes the digits of a number and nothing else, returns how many they are, and
`str2uint64_t` reads the number back when a character follows them that is not a digit. -/
theorem uint642str_spec (v : UInt64) (dst : Buffer Char) :
    let digits := Nat.toDigits 10 v.toNat
    let n := (uint642str v dst).1
    let final := (uint642str v dst).2
    Buffer.Stores dst final 0 digits ∧ n = digits10Uint64 v ∧ n.toNat = digits.length ∧
      ∀ (later : Buffer Char) (s : CString), (∀ k < n.toNat, later.data k = final.data k) →
        (later.data n.toNat).isDigit = false → later.HoldsString 0 s '\x00' →
        str2uint64 s = v := by
  intro digits n final
  have hn : n.toNat = digits.length := digits10Uint64_toNat v
  have hpos : 0 < digits.length := Nat.length_toDigits_pos
  have hlast : (n - 1).toNat = digits.length - 1 := by
    have hone : (1 : UInt32) ≤ n := by
      rw [UInt32.le_iff_toNat_le, hn]
      exact hpos
    rw [UInt32.toNat_sub_of_le _ _ hone, hn]
    rfl
  have hstart : (((n - 1).toNat : Nat) : Int) + 1 - digits.length = 0 := by omega
  have hstores : Buffer.Stores dst final 0 digits :=
    hstart ▸ writeDigits_stores v.toNat (n - 1).toNat dst
  refine ⟨hstores, rfl, hn, fun later s hkept hstop hs => ?_⟩
  have hdigits : ∀ c ∈ digits, c.isDigit = true :=
    fun c hc => Nat.isDigit_of_mem_toDigits (by decide) (by decide) hc
  have hnul : '\x00' ∉ digits := fun hmem => absurd (hdigits _ hmem) (by decide)
  have htext : ∀ k, (h : k < digits.length) → later.data (0 + k) = digits[k] := by
    intro k hk
    rw [← hstores.text_eq k hk, Int.zero_add]
    exact hkept k (hn ▸ hk)
  obtain ⟨rest, rfl, hrest⟩ := hs.exists_append htext hnul
  have hafter : ∀ c ∈ rest.head?, c.isDigit = false := by
    intro c hc
    rw [hrest c hc, Int.zero_add, ← hn]
    exact hstop
  calc str2uint64 (digits ++ rest) = str2uint64 digits :=
        scanDigits_append UInt64.ofNat 0 digits hafter
    _ = UInt64.ofNat v.toNat := str2uint64_toDigits v.toNat
    _ = v := UInt64.ofNat_toNat

end XMonitor
