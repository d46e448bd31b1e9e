import Mathlib.Algebra.GroupWithZero.Nat
import Mathlib.Algebra.Ring.Int.Defs

/-!
# Strings and proc files

The collectors read the files of `/proc` through `procfile`, which splits a file into
lines and the lines into words, and turn words into numbers with the functions below.
A C string is the list of its characters before the terminating zero.
-/

namespace XMonitor

abbrev CString := List Char

/-- A condition on the characters of a string is decided along the string, also where the
type of the characters is known to be finite. -/
instance (priority := 1100) decidableForallMem {α : Type} (p : α → Prop) [DecidablePred p]
    (s : List α) : Decidable (∀ c ∈ s, p c) := List.decidableBAll p s

/-- The loop of the functions that scan a number, for numbers of some width. -/
def scanDigits {α : Type} [Add α] [Mul α] (ofNat : Nat → α) (n : α) : CString → α
  | [] => n
  | c :: s =>
      if c.isDigit then scanDigits ofNat (n * ofNat 10 + ofNat (c.toNat - '0'.toNat)) s else n

/-- `str2uint32_t`: the leading digits, modulo `2 ^ 32`. -/
def str2uint32 (s : CString) : UInt32 := scanDigits UInt32.ofNat 0 s

/-- `str2uint64_t`: the leading digits, modulo `2 ^ 64`. -/
def str2uint64 (s : CString) : UInt64 := scanDigits UInt64.ofNat 0 s

section ScanDigits

variable {α : Type} [Add α] [Mul α] {ofNat : Nat → α}
  (hadd : ∀ a b, ofNat (a + b) = ofNat a + ofNat b)
  (hmul : ∀ a b, ofNat (a * b) = ofNat a * ofNat b)

include hadd hmul

theorem scanDigits_ofNat {s : CString} (h : ∀ c ∈ s, c.isDigit) (n : Nat) :
    scanDigits ofNat (ofNat n) s = ofNat (Nat.ofDigitChars 10 s n) := by
  induction s generalizing n with
  | nil =>
      rw [Nat.ofDigitChars_nil]
      rfl
  | cons c s ih =>
      obtain ⟨hc, hs⟩ := List.forall_mem_cons.mp h
      rw [scanDigits, if_pos hc, ← hmul, ← hadd, ih hs, Nat.ofDigitChars_cons, Nat.mul_comm n]

/-- Scanning a printed number gives the number, in any width. -/
theorem scanDigits_toDigits (n : Nat) :
    scanDigits ofNat (ofNat 0) (Nat.toDigits 10 n) = ofNat n := by
  have hdigits : ∀ c ∈ Nat.toDigits 10 n, c.isDigit :=
    fun c hc => Nat.isDigit_of_mem_toDigits (by decide) (by decide) hc
  calc scanDigits ofNat (ofNat 0) (Nat.toDigits 10 n)
      = ofNat (Nat.ofDigitChars 10 (Nat.toDigits 10 n) 0) :=
        scanDigits_ofNat hadd hmul hdigits 0
    _ = ofNat n := by rw [Nat.ofDigitChars_ten_toDigits]

end ScanDigits

theorem str2uint32_toDigits (n : Nat) : str2uint32 (Nat.toDigits 10 n) = UInt32.ofNat n :=
  scanDigits_toDigits UInt32.ofNat_add UInt32.ofNat_mul n

theorem str2uint64_toDigits (n : Nat) : str2uint64 (Nat.toDigits 10 n) = UInt64.ofNat n :=
  scanDigits_toDigits UInt64.ofNat_add UInt64.ofNat_mul n

/-- The conversion of a number to `double`, which keeps 53 binary digits and rounds a tie
to an even last digit. The result is an integer. -/
def doubleOfUInt64 (n : UInt64) : Nat :=
  let unit := 2 ^ (n.toNat.log2 - 52)
  let digits := n.toNat / unit
  let rest := n.toNat % unit
  if unit < 2 * rest ∨ 2 * rest = unit ∧ digits % 2 = 1 then (digits + 1) * unit
  else digits * unit

/-- A `double` holds every integer up to `2 ^ 53`. -/
theorem doubleOfUInt64_eq {n : UInt64} (h : n.toNat ≤ 2 ^ 53) : doubleOfUInt64 n = n.toNat := by
  by_cases hn : n.toNat = 2 ^ 53
  · have hlog : Nat.log2 (2 ^ 53) = 53 := Nat.log2_two_pow
    rw [doubleOfUInt64, hn, hlog]
    simp
  · have hlog : n.toNat.log2 - 52 = 0 := by
      by_cases hpos : n.toNat = 0
      · simp [hpos]
      · have hlt := (Nat.log2_lt (k := 53) hpos).mpr (Nat.lt_of_le_of_ne h hn)
        omega
    simp [doubleOfUInt64, hlog, Nat.mod_one]

/-- The value of a hexadecimal digit. -/
def hexDigit (c : Char) : Option Nat :=
  if c.isDigit then some (c.toNat - '0'.toNat)
  else if 'a' ≤ c ∧ c ≤ 'f' then some (c.toNat - 'a'.toNat + 10)
  else if 'A' ≤ c ∧ c ≤ 'F' then some (c.toNat - 'A'.toNat + 10)
  else none

def hexLoop (n : Nat) : CString → Nat
  | [] => n
  | c :: s =>
      match hexDigit c with
      | some d => hexLoop (n * 16 + d) s
      | none => n

/-- The digits after an optional `0x`, which counts only in front of a digit. -/
def skipHexMark : CString → CString
  | '0' :: x :: c :: s =>
      if (x = 'x' ∨ x = 'X') ∧ (hexDigit c).isSome then c :: s else '0' :: x :: c :: s
  | s => s

/-- `strtol(s, NULL, 16)`, which saturates at the ends of `long`. -/
def strtolHex (s : CString) : Int :=
  match s.dropWhile Char.isWhitespace with
  | '-' :: s => max (-2 ^ 63) (-(hexLoop 0 (skipHexMark s) : Int))
  | '+' :: s => min (2 ^ 63 - 1) (hexLoop 0 (skipHexMark s) : Int)
  | s => min (2 ^ 63 - 1) (hexLoop 0 (skipHexMark s) : Int)

/-- The lines of a file that `procfile_readall` has read, as lists of words. -/
abbrev ProcFile := List (List CString)

/-- `procfile_lineword` of a line, which is the empty string beyond its end. -/
def lineword (line : List CString) (word : Nat) : CString := line.getD word []

end XMonitor
