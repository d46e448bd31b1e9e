import Mathlib.Data.BitVec
import Mathlib.Logic.Function.Basic

/-!
# Mixing steps of hash functions

A hash function in the style of Murmur folds a step over its words. The step multiplies by
an odd constant, which has an inverse, and combines a word with itself shifted to the right,
which keeps the highest bits and so can be undone from there. A fold whose step can be undone
in both arguments depends on every word, and can be run backwards.
-/

namespace BitMix

variable {w : Nat}

/-- `x ^= x >> r`. -/
def xorShift (r : Nat) (x : BitVec w) : BitVec w := x ^^^ (x >>> r)

theorem getLsbD_xorShift (r : Nat) (x : BitVec w) (i : Nat) :
    (xorShift r x).getLsbD i = (x.getLsbD i ^^ x.getLsbD (r + i)) := by
  rw [xorShift, BitVec.getLsbD_xor, BitVec.getLsbD_ushiftRight]

/-- The bits are recovered from the highest one downwards. -/
theorem xorShift_injective {r : Nat} (hr : 0 < r) :
    Function.Injective (xorShift r : BitVec w → BitVec w) := by
  intro x y h
  have hbits : ∀ n i, w - i ≤ n → x.getLsbD i = y.getLsbD i := by
    intro n
    induction n with
    | zero =>
        intro i hi
        rw [BitVec.getLsbD_of_ge x i (by omega), BitVec.getLsbD_of_ge y i (by omega)]
    | succ n ih =>
        intro i hi
        have hi' := congrArg (fun z => z.getLsbD i) h
        simp only [getLsbD_xorShift] at hi'
        by_cases hw : i < w
        · rw [ih (r + i) (by omega)] at hi'
          simpa using hi'
        · rw [BitVec.getLsbD_of_ge x i (by omega), BitVec.getLsbD_of_ge y i (by omega)]
  exact BitVec.eq_of_getLsbD_eq fun i hi => hbits w i (Nat.sub_le _ _)

/-- A shift by at least half of the width is undone by doing it again. -/
theorem xorShift_xorShift {r : Nat} (hr : w ≤ r + r) (x : BitVec w) :
    xorShift r (xorShift r x) = x := by
  apply BitVec.eq_of_getLsbD_eq
  intro i hi
  simp only [getLsbD_xorShift]
  rw [BitVec.getLsbD_of_ge x (r + (r + i)) (by omega)]
  simp

theorem xor_eq_iff {x y z : BitVec w} : x ^^^ z = y ↔ x = y ^^^ z := by
  rw [← BitVec.xor_left_inj z, BitVec.xor_assoc, BitVec.xor_self, BitVec.xor_zero]

variable {m m' : BitVec w}

theorem mul_eq_iff (hm : m * m' = 1) {x y : BitVec w} : x * m = y ↔ x = y * m' := by
  constructor
  · rintro rfl
    rw [mul_assoc, hm, mul_one]
  · rintro rfl
    rw [mul_assoc, mul_comm m', hm, mul_one]

theorem mul_injective (hm : m * m' = 1) : Function.Injective fun x : BitVec w => x * m :=
  fun _ y h => (mul_eq_iff hm).mp h |>.trans (by rw [mul_assoc, hm, mul_one])

/-! ## Folds -/

section

variable {α β : Type*} {f : α → β → α}

/-- A fold whose step is injective in both arguments depends on every word. -/
theorem foldl_ne (hacc : ∀ b, Function.Injective fun a => f a b)
    (hword : ∀ a, Function.Injective (f a)) {b b' : β} (hne : b ≠ b') (a : α)
    (before behind : List β) :
    (before ++ b :: behind).foldl f a ≠ (before ++ b' :: behind).foldl f a := by
  have hbehind {x y : α} (hxy : x ≠ y) : behind.foldl f x ≠ behind.foldl f y := by
    induction behind generalizing x y with
    | nil => exact hxy
    | cons c behind ih => exact ih fun h => hxy (hacc c h)
  rw [List.foldl_append, List.foldl_append, List.foldl_cons, List.foldl_cons]
  exact hbehind fun h => hne (hword _ h)

/-- The start of a fold, from its result. -/
theorem foldl_eq_iff {g : α → β → α} (hinv : ∀ a b c, f a b = c ↔ a = g c b) (a c : α)
    (bs : List β) : bs.foldl f a = c ↔ a = bs.foldr (fun b c => g c b) c := by
  induction bs generalizing a with
  | nil => exact Iff.rfl
  | cons b bs ih => rw [List.foldl_cons, List.foldr_cons, ih, hinv]

end

end BitMix
