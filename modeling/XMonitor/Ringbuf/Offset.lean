import Mathlib.Data.Nat.Bitwise
import Mathlib.Tactic.NormNum

/-!
# The words of the ring buffer's offsets

The ring buffer keeps its offsets in 64-bit words. The low 32 bits are an offset, the next 31
bits of `next` count how often the producers have wrapped around, and the highest bit is a
lock. The operations below are those of the source on words; `pack` is what a word means.
-/

namespace XMonitor.Rbuf

/-- `RBUF_OFF_MASK`. -/
def rbufOffMask : Nat := 0x00000000ffffffff

/-- `WRAP_LOCK_BIT`. -/
def wrapLockBit : Nat := 0x8000000000000000

theorem wrapLockBit_eq : wrapLockBit = 2 ^ 63 := by norm_num [wrapLockBit]

/-- `RBUF_OFF_MAX`, which is `UINT64_MAX & ~WRAP_LOCK_BIT`. -/
def rbufOffMax : Nat := 0x7fffffffffffffff

theorem rbufOffMax_eq : rbufOffMax = 2 ^ 63 - 1 := by norm_num [rbufOffMax]

/-- `WRAP_COUNTER`. -/
def wrapCounter : Nat := 0x7fffffff00000000

/-- `WRAP_INCR`. -/
def wrapIncr (x : Nat) : Nat := (x + 0x100000000) % 0x10000000000000000 &&& wrapCounter

/-- `x & ~WRAP_LOCK_BIT`. -/
def clearLock (x : Nat) : Nat := x &&& rbufOffMax

/-- `x & WRAP_LOCK_BIT`, as a condition. -/
def Locked (x : Nat) : Prop := x &&& wrapLockBit ≠ 0

instance (x : Nat) : Decidable (Locked x) := inferInstanceAs (Decidable (_ ≠ _))

/-- The word with this lock bit, wrap counter and offset. -/
def pack (lock : Bool) (counter off : Nat) : Nat :=
  off + counter * 0x100000000 + if lock then wrapLockBit else 0

section Fields

variable {lock : Bool} {c o : Nat}

theorem pack_false (c o : Nat) : pack false c o = o + c * 0x100000000 := by simp [pack]

theorem pack_true (c o : Nat) : pack true c o = o + c * 0x100000000 + 0x8000000000000000 := by
  simp [pack, wrapLockBit]

theorem pack_and_offMask (ho : o < 0x100000000) :
    pack lock c o &&& rbufOffMask = o := by
  have hmod : pack lock c o % 2 ^ 32 = o := by
    cases lock <;> simp only [pack_false, pack_true] <;> omega
  exact (Nat.and_two_pow_sub_one_eq_mod _ 32).trans hmod

theorem locked_pack (hc : c < 0x80000000) (ho : o < 0x100000000) :
    Locked (pack lock c o) ↔ lock = true := by
  have hbit : pack lock c o &&& 2 ^ 63 = ((pack lock c o).testBit 63).toNat * 2 ^ 63 :=
    Nat.and_two_pow _ 63
  have htest : (pack lock c o).testBit 63 = lock := by
    rw [Nat.testBit_eq_decide_div_mod_eq]
    cases lock <;> simp only [pack_false, pack_true] <;> simp <;> omega
  rw [htest] at hbit
  rw [Locked, wrapLockBit_eq, hbit]
  cases lock <;> simp

theorem pack_and_counter (hc : c < 0x80000000) (ho : o < 0x100000000) :
    pack lock c o &&& wrapCounter = c * 0x100000000 := by
  have hlow : (pack lock c o &&& wrapCounter) % 2 ^ 32 = 0 := by
    rw [Nat.and_mod_two_pow]
    exact Nat.and_zero _
  have hhigh : (pack lock c o &&& wrapCounter) / 2 ^ 32 = c := by
    rw [Nat.and_div_two_pow]
    change pack lock c o / 2 ^ 32 &&& (2 ^ 31 - 1) = c
    rw [Nat.and_two_pow_sub_one_eq_mod]
    cases lock <;> simp only [pack_false, pack_true] <;> omega
  omega

theorem wrapIncr_counter (hc : c < 0x80000000) :
    wrapIncr (c * 0x100000000) = (c + 1) % 0x80000000 * 0x100000000 := by
  by_cases hlast : c + 1 = 0x80000000
  · have hpack : (c * 0x100000000 + 0x100000000) % 0x10000000000000000 = pack true 0 0 := by
      simp only [pack_true]
      omega
    rw [wrapIncr, hpack, pack_and_counter (by omega) (by omega), hlast]
  · have hpack : (c * 0x100000000 + 0x100000000) % 0x10000000000000000 =
        pack false (c + 1) 0 := by
      simp only [pack_false]
      omega
    rw [wrapIncr, hpack, pack_and_counter (by omega) (by omega), Nat.mod_eq_of_lt (by omega)]

theorem or_counter (ho : o < 0x100000000) (c : Nat) :
    o ||| c * 0x100000000 = pack false c o := by
  have h := Nat.two_pow_add_eq_or_of_lt (i := 32) ho c
  rw [Nat.or_comm, Nat.mul_comm c, ← h]
  simp only [pack_false]
  omega

theorem lock_or_counter (hc : c < 0x80000000) (ho : o < 0x100000000) :
    (wrapLockBit ||| o) ||| c * 0x100000000 = pack true c o := by
  have hlow : pack false c o < 2 ^ 63 := by
    simp only [pack_false]
    omega
  have h := Nat.two_pow_add_eq_or_of_lt hlow 1
  rw [Nat.or_assoc, or_counter ho, wrapLockBit_eq]
  rw [Nat.mul_one] at h
  rw [← h]
  simp only [pack_false, pack_true]
  omega

theorem or_lock (ho : o < 0x100000000) : o ||| wrapLockBit = pack true 0 o := by
  rw [Nat.or_comm]
  simpa using lock_or_counter (c := 0) (by omega) ho

theorem clearLock_pack (hc : c < 0x80000000) (ho : o < 0x100000000) :
    clearLock (pack lock c o) = pack false c o := by
  rw [clearLock, rbufOffMax_eq, Nat.and_two_pow_sub_one_eq_mod]
  cases lock <;> simp only [pack_false, pack_true] <;> omega

theorem lock_or_and_offMask (ho : o < 0x100000000) :
    (wrapLockBit ||| o) &&& rbufOffMask = o := by
  rw [Nat.or_comm, or_lock ho, pack_and_offMask ho]

/-- A word determines its fields. -/
theorem pack_inj {lock' : Bool} {c' o' : Nat} (hc : c < 0x80000000) (ho : o < 0x100000000)
    (hc' : c' < 0x80000000) (ho' : o' < 0x100000000) (h : pack lock c o = pack lock' c' o') :
    lock = lock' ∧ c = c' ∧ o = o' := by
  cases lock <;> cases lock' <;> simp only [pack_false, pack_true] at h
  · exact ⟨rfl, by omega, by omega⟩
  · omega
  · omega
  · exact ⟨rfl, by omega, by omega⟩

theorem not_locked_max : ¬ Locked rbufOffMax := by decide

end Fields

end XMonitor.Rbuf
