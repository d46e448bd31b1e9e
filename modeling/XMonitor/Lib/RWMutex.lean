import Mathlib.Algebra.BigOperators.Fin
import Mathlib.Algebra.Order.BigOperators.Group.Finset

/-!
# Readers-writer locks

The lock that many readers or one writer can hold. A call of `Lock` first announces itself
and then waits until it is served; while an announced call waits, no reader gets in. A
thread that holds a read lock and asks for another one may thus wait for a writer that
waits for this thread.

`Accounts` relates the lock to the threads that use it: it is what every thread has asked
for, added up.
-/

structure RWMutex where
  readers : Nat := 0
  /-- The calls of `Lock` that wait. -/
  waiting : Nat := 0
  writing : Bool := false
deriving DecidableEq, Repr

namespace RWMutex

/-- Neither a writer nor a call of `Lock` keeps readers out. -/
def Admits (m : RWMutex) : Prop := m.waiting = 0 ∧ m.writing = false

instance (m : RWMutex) : Decidable m.Admits := inferInstanceAs (Decidable (_ ∧ _))

/-- No result where the call blocks. -/
def rlock (m : RWMutex) : Option RWMutex :=
  if m.Admits then some { m with readers := m.readers + 1 } else none

def runlock (m : RWMutex) : RWMutex := { m with readers := m.readers - 1 }

def callLock (m : RWMutex) : RWMutex := { m with waiting := m.waiting + 1 }

/-- The end of a call of `Lock`; no result as long as it waits. -/
def acquire (m : RWMutex) : Option RWMutex :=
  if m.readers = 0 ∧ m.writing = false then
    some { m with waiting := m.waiting - 1, writing := true }
  else none

def unlock (m : RWMutex) : RWMutex := { m with writing := false }

/-- What a thread has of a lock. -/
structure Use where
  reads : Nat := 0
  waits : Bool := false
  writes : Bool := false
deriving DecidableEq, Repr

variable {ι : Type*} [Fintype ι]

/-- The lock is held and waited for by the threads, and a writer holds it alone. -/
structure Accounts (m : RWMutex) (use : ι → Use) : Prop where
  readers : m.readers = ∑ i, (use i).reads
  waiting : m.waiting = ∑ i, (use i).waits.toNat
  writing : m.writing.toNat = ∑ i, (use i).writes.toNat
  exclusive : m.writing = true → m.readers = 0

theorem Accounts.idle : Accounts {} fun _ : ι => {} where
  readers := by simp
  waiting := by simp
  writing := by simp
  exclusive := by simp

variable {m m' : RWMutex} {use : ι → Use}

theorem Accounts.reads_le (h : m.Accounts use) (i : ι) : (use i).reads ≤ m.readers := by
  rw [h.readers]
  exact Finset.single_le_sum (f := fun i => (use i).reads) (fun _ _ => Nat.zero_le _)
    (Finset.mem_univ i)

theorem Accounts.waiting_pos (h : m.Accounts use) {i : ι} (hi : (use i).waits = true) :
    0 < m.waiting := by
  have hle : (use i).waits.toNat ≤ m.waiting := by
    rw [h.waiting]
    exact Finset.single_le_sum (f := fun i => (use i).waits.toNat) (fun _ _ => Nat.zero_le _)
      (Finset.mem_univ i)
  rw [hi] at hle
  exact hle

theorem Accounts.exists_reader (h : m.Accounts use) (hm : m.readers ≠ 0) :
    ∃ i, (use i).reads ≠ 0 := by
  rw [h.readers] at hm
  obtain ⟨i, -, hi⟩ := Finset.exists_ne_zero_of_sum_ne_zero hm
  exact ⟨i, hi⟩

theorem Accounts.exists_waiting (h : m.Accounts use) (hm : m.waiting ≠ 0) :
    ∃ i, (use i).waits = true := by
  rw [h.waiting] at hm
  obtain ⟨i, -, hi⟩ := Finset.exists_ne_zero_of_sum_ne_zero hm
  exact ⟨i, by simpa using hi⟩

theorem Accounts.exists_writer (h : m.Accounts use) (hm : m.writing = true) :
    ∃ i, (use i).writes = true := by
  have hsum : ∑ i, (use i).writes.toNat ≠ 0 := by
    rw [← h.writing, hm]
    decide
  obtain ⟨i, -, hi⟩ := Finset.exists_ne_zero_of_sum_ne_zero hsum
  exact ⟨i, by simpa using hi⟩

/-! ## The operations of one thread -/

section

variable [DecidableEq ι] (i : ι) (u : Use)

/-- A sum in which one summand has changed. -/
theorem sum_update (f : Use → Nat) (use : ι → Use) :
    ∑ j, f (Function.update use i u j) + f (use i) = ∑ j, f (use j) + f u := by
  have hrest : ∑ j ∈ Finset.univ.erase i, f (Function.update use i u j) =
      ∑ j ∈ Finset.univ.erase i, f (use j) := by
    refine Finset.sum_congr rfl fun j hj => ?_
    rw [Function.update_of_ne (Finset.ne_of_mem_erase hj)]
  have hnew := Finset.add_sum_erase Finset.univ (fun j => f (Function.update use i u j))
    (Finset.mem_univ i)
  have hold := Finset.add_sum_erase Finset.univ (fun j => f (use j)) (Finset.mem_univ i)
  simp only [Function.update_self] at hnew
  rw [hrest] at hnew
  omega

/-- What an operation has to do for one thread. -/
theorem Accounts.update (h : m.Accounts use)
    (hreaders : m'.readers + (use i).reads = m.readers + u.reads)
    (hwaiting : m'.waiting + (use i).waits.toNat = m.waiting + u.waits.toNat)
    (hwriting : m'.writing.toNat + (use i).writes.toNat = m.writing.toNat + u.writes.toNat)
    (hexclusive : m'.writing = true → m'.readers = 0) :
    m'.Accounts (Function.update use i u) where
  readers := by
    have := sum_update i u Use.reads use
    have := h.readers
    omega
  waiting := by
    have := sum_update i u (fun u => u.waits.toNat) use
    have := h.waiting
    omega
  writing := by
    have := sum_update i u (fun u => u.writes.toNat) use
    have := h.writing
    omega
  exclusive := hexclusive

variable {i}

theorem Accounts.rlock (h : m.Accounts use) (hm : m.rlock = some m') :
    m'.Accounts (Function.update use i { use i with reads := (use i).reads + 1 }) := by
  rw [RWMutex.rlock] at hm
  split at hm
  next hadmits =>
    cases hm
    refine h.update i _ (by simp only; omega) rfl rfl fun hwriting => ?_
    rw [hadmits.2] at hwriting
    cases hwriting
  · cases hm

theorem Accounts.runlock (h : m.Accounts use) (hi : (use i).reads ≠ 0) :
    m.runlock.Accounts (Function.update use i { use i with reads := (use i).reads - 1 }) := by
  have hle := h.reads_le i
  refine h.update i _ ?_ rfl rfl fun hwriting => ?_
  · simp only [RWMutex.runlock]
    omega
  · have hzero := h.exclusive hwriting
    omega

theorem Accounts.callLock (h : m.Accounts use) (hi : (use i).waits = false) :
    m.callLock.Accounts (Function.update use i { use i with waits := true }) := by
  refine h.update i _ rfl ?_ rfl h.exclusive
  simp [RWMutex.callLock, hi]

theorem Accounts.acquire (h : m.Accounts use) (hi : (use i).waits = true)
    (hwrites : (use i).writes = false) (hm : m.acquire = some m') :
    m'.Accounts (Function.update use i { use i with waits := false, writes := true }) := by
  have hpos := h.waiting_pos hi
  rw [RWMutex.acquire] at hm
  split at hm
  next hfree =>
    cases hm
    refine h.update i _ rfl ?_ ?_ fun _ => hfree.1
    · simp only [hi, Bool.toNat_true, Bool.toNat_false]
      omega
    · simp [hwrites, hfree.2]
  · cases hm

theorem Accounts.unlock (h : m.Accounts use) (hi : (use i).writes = true) :
    m.unlock.Accounts (Function.update use i { use i with writes := false }) := by
  have hwriting : m.writing = true := by
    cases hm : m.writing with
    | true => rfl
    | false =>
        have hsum := h.writing
        rw [hm] at hsum
        have hzero := Finset.sum_eq_zero_iff.mp hsum.symm i (Finset.mem_univ i)
        rw [hi] at hzero
        cases hzero
  refine h.update i _ rfl rfl ?_ fun hfalse => ?_
  · simp [RWMutex.unlock, hi, hwriting]
  · cases hfalse

/-- One operation of a thread, from the lock and what the thread has of it. -/
inductive Op (m : RWMutex) (u : Use) : RWMutex → Use → Prop
  | rlock {m' : RWMutex} (h : m.rlock = some m') : Op m u m' { u with reads := u.reads + 1 }
  | runlock (h : u.reads ≠ 0) : Op m u m.runlock { u with reads := u.reads - 1 }
  | callLock (h : u.waits = false) : Op m u m.callLock { u with waits := true }
  | acquire {m' : RWMutex} (h : u.waits = true) (hwrites : u.writes = false)
      (hm : m.acquire = some m') : Op m u m' { u with waits := false, writes := true }
  | unlock (h : u.writes = true) : Op m u m.unlock { u with writes := false }

variable {u}

theorem Accounts.op (h : m.Accounts use) (hop : Op m (use i) m' u) :
    m'.Accounts (Function.update use i u) := by
  cases hop with
  | rlock hm => exact h.rlock hm
  | runlock hi => exact h.runlock hi
  | callLock hi => exact h.callLock hi
  | acquire hi hwrites hm => exact h.acquire hi hwrites hm
  | unlock hi => exact h.unlock hi

omit [DecidableEq ι] in
/-- Readers are kept out only by a new call of `Lock`. -/
theorem Accounts.admits_op (h : m.Accounts use) (hm : m.Admits) (hop : Op m (use i) m' u) :
    m'.Admits ∨ m' = m.callLock := by
  cases hop with
  | rlock hm' =>
      rw [RWMutex.rlock, if_pos hm] at hm'
      cases hm'
      exact .inl hm
  | runlock hi => exact .inl hm
  | callLock hi => exact .inr rfl
  | acquire hi hwrites hm' =>
      have hpos := h.waiting_pos hi
      rw [hm.1] at hpos
      exact absurd hpos (Nat.lt_irrefl 0)
  | unlock hi => exact .inl ⟨hm.1, rfl⟩

/-- A call of `Lock` that waits for a reader goes on waiting, whatever the others do. -/
theorem waiting_op (hreaders : m.readers ≠ 0) (hwaiting : 0 < m.waiting) {u' : Use}
    (hop : Op m u m' u') : 0 < m'.waiting := by
  cases hop with
  | rlock hm =>
      rw [RWMutex.rlock] at hm
      split at hm
      · cases hm
        exact hwaiting
      · cases hm
  | runlock hi => exact hwaiting
  | callLock hi => exact Nat.succ_pos _
  | acquire hi hwrites hm =>
      rw [RWMutex.acquire, if_neg fun hfree => hreaders hfree.1] at hm
      cases hm
  | unlock hi => exact hwaiting

end

end RWMutex
