import XMonitor.Utils.MempoolSafety

/-!
# The range of the memory pool

The pool computes the size of a block as a product of two words of 32 bits, and keeps the size of
a unit, rounded up, in one. Nothing is lost by this exactly if the products are below `2 ^ 32` and
the size is not zero. `xm_mempool_init` asks only for counts that are positive.
-/

namespace XMonitor.Mempool

/-- The bytes of a unit that hold the number of the next free unit. -/
def linkSize : Nat := 4

/-- A block is as large as its units, and all that its initialization writes is in the block. -/
def CreatesInside (pool : XmMempool) (unitCount : Int32) : Prop :=
  ∀ data words,
    let block := (xmMemblockCreate pool.unitSize unitCount data words).1
    block.blockSize.toNat = unitCount.toNatClampNeg * pool.unitSize.toNat ∧
      ∀ i < unitCount.toNatClampNeg,
        block.unit pool.unitSize.toNat i + linkSize ≤ block.data + block.blockSize.toNat

/-- In every run, each unit that is handed out lies in a block. -/
def ReturnsInside (pool : XmMempool) : Prop :=
  ∀ words events,
    EventRun.AllSteps step Allowed (some { pool, words, live := ∅ }) events →
    ∀ past fresh, past ++ [.malloc fresh] <+: events →
      ∃ s s', past.foldl step (some { pool, words, live := ∅ }) = some s ∧
        s.next (.malloc fresh) = some s' ∧ ∃ block ∈ s'.pool.blocks,
          block.data ≤ s.returned fresh ∧
            s.returned fresh + s'.pool.unitSize.toNat ≤ block.data + block.blockSize.toNat

/-- The arithmetic of the pool is in range. -/
structure InRange (pool : XmMempool) : Prop where
  init : CreatesInside pool pool.initMemUnitCount
  grow : CreatesInside pool pool.growMemUnitCount
  returns : ReturnsInside pool
  divisor : pool.unitSize ≠ 0

/-- The size of a unit and of the two kinds of blocks, in the exact numbers. -/
def Fits (unitSize : UInt32) (initMemUnitCount growMemUnitCount : Int32) : Prop :=
  1 ≤ unitSize ∧
    (unitSize.toNat + 7) / 8 * 8 * initMemUnitCount.toNatClampNeg < 2 ^ 32 ∧
    (unitSize.toNat + 7) / 8 * 8 * growMemUnitCount.toNatClampNeg < 2 ^ 32

variable {unitSize : UInt32} {initMemUnitCount growMemUnitCount : Int32} {pool : XmMempool}

theorem createsInside_of_fits {unitCount : Int32} (hcount : 0 < unitCount)
    (hfits : pool.unitSize.toNat * unitCount.toNatClampNeg < 2 ^ 32)
    (hlink : linkSize ≤ pool.unitSize.toNat) : CreatesInside pool unitCount := by
  intro data words
  have hsize : (xmMemblockCreate pool.unitSize unitCount data words).1.blockSize.toNat =
      unitCount.toNatClampNeg * pool.unitSize.toNat :=
    (toNat_blockSize hcount hfits).trans (Nat.mul_comm _ _)
  refine ⟨hsize, fun i hi => ?_⟩
  have hle : (i + 1) * pool.unitSize.toNat ≤ unitCount.toNatClampNeg * pool.unitSize.toNat :=
    Nat.mul_le_mul_right _ hi
  rw [hsize, XmMempoolBlock.unit]
  rw [Nat.succ_mul] at hle
  omega

theorem State.Inv.returnsInside {words : Words} (h : State.Inv { pool, words, live := ∅ }) :
    ∀ events, EventRun.AllSteps step Allowed (some { pool, words, live := ∅ }) events →
    ∀ past fresh, past ++ [.malloc fresh] <+: events →
      ∃ s s', past.foldl step (some { pool, words, live := ∅ }) = some s ∧
        s.next (.malloc fresh) = some s' ∧ ∃ block ∈ s'.pool.blocks,
          block.data ≤ s.returned fresh ∧
            s.returned fresh + s'.pool.unitSize.toNat ≤ block.data + block.blockSize.toNat := by
  intro events hallowed past fresh hpast
  have hbefore : past <+: events := (List.prefix_append past _).trans hpast
  obtain ⟨s, hs, hinv⟩ := EventRun.foldl_invariant (I := Runs) runs_step ⟨_, rfl, h⟩ hallowed
    hbefore
  have hallows := EventRun.allSteps_iff.mp hallowed past _ hpast s hs
  obtain ⟨s', hnext, hinv', ⟨-, b, hb, i, hi, hunit⟩, -⟩ := hinv.malloc hallows
  refine ⟨s, s', hs, hnext, b, hb, ?_, ?_⟩
  · rw [hunit]
    exact Nat.le_add_right _ _
  · rw [hunit]
    exact unit_lt (hinv'.arena.divided b hb) hi

/-- Rounding up to 8 loses nothing unless the result is zero. -/
theorem toNat_roundup_of_ne_zero (h : roundup unitSize ≠ 0) :
    1 ≤ unitSize ∧ (roundup unitSize).toNat = (unitSize.toNat + 7) / 8 * 8 := by
  have hlt := unitSize.toNat_lt
  have hne : (roundup unitSize).toNat ≠ 0 := fun hzero => h (UInt32.toNat_inj.mp hzero)
  rw [toNat_roundup] at hne ⊢
  have hpos : 1 ≤ unitSize.toNat := by omega
  exact ⟨UInt32.le_iff_toNat_le.mpr hpos, by omega⟩

/-- The parts of a pool that `xm_mempool_init` accepts. -/
theorem xmMempoolInit_spec
    (h : xmMempoolInit unitSize initMemUnitCount growMemUnitCount = some pool) :
    pool.unitSize = roundup unitSize ∧ pool.initMemUnitCount = initMemUnitCount ∧
      pool.growMemUnitCount = growMemUnitCount := by
  rw [xmMempoolInit] at h
  split at h
  · cases h
  · obtain rfl := Option.some.inj h
    exact ⟨rfl, rfl, rfl⟩

theorem fits_of_createsInside {unitCount : Int32} (hdivisor : roundup unitSize ≠ 0)
    (hunit : pool.unitSize = roundup unitSize) (h : CreatesInside pool unitCount) :
    (unitSize.toNat + 7) / 8 * 8 * unitCount.toNatClampNeg < 2 ^ 32 := by
  have hsize := (h 0 fun _ => 0).1
  rw [hunit, (toNat_roundup_of_ne_zero hdivisor).2, Nat.mul_comm] at hsize
  rw [← hsize]
  exact UInt32.toNat_lt _

theorem inRange_of_fits
    (hinit : xmMempoolInit unitSize initMemUnitCount growMemUnitCount = some pool)
    (h : Fits unitSize initMemUnitCount growMemUnitCount) : InRange pool := by
  obtain ⟨hunit, hinitFits, hgrowFits⟩ := h
  have hinv (words : Words) := inv_init hinit hunit hinitFits hgrowFits words
  have hstart := hinv fun _ => 0
  have hlink : linkSize ≤ pool.unitSize.toNat := by
    have hpos : 0 < pool.unitSize.toNat := hstart.unit_pos
    have hsize : pool.unitSize.toNat = (unitSize.toNat + 7) / 8 * 8 % 2 ^ 32 := by
      rw [(xmMempoolInit_spec hinit).1, toNat_roundup]
    rw [linkSize]
    omega
  exact
    { init := createsInside_of_fits hstart.init_pos hstart.init_fits hlink
      grow := createsInside_of_fits hstart.grow_pos hstart.grow_fits hlink
      returns := fun words => (hinv words).returnsInside
      divisor := fun hzero => Nat.ne_of_gt hstart.unit_pos (congrArg UInt32.toNat hzero) }

/-- The arithmetic of an accepted pool is in range exactly if no product exceeds 32 bits and the
size of a unit is not zero. -/
theorem inRange_iff
    (hinit : xmMempoolInit unitSize initMemUnitCount growMemUnitCount = some pool) :
    InRange pool ↔ Fits unitSize initMemUnitCount growMemUnitCount := by
  refine ⟨fun h => ?_, inRange_of_fits hinit⟩
  obtain ⟨hunit, hinitCount, hgrowCount⟩ := xmMempoolInit_spec hinit
  have hdivisor : roundup unitSize ≠ 0 := hunit ▸ h.divisor
  exact ⟨(toNat_roundup_of_ne_zero hdivisor).1,
    fits_of_createsInside hdivisor hunit (hinitCount ▸ h.init),
    fits_of_createsInside hdivisor hunit (hgrowCount ▸ h.grow)⟩

/-- Units of 24 bytes for numbers of them that fit. -/
theorem inRange_small : InRange ⟨24, 100, 50, 0, []⟩ := by
  have hinit : xmMempoolInit 20 100 50 = some ⟨24, 100, 50, 0, []⟩ := by decide
  exact (inRange_iff hinit).mpr ⟨by decide, by decide, by decide⟩

/-- `2 ^ 16` units of `2 ^ 16` bytes are a block without any bytes. -/
theorem product_overflows : ¬ ∀ unitSize initMemUnitCount growMemUnitCount pool,
    xmMempoolInit unitSize initMemUnitCount growMemUnitCount = some pool → InRange pool := by
  intro h
  have hrange := h 65536 65536 1 ⟨65536, 65536, 1, 0, []⟩ (by decide)
  have hsize := (hrange.init 0 fun _ => 0).1
  exact absurd hsize (by decide)

end XMonitor.Mempool
