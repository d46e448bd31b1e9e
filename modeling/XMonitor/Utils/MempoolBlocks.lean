import Mathlib.Data.List.Pairwise
import XMonitor.Utils.Mempool

/-!
# The blocks of the memory pool

In each block the free units are chained through their first words, and none of them is in
use. `Arena` says this of a list of blocks that do not overlap and have all units that are in
use. What an operation on a block writes is in the units of the block, so that the others
keep their chains.
-/

namespace XMonitor.Mempool

open FreeList

/-! ## The size of a unit -/

/-- Clearing the low bits rounds down. -/
theorem and_mask {x : Nat} (hx : x < 2 ^ 64) : x &&& (2 ^ 64 - 2 ^ 3) = x / 2 ^ 3 * 2 ^ 3 := by
  apply Nat.eq_of_testBit_eq
  intro i
  have hmask : (2 ^ 64 - 2 ^ 3 : Nat).testBit i = (decide (i < 64) && !decide (i < 3)) := by
    rw [← Nat.testBit_two_pow_sub_one 3 i]
    exact Nat.testBit_two_pow_sub_succ (by decide) i
  rw [Nat.testBit_and, Nat.testBit_mul_two_pow, Nat.testBit_div_two_pow, hmask]
  by_cases hlow : i < 3
  · have hnot : ¬ 3 ≤ i := Nat.not_le.mpr hlow
    simp [hlow, hnot]
  · have hle : 3 ≤ i := Nat.not_lt.mp hlow
    rw [Nat.sub_add_cancel hle]
    by_cases hhigh : i < 64
    · simp [hlow, hle, hhigh]
    · have hzero : x.testBit i = false :=
        Nat.testBit_lt_two_pow (Nat.lt_of_lt_of_le hx
          (Nat.pow_le_pow_right (by decide) (Nat.not_lt.mp hhigh)))
      simp [hzero]

theorem toNat_roundup (unitSize : UInt32) :
    (roundup unitSize).toNat = (unitSize.toNat + 7) / 8 * 8 % 2 ^ 32 := by
  have hlt := unitSize.toNat_lt
  have hsum : (unitSize.toUInt64 + 7).toNat = unitSize.toNat + 7 := by
    rw [UInt64.toNat_add, UInt32.toNat_toUInt64]
    exact Nat.mod_eq_of_lt (by change _ + 7 < 2 ^ 64; omega)
  have hmask : (~~~7 : UInt64).toNat = 2 ^ 64 - 2 ^ 3 := by decide
  rw [roundup, UInt64.toNat_toUInt32, UInt64.toNat_and, hsum, hmask, and_mask (by omega)]
  rfl

/-! ## Units and blocks -/

variable {us : Nat} {words words' : Words} {live live' : Finset Nat} {b c : XmMempoolBlock}

/-- The free units of a block, in the order of the chain. -/
structure XmMempoolBlock.Chained (b : XmMempoolBlock) (us : Nat) (words : Words)
    (live : Finset Nat) (is : List Nat) : Prop where
  free : Free (b.link us words) (b.unitCount us) b.freeUnitPos.toNat is
  count : b.freeUnitCount.toNat = is.length
  notLive : ∀ i ∈ is, b.unit us i ∉ live

/-- The block consists of units. -/
def XmMempoolBlock.Divided (b : XmMempoolBlock) (us : Nat) : Prop :=
  b.blockSize.toNat = b.unitCount us * us

/-- Two blocks do not overlap. -/
def XmMempoolBlock.Apart (b c : XmMempoolBlock) : Prop :=
  b.data + b.blockSize.toNat ≤ c.data ∨ c.data + c.blockSize.toNat ≤ b.data

theorem XmMempoolBlock.Apart.symm (h : b.Apart c) : c.Apart b := Or.symm h

theorem unit_lt (hb : b.Divided us) {i : Nat} (hi : i < b.unitCount us) :
    b.unit us i + us ≤ b.data + b.blockSize.toNat := by
  have hle : (i + 1) * us ≤ b.unitCount us * us := Nat.mul_le_mul_right us hi
  rw [hb, XmMempoolBlock.unit]
  rw [Nat.succ_mul] at hle
  omega

theorem unitSize_pos {i : Nat} (hi : i < b.unitCount us) : 0 < us := by
  obtain rfl | hus := Nat.eq_zero_or_pos us
  · rw [XmMempoolBlock.unitCount, Nat.div_zero] at hi
    exact absurd hi (Nat.not_lt_zero i)
  · exact hus

theorem unit_inj {i j : Nat} (hi : i < b.unitCount us) (h : b.unit us i = b.unit us j) : i = j :=
  Nat.eq_of_mul_eq_mul_right (unitSize_pos hi) (Nat.add_left_cancel h)

/-- Units of blocks that do not overlap are different. -/
theorem unit_ne (hb : b.Divided us) (hc : c.Divided us) (hapart : b.Apart c)
    {i j : Nat} (hi : i < b.unitCount us) (hj : j < c.unitCount us) :
    b.unit us i ≠ c.unit us j := by
  have hus := unitSize_pos hi
  have hbi := unit_lt hb hi
  have hcj := unit_lt hc hj
  intro heq
  obtain h | h := hapart
  · rw [XmMempoolBlock.unit] at heq hbi
    rw [XmMempoolBlock.unit] at heq
    omega
  · rw [XmMempoolBlock.unit] at heq
    rw [XmMempoolBlock.unit] at heq hcj
    omega

/-- What is written elsewhere does not matter to a block. -/
theorem XmMempoolBlock.Chained.frame {is : List Nat} (h : b.Chained us words live is)
    (hwords : ∀ i < b.unitCount us, i ∈ is → words' (b.unit us i) = words (b.unit us i))
    (hlive : ∀ i < b.unitCount us, i ∈ is → b.unit us i ∉ live') :
    b.Chained us words' live' is where
  free := h.free.congr fun i hi => congrArg UInt32.toNat (hwords i (h.free.lt hi) hi)
  count := h.count
  notLive i hi := hlive i (h.free.lt hi) hi

/-! ## Operations on a block -/

variable {unitSize : UInt32} {is : List Nat}

/-- Taking the first free unit of a block. -/
theorem XmMempoolBlock.Chained.take (h : b.Chained unitSize.toNat words live is)
    (hb : b.Divided unitSize.toNat) (hfree : b.freeUnitCount ≠ 0) :
    ∃ i rest, i < b.unitCount unitSize.toNat ∧
      b.data + (b.freeUnitPos * unitSize).toNat = b.unit unitSize.toNat i ∧
      b.unit unitSize.toNat i ∉ live ∧
      XmMempoolBlock.Chained
        { b with
          freeUnitPos := words (b.unit unitSize.toNat i)
          freeUnitCount := b.freeUnitCount - 1 }
        unitSize.toNat words (insert (b.unit unitSize.toNat i) live) rest := by
  cases is with
  | nil =>
      have hzero : b.freeUnitCount = 0 := UInt32.toNat_inj.mp h.count
      exact absurd hzero hfree
  | cons i rest =>
      obtain ⟨hpos, hi, hrest⟩ := h.free.pop
      have hnodup := List.nodup_cons.mp h.free.nodup
      have hsize := b.blockSize.toNat_lt
      refine ⟨i, rest, hi, ?_, h.notLive i List.mem_cons_self, ⟨hrest, ?_, fun j hj => ?_⟩⟩
      · have hlt : i * unitSize.toNat < 2 ^ 32 := by
          refine Nat.lt_of_le_of_lt (Nat.mul_le_mul_right _ (Nat.le_of_lt hi)) ?_
          rw [← hb]
          exact hsize
        rw [UInt32.toNat_mul, hpos, Nat.mod_eq_of_lt hlt, XmMempoolBlock.unit]
      · have hcount := h.count
        rw [List.length_cons] at hcount
        have hle : (1 : UInt32) ≤ b.freeUnitCount := by
          rw [UInt32.le_iff_toNat_le, hcount]
          exact Nat.succ_le_succ (Nat.zero_le _)
        change (b.freeUnitCount - 1).toNat = rest.length
        rw [UInt32.toNat_sub_of_le _ _ hle, hcount]
        rfl
      · rw [Finset.mem_insert, not_or]
        refine ⟨fun heq => hnodup.1 ?_, h.notLive j (List.mem_cons_of_mem i hj)⟩
        rw [← unit_inj (h.free.lt (List.mem_cons_of_mem i hj)) heq]
        exact hj

/-- Giving back a unit of a block. -/
theorem XmMempoolBlock.Chained.give (h : b.Chained us words live is) {i : Nat}
    (hi : i < b.unitCount us) (hlive : b.unit us i ∈ live) :
    XmMempoolBlock.Chained
      { b with
        freeUnitCount := b.freeUnitCount + 1
        freeUnitPos := UInt32.ofNat ((b.unit us i - b.data) / us) }
      us (Function.update words (b.unit us i) b.freeUnitPos) (live.erase (b.unit us i))
      (i :: is) := by
  have hnot : i ∉ is := fun hmem => h.notLive i hmem hlive
  have hcells : b.unitCount us < 2 ^ 32 := by
    have hsize := b.blockSize.toNat_lt
    exact Nat.lt_of_le_of_lt (Nat.div_le_self _ _) hsize
  have hother {j : Nat} (hj : j ∈ is) : b.unit us j ≠ b.unit us i := by
    intro heq
    rw [unit_inj (h.free.lt hj) heq] at hj
    exact hnot hj
  have hpos : (UInt32.ofNat ((b.unit us i - b.data) / us)).toNat = i := by
    rw [XmMempoolBlock.unit, Nat.add_sub_cancel_left, Nat.mul_div_cancel _ (unitSize_pos hi),
      UInt32.toNat_ofNat_of_lt' (Nat.lt_trans hi hcells)]
  refine ⟨?_, ?_, fun j hj => ?_⟩
  · change Free _ (b.unitCount us) (UInt32.ofNat _).toNat _
    rw [hpos]
    refine h.free.push hi hnot ?_ fun j hj => ?_
    · exact congrArg UInt32.toNat (Function.update_self _ _ _)
    · exact congrArg UInt32.toNat (Function.update_of_ne (hother hj) _ _)
  · have hlen := h.free.length_lt hi hnot
    change (b.freeUnitCount + 1).toNat = is.length + 1
    rw [UInt32.toNat_add, h.count]
    exact Nat.mod_eq_of_lt (Nat.lt_of_le_of_lt (Nat.succ_le_of_lt hlen) hcells)
  · obtain rfl | hj := List.mem_cons.mp hj
    · exact Finset.notMem_erase _ _
    · exact fun hmem => h.notLive j hj (Finset.mem_of_mem_erase hmem)

theorem linkUnits_of_ne {data unitSize a : Nat} (words : Words) {n : Nat}
    (ha : ∀ i < n, a ≠ data + i * unitSize) : linkUnits data unitSize words n a = words a := by
  induction n with
  | zero => rfl
  | succ n ih =>
      rw [linkUnits, List.range_succ, List.foldl_concat,
        Function.update_of_ne (ha n (Nat.lt_succ_self n))]
      exact ih fun i hi => ha i (Nat.lt_succ_of_lt hi)

theorem linkUnits_unit {data unitSize : Nat} (hunit : 0 < unitSize) (words : Words) {n i : Nat}
    (hi : i < n) :
    linkUnits data unitSize words n (data + i * unitSize) = UInt32.ofNat (i + 1) := by
  induction n with
  | zero => exact absurd hi (Nat.not_lt_zero i)
  | succ n ih =>
      rw [linkUnits, List.range_succ, List.foldl_concat]
      by_cases heq : i = n
      · subst heq
        exact Function.update_self _ _ _
      · have hne : data + i * unitSize ≠ data + n * unitSize := fun h =>
          heq (Nat.eq_of_mul_eq_mul_right hunit (Nat.add_left_cancel h))
        rw [Function.update_of_ne hne]
        exact ih (by omega)

theorem unitCount_toNat {unitCount : Int32} (hcount : 0 < unitCount) :
    unitCount.toUInt32.toNat = unitCount.toNatClampNeg ∧ 0 < unitCount.toNatClampNeg := by
  refine ⟨Int32.toNat_toUInt32_of_le (Int32.le_of_lt hcount), ?_⟩
  rw [Int32.lt_iff_toInt_lt] at hcount
  rw [← Int32.toNat_toInt]
  exact Int.pos_iff_toNat_pos.mp hcount

theorem toNat_blockSize {unitCount : Int32} (hcount : 0 < unitCount)
    (hfits : unitSize.toNat * unitCount.toNatClampNeg < 2 ^ 32) :
    (unitSize * unitCount.toUInt32).toNat = unitSize.toNat * unitCount.toNatClampNeg := by
  rw [UInt32.toNat_mul, (unitCount_toNat hcount).1, Nat.mod_eq_of_lt hfits]

/-- A new block, whose first unit is handed out. -/
theorem chained_create {unitCount : Int32} (hunit : 0 < unitSize.toNat) (hcount : 0 < unitCount)
    (hfits : unitSize.toNat * unitCount.toNatClampNeg < 2 ^ 32) (words : Words) (live : Finset Nat)
    (data : Nat) :
    let created := xmMemblockCreate unitSize unitCount data words
    created.1.Divided unitSize.toNat ∧
      created.1.blockSize.toNat = unitSize.toNat * unitCount.toNatClampNeg ∧
      0 < created.1.unitCount unitSize.toNat ∧
      (∀ a, (∀ i < created.1.unitCount unitSize.toNat, a ≠ created.1.unit unitSize.toNat i) →
        created.2 a = words a) ∧
      ((∀ i < created.1.unitCount unitSize.toNat, created.1.unit unitSize.toNat i ∉ live) →
        ∃ is, created.1.Chained unitSize.toNat created.2 (insert data live) is) := by
  obtain ⟨hnat, hpos⟩ := unitCount_toNat hcount
  have hsize := toNat_blockSize hcount hfits
  generalize hn : unitCount.toNatClampNeg = n at *
  have hunits : (unitSize * unitCount.toUInt32).toNat / unitSize.toNat = n := by
    rw [hsize, Nat.mul_div_cancel_left _ hunit]
  have hn32 : n < 2 ^ 32 := Nat.lt_of_le_of_lt (Nat.le_mul_of_pos_left n hunit) hfits
  dsimp only [xmMemblockCreate, XmMempoolBlock.Divided, XmMempoolBlock.unitCount]
  rw [hunits, hn]
  refine ⟨hsize.trans (Nat.mul_comm _ _), hsize, hpos, fun a ha => linkUnits_of_ne words ha,
    fun hnew => ⟨List.range' 1 (n - 1), ?_, ?_, fun i hi => ?_⟩⟩
  · change Free _ ((unitSize * unitCount.toUInt32).toNat / unitSize.toNat) 1 _
    rw [hunits]
    refine free_range' hpos fun i _ hi => ?_
    change (linkUnits data unitSize.toNat words n (data + i * unitSize.toNat)).toNat = i + 1
    rw [linkUnits_unit hunit words hi, UInt32.toNat_ofNat_of_lt' (show i + 1 < 2 ^ 32 by omega)]
  · change (unitCount - 1).toUInt32.toNat = _
    have hle : (1 : UInt32) ≤ unitCount.toUInt32 := by
      rw [UInt32.le_iff_toNat_le, hnat]
      exact hpos
    rw [Int32.toUInt32_sub, List.length_range']
    change (unitCount.toUInt32 - 1).toNat = _
    rw [UInt32.toNat_sub_of_le _ _ hle, hnat]
    rfl
  · obtain ⟨hle, hlt⟩ := List.mem_range'_1.mp hi
    rw [Finset.mem_insert, not_or]
    refine ⟨?_, hnew i (by omega)⟩
    have hoffset : 0 < i * unitSize.toNat := Nat.mul_pos hle hunit
    change data + i * unitSize.toNat ≠ data
    omega

theorem XmMempoolBlock.Chained.blockSize_pos (h : b.Chained us words live is)
    (hfree : b.freeUnitCount ≠ 0) : 0 < b.blockSize.toNat := by
  have hne : is ≠ [] := by
    rintro rfl
    exact hfree (UInt32.toNat_inj.mp h.count)
  obtain ⟨i, hi⟩ := List.exists_mem_of_ne_nil is hne
  have hlt := h.free.lt hi
  rw [XmMempoolBlock.unitCount] at hlt
  exact Nat.pos_of_ne_zero fun hzero => by simp [hzero] at hlt

/-- The test for a block whose units are all free. -/
theorem XmMempoolBlock.Chained.full (h : b.Chained unitSize.toNat words live is)
    (hb : b.Divided unitSize.toNat) (hfree : b.freeUnitCount ≠ 0)
    (hfull : b.blockSize = b.freeUnitCount * unitSize) :
    ∀ i < b.unitCount unitSize.toNat, b.unit unitSize.toNat i ∉ live := by
  have hsize := b.blockSize.toNat_lt
  have hpos := h.blockSize_pos hfree
  have hle := Nat.mul_le_mul_right unitSize.toNat h.free.length_le
  have heq := congrArg UInt32.toNat hfull
  rw [UInt32.toNat_mul, h.count, Nat.mod_eq_of_lt (by rw [← hb] at hle; omega), hb] at heq
  have hunit : 0 < unitSize.toNat := by
    rw [hb] at hpos
    exact Nat.pos_of_mul_pos_left hpos
  have hlen : is.length = b.unitCount unitSize.toNat :=
    (Nat.eq_of_mul_eq_mul_right hunit heq).symm
  exact fun i hi => h.notLive i (h.free.mem_of_length hlen hi)

/-! ## Lists of blocks -/

/-- The blocks of the list do not overlap, and every unit in use is one of theirs. -/
structure Arena (us : Nat) (words : Words) (live : Finset Nat) (blocks : List XmMempoolBlock) :
    Prop where
  divided : ∀ b ∈ blocks, b.Divided us
  chained : ∀ b ∈ blocks, ∃ is, b.Chained us words live is
  apart : blocks.Pairwise XmMempoolBlock.Apart
  live : ∀ p ∈ live, ∃ b ∈ blocks, ∃ i < b.unitCount us, p = b.unit us i

variable {blocks before behind : List XmMempoolBlock}

theorem Arena.perm (h : Arena us words live blocks) {blocks' : List XmMempoolBlock}
    (hperm : blocks.Perm blocks') : Arena us words live blocks' where
  divided b hb := h.divided b (hperm.mem_iff.mpr hb)
  chained b hb := h.chained b (hperm.mem_iff.mpr hb)
  apart := h.apart.perm hperm XmMempoolBlock.Apart.symm
  live p hp := by
    obtain ⟨b, hb, hunit⟩ := h.live p hp
    exact ⟨b, hperm.mem_iff.mp hb, hunit⟩

/-- The units of memory that overlaps no block are not in use. -/
theorem Arena.notLive (h : Arena us words live blocks) (hb : b.Divided us)
    (hapart : ∀ c ∈ blocks, b.Apart c) : ∀ i < b.unitCount us, b.unit us i ∉ live := by
  intro i hi hlive
  obtain ⟨c, hc, j, hj, heq⟩ := h.live _ hlive
  exact unit_ne hb (h.divided c hc) (hapart c hc) hi hj heq

theorem XmMempoolBlock.data_eq_unit (b : XmMempoolBlock) (us : Nat) : b.data = b.unit us 0 := by
  rw [XmMempoolBlock.unit, Nat.zero_mul, Nat.add_zero]

/-- A new block that overlaps no other, whose first unit is handed out. -/
theorem Arena.cons (h : Arena us words live blocks) (hb : b.Divided us)
    (hpos : 0 < b.unitCount us) (hapart : ∀ c ∈ blocks, b.Apart c)
    (hwords : ∀ a, (∀ i < b.unitCount us, a ≠ b.unit us i) → words' a = words a)
    (hchained : (∀ i < b.unitCount us, b.unit us i ∉ live) →
      ∃ is, b.Chained us words' (insert b.data live) is) :
    Arena us words' (insert b.data live) (b :: blocks) := by
  have hdata := b.data_eq_unit us
  refine ⟨?_, ?_, ?_, ?_⟩
  · exact List.forall_mem_cons.mpr ⟨hb, h.divided⟩
  · refine List.forall_mem_cons.mpr ⟨hchained (h.notLive hb hapart), fun c hc => ?_⟩
    obtain ⟨is, his⟩ := h.chained c hc
    have hother {j : Nat} (hj : j < c.unitCount us) {i : Nat} (hi : i < b.unitCount us) :
        c.unit us j ≠ b.unit us i :=
      unit_ne (h.divided c hc) hb (hapart c hc).symm hj hi
    refine ⟨is, his.frame (fun j hj _ => hwords _ fun i hi => hother hj hi) fun j hj hmem => ?_⟩
    rw [Finset.mem_insert, not_or, hdata]
    exact ⟨hother hj hpos, his.notLive j hmem⟩
  · exact List.pairwise_cons.mpr ⟨hapart, h.apart⟩
  · intro p hp
    obtain rfl | hp := Finset.mem_insert.mp hp
    · exact ⟨b, List.mem_cons_self, 0, hpos, hdata⟩
    · obtain ⟨c, hc, hunit⟩ := h.live p hp
      exact ⟨c, List.mem_cons_of_mem b hc, hunit⟩

/-- An operation on a block, which writes in its units only. -/
theorem Arena.replace (h : Arena us words live (before ++ b :: behind))
    (hchained : ∃ is, c.Chained us words' live' is) (hdata : c.data = b.data)
    (hsize : c.blockSize = b.blockSize)
    (hwords : ∀ a, (∀ i < b.unitCount us, a ≠ b.unit us i) → words' a = words a)
    (hlive : ∀ p ∈ live', p ∈ live ∨ ∃ i < b.unitCount us, p = b.unit us i) :
    Arena us words' live' (before ++ c :: behind) := by
  have hmem : b ∈ before ++ b :: behind := List.mem_append_right _ List.mem_cons_self
  have hb : b.Divided us := h.divided b hmem
  have hcount : c.unitCount us = b.unitCount us := by
    rw [XmMempoolBlock.unitCount, XmMempoolBlock.unitCount, hsize]
  have hunit : c.unit us = b.unit us := by
    funext i
    rw [XmMempoolBlock.unit, XmMempoolBlock.unit, hdata]
  have hperm : (before ++ b :: behind).Perm (b :: (before ++ behind)) := List.perm_middle
  have h' := h.perm hperm
  obtain ⟨hapart, hrest⟩ := List.pairwise_cons.mp h'.apart
  suffices hfirst : Arena us words' live' (c :: (before ++ behind)) from
    hfirst.perm List.perm_middle.symm
  refine ⟨?_, ?_, ?_, ?_⟩
  · refine List.forall_mem_cons.mpr ⟨?_, fun d hd => h'.divided d (List.mem_cons_of_mem b hd)⟩
    rw [XmMempoolBlock.Divided, hcount, hsize]
    exact hb
  · refine List.forall_mem_cons.mpr ⟨hchained, fun d hd => ?_⟩
    have hd' : d ∈ b :: (before ++ behind) := List.mem_cons_of_mem b hd
    obtain ⟨is, his⟩ := h'.chained d hd'
    have hother {j : Nat} (hj : j < d.unitCount us) {i : Nat} (hi : i < b.unitCount us) :
        d.unit us j ≠ b.unit us i :=
      unit_ne (h'.divided d hd') hb (hapart d hd).symm hj hi
    refine ⟨is, his.frame (fun j hj _ => hwords _ fun i hi => hother hj hi)
      fun j hj hfree hin => ?_⟩
    obtain hold | ⟨i, hi, heq⟩ := hlive _ hin
    · exact his.notLive j hfree hold
    · exact hother hj hi heq
  · refine List.pairwise_cons.mpr ⟨fun d hd => ?_, hrest⟩
    rw [XmMempoolBlock.Apart, hdata, hsize]
    exact hapart d hd
  · intro p hp
    obtain hold | ⟨i, hi, rfl⟩ := hlive p hp
    · obtain ⟨d, hd, i, hi, rfl⟩ := h'.live p hold
      obtain rfl | hd := List.mem_cons.mp hd
      · exact ⟨c, List.mem_cons_self, i, hcount ▸ hi, (congrFun hunit i).symm⟩
      · exact ⟨d, List.mem_cons_of_mem c hd, i, hi, rfl⟩
    · exact ⟨c, List.mem_cons_self, i, hcount ▸ hi, (congrFun hunit i).symm⟩

/-- A block none of whose units is in use can go. -/
theorem Arena.remove (h : Arena us words live (before ++ b :: behind))
    (hfree : ∀ i < b.unitCount us, b.unit us i ∉ live) :
    Arena us words live (before ++ behind) := by
  have hsub : (before ++ behind).Sublist (before ++ b :: behind) :=
    (List.sublist_cons_self b behind).append_left before
  refine ⟨fun c hc => h.divided c (hsub.subset hc), fun c hc => h.chained c (hsub.subset hc),
    h.apart.sublist hsub, fun p hp => ?_⟩
  obtain ⟨c, hc, i, hi, rfl⟩ := h.live p hp
  rw [List.mem_append, List.mem_cons] at hc
  obtain hc | rfl | hc := hc
  · exact ⟨c, List.mem_append_left _ hc, i, hi, rfl⟩
  · exact absurd hp (hfree i hi)
  · exact ⟨c, List.mem_append_right _ hc, i, hi, rfl⟩

/-- Users write to units in use only. -/
theorem Arena.write (h : Arena us words live blocks) {p : Nat} (hp : p ∈ live) (word : UInt32) :
    Arena us (Function.update words p word) live blocks where
  divided := h.divided
  chained b hb := by
    obtain ⟨is, his⟩ := h.chained b hb
    refine ⟨is, his.frame (fun i _ hi => ?_) fun i _ hi => his.notLive i hi⟩
    apply Function.update_of_ne
    rintro rfl
    exact his.notLive i hi hp
  apart := h.apart
  live := h.live

/-! ## The loops over the blocks -/

theorem span_cons {α : Type*} {p : α → Bool} {l before behind : List α} {a : α}
    (h : l.span p = (before, a :: behind)) :
    l = before ++ a :: behind ∧ p a = false ∧ ∀ x ∈ before, p x = true := by
  rw [List.span_eq_takeWhile_dropWhile, Prod.mk.injEq] at h
  obtain ⟨rfl, hdrop⟩ := h
  refine ⟨?_, ?_, fun x hx => List.mem_takeWhile_imp hx⟩
  · rw [← hdrop, List.takeWhile_append_dropWhile]
  · have hhead := List.head_dropWhile_not p (l := l) (hdrop ▸ List.cons_ne_nil a behind)
    simpa [hdrop] using hhead

theorem span_nil {α : Type*} {p : α → Bool} {l before : List α} (h : l.span p = (before, [])) :
    ∀ x ∈ l, p x = true := by
  rw [List.span_eq_takeWhile_dropWhile, Prod.mk.injEq] at h
  exact List.dropWhile_eq_nil_iff.mp h.2

/-- The loop of `xm_mempool_free` finds the block of a unit. -/
theorem Arena.span_free (h : Arena us words live blocks) {p : Nat} (hp : p ∈ live) :
    ∃ before b behind i,
      blocks.span (fun block =>
        p < block.data || block.data + block.blockSize.toNat ≤ p) = (before, b :: behind) ∧
      blocks = before ++ b :: behind ∧ i < b.unitCount us ∧ p = b.unit us i := by
  obtain ⟨c, hc, i, hi, hunit⟩ := h.live p hp
  have hend := unit_lt (h.divided c hc) hi
  have hus := unitSize_pos hi
  have hle : c.data ≤ p := by
    rw [hunit]
    exact Nat.le_add_right _ _
  have hlt : p < c.data + c.blockSize.toNat := by omega
  generalize hspan : blocks.span (fun block =>
    p < block.data || block.data + block.blockSize.toNat ≤ p) = passed
  obtain ⟨before, _ | ⟨b, behind⟩⟩ := passed
  · have hpassed := span_nil hspan c hc
    simp only [Bool.or_eq_true, decide_eq_true_eq] at hpassed
    omega
  · obtain ⟨rfl, hfound, hbefore⟩ := span_cons hspan
    simp only [Bool.or_eq_false_iff, decide_eq_false_iff_not] at hfound
    suffices heq : c = b by
      subst heq
      exact ⟨before, c, behind, i, rfl, rfl, hi, hunit⟩
    rw [List.mem_append, List.mem_cons] at hc
    obtain hc | rfl | hc := hc
    · have hpassed := hbefore c hc
      simp only [Bool.or_eq_true, decide_eq_true_eq] at hpassed
      omega
    · rfl
    · have hrest := (List.pairwise_append.mp h.apart).2.1
      obtain hapart | hapart := (List.pairwise_cons.mp hrest).1 c hc
      · omega
      · omega

theorem unlinkBlock_of_ne_nil (hne : before ≠ []) :
    unlinkBlock before behind = some (before ++ behind) := by
  rw [unlinkBlock, if_pos]
  rw [List.getLast?_isSome]
  exact hne

/-- A block with a free unit is the root only if no block was passed before it. -/
theorem Arena.releaseBlock (h : Arena us words live (before ++ b :: behind))
    (hfree : b.freeUnitCount ≠ 0) (hroot : (before.head?.getD b).freeUnitCount ≠ 0) :
    releaseBlock before b (before.head?.getD b) behind = some (before ++ behind) := by
  rw [XMonitor.Mempool.releaseBlock]
  cases before with
  | nil => exact if_pos rfl
  | cons root before =>
      obtain ⟨hapart, -⟩ := List.pairwise_cons.mp h.apart
      obtain ⟨is, his⟩ := h.chained b (List.mem_append_right _ List.mem_cons_self)
      obtain ⟨js, hjs⟩ := h.chained root List.mem_cons_self
      have hb := his.blockSize_pos hfree
      have hr := hjs.blockSize_pos hroot
      have hne : b.data ≠ root.data := by
        obtain hle | hle := hapart b (List.mem_append_right _ List.mem_cons_self)
        · omega
        · omega
      rw [List.head?_cons, Option.getD_some, if_neg hne,
        unlinkBlock_of_ne_nil (List.cons_ne_nil root before)]

end XMonitor.Mempool
