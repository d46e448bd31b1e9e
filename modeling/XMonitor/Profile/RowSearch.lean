import Mathlib.Order.Basic
import XMonitor.Profile.Lookup

/-!
# Tables with many rows

The kernel program halves the rows of a table at most eight times, the exporter limits only
the rows of a whole module. A search that is cut off does not fail: it returns the best row
it has seen so far. Here its answer is compared with that of a linear scan.
-/

namespace XMonitor.Profile

/-- The last row of the info whose location is at or below the address. -/
def linearScan (t : ModuleFdeTables) (info : FdeTableInfo) (a : UInt64) : Nat :=
  Nat.findGreatest (fun k => (t.fdeRows (info.rowPos + k)).loc ≤ a) (info.rowCount - 1)

/-- The rows of the info as `__find_fde_table_row_by_pc` has them searched. -/
def searchRows (t : ModuleFdeTables) (info : FdeTableInfo) (a : UInt64) : Int32 :=
  bsearchFdeTableRow t.fdeRows (.ofNat info.rowPos) (.ofNat (info.rowPos + info.rowCount) - 1) a

/-- Halving the rows for the row of the linear scan takes at most eight steps, and no row
on the way before it starts behind the address. -/
def ScanReached (t : ModuleFdeTables) (info : FdeTableInfo) (a : UInt64) : Prop :=
  BoundedSearch.Arrives (fun k => (t.fdeRows (info.rowPos + k)).loc ≤ a) (linearScan t info a)
    maxFdeTableRowBinSearchDepth 0 (info.rowCount - 1)

section

variable {t : ModuleFdeTables} {i : Nat} {a : UInt64}

theorem searchRows_eq_iff (hinv : t.Invariant) (hi : i < t.fdeTableCount)
    (hstart : (t.fdeInfos i).start ≤ a) :
    searchRows t (t.fdeInfos i) a =
        .ofNat ((t.fdeInfos i).rowPos + linearScan t (t.fdeInfos i) a) ↔
      ScanReached t (t.fdeInfos i) a := by
  have hpos := hinv.nonempty i hi
  have hle : linearScan t (t.fdeInfos i) a ≤ (t.fdeInfos i).rowCount - 1 := Nat.findGreatest_le _
  apply bsearchFdeTableRow_eq_iff (hinv.bound i hi)
  · omega
  · -- the first row starts where the table starts
    apply Nat.findGreatest_spec (P := fun k => (t.fdeRows ((t.fdeInfos i).rowPos + k)).loc ≤ a)
      (Nat.zero_le _)
    rw [Nat.add_zero, hinv.first i hi]
    exact hstart
  · exact fun k hk hloc => Nat.le_findGreatest (by omega) hloc

/-- Increasing rows are found as long as there are at most 255 of them. -/
theorem scanReached_of_increasing (hinv : t.Invariant) (hrows : t.RowsIncreasing)
    (hi : i < t.fdeTableCount) (hstart : (t.fdeInfos i).start ≤ a)
    (hcount : (t.fdeInfos i).rowCount < 256) : ScanReached t (t.fdeInfos i) a := by
  have hpos := hinv.nonempty i hi
  have hle : linearScan t (t.fdeInfos i) a ≤ (t.fdeInfos i).rowCount - 1 := Nat.findGreatest_le _
  have hscan : (t.fdeRows ((t.fdeInfos i).rowPos + linearScan t (t.fdeInfos i) a)).loc ≤ a := by
    apply Nat.findGreatest_spec (P := fun k => (t.fdeRows ((t.fdeInfos i).rowPos + k)).loc ≤ a)
      (Nat.zero_le _)
    rw [Nat.add_zero, hinv.first i hi]
    exact hstart
  apply BoundedSearch.arrives_of_lt_two_pow
  · change (t.fdeInfos i).rowCount - 1 + 1 - 0 < 256
    omega
  · exact Nat.zero_le _
  · exact hle
  · exact fun k _ hk => UInt64.le_trans (UInt64.le_of_lt (hrows i hi k _ hk (by omega))) hscan

end

/-- For an address of a committed table the search agrees with the linear scan exactly if it
gets there. -/
theorem searchRows_eq_linearScan_iff (S : SortFunc Frame.startLess) (order : Frame.ByteOrder)
    (fdes : List Frame.FrameDescriptionEntry) (t : ModuleFdeTables)
    (h : Frame.createModuleFDETables S order fdes = .ok t) (i : Nat) (hi : i < t.fdeTableCount)
    (a : UInt64) (hstart : (t.fdeInfos i).start ≤ a) :
    searchRows t (t.fdeInfos i) a =
        .ofNat ((t.fdeInfos i).rowPos + linearScan t (t.fdeInfos i) a) ↔
      ScanReached t (t.fdeInfos i) a :=
  searchRows_eq_iff (Frame.createModuleFDETables_invariant h) hi hstart

/-! A function with a row for each of its addresses. -/

/-- A table of `n + 1` rows from `0x1000` on. -/
structure Stepping (t : ModuleFdeTables) (i n : Nat) : Prop where
  slot : i < t.fdeTableCount
  start : (t.fdeInfos i).start = 0x1000
  end_ : (t.fdeInfos i).end_ = 0x1000 + .ofNat (n + 1)
  count : (t.fdeInfos i).rowCount = n + 1
  loc : ∀ k, k ≤ n → (t.fdeRows ((t.fdeInfos i).rowPos + k)).loc = 0x1000 + .ofNat k

theorem exists_stepping {n : Nat} (hn : n < perModuleFdeRowsCount) :
    ∃ t i, Frame.createModuleFDETables Frame.stableSort .littleEndian
        [Frame.steppingFDE 0x1000 n] = .ok t ∧ Stepping t i n := by
  have hrun := Frame.fdeRows_steppingFDE .littleEndian 0x1000 n
  obtain ⟨t, info, ht, hc⟩ := Frame.createModuleFDETables_single Frame.stableSort hrun
    (by
      intro r hr
      obtain ⟨k, -, rfl⟩ := List.mem_map.mp hr
      rfl)
    (by
      rw [List.length_map, List.length_range]
      exact hn)
  obtain ⟨⟨i, hi, rfl⟩, rows, hrows, hshape, hstored, -⟩ := hc.finished ht
  cases hrun.symm.trans hrows
  have hcount : (t.fdeInfos i).rowCount = n + 1 := by
    rw [hshape]
    simp [Frame.infoOf]
  refine ⟨t, i, ht, hi, by rw [hshape]; rfl, by rw [hshape]; rfl, hcount, fun k hk => ?_⟩
  have hlength : k < (t.rowsOf (t.fdeInfos i)).length := by
    rw [ModuleFdeTables.length_rowsOf]
    omega
  rw [← ModuleFdeTables.getElem_rowsOf t (t.fdeInfos i) k hlength]
  simp only [hstored, List.getElem_map, List.getElem_range]
  rfl

theorem toNat_steppingLoc {k : Nat} (hk : k < perModuleFdeRowsCount) :
    (0x1000 + UInt64.ofNat k : UInt64).toNat = 0x1000 + k := by
  have hk : k < 46080 := hk
  rw [UInt64.toNat_add, toNat_ofNat_rows (Nat.le_of_lt hk)]
  change (4096 + k) % 18446744073709551616 = _
  omega

section

variable {t : ModuleFdeTables} {i n k : Nat}

theorem Stepping.loc_le_iff (h : Stepping t i n) (hn : n < perModuleFdeRowsCount) {j : Nat}
    (hj : j ≤ n) (hk : k ≤ n) :
    (t.fdeRows ((t.fdeInfos i).rowPos + j)).loc ≤ 0x1000 + .ofNat k ↔ j ≤ k := by
  rw [h.loc j hj, UInt64.le_iff_toNat_le, toNat_steppingLoc (Nat.lt_of_le_of_lt hj hn),
    toNat_steppingLoc (Nat.lt_of_le_of_lt hk hn), Nat.add_le_add_iff_left]

theorem Stepping.linearScan_eq (h : Stepping t i n) (hn : n < perModuleFdeRowsCount)
    (hk : k ≤ n) : linearScan t (t.fdeInfos i) (0x1000 + .ofNat k) = k := by
  have hcount : (t.fdeInfos i).rowCount - 1 = n := by
    rw [h.count, Nat.add_sub_cancel]
  rw [linearScan, hcount]
  apply Nat.le_antisymm
  · rw [← h.loc_le_iff hn (Nat.findGreatest_le n) hk]
    exact Nat.findGreatest_spec
      (P := fun j => (t.fdeRows ((t.fdeInfos i).rowPos + j)).loc ≤ 0x1000 + .ofNat k)
      (Nat.zero_le n) ((h.loc_le_iff hn (Nat.zero_le n) hk).mpr (Nat.zero_le k))
  · exact Nat.le_findGreatest hk ((h.loc_le_iff hn hk hk).mpr (Nat.le_refl k))

theorem Stepping.scanReached_iff (h : Stepping t i n) (hn : n < perModuleFdeRowsCount)
    (hk : k ≤ n) : ScanReached t (t.fdeInfos i) (0x1000 + .ofNat k) ↔
      k ∈ BoundedSearch.towards k maxFdeTableRowBinSearchDepth 0 n := by
  have hcount : (t.fdeInfos i).rowCount - 1 = n := by
    rw [h.count, Nat.add_sub_cancel]
  rw [ScanReached, h.linearScan_eq hn hk, hcount, BoundedSearch.Arrives]
  exact and_iff_left fun m _ hm =>
    (h.loc_le_iff hn (by omega) hk).mpr (Nat.le_of_lt hm)

end

/-- With three rows the search finds the one of the second address. -/
theorem searchRows_three_rows : ∃ t i, Frame.createModuleFDETables Frame.stableSort
      .littleEndian [Frame.steppingFDE 0x1000 2] = .ok t ∧ i < t.fdeTableCount ∧
    (t.fdeInfos i).start ≤ 0x1001 ∧
    searchRows t (t.fdeInfos i) 0x1001 =
      .ofNat ((t.fdeInfos i).rowPos + linearScan t (t.fdeInfos i) 0x1001) := by
  obtain ⟨t, i, ht, hstep⟩ := exists_stepping (n := 2) (by decide)
  have hstart : (t.fdeInfos i).start ≤ 0x1001 := by
    rw [hstep.start]
    decide
  have hreached : ScanReached t (t.fdeInfos i) 0x1001 :=
    (hstep.scanReached_iff (k := 1) (by decide) (by decide)).mpr (by decide)
  exact ⟨t, i, ht, hstep.slot, hstart, (searchRows_eq_linearScan_iff Frame.stableSort
    .littleEndian _ t ht i hstep.slot 0x1001 hstart).mpr hreached⟩

/-- With 256 rows it does not get to the last one. -/
theorem searchRows_stale_row : ¬ ∀ S order fdes t, Frame.createModuleFDETables S order fdes =
    .ok t → ∀ i, i < t.fdeTableCount → ∀ a, (t.fdeInfos i).start ≤ a → a < (t.fdeInfos i).end_ →
      searchRows t (t.fdeInfos i) a =
        .ofNat ((t.fdeInfos i).rowPos + linearScan t (t.fdeInfos i) a) := by
  intro hclaim
  obtain ⟨t, i, ht, hstep⟩ := exists_stepping (n := 255) (by decide)
  have hstart : (t.fdeInfos i).start ≤ 0x1000 + .ofNat 255 := by
    rw [hstep.start]
    decide
  have hend : 0x1000 + .ofNat 255 < (t.fdeInfos i).end_ := by
    rw [hstep.end_]
    decide
  have hfound := hclaim _ _ _ t ht i hstep.slot _ hstart hend
  rw [searchRows_eq_iff (Frame.createModuleFDETables_invariant ht) hstep.slot hstart,
    hstep.scanReached_iff (by decide) (Nat.le_refl 255)] at hfound
  exact absurd hfound (by decide)

end XMonitor.Profile
