import XMonitor.Profile.Search

/-!
# The row that the kernel program finds

A `Site` says where an address lies: in which module of the process, in which table
of that module and at which row of the table. `Site.Covers` is the meaning of the
tables. `Site.FoundAt` collects what the lookup of the kernel program needs beyond
that to arrive at the site, and the two together give its result.

The lookup of a return address is made at the address itself, while the row that
describes the frame is the one of the call before it. Both are stated for a site
that covers the call.
-/

namespace XMonitor.Profile

/-! ## The search for a row -/

theorem toNat_ofNat_rows {n : Nat} (h : n ≤ perModuleFdeRowsCount) :
    (UInt64.ofNat n).toNat = n :=
  UInt64.toNat_ofNat_of_lt' (Nat.lt_of_le_of_lt h (by decide))

theorem binarySearchDefaultResult_ne {n : Nat} (h : n ≤ perModuleFdeRowsCount) :
    binarySearchDefaultResult ≠ UInt64.ofNat n := by
  intro heq
  have hnat := congrArg UInt64.toNat heq
  rw [toNat_ofNat_rows h] at hnat
  have hn : n ≤ 46080 := h
  change 12370169555311111083 = n at hnat
  omega

section

variable {rows : Nat → FdeTableRow} {pos count : Nat} {addr : UInt64}

/-- The window in which the rows of an info are searched. -/
theorem toNat_rowWindow (hbound : pos + count ≤ perModuleFdeRowsCount) (hcount : 0 < count) :
    (UInt64.ofNat pos).toNat = pos + 0 ∧
      (UInt64.ofNat (pos + count) - 1).toNat = pos + (count - 1) := by
  have hend : (UInt64.ofNat (pos + count)).toNat = pos + count := toNat_ofNat_rows hbound
  refine ⟨toNat_ofNat_rows (Nat.le_trans (Nat.le_add_right _ _) hbound), ?_⟩
  rw [UInt64.toNat_sub_of_le, hend]
  · change pos + count - 1 = _
    omega
  · rw [UInt64.le_iff_toNat_le, hend]
    change 1 ≤ pos + count
    omega

theorem rowWindow_lt_limit (hbound : pos + count ≤ perModuleFdeRowsCount) (hcount : 0 < count) :
    UInt64.ofNat (pos + count) - 1 < UInt64.ofNat perModuleFdeRowsCount := by
  have hrows : pos + count ≤ 46080 := hbound
  rw [UInt64.lt_iff_toNat_lt, (toNat_rowWindow hbound hcount).2]
  change pos + (count - 1) < 46080
  omega

/-- A result of the row search that is not negative is the index of a hit. -/
theorem bsearchFdeTableRow_cases (rows : Nat → FdeTableRow) (addr : UInt64)
    (hbound : pos + count ≤ perModuleFdeRowsCount) (hcount : 0 < count) :
    bsearchFdeTableRow rows (UInt64.ofNat pos) (UInt64.ofNat (pos + count) - 1) addr < 0 ∨
      ∃ k, k < count ∧ (rows (pos + k)).loc ≤ addr ∧
        BoundedSearch.loop (fun mid => decide ((rows mid.toNat).loc ≤ addr))
          (UInt64.ofNat perModuleFdeRowsCount) maxFdeTableRowBinSearchDepth (UInt64.ofNat pos)
          (UInt64.ofNat (pos + count) - 1) binarySearchDefaultResult =
            some (UInt64.ofNat (pos + k)) ∧
        bsearchFdeTableRow rows (UInt64.ofNat pos) (UInt64.ofNat (pos + count) - 1) addr =
          Int32.ofNat (pos + k) := by
  have hrows : pos + count ≤ 46080 := hbound
  obtain ⟨hleft, hright⟩ := toNat_rowWindow hbound hcount
  rw [bsearchFdeTableRow]
  generalize hloop : BoundedSearch.loop _ _ _ _ _ _ = found
  cases found with
  | none => exact .inl (by decide)
  | some x =>
      obtain rfl | ⟨-, hx, hx', hhit⟩ := BoundedSearch.eq_or_hit_of_loop
        (.inl (rowWindow_lt_limit hbound hcount)) (by decide) hloop
      · exact .inl (by decide)
      · rw [UInt64.le_iff_toNat_le, hleft] at hx
        rw [UInt64.le_iff_toNat_le, hright] at hx'
        have hk : pos + (x.toNat - pos) = x.toNat := by omega
        refine .inr ⟨x.toNat - pos, by omega, ?_, ?_, ?_⟩
        · rw [hk]
          exact of_decide_eq_true hhit
        · rw [hk, UInt64.ofNat_toNat]
        · rw [hk]
          change x.toUInt32.toInt32 = _
          rw [← UInt32.toInt32_ofNat', ← UInt64.toUInt32_ofNat', UInt64.ofNat_toNat]

/-- The row search returns the last row at or below the address exactly if the bisection
arrives there. -/
theorem bsearchFdeTableRow_eq_iff (hbound : pos + count ≤ perModuleFdeRowsCount) {k : Nat}
    (hk : k < count) (hloc : (rows (pos + k)).loc ≤ addr)
    (hlast : ∀ i, i < count → (rows (pos + i)).loc ≤ addr → i ≤ k) :
    bsearchFdeTableRow rows (UInt64.ofNat pos) (UInt64.ofNat (pos + count) - 1) addr =
        Int32.ofNat (pos + k) ↔
      BoundedSearch.Arrives (fun i => (rows (pos + i)).loc ≤ addr) k
        maxFdeTableRowBinSearchDepth 0 (count - 1) := by
  have hrows : pos + count ≤ 46080 := hbound
  have hcount : 0 < count := Nat.zero_lt_of_lt hk
  obtain ⟨hleft, hright⟩ := toNat_rowWindow hbound hcount
  have hresult : binarySearchDefaultResult ≠ UInt64.ofNat (pos + k) :=
    binarySearchDefaultResult_ne (Nat.le_trans (by omega) hbound)
  have hiff := BoundedSearch.loop_eq_last_iff (fun i => decide ((rows i).loc ≤ addr))
    (by decide) (decide_eq_true hloc) maxFdeTableRowBinSearchDepth hleft hright
    (rowWindow_lt_limit hbound hcount) (Nat.zero_le k) (Nat.le_sub_one_of_lt hk) hresult
    (fun i _ hi hhit => hlast i (by omega) (of_decide_eq_true hhit))
  simp only [decide_eq_true_eq] at hiff
  rw [← hiff]
  have hint {i : Nat} (hi : i < count) : (Int32.ofNat (pos + i)).toInt = ((pos + i : Nat) : Int) :=
    Int32.toInt_ofNat_of_lt (Nat.lt_of_lt_of_le (by omega : pos + i < 46080) (by decide))
  constructor
  · intro heq
    obtain hneg | ⟨i, hi, -, hloop, hfound⟩ :=
      bsearchFdeTableRow_cases rows addr hbound hcount
    · rw [heq, Int32.lt_iff_toInt_lt, hint hk] at hneg
      change _ < (0 : Int) at hneg
      omega
    · have hik := congrArg Int32.toInt (hfound.symm.trans heq)
      rw [hint hi, hint hk] at hik
      obtain rfl : i = k := by omega
      exact hloop
  · intro hloop
    rw [bsearchFdeTableRow, hloop]
    change (UInt64.ofNat (pos + k)).toUInt32.toInt32 = _
    rw [UInt64.toUInt32_ofNat', UInt32.toInt32_ofNat']

end

/-- Eight halvings are enough for fewer than 256 rows. -/
theorem bsearchFdeTableRow_eq {rows : Nat → FdeTableRow} {pos count k : Nat} {addr : UInt64}
    (hbound : pos + count ≤ perModuleFdeRowsCount) (hcount : count < 256) (hk : k < count)
    (hsorted : ∀ i j, i ≤ j → j < count → (rows (pos + i)).loc ≤ (rows (pos + j)).loc)
    (hloc : (rows (pos + k)).loc ≤ addr)
    (hlast : ∀ i, i < count → (rows (pos + i)).loc ≤ addr → i ≤ k) :
    bsearchFdeTableRow rows (UInt64.ofNat pos) (UInt64.ofNat (pos + count) - 1) addr =
      Int32.ofNat (pos + k) := by
  rw [bsearchFdeTableRow_eq_iff hbound hk hloc hlast]
  apply BoundedSearch.arrives_of_lt_two_pow
  · change count - 1 + 1 - 0 < 256
    omega
  · exact Nat.zero_le k
  · omega
  · exact fun i _ hi => UInt64.le_trans (hsorted i k (Nat.le_of_lt hi) hk) hloc

theorem findRowOfInfo_eq {t : ModuleFdeTables} {info : FdeTableInfo} {k : Nat} {addr : UInt64}
    (hbound : info.rowPos + info.rowCount ≤ perModuleFdeRowsCount) (hcount : info.rowCount < 256)
    (hk : k < info.rowCount)
    (hsorted : ∀ i j, i ≤ j → j < info.rowCount →
      (t.fdeRows (info.rowPos + i)).loc ≤ (t.fdeRows (info.rowPos + j)).loc)
    (hloc : (t.fdeRows (info.rowPos + k)).loc ≤ addr)
    (hlast : ∀ i, i < info.rowCount → (t.fdeRows (info.rowPos + i)).loc ≤ addr → i ≤ k) :
    findRowOfInfo t info addr = some (t.fdeRows (info.rowPos + k)) := by
  have hrows : info.rowPos + info.rowCount ≤ 46080 := hbound
  have hpos : (Int32.ofNat (info.rowPos + k)).toInt = ((info.rowPos + k : Nat) : Int) :=
    Int32.toInt_ofNat_of_lt (Nat.lt_of_lt_of_le (by omega : info.rowPos + k < 46080) (by decide))
  have hrange : 0 ≤ Int32.ofNat (info.rowPos + k) ∧
      Int32.ofNat (info.rowPos + k) < Int32.ofNat perModuleFdeRowsCount := by
    rw [Int32.le_iff_toInt_le, Int32.lt_iff_toInt_lt, hpos]
    change (0 : Int) ≤ _ ∧ _ < (46080 : Int)
    omega
  rw [findRowOfInfo, if_pos hbound,
    bsearchFdeTableRow_eq hbound hcount hk hsorted hloc hlast]
  simp only [if_pos hrange, hpos, Int.toNat_natCast]

/-! ## Sites -/

/-- A module of the process, a table of its module and a row of the table. -/
structure Site where
  slot : Nat
  tables : ModuleFdeTables
  info : Nat
  row : Nat

namespace Site

def fdeInfo (s : Site) : FdeTableInfo := s.tables.fdeInfos s.info

/-- The location of the `k`-th row of the table. -/
def loc (s : Site) (k : Nat) : UInt64 := (s.tables.fdeRows (s.fdeInfo.rowPos + k)).loc

def fdeRow (s : Site) : FdeTableRow := s.tables.fdeRows (s.fdeInfo.rowPos + s.row)

/-- `pc` lies in the module and in the FDE, and the row is the one of `pc`. -/
structure Covers (fdeTables : UInt64 → Option ModuleFdeTables) (pidMaps : PidMaps) (s : Site)
    (pc : UInt64) : Prop where
  slot : s.slot < perProcessAssocModuleCount
  module : (pidMaps.modules s.slot).startAddr ≤ pc ∧ pc < (pidMaps.modules s.slot).endAddr
  tables : fdeTables (pidMaps.modules s.slot).buildIdHash = some s.tables
  info : s.info < s.tables.fdeTableCount
  range : s.fdeInfo.start ≤ (pidMaps.modules s.slot).address pc ∧
    (pidMaps.modules s.slot).address pc < s.fdeInfo.end_
  row : s.row < s.fdeInfo.rowCount
  loc : s.loc s.row ≤ (pidMaps.modules s.slot).address pc
  last : ∀ k, k < s.fdeInfo.rowCount →
    s.loc k ≤ (pidMaps.modules s.slot).address pc → k ≤ s.row

/-- Nothing leads the lookup of `pc` away from the site: no module in an earlier slot
reaches `pc`, end address included; the tables are few enough to be searched; and
neither a later table nor a later row starts at or below the address of `pc`. -/
structure FoundAt (pidMaps : PidMaps) (s : Site) (pc : UInt64) : Prop where
  first : ∀ slot, slot < s.slot → ¬ ((pidMaps.modules slot).startAddr ≤ pc ∧
    pc ≤ (pidMaps.modules slot).endAddr)
  tables : s.tables.fdeTableCount < perModuleFdeTableCount
  rows : s.fdeInfo.rowCount < 256
  info : ∀ j, j < s.tables.fdeTableCount →
    (s.tables.fdeInfos j).start ≤ (pidMaps.modules s.slot).address pc → j ≤ s.info
  row : ∀ k, k < s.fdeInfo.rowCount →
    s.loc k ≤ (pidMaps.modules s.slot).address pc → k ≤ s.row

end Site

section

variable {fdeTables : UInt64 → Option ModuleFdeTables} {pidMaps : PidMaps}

theorem findModuleInMaps_eq {slot : Nat} {pc : UInt64} (hslot : slot < perProcessAssocModuleCount)
    (hin : (pidMaps.modules slot).startAddr ≤ pc ∧ pc ≤ (pidMaps.modules slot).endAddr)
    (hfirst : ∀ slot', slot' < slot → ¬ ((pidMaps.modules slot').startAddr ≤ pc ∧
      pc ≤ (pidMaps.modules slot').endAddr)) :
    findModuleInMaps pidMaps pc = some (pidMaps.modules slot) := by
  rw [findModuleInMaps, List.find?_eq_some_iff_getElem]
  refine ⟨by simpa using hin, slot, by simpa using hslot, by simp, fun j hj => ?_⟩
  simpa [imp_iff_not_or] using hfirst j hj

/-- The lookup of an address from which the covered address is not far away. -/
theorem findFdeTableRowByPc_eq {s : Site} {pc pc' : UInt64} (hinv : s.tables.Invariant)
    (hrows : s.tables.RowsIncreasing) (hcovers : s.Covers fdeTables pidMaps pc)
    (hfound : s.FoundAt pidMaps pc')
    (hend : pc' ≤ (pidMaps.modules s.slot).endAddr) (hle : pc ≤ pc') :
    findFdeTableRowByPc fdeTables pidMaps pc' = some s.fdeRow := by
  have hmodule := findModuleInMaps_eq hcovers.slot
    ⟨UInt64.le_trans hcovers.module.1 hle, hend⟩ hfound.first
  have haddr : (pidMaps.modules s.slot).address pc ≤
      (pidMaps.modules s.slot).address pc' := by
    rw [ProcMapsModule.address, ProcMapsModule.address]
    split
    · have hstart := hcovers.module.1
      rw [UInt64.le_iff_toNat_le, UInt64.toNat_sub_of_le _ _ hstart,
        UInt64.toNat_sub_of_le _ _ (UInt64.le_trans hstart hle)]
      have : pc.toNat ≤ pc'.toNat := hle
      omega
    · exact hle
  have hinfo : IsLastStart s.tables ((pidMaps.modules s.slot).address pc') s.info :=
    ⟨hcovers.info, UInt64.le_trans hcovers.range.1 haddr, hfound.info⟩
  have hsorted (i j : Nat) (hij : i ≤ j) (hj : j < s.fdeInfo.rowCount) : s.loc i ≤ s.loc j := by
    obtain hlt | rfl := Nat.lt_or_eq_of_le hij
    · exact UInt64.le_of_lt (hrows s.info hcovers.info i j hlt hj)
    · exact UInt64.le_refl _
  have hrow := findRowOfInfo_eq (hinv.bound s.info hcovers.info) hfound.rows hcovers.row hsorted
    (UInt64.le_trans hcovers.loc haddr) hfound.row
  simp only [findFdeTableRowByPc, hmodule, hcovers.tables, Option.bind_eq_bind, Option.bind_some,
    findFdeTableInfoInModule_of_isLastStart hinv hfound.tables hinfo]
  exact hrow

end

end XMonitor.Profile
