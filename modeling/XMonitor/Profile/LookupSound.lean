import XMonitor.Profile.Chain
import XMonitor.Profile.RowSearch

/-!
# What a found row belongs to

The lookup finds the table of an address by the start addresses alone: the last table that
starts at or below it. Whether the address is still inside that table is never compared with
its end. So the row that is found belongs to the address exactly if the address is below the
end of that table.
-/

namespace XMonitor.Profile

/-- `findRowOfInfo`, as the index of the row it points to. -/
def findRowPosOfInfo (moduleFdeTables : ModuleFdeTables) (info : FdeTableInfo) (addr : UInt64) :
    Option Nat :=
  if info.rowPos + info.rowCount ≤ perModuleFdeRowsCount then
    let findRowPos := searchRows moduleFdeTables info addr
    if 0 ≤ findRowPos ∧ findRowPos < Int32.ofNat perModuleFdeRowsCount then
      some findRowPos.toInt.toNat
    else none
  else none

/-- `__find_fde_table_row_by_pc`, as the tables and the index of the row it points to. -/
def findFdeTableRowPosByPc (fdeTables : UInt64 → Option ModuleFdeTables) (pidMaps : PidMaps)
    (pc : UInt64) : Option (ModuleFdeTables × Nat) := do
  let module ← findModuleInMaps pidMaps pc
  let addr := module.address pc
  let moduleFdeTables ← fdeTables module.buildIdHash
  let pos ← findFdeTableInfoInModule moduleFdeTables addr
  let rowPos ← findRowPosOfInfo moduleFdeTables (moduleFdeTables.fdeInfos pos) addr
  return (moduleFdeTables, rowPos)

theorem findRowOfInfo_eq_map (t : ModuleFdeTables) (info : FdeTableInfo) (addr : UInt64) :
    findRowOfInfo t info addr = (findRowPosOfInfo t info addr).map t.fdeRows := by
  rw [findRowOfInfo, findRowPosOfInfo]
  by_cases hbound : info.rowPos + info.rowCount ≤ perModuleFdeRowsCount
  · rw [if_pos hbound, if_pos hbound]
    by_cases hrow : 0 ≤ searchRows t info addr ∧
        searchRows t info addr < Int32.ofNat perModuleFdeRowsCount
    · rw [if_pos hrow]
      exact if_pos hrow
    · rw [if_neg hrow]
      exact if_neg hrow
  · rw [if_neg hbound, if_neg hbound]
    rfl

/-- The row that is returned is the one at that index. -/
theorem findFdeTableRowByPc_eq_map (fdeTables : UInt64 → Option ModuleFdeTables)
    (pidMaps : PidMaps) (pc : UInt64) :
    findFdeTableRowByPc fdeTables pidMaps pc =
      (findFdeTableRowPosByPc fdeTables pidMaps pc).map fun found => found.1.fdeRows found.2 := by
  rw [findFdeTableRowByPc, findFdeTableRowPosByPc]
  cases findModuleInMaps pidMaps pc with
  | none => rfl
  | some module =>
      simp only [Option.bind_eq_bind, Option.bind_some]
      cases fdeTables module.buildIdHash with
      | none => rfl
      | some t =>
          simp only [Option.bind_some]
          cases findFdeTableInfoInModule t (module.address pc) with
          | none => rfl
          | some pos =>
              simp only [Option.bind_some, findRowOfInfo_eq_map]
              cases findRowPosOfInfo t (t.fdeInfos pos) (module.address pc) <;> rfl

/-- The row at the index belongs to a table whose range contains the address. -/
def RowCovers (t : ModuleFdeTables) (pos : Nat) (addr : UInt64) : Prop :=
  ∃ i, i < t.fdeTableCount ∧ (t.fdeInfos i).start ≤ addr ∧ addr < (t.fdeInfos i).end_ ∧
    (t.fdeInfos i).rowPos ≤ pos ∧ pos < (t.fdeInfos i).rowPos + (t.fdeInfos i).rowCount

/-- Whatever the lookup finds belongs to the address of the `pc`. -/
def LookupSound (fdeTables : UInt64 → Option ModuleFdeTables) (pidMaps : PidMaps)
    (pc : UInt64) : Prop :=
  ∀ module t pos, findModuleInMaps pidMaps pc = some module →
    findFdeTableRowPosByPc fdeTables pidMaps pc = some (t, pos) →
      RowCovers t pos (module.address pc)

/-- One of the rows at which the search looks as long as it only goes down starts at or
below the address. -/
def SearchHits (t : ModuleFdeTables) (info : FdeTableInfo) (addr : UInt64) : Prop :=
  ∃ k ∈ BoundedSearch.towards 0 maxFdeTableRowBinSearchDepth 0 (info.rowCount - 1),
    (t.fdeRows (info.rowPos + k)).loc ≤ addr

section

variable {t : ModuleFdeTables} {i : Nat} {addr : UInt64}

theorem toInt_ofNat_rowPos {pos : Nat} (h : pos < perModuleFdeRowsCount) :
    (Int32.ofNat pos).toInt = (pos : Int) :=
  Int32.toInt_ofNat_of_lt (Nat.lt_trans h (by decide))

theorem exists_row_of_nonneg (hinv : t.Invariant) (hi : i < t.fdeTableCount)
    (h : 0 ≤ searchRows t (t.fdeInfos i) addr) :
    ∃ k, k < (t.fdeInfos i).rowCount ∧
      (searchRows t (t.fdeInfos i) addr).toInt = (((t.fdeInfos i).rowPos + k : Nat) : Int) ∧
      BoundedSearch.loop (fun mid => decide ((t.fdeRows mid.toNat).loc ≤ addr))
        (UInt64.ofNat perModuleFdeRowsCount) maxFdeTableRowBinSearchDepth
        (UInt64.ofNat (t.fdeInfos i).rowPos)
        (UInt64.ofNat ((t.fdeInfos i).rowPos + (t.fdeInfos i).rowCount) - 1)
        binarySearchDefaultResult = some (UInt64.ofNat ((t.fdeInfos i).rowPos + k)) := by
  have hbound := hinv.bound i hi
  obtain hneg | ⟨k, hk, -, hloop, hfound⟩ :=
    bsearchFdeTableRow_cases t.fdeRows addr hbound (hinv.nonempty i hi)
  · rw [Int32.lt_iff_toInt_lt] at hneg
    rw [Int32.le_iff_toInt_le] at h
    exact absurd hneg (Int.not_lt.mpr h)
  · refine ⟨k, hk, ?_, hloop⟩
    have hpos := Nat.lt_of_lt_of_le (Nat.add_lt_add_left hk _) hbound
    rw [searchRows, hfound, toInt_ofNat_rowPos hpos]

/-- The row search finds something exactly if it hits while it goes down. -/
theorem searchRows_nonneg_iff (hinv : t.Invariant) (hi : i < t.fdeTableCount) :
    0 ≤ searchRows t (t.fdeInfos i) addr ↔ SearchHits t (t.fdeInfos i) addr := by
  have hbound := hinv.bound i hi
  have hcount : 0 < (t.fdeInfos i).rowCount := hinv.nonempty i hi
  have hrows : (t.fdeInfos i).rowPos + (t.fdeInfos i).rowCount ≤ 46080 := hbound
  obtain ⟨hleft, hright⟩ := toNat_rowWindow hbound hcount
  have hfinds := BoundedSearch.exists_loop_eq_iff (fun k => decide ((t.fdeRows k).loc ≤ addr))
    (p := (t.fdeInfos i).rowPos) (by decide) maxFdeTableRowBinSearchDepth hleft hright
    (rowWindow_lt_limit hbound hcount) (Nat.zero_le _)
    (fun k _ hk => binarySearchDefaultResult_ne (n := (t.fdeInfos i).rowPos + k) (by omega))
  simp only [decide_eq_true_eq] at hfinds
  rw [SearchHits, ← hfinds]
  constructor
  · intro hnonneg
    obtain ⟨k, hk, -, hloop⟩ := exists_row_of_nonneg hinv hi hnonneg
    exact ⟨k, Nat.zero_le k, by omega, hloop⟩
  · rintro ⟨k, -, hk, hloop⟩
    have hpos : (t.fdeInfos i).rowPos + k < perModuleFdeRowsCount := by omega
    have hfound : searchRows t (t.fdeInfos i) addr = .ofNat ((t.fdeInfos i).rowPos + k) := by
      rw [searchRows, bsearchFdeTableRow, hloop]
      change (UInt64.ofNat ((t.fdeInfos i).rowPos + k)).toUInt32.toInt32 = _
      rw [UInt64.toUInt32_ofNat', UInt32.toInt32_ofNat']
    rw [hfound, Int32.le_iff_toInt_le, toInt_ofNat_rowPos hpos]
    exact Int.natCast_nonneg _

theorem findRowPosOfInfo_eq_some (hinv : t.Invariant) (hi : i < t.fdeTableCount) {pos : Nat}
    (h : findRowPosOfInfo t (t.fdeInfos i) addr = some pos) :
    SearchHits t (t.fdeInfos i) addr ∧ (t.fdeInfos i).rowPos ≤ pos ∧
      pos < (t.fdeInfos i).rowPos + (t.fdeInfos i).rowCount := by
  simp only [findRowPosOfInfo, if_pos (hinv.bound i hi)] at h
  obtain ⟨⟨hnonneg, -⟩, hpos⟩ := Option.ite_none_right_eq_some.mp h
  refine ⟨(searchRows_nonneg_iff hinv hi).mp hnonneg, ?_⟩
  obtain ⟨k, hk, hrow, -⟩ := exists_row_of_nonneg hinv hi hnonneg
  rw [hrow, Int.toNat_natCast, Option.some.injEq] at hpos
  omega

theorem exists_rowPos_of_searchHits (hinv : t.Invariant) (hi : i < t.fdeTableCount)
    (h : SearchHits t (t.fdeInfos i) addr) :
    ∃ pos, findRowPosOfInfo t (t.fdeInfos i) addr = some pos := by
  have hbound := hinv.bound i hi
  have hrows : (t.fdeInfos i).rowPos + (t.fdeInfos i).rowCount ≤ 46080 := hbound
  have hnonneg := (searchRows_nonneg_iff hinv hi).mpr h
  refine ⟨(searchRows t (t.fdeInfos i) addr).toInt.toNat, ?_⟩
  simp only [findRowPosOfInfo, if_pos hbound]
  obtain ⟨k, hk, hrow, -⟩ := exists_row_of_nonneg hinv hi hnonneg
  refine if_pos ⟨hnonneg, ?_⟩
  rw [Int32.lt_iff_toInt_lt, hrow]
  change _ < (46080 : Int)
  omega

end

/-- The tables of the modules are such that the lookup of the `pc` is sound: if it gets as
far as the rows of a table, the address is below the end of the table. -/
def BelowEnd (fdeTables : UInt64 → Option ModuleFdeTables) (pidMaps : PidMaps)
    (pc : UInt64) : Prop :=
  ∀ module t i, findModuleInMaps pidMaps pc = some module →
    fdeTables module.buildIdHash = some t → t.fdeTableCount < perModuleFdeTableCount →
    IsLastStart t (module.address pc) i → SearchHits t (t.fdeInfos i) (module.address pc) →
      module.address pc < (t.fdeInfos i).end_

section

variable {fdeTables : UInt64 → Option ModuleFdeTables} {pidMaps : PidMaps} {pc : UInt64}

/-- The search for the table, for every number of tables. -/
theorem findFdeTableInfoInModule_iff {t : ModuleFdeTables} {addr : UInt64} {i : Nat}
    (hinv : t.Invariant) : findFdeTableInfoInModule t addr = some i ↔
      t.fdeTableCount < perModuleFdeTableCount ∧ IsLastStart t addr i := by
  by_cases hcount : t.fdeTableCount < perModuleFdeTableCount
  · rw [and_iff_right hcount]
    obtain hzero | hpos := Nat.eq_zero_or_pos t.fdeTableCount
    · -- the index of the last table has wrapped, and is out of bounds
      refine iff_of_false ?_ fun h => ?_
      · rw [findFdeTableInfoInModule, if_pos hcount, hzero]
        exact (Option.some_ne_none i).symm
      · have hi := h.1
        omega
    · exact findFdeTableInfoInModule_eq_some hinv hpos hcount
  · rw [findFdeTableInfoInModule, if_neg hcount]
    exact iff_of_false (Option.some_ne_none i).symm fun h => hcount h.1

theorem findFdeTableRowPosByPc_eq_some {t : ModuleFdeTables} {pos : Nat}
    {module : ProcMapsModule} (hmodule : findModuleInMaps pidMaps pc = some module) :
    findFdeTableRowPosByPc fdeTables pidMaps pc = some (t, pos) ↔
      fdeTables module.buildIdHash = some t ∧
        ∃ i, findFdeTableInfoInModule t (module.address pc) = some i ∧
          findRowPosOfInfo t (t.fdeInfos i) (module.address pc) = some pos := by
  simp only [findFdeTableRowPosByPc, hmodule, Option.bind_eq_bind, Option.bind_some,
    Option.bind_eq_some_iff, Option.pure_def, Option.some.injEq, Prod.mk.injEq]
  constructor
  · rintro ⟨t', ht, i, hi, pos', hpos, rfl, rfl⟩
    exact ⟨ht, i, hi, hpos⟩
  · rintro ⟨ht, i, hi, hpos⟩
    exact ⟨t, ht, i, hi, pos, hpos, rfl, rfl⟩

end

theorem lookupSound_iff (fdeTables : UInt64 → Option ModuleFdeTables) (pidMaps : PidMaps)
    (pc : UInt64) (hinv : ∀ hash t, fdeTables hash = some t → t.Invariant) :
    LookupSound fdeTables pidMaps pc ↔ BelowEnd fdeTables pidMaps pc := by
  constructor
  · intro hsound module t i hmodule ht hcount hlast hhits
    have hi := hlast.1
    obtain ⟨pos, hpos⟩ := exists_rowPos_of_searchHits (hinv _ t ht) hi hhits
    have hfound := (findFdeTableRowPosByPc_eq_some hmodule).mpr
      ⟨ht, i, (findFdeTableInfoInModule_iff (hinv _ t ht)).mpr ⟨hcount, hlast⟩, hpos⟩
    obtain ⟨j, hj, -, hend, hlow, hhigh⟩ := hsound module t pos hmodule hfound
    obtain ⟨-, hlow', hhigh'⟩ := findRowPosOfInfo_eq_some (hinv _ t ht) hi hpos
    -- the row is in the block of one table only
    obtain rfl : i = j := by
      by_contra hne
      have hdisjoint := (hinv _ t ht).disjoint i j hi hj hne
      omega
    exact hend
  · intro hbelow module t pos hmodule hfound
    obtain ⟨ht, i, hinfo, hpos⟩ := (findFdeTableRowPosByPc_eq_some hmodule).mp hfound
    obtain ⟨hcount, hlast⟩ := (findFdeTableInfoInModule_iff (hinv _ t ht)).mp hinfo
    obtain ⟨hhits, hlow, hhigh⟩ := findRowPosOfInfo_eq_some (hinv _ t ht) hlast.1 hpos
    exact ⟨i, hlast.1, hlast.2.1, hbelow module t i hmodule ht hcount hlast hhits, hlow, hhigh⟩

/-! Three functions side by side, in a module that goes on behind them. -/

theorem chainEnv_invariant (hash : UInt64) (t : ModuleFdeTables)
    (h : (chainEnv 0).moduleFdetablesMap hash = some t) : t.Invariant :=
  (chainEnv_tables 0 hash t h).1

/-- The address in the last function. -/
theorem chain_lookup_sound : LookupSound (chainEnv 0).moduleFdetablesMap chainMaps 0x1024 := by
  refine (lookupSound_iff _ _ _ chainEnv_invariant).mpr ?_
  intro module t i hmodule ht _ hlast _
  have hfound : findModuleInMaps chainMaps 0x1024 = some (chainMaps.modules 0) := rfl
  cases hfound.symm.trans hmodule
  cases (rfl : (chainEnv 0).moduleFdetablesMap 5 = some chainTables).symm.trans ht
  have hi : i < 3 := hlast.1
  have htwo : 2 ≤ i := hlast.2.2 2 (by decide) (by decide)
  obtain rfl : i = 2 := by omega
  decide

/-- Behind the last function the lookup finds its row. -/
theorem gap_lookup_unsound : ¬ ∀ fdeTables pidMaps pc,
    (∀ hash t, fdeTables hash = some t → t.Invariant) → LookupSound fdeTables pidMaps pc := by
  intro hclaim
  have hfound : findFdeTableRowPosByPc (chainEnv 0).moduleFdetablesMap chainMaps 0x1040 =
      some (chainTables, 2) := rfl
  obtain ⟨i, hi, -, hend, -⟩ := hclaim _ chainMaps 0x1040 chainEnv_invariant _ _ _ rfl hfound
  have hends : ∀ i, i < 3 → ¬ 0x1040 < (chainTables.fdeInfos i).end_ := by decide
  exact hends i hi hend

end XMonitor.Profile
