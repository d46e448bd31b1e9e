import XMonitor.Lib.BoundedSearch
import XMonitor.Frame.TableInvariant

/-!
# Finding the row of an address

The lookup of the kernel program: the module of a `pc` in the maps of the process,
the FDE table of the address in the module, and the row of the address in that
table. Both binary searches run a fixed number of iterations on unsigned indices,
so how large a table they can search is a property of these numbers.

The exporter is the producer of the tables. Its limit on the number of FDEs of a
module is the length of the array, while the kernel program searches a module only
when its counter is below that length.
-/

namespace XMonitor

/-- The address of `pc` in the tables of its module. -/
def ProcMapsModule.address (module : ProcMapsModule) (pc : UInt64) : UInt64 :=
  if module.type = .so then pc - module.startAddr else pc

namespace Profile

/-- `MAX_FDE_TABLE_ROW_BIN_SEARCH_DEPTH`. -/
def maxFdeTableRowBinSearchDepth : Nat := 8

/-- `MAX_MODULE_FDE_TABLE_BIN_SEARCH_DEPTH`. -/
def maxModuleFdeTableBinSearchDepth : Nat := 13

/-- `BINARY_SEARCH_DEFAULT_RESULT`. -/
def binarySearchDefaultResult : UInt64 := 0xABABABABABABABAB

/-- `__bsearch_fde_table_row`; the 64-bit result is returned as an `__s32`. -/
def bsearchFdeTableRow (rows : Nat → FdeTableRow) (left right address : UInt64) : Int32 :=
  match BoundedSearch.loop (fun mid => decide ((rows mid.toNat).loc ≤ address))
      (UInt64.ofNat perModuleFdeRowsCount) maxFdeTableRowBinSearchDepth left right
      binarySearchDefaultResult with
  | none => -1
  | some result => result.toUInt32.toInt32

/-- `__find_fde_table_info_in_module`, as the index of the info it points to. The
counter is a `__u32`, so `fde_table_count - 1` wraps there. -/
def findFdeTableInfoInModule (moduleTables : ModuleFdeTables) (address : UInt64) : Option Nat :=
  if moduleTables.fdeTableCount < perModuleFdeTableCount then
    match BoundedSearch.loop
        (fun mid => decide ((moduleTables.fdeInfos mid.toNat).start ≤ address))
        (UInt64.ofNat perModuleFdeTableCount) maxModuleFdeTableBinSearchDepth 0
        (UInt32.ofNat moduleTables.fdeTableCount - 1).toUInt64 binarySearchDefaultResult with
    | none => none
    | some result => if result ≠ binarySearchDefaultResult then some result.toNat else none
  else none

/-- `__find_module_in_maps`. It looks at every slot of the array, in use or not. -/
def findModuleInMaps (maps : PidMaps) (pc : UInt64) : Option ProcMapsModule :=
  ((List.range perProcessAssocModuleCount).map maps.modules).find? fun module =>
    decide (module.startAddr ≤ pc) && decide (pc ≤ module.endAddr)

/-- The row of an address in the table that an info names. -/
def findRowOfInfo (moduleFdeTables : ModuleFdeTables) (info : FdeTableInfo) (addr : UInt64) :
    Option FdeTableRow :=
  if info.rowPos + info.rowCount ≤ perModuleFdeRowsCount then
    let findRowPos := bsearchFdeTableRow moduleFdeTables.fdeRows (UInt64.ofNat info.rowPos)
      (UInt64.ofNat (info.rowPos + info.rowCount) - 1) addr
    -- the comparison with the 64-bit default result is always true of an `__s32`
    if 0 ≤ findRowPos ∧ findRowPos < Int32.ofNat perModuleFdeRowsCount then
      some (moduleFdeTables.fdeRows findRowPos.toInt.toNat)
    else none
  else none

/-- `__find_fde_table_row_by_pc`, with the tables map as a function. -/
def findFdeTableRowByPc (fdeTables : UInt64 → Option ModuleFdeTables) (pidMaps : PidMaps)
    (pc : UInt64) : Option FdeTableRow := do
  let module ← findModuleInMaps pidMaps pc
  let addr := module.address pc
  let moduleFdeTables ← fdeTables module.buildIdHash
  let pos ← findFdeTableInfoInModule moduleFdeTables addr
  findRowOfInfo moduleFdeTables (moduleFdeTables.fdeInfos pos) addr

/-! ## The search for an FDE table -/

section

variable {t : ModuleFdeTables} {a : UInt64}

/-- `i` is the last table that starts at or below the address. -/
def IsLastStart (t : ModuleFdeTables) (a : UInt64) (i : Nat) : Prop :=
  i < t.fdeTableCount ∧ (t.fdeInfos i).start ≤ a ∧
    ∀ j, j < t.fdeTableCount → (t.fdeInfos j).start ≤ a → j ≤ i

/-- Unless the address is below every start there is a last table that starts at or
below it. -/
theorem exists_isLastStart {i : Nat} (hi : i < t.fdeTableCount)
    (hstart : (t.fdeInfos i).start ≤ a) : ∃ j, IsLastStart t a j := by
  classical
  let P : Nat → Prop := fun j => j < t.fdeTableCount ∧ (t.fdeInfos j).start ≤ a
  have hspec : P (Nat.findGreatest P t.fdeTableCount) :=
    Nat.findGreatest_spec (P := P) (Nat.le_of_lt hi) ⟨hi, hstart⟩
  refine ⟨Nat.findGreatest P t.fdeTableCount, hspec.1, hspec.2, fun j hj hja => ?_⟩
  exact Nat.le_findGreatest (Nat.le_of_lt hj) ⟨hj, hja⟩

/-- The index of the last table in use, as the kernel program computes it. -/
theorem toNat_lastIndex (hpos : 1 ≤ t.fdeTableCount)
    (hcount : t.fdeTableCount < perModuleFdeTableCount) :
    (UInt32.ofNat t.fdeTableCount - 1).toUInt64.toNat = t.fdeTableCount - 1 := by
  have hlt : t.fdeTableCount < 8192 := hcount
  have hnat : (UInt32.ofNat t.fdeTableCount).toNat = t.fdeTableCount :=
    UInt32.toNat_ofNat_of_lt' (Nat.lt_trans hlt (by decide))
  have hone : (1 : UInt32) ≤ UInt32.ofNat t.fdeTableCount := by
    rw [UInt32.le_iff_toNat_le, hnat]
    exact hpos
  rw [UInt32.toNat_toUInt64, UInt32.toNat_sub_of_le _ _ hone, hnat]
  rfl

theorem findFdeTableInfoInModule_of_full (h : t.fdeTableCount = perModuleFdeTableCount) :
    findFdeTableInfoInModule t a = none := by
  rw [findFdeTableInfoInModule, if_neg (by omega)]

/-- Below the limit, thirteen halvings are enough to reach the last start. -/
theorem findFdeTableInfoInModule_of_isLastStart (hinv : t.Invariant)
    (hcount : t.fdeTableCount < perModuleFdeTableCount) {i : Nat} (h : IsLastStart t a i) :
    findFdeTableInfoInModule t a = some i := by
  obtain ⟨hi, hstart, hlast⟩ := h
  have hlt : t.fdeTableCount < 8192 := hcount
  have hright := toNat_lastIndex (Nat.zero_lt_of_lt hi) hcount
  have hnat : (UInt64.ofNat i).toNat = i := UInt64.toNat_ofNat_of_lt' (by
    change i < 18446744073709551616
    omega)
  have hloop : BoundedSearch.loop (fun mid => decide ((t.fdeInfos mid.toNat).start ≤ a))
      (UInt64.ofNat perModuleFdeTableCount) maxModuleFdeTableBinSearchDepth 0
      (UInt32.ofNat t.fdeTableCount - 1).toUInt64 binarySearchDefaultResult =
        some (UInt64.ofNat i) := by
    apply BoundedSearch.loop_eq_last
    · rw [UInt64.lt_iff_toNat_lt, hright]
      change t.fdeTableCount - 1 < 8192
      omega
    · decide
    · rw [hright]
      change t.fdeTableCount - 1 + 1 - 0 < 2 ^ 13
      omega
    · intro k l _ hkl hl hhit
      rw [UInt64.le_iff_toNat_le] at hkl hl
      rw [hright] at hl
      simp only [decide_eq_true_eq] at hhit ⊢
      exact UInt64.le_trans (hinv.sorted _ _ hkl (by omega)) hhit
    · exact UInt64.zero_le
    · rw [UInt64.le_iff_toNat_le, hnat, hright]
      omega
    · simpa only [hnat, decide_eq_true_eq] using hstart
    · intro k _ hk hhit
      rw [UInt64.le_iff_toNat_le] at hk ⊢
      rw [hright] at hk
      rw [hnat]
      exact hlast _ (by omega) (by simpa using hhit)
  have hne : UInt64.ofNat i ≠ binarySearchDefaultResult := by
    intro heq
    rw [heq] at hnat
    change 12370169555311111083 = i at hnat
    omega
  rw [findFdeTableInfoInModule, if_pos hcount, hloop]
  simp only [hnat, if_pos hne]

theorem findFdeTableInfoInModule_of_below (hpos : 1 ≤ t.fdeTableCount)
    (h : ∀ i, i < t.fdeTableCount → a < (t.fdeInfos i).start) :
    findFdeTableInfoInModule t a = none := by
  rw [findFdeTableInfoInModule]
  split
  · rename_i hcount
    have hlt : t.fdeTableCount < 8192 := hcount
    have hright := toNat_lastIndex hpos hcount
    have hlimit : (UInt32.ofNat t.fdeTableCount - 1).toUInt64 <
        UInt64.ofNat perModuleFdeTableCount := by
      rw [UInt64.lt_iff_toNat_lt, hright]
      change t.fdeTableCount - 1 < 8192
      omega
    have hmiss := BoundedSearch.loop_of_no_hit maxModuleFdeTableBinSearchDepth 0 _
      binarySearchDefaultResult (Nat.zero_le _) hlimit (by decide) (fun k _ hk =>
        decide_eq_false (p := (t.fdeInfos k.toNat).start ≤ a) (UInt64.not_le.mpr (h _ (by
          rw [UInt64.le_iff_toNat_le, hright] at hk
          omega))))
    obtain hmiss | ⟨-, hmiss⟩ := hmiss
    · rw [hmiss]
      exact if_neg (fun hne => hne rfl)
    · rw [hmiss]
  · rfl

/-- Below the limit the search is the specification. -/
theorem findFdeTableInfoInModule_eq_some (hinv : t.Invariant) (hpos : 1 ≤ t.fdeTableCount)
    (hcount : t.fdeTableCount < perModuleFdeTableCount) {i : Nat} :
    findFdeTableInfoInModule t a = some i ↔ IsLastStart t a i := by
  constructor
  · intro hfind
    by_cases hbelow : ∀ j, j < t.fdeTableCount → a < (t.fdeInfos j).start
    · rw [findFdeTableInfoInModule_of_below hpos hbelow] at hfind
      cases hfind
    · push Not at hbelow
      obtain ⟨j, hj, hstart⟩ := hbelow
      obtain ⟨l, hl⟩ := exists_isLastStart hj (UInt64.not_lt.mp hstart)
      rw [findFdeTableInfoInModule_of_isLastStart hinv hcount hl] at hfind
      cases hfind
      exact hl
  · exact findFdeTableInfoInModule_of_isLastStart hinv hcount

/-! ## The tables of the exporter -/

/-- The address ranges of two tables do not meet. -/
def DisjointRanges (x y : FdeTableInfo) : Prop :=
  ∀ a, ¬ ((x.start ≤ a ∧ a < x.end_) ∧ (y.start ≤ a ∧ a < y.end_))

/-- No table of an empty address range lies behind the start of a table before it
and inside the range of that table. -/
def NoEmptyInside (t : ModuleFdeTables) : Prop :=
  ∀ i j, i < j → j < t.fdeTableCount → (t.fdeInfos j).end_ ≤ (t.fdeInfos j).start →
    (t.fdeInfos i).end_ ≤ (t.fdeInfos j).start

theorem isLastStart_of_mem_range (hinv : t.Invariant) (hempty : NoEmptyInside t)
    (hdisj : ∀ i j, i < t.fdeTableCount → j < t.fdeTableCount → i ≠ j →
      DisjointRanges (t.fdeInfos i) (t.fdeInfos j))
    {i : Nat} (hi : i < t.fdeTableCount) (hstart : (t.fdeInfos i).start ≤ a)
    (hend : a < (t.fdeInfos i).end_) : IsLastStart t a i := by
  refine ⟨hi, hstart, fun j hj hja => Nat.le_of_not_lt fun hij => ?_⟩
  have hsorted := hinv.sorted i j (Nat.le_of_lt hij) hj
  have hinside : (t.fdeInfos j).start < (t.fdeInfos i).end_ := UInt64.lt_of_le_of_lt hja hend
  by_cases hj' : (t.fdeInfos j).end_ ≤ (t.fdeInfos j).start
  · exact UInt64.not_le.mpr hinside (hempty i j hij hj hj')
  · exact hdisj i j hi hj (Nat.ne_of_lt hij) (t.fdeInfos j).start
      ⟨⟨hsorted, hinside⟩, UInt64.le_refl _, UInt64.not_le.mp hj'⟩

end

/-- What the producer of the tables expects of the search. -/
structure SearchAgrees (t : ModuleFdeTables) : Prop where
  found : ∀ a i, findFdeTableInfoInModule t a = some i ↔ IsLastStart t a i
  missed : ∀ a, findFdeTableInfoInModule t a = none ↔
    ∀ i, i < t.fdeTableCount → a < (t.fdeInfos i).start
  covered : ∀ i, i < t.fdeTableCount → ∀ a, (t.fdeInfos i).start ≤ a → a < (t.fdeInfos i).end_ →
    findFdeTableInfoInModule t a = some i

/-- The kernel search agrees with the tables the exporter has built exactly if the
counter is below the length of the array and no empty table hides a range. -/
theorem searchAgrees_iff (S : SortFunc Frame.startLess) (order : Frame.ByteOrder)
    (fdes : List Frame.FrameDescriptionEntry) (t : ModuleFdeTables)
    (h : Frame.createModuleFDETables S order fdes = .ok t) (hpos : 1 ≤ t.fdeTableCount)
    (hdisj : ∀ i j, i < t.fdeTableCount → j < t.fdeTableCount → i ≠ j →
      DisjointRanges (t.fdeInfos i) (t.fdeInfos j)) :
    SearchAgrees t ↔ t.fdeTableCount < perModuleFdeTableCount ∧ NoEmptyInside t := by
  have hinv := Frame.createModuleFDETables_invariant h
  constructor
  · intro hagrees
    have hcount : t.fdeTableCount < perModuleFdeTableCount := by
      refine Nat.lt_of_le_of_ne hinv.count fun hfull => ?_
      have hbelow := (hagrees.missed (t.fdeInfos 0).start).mp
        (findFdeTableInfoInModule_of_full hfull)
      exact UInt64.lt_irrefl _ (hbelow 0 hpos)
    refine ⟨hcount, fun i j hij hj _ => UInt64.not_lt.mp fun hinside => ?_⟩
    have hsorted := hinv.sorted i j (Nat.le_of_lt hij) hj
    have hfound := hagrees.covered i (Nat.lt_trans hij hj) _ hsorted hinside
    have hle := ((hagrees.found _ i).mp hfound).2.2 j hj (UInt64.le_refl _)
    omega
  · rintro ⟨hcount, hempty⟩
    refine ⟨fun a i => findFdeTableInfoInModule_eq_some hinv hpos hcount, fun a => ?_, ?_⟩
    · constructor
      · intro hnone i hi
        refine UInt64.not_le.mp fun hstart => ?_
        obtain ⟨j, hj⟩ := exists_isLastStart hi hstart
        rw [findFdeTableInfoInModule_of_isLastStart hinv hcount hj] at hnone
        cases hnone
      · exact findFdeTableInfoInModule_of_below hpos
    · intro i hi a hstart hend
      exact findFdeTableInfoInModule_of_isLastStart hinv hcount
        (isLastStart_of_mem_range hinv hempty hdisj hi hstart hend)

/-! Modules of many small functions: each FDE has one row, and each range starts
where the previous one ends. -/

/-- The `k`-th function of sixteen bytes. -/
def plainFDE (k : Nat) : Frame.FrameDescriptionEntry :=
  { cie := Frame.amd64CIE, instructions := [], begin_ := UInt64.ofNat (16 * k), size := 16 }

def plainFDEs (n : Nat) : List Frame.FrameDescriptionEntry := (List.range n).map plainFDE

theorem fdeRows_plainFDE (order : Frame.ByteOrder) (fde : Frame.FrameDescriptionEntry)
    (n : Nat) (h : fde ∈ plainFDEs n) :
    ∃ r, Frame.fdeRows fde order = .ok [r] ∧ Frame.supportedReg r.cfa.reg = true := by
  obtain ⟨k, -, rfl⟩ := List.mem_map.mp h
  exact ⟨_, rfl, rfl⟩

theorem plainFDE_start (k : Nat) (hk : k < 8192) : (plainFDE k).begin_.toNat = 16 * k :=
  UInt64.toNat_ofNat_of_lt' (by
    change 16 * k < 18446744073709551616
    omega)

theorem plainFDE_end (k : Nat) (hk : k < 8192) : (plainFDE k).end_.toNat = 16 * k + 16 := by
  rw [Frame.FrameDescriptionEntry.end_, UInt64.toNat_add, plainFDE_start k hk]
  change (16 * k + 16) % 18446744073709551616 = _
  omega

/-- Up to the limit of the exporter, all of them get a table. -/
theorem createModuleFDETables_plainFDEs (n : Nat) (hn : n ≤ 8192) :
    ∃ t, Frame.createModuleFDETables Frame.stableSort .littleEndian (plainFDEs n) = .ok t ∧
      t.fdeTableCount = n ∧
      (∀ i, i < n → (t.fdeInfos i).start < (t.fdeInfos i).end_) ∧
      ∀ i j, i < n → j < n → i ≠ j → DisjointRanges (t.fdeInfos i) (t.fdeInfos j) := by
  let run : Frame.FrameDescriptionEntry → List Frame.ReceivedRow := fun fde =>
    (Frame.fdeRows fde .littleEndian).toOption.getD []
  have hrun (fde : Frame.FrameDescriptionEntry) (h : fde ∈ plainFDEs n) :
      Frame.fdeRows fde .littleEndian = .ok (run fde) ∧ (run fde).length = 1 ∧
        ∀ r ∈ run fde, Frame.supportedReg r.cfa.reg = true := by
    obtain ⟨r, hr, hreg⟩ := fdeRows_plainFDE .littleEndian fde n h
    have : run fde = [r] := by simp [run, hr, Except.toOption]
    simpa [this, hr] using hreg
  have hlen : (plainFDEs n).length = n := by simp [plainFDEs]
  have hsum : ((plainFDEs n).map fun fde => (run fde).length).sum = n := by
    rw [List.map_congr_left (fun fde h => (hrun fde h).2.1)]
    simp [hlen]
  obtain ⟨b, hb, -, hcount, hinfos⟩ := Frame.addFDEs_commits run (plainFDEs n)
    Frame.Builder.initial (fun fde h => ⟨(hrun fde h).1, (hrun fde h).2.2⟩)
    (by
      rw [hlen]
      change 0 + n ≤ 8192
      omega)
    (by
      rw [hsum]
      change 0 + n ≤ 45 * 1024
      omega)
  have hcount' : b.tables.fdeTableCount = n := by
    rw [hcount, hlen]
    exact Nat.zero_add n
  -- the table of the `k`-th function has its range
  have hrange (k : Nat) (hk : k < n) : (b.tables.fdeInfos k).start.toNat = 16 * k ∧
      (b.tables.fdeInfos k).end_.toNat = 16 * k + 16 := by
    obtain ⟨pos, hpos⟩ := hinfos k (by omega)
    change b.tables.fdeInfos (0 + k) = _ at hpos
    rw [Nat.zero_add] at hpos
    rw [hpos]
    simp only [plainFDEs, List.getElem_map, List.getElem_range]
    exact ⟨plainFDE_start k (by omega), plainFDE_end k (by omega)⟩
  refine ⟨Frame.sortInfos Frame.stableSort b.tables,
    Frame.createModuleFDETables_eq_ok.mpr ⟨b, hb, rfl⟩, hcount', ?_, ?_⟩
  · intro i hi
    obtain ⟨j, hj, hslot⟩ :=
      Frame.exists_slot_of_sorted (S := Frame.stableSort)
        (hcount' ▸ hi : i < b.tables.fdeTableCount)
    have := hrange j (by omega)
    rw [hslot, UInt64.lt_iff_toNat_lt]
    omega
  · intro i j hi hj hne
    refine Frame.sortInfos_pairwise ?_ ?_ (by omega) (by omega) hne
    · exact fun x y h a hboth => h a hboth.symm
    · intro k l hkl hl a ha
      have hk := hrange k (by omega)
      have hl := hrange l (by omega)
      simp only [UInt64.le_iff_toNat_le, UInt64.lt_iff_toNat_lt] at ha
      omega

/-- Three functions are found as the exporter expects. -/
theorem searchAgrees_plainFDEs : ∃ t,
    Frame.createModuleFDETables Frame.stableSort .littleEndian (plainFDEs 3) = .ok t ∧
      SearchAgrees t := by
  obtain ⟨t, ht, hcount, hrange, hdisj⟩ := createModuleFDETables_plainFDEs 3 (by decide)
  refine ⟨t, ht, (searchAgrees_iff Frame.stableSort .littleEndian (plainFDEs 3) t ht (by omega)
    (fun i j hi hj => hdisj i j (by omega) (by omega))).mpr ⟨?_, ?_⟩⟩
  · rw [hcount]
    decide
  · intro i j _ hj hempty
    exact absurd hempty (UInt64.not_le.mpr (hrange j (by omega)))

/-- With as many functions as the exporter accepts, no address is found. -/
theorem search_misses_full_module : ∃ t,
    Frame.createModuleFDETables Frame.stableSort .littleEndian (plainFDEs 8192) = .ok t ∧
      t.fdeTableCount = 8192 ∧
      (∀ i j, i < t.fdeTableCount → j < t.fdeTableCount → i ≠ j →
        DisjointRanges (t.fdeInfos i) (t.fdeInfos j)) ∧
      ∃ a i, i < t.fdeTableCount ∧ (t.fdeInfos i).start ≤ a ∧ a < (t.fdeInfos i).end_ ∧
        findFdeTableInfoInModule t a = none := by
  obtain ⟨t, ht, hcount, hrange, hdisj⟩ := createModuleFDETables_plainFDEs 8192 (Nat.le_refl _)
  refine ⟨t, ht, hcount, fun i j hi hj => hdisj i j (hcount ▸ hi) (hcount ▸ hj),
    (t.fdeInfos 0).start, 0, by omega, UInt64.le_refl _, hrange 0 (by decide),
    findFdeTableInfoInModule_of_full hcount⟩

end Profile

end XMonitor
