import XMonitor.Frame.Build
import XMonitor.Frame.Location
import Mathlib.Data.List.GetD

/-!
# The invariant of finished tables

The kernel's searches rely on the infos being sorted and on each info naming a
block of rows of its own. `createModuleFDETables` establishes both for every list
of FDEs, whatever mixture of accepted and rejected ones it is, and never writes
outside its arrays.
-/

namespace XMonitor

/-- What the exporter guarantees about the tables of a module. -/
structure ModuleFdeTables.Invariant (t : ModuleFdeTables) : Prop where
  count : t.fdeTableCount ≤ perModuleFdeTableCount
  sorted : ∀ i j, i ≤ j → j < t.fdeTableCount → (t.fdeInfos i).start ≤ (t.fdeInfos j).start
  nonempty : ∀ i, i < t.fdeTableCount → 1 ≤ (t.fdeInfos i).rowCount
  bound : ∀ i, i < t.fdeTableCount →
    (t.fdeInfos i).rowPos + (t.fdeInfos i).rowCount ≤ perModuleFdeRowsCount
  disjoint : ∀ i j, i < t.fdeTableCount → j < t.fdeTableCount → i ≠ j →
    (t.fdeInfos i).rowPos + (t.fdeInfos i).rowCount ≤ (t.fdeInfos j).rowPos ∨
      (t.fdeInfos j).rowPos + (t.fdeInfos j).rowCount ≤ (t.fdeInfos i).rowPos
  first : ∀ i, i < t.fdeTableCount →
    (t.fdeRows (t.fdeInfos i).rowPos).loc = (t.fdeInfos i).start

/-- The rows of every table in use have strictly increasing locations. -/
def ModuleFdeTables.RowsIncreasing (t : ModuleFdeTables) : Prop :=
  ∀ i, i < t.fdeTableCount → ∀ k k', k < k' → k' < (t.fdeInfos i).rowCount →
    (t.fdeRows ((t.fdeInfos i).rowPos + k)).loc < (t.fdeRows ((t.fdeInfos i).rowPos + k')).loc

namespace Frame

open ExceptRules

/-! ## Sorting -/

theorem infos_sortInfos (S : SortFunc startLess) (t : ModuleFdeTables) :
    (sortInfos S t).infos = S.sort t.infos := by
  apply List.ext_getElem
  · simp [sortInfos]
  · intro i hi hi'
    rw [ModuleFdeTables.getElem_infos]
    exact List.getD_eq_getElem _ _ hi'

/-- The info in a slot after sorting is one that was in use before. -/
theorem exists_slot_of_sorted {S : SortFunc startLess} {t : ModuleFdeTables} {i : Nat}
    (hi : i < t.fdeTableCount) :
    ∃ j, j < t.fdeTableCount ∧ (sortInfos S t).fdeInfos i = t.fdeInfos j := by
  have hlen : i < (sortInfos S t).infos.length := by simpa [sortInfos] using hi
  have hmem : (sortInfos S t).fdeInfos i ∈ (sortInfos S t).infos := by
    rw [← ModuleFdeTables.getElem_infos _ i hlen]
    exact List.getElem_mem hlen
  rw [infos_sortInfos, SortFunc.mem_sort] at hmem
  obtain ⟨j, hj, heq⟩ := List.mem_map.mp hmem
  exact ⟨j, List.mem_range.mp hj, heq.symm⟩

/-- Every info that was in use before has a slot after sorting. -/
theorem exists_sorted_slot (S : SortFunc startLess) {t : ModuleFdeTables} {j : Nat}
    (hj : j < t.fdeTableCount) :
    ∃ i, i < t.fdeTableCount ∧ (sortInfos S t).fdeInfos i = t.fdeInfos j := by
  have hmem : t.fdeInfos j ∈ (sortInfos S t).infos := by
    rw [infos_sortInfos, SortFunc.mem_sort]
    exact List.mem_map.mpr ⟨j, List.mem_range.mpr hj, rfl⟩
  obtain ⟨i, hi, heq⟩ := List.mem_map.mp hmem
  exact ⟨i, List.mem_range.mp hi, heq⟩

theorem sortInfos_start_le {S : SortFunc startLess} {t : ModuleFdeTables} {i j : Nat}
    (hij : i ≤ j) (hj : j < t.fdeTableCount) :
    ((sortInfos S t).fdeInfos i).start ≤ ((sortInfos S t).fdeInfos j).start := by
  obtain hlt | rfl := Nat.lt_or_eq_of_le hij
  · have hlen : j < (sortInfos S t).infos.length := by simpa [sortInfos] using hj
    have hpair := S.sorted t.infos
    rw [← infos_sortInfos] at hpair
    have h := List.pairwise_iff_getElem.mp hpair i j (Nat.lt_trans hlt hlen) hlen hlt
    rw [ModuleFdeTables.getElem_infos, ModuleFdeTables.getElem_infos] at h
    exact UInt64.not_lt.mp (of_decide_eq_false h)
  · exact UInt64.le_refl _

/-- A relation between any two infos in use that does not depend on their order
survives the sort. -/
theorem sortInfos_pairwise {S : SortFunc startLess} {t : ModuleFdeTables}
    {R : FdeTableInfo → FdeTableInfo → Prop} (symm : ∀ a b, R a b → R b a)
    (h : ∀ i j, i < j → j < t.fdeTableCount → R (t.fdeInfos i) (t.fdeInfos j))
    {i j : Nat} (hi : i < t.fdeTableCount) (hj : j < t.fdeTableCount) (hne : i ≠ j) :
    R ((sortInfos S t).fdeInfos i) ((sortInfos S t).fdeInfos j) := by
  have hpair : (sortInfos S t).infos.Pairwise R := by
    rw [infos_sortInfos]
    apply S.pairwise_sort symm
    rw [List.pairwise_iff_getElem]
    intro a b _ hb hab
    rw [ModuleFdeTables.getElem_infos, ModuleFdeTables.getElem_infos]
    exact h a b hab (by simpa using hb)
  have hlen (k : Nat) (hk : k < t.fdeTableCount) : k < (sortInfos S t).infos.length := by
    simpa [sortInfos] using hk
  obtain hlt | hlt := Nat.lt_or_gt_of_ne hne
  · have h := List.pairwise_iff_getElem.mp hpair i j (hlen i hi) (hlen j hj) hlt
    rwa [ModuleFdeTables.getElem_infos, ModuleFdeTables.getElem_infos] at h
  · have h := List.pairwise_iff_getElem.mp hpair j i (hlen j hj) (hlen i hi) hlt
    rw [ModuleFdeTables.getElem_infos, ModuleFdeTables.getElem_infos] at h
    exact symm _ _ h

/-- Two infos name blocks of rows that do not meet. -/
def DisjointRows (a b : FdeTableInfo) : Prop :=
  a.rowPos + a.rowCount ≤ b.rowPos ∨ b.rowPos + b.rowCount ≤ a.rowPos

/-! ## Finished tables -/

theorem createModuleFDETables_eq_ok {S : SortFunc startLess} {order : ByteOrder}
    {fdes : List FrameDescriptionEntry} {t : ModuleFdeTables} :
    createModuleFDETables S order fdes = .ok t ↔
      ∃ b, addFDEs order fdes Builder.initial = .ok b ∧ sortInfos S b.tables = t := by
  constructor
  · intro h
    obtain ⟨b, hb, h⟩ := bind_eq_ok.mp h
    cases h
    exact ⟨b, hb, rfl⟩
  · rintro ⟨b, hb, rfl⟩
    exact bind_eq_ok.mpr ⟨b, hb, rfl⟩

/-- A committed FDE is stored in the finished tables. -/
theorem CommittedAs.finished {S : SortFunc startLess} {order : ByteOrder}
    {fdes : List FrameDescriptionEntry} {t : ModuleFdeTables} {fde : FrameDescriptionEntry}
    {info : FdeTableInfo} (hc : CommittedAs order fdes fde info)
    (h : createModuleFDETables S order fdes = .ok t) :
    (∃ i, i < t.fdeTableCount ∧ t.fdeInfos i = info) ∧
      ∃ rows, fdeRows fde order = .ok rows ∧ info = infoOf fde info.rowPos rows ∧
        t.rowsOf info = rows.map tableRow ∧ ∀ r ∈ rows, supportedReg r.cfa.reg = true := by
  obtain ⟨b, hb, rfl⟩ := createModuleFDETables_eq_ok.mp h
  obtain ⟨⟨j, hj, hinfo⟩, rows, hstored⟩ := hc.stored hb
  obtain ⟨i, hi, hslot⟩ := exists_sorted_slot S hj
  exact ⟨⟨i, hi, hslot.trans hinfo⟩, rows, hstored.run, hstored.shape, hstored.stored,
    hstored.supported⟩

/-- Every slot in use holds a committed FDE. -/
theorem committedAs_of_slot {S : SortFunc startLess} {order : ByteOrder}
    {fdes : List FrameDescriptionEntry} {t : ModuleFdeTables}
    (h : createModuleFDETables S order fdes = .ok t) {i : Nat} (hi : i < t.fdeTableCount) :
    ∃ fde, CommittedAs order fdes fde (t.fdeInfos i) := by
  obtain ⟨b, hb, rfl⟩ := createModuleFDETables_eq_ok.mp h
  have hi' : i < b.tables.fdeTableCount := hi
  obtain ⟨j, hj, hslot⟩ := exists_slot_of_sorted (S := S) hi'
  rw [hslot]
  exact exists_committedAs hb j hj

theorem createModuleFDETables_refCount {S : SortFunc startLess} {order : ByteOrder}
    {fdes : List FrameDescriptionEntry} {t : ModuleFdeTables}
    (h : createModuleFDETables S order fdes = .ok t) : t.refCount = 1 := by
  obtain ⟨b, hb, rfl⟩ := createModuleFDETables_eq_ok.mp h
  exact (addFDEs_spec Builder.valid_initial hb).2.refCount

theorem createModuleFDETables_invariant {S : SortFunc startLess} {order : ByteOrder}
    {fdes : List FrameDescriptionEntry} {t : ModuleFdeTables}
    (h : createModuleFDETables S order fdes = .ok t) : t.Invariant := by
  obtain ⟨b, hb, ht⟩ := createModuleFDETables_eq_ok.mp h
  have hvalid := (addFDEs_spec Builder.valid_initial hb).1
  have hrows (i : Nat) (hi : i < t.fdeTableCount) :
      1 ≤ (t.fdeInfos i).rowCount ∧
        (t.fdeRows (t.fdeInfos i).rowPos).loc = (t.fdeInfos i).start := by
    obtain ⟨fde, hc⟩ := committedAs_of_slot h hi
    obtain ⟨-, rows, hrun, hshape, hstored, -⟩ := hc.finished h
    have hfirst := fdeRows_first hrun
    cases rows with
    | nil => cases hfirst
    | cons r rows =>
        have hcount : (t.fdeInfos i).rowCount = rows.length + 1 := by
          rw [hshape]
          rfl
        have hpos : 0 < (t.rowsOf (t.fdeInfos i)).length := by simp [hcount]
        have h₀ : (t.rowsOf (t.fdeInfos i))[0] = tableRow r := by simp [hstored]
        rw [ModuleFdeTables.getElem_rowsOf, Nat.add_zero] at h₀
        refine ⟨by omega, ?_⟩
        rw [h₀]
        have hstart : (t.fdeInfos i).start = fde.begin_ := by
          rw [hshape]
          rfl
        rw [hstart]
        change r.loc = fde.begin_
        simpa using hfirst
  subst ht
  exact {
    count := hvalid.count
    sorted := fun i j hij hj => sortInfos_start_le hij hj
    nonempty := fun i hi => (hrows i hi).1
    bound := by
      intro i hi
      have hi' : i < b.tables.fdeTableCount := hi
      obtain ⟨j, hj, hslot⟩ := exists_slot_of_sorted (S := S) hi'
      rw [hslot]
      exact Nat.le_trans (hvalid.bound j hj) hvalid.limit
    disjoint := fun i j hi hj hne =>
      sortInfos_pairwise (R := DisjointRows) (fun _ _ h => h.symm)
        (fun i j hij hj => .inl (hvalid.ordered i j hij hj)) hi hj hne
    first := fun i hi => (hrows i hi).2 }

/-- A module with a single FDE that fits. -/
theorem createModuleFDETables_single (S : SortFunc startLess) {order : ByteOrder}
    {fde : FrameDescriptionEntry} {rows : List ReceivedRow} (hrun : fdeRows fde order = .ok rows)
    (hregs : ∀ r ∈ rows, supportedReg r.cfa.reg = true)
    (hrows : rows.length ≤ maxPerModuleAssocFDERowCount) :
    ∃ t info, createModuleFDETables S order [fde] = .ok t ∧ CommittedAs order [fde] fde info := by
  have hroom : Builder.initial.tables.fdeTableCount < maxPerModuleFDETableCount := by decide
  obtain ⟨b, hb, -, hnext, -, hinfo⟩ := addFDE_commits hroom hrun hregs
    (Nat.le_trans (Nat.le_of_eq (Nat.zero_add _)) hrows)
  refine ⟨_, infoOf fde 0 rows, createModuleFDETables_eq_ok.mpr ⟨b, ?_, rfl⟩,
    [], [], Builder.initial, b, rfl, rfl, hroom, hb, hnext, hinfo.symm⟩
  rw [addFDEs, if_neg (Nat.not_le.mpr hroom), hb, ok_bind, addFDEs]

/-- FDEs that do not panic. -/
theorem createModuleFDETables_of_rows (S : SortFunc startLess) {order : ByteOrder}
    {fdes : List FrameDescriptionEntry} (h : ∀ fde ∈ fdes, ∃ rows, fdeRows fde order = .ok rows) :
    ∃ t, createModuleFDETables S order fdes = .ok t := by
  have hrun (b : Builder) : ∃ b', addFDEs order fdes b = .ok b' := by
    induction fdes generalizing b with
    | nil => exact ⟨b, rfl⟩
    | cons fde fdes ih =>
        obtain ⟨⟨rows, hrows⟩, hrest⟩ := List.forall_mem_cons.mp h
        rw [addFDEs]
        split
        · exact ⟨b, rfl⟩
        · rename_i hroom
          rw [addFDE_eq (Nat.lt_of_not_le hroom), hrows]
          exact ih hrest _
  obtain ⟨b, hb⟩ := hrun Builder.initial
  exact ⟨_, createModuleFDETables_eq_ok.mpr ⟨b, hb, rfl⟩⟩

/-! ## Writes in bounds -/

theorem addFDE_ne_tableIndex {order : ByteOrder} {b : Builder} (fde : FrameDescriptionEntry)
    (hroom : b.tables.fdeTableCount < maxPerModuleFDETableCount) :
    addFDE order b fde ≠ .error .tableIndexOutOfRange := by
  rw [addFDE_eq hroom]
  intro h
  cases hrun : fdeRows fde order with
  | error e =>
      rw [hrun] at h
      cases h
      exact fdeRows_ne_tableIndex fde order hrun
  | ok rows =>
      rw [hrun] at h
      cases h

theorem addFDEs_ne_tableIndex (order : ByteOrder) (fdes : List FrameDescriptionEntry)
    (b : Builder) : addFDEs order fdes b ≠ .error .tableIndexOutOfRange := by
  induction fdes generalizing b with
  | nil => simp [addFDEs]
  | cons fde fdes ih =>
      rw [addFDEs]
      split
      · simp
      · rename_i hroom
        exact bind_ne_error (addFDE_ne_tableIndex fde (Nat.lt_of_not_le hroom)) fun _ _ => ih _

/-! ## The tables of any list of FDEs -/

/-- No run of the table builder writes outside its arrays, and the tables it returns
satisfy the invariant. Their slots are those of the committed FDEs, and the rows of
an FDE that only advances its location have strictly increasing locations. -/
theorem createModuleFDETables_tables (S : SortFunc startLess) (order : ByteOrder)
    (fdes : List FrameDescriptionEntry) :
    createModuleFDETables S order fdes ≠ .error .tableIndexOutOfRange ∧
      ∀ t, createModuleFDETables S order fdes = .ok t →
        t.Invariant ∧
        (∀ i, i < t.fdeTableCount → ∃ fde, CommittedAs order fdes fde (t.fdeInfos i)) ∧
        ∀ i fde, i < t.fdeTableCount → CommittedAs order fdes fde (t.fdeInfos i) →
          (t.fdeInfos i).start = fde.begin_ ∧ (t.fdeInfos i).end_ = fde.end_ ∧
          (fde.OnlyAdvances order → ∀ k k', k < k' → k' < (t.fdeInfos i).rowCount →
            (t.fdeRows ((t.fdeInfos i).rowPos + k)).loc <
              (t.fdeRows ((t.fdeInfos i).rowPos + k')).loc) := by
  refine ⟨?_, fun t h => ⟨createModuleFDETables_invariant h,
    fun i hi => committedAs_of_slot h hi, fun i fde hi hc => ?_⟩⟩
  · exact bind_ne_error (addFDEs_ne_tableIndex order fdes _) fun _ _ h => by cases h
  · obtain ⟨-, rows, hrun, hshape, hstored, -⟩ := hc.finished h
    refine ⟨by rw [hshape]; rfl, by rw [hshape]; rfl, fun hadv k k' hkk hk' => ?_⟩
    have hpair := fdeRows_increasing hadv hrun
    have hlen : (t.rowsOf (t.fdeInfos i)).length = rows.length := by simp [hstored]
    have hrow (j : Nat) (hj : j < rows.length) :
        (t.fdeRows ((t.fdeInfos i).rowPos + j)).loc = rows[j].loc := by
      rw [← ModuleFdeTables.getElem_rowsOf t (t.fdeInfos i) j (by omega)]
      simp [hstored, tableRow]
    rw [ModuleFdeTables.length_rowsOf] at hlen
    rw [hrow k (by omega), hrow k' (by omega)]
    exact List.pairwise_iff_getElem.mp hpair k k' (by omega) (by omega) hkk

end Frame

end XMonitor
