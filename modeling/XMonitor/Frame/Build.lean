import Mathlib.Data.List.Induction
import XMonitor.Frame.Table

/-!
# What the loop over the FDEs does

One FDE either takes the next info slot, with all its rows stored behind those of
its predecessors, or leaves the infos in use as they were. In both cases nothing
that an earlier FDE stored is touched (`addFDE_spec`). `CommittedAs` names the FDEs
of the list that took a slot, and `committed_stored` says what the finished tables
hold for each of them.
-/

namespace XMonitor.Frame

open ExceptRules

/-! ## The row callback -/

/-- The row callback without its bounds checks, which never fail. -/
def received (b : Builder) (r : ReceivedRow) : Builder :=
  if b.innerErr.isSome then b
  else if b.moduleAssocFDERowCount ≥ maxPerModuleAssocFDERowCount then
    { b with innerErr := some .rowCountExceedsLimit }
  else if supportedReg r.cfa.reg = false then
    { b with
      tables := { b.tables with
        fdeRows := Function.update b.tables.fdeRows b.moduleAssocFDERowCount
          { b.tables.fdeRows b.moduleAssocFDERowCount with loc := r.loc } }
      innerErr := some (.invalidReg r.cfa.reg) }
  else
    { b with
      tables := { b.tables with
        fdeRows := Function.update b.tables.fdeRows b.moduleAssocFDERowCount (tableRow r)
        fdeInfos := Function.update b.tables.fdeInfos b.tables.fdeTableCount
          { b.tables.fdeInfos b.tables.fdeTableCount with
            rowCount := (b.tables.fdeInfos b.tables.fdeTableCount).rowCount + 1 } }
      moduleAssocFDERowCount := b.moduleAssocFDERowCount + 1 }

theorem receiveRow_eq (b : Builder) (r : ReceivedRow) : receiveRow b r = .ok (received b r) := by
  rw [receiveRow, received]
  split
  · rfl
  split
  · rfl
  rename_i hfull
  have hpos : b.moduleAssocFDERowCount < perModuleFdeRowsCount := Nat.lt_of_not_le hfull
  simp only [setRow, hpos, if_true, ok_bind]
  split
  · rfl
  · simp only [Function.update_idem]
    rfl

theorem received_of_innerErr {b : Builder} (h : b.innerErr.isSome) (r : ReceivedRow) :
    received b r = b := by
  rw [received, if_pos h]

theorem foldl_received_of_innerErr {b : Builder} (h : b.innerErr.isSome)
    (rows : List ReceivedRow) : rows.foldl received b = b := by
  induction rows with
  | nil => rfl
  | cons r rows ih => rw [List.foldl_cons, received_of_innerErr h, ih]

/-- `b'` has kept everything that `b` counts as stored. -/
structure Builder.Extends (b b' : Builder) : Prop where
  count : b.tables.fdeTableCount ≤ b'.tables.fdeTableCount
  rowCount : b.moduleAssocFDERowCount ≤ b'.moduleAssocFDERowCount
  limit : b'.moduleAssocFDERowCount ≤ maxPerModuleAssocFDERowCount
  infos : ∀ i, i < b.tables.fdeTableCount → b'.tables.fdeInfos i = b.tables.fdeInfos i
  rows : ∀ k, k < b.moduleAssocFDERowCount → b'.tables.fdeRows k = b.tables.fdeRows k
  refCount : b'.tables.refCount = b.tables.refCount

theorem Builder.Extends.trans {a b c : Builder} (h₁ : a.Extends b) (h₂ : b.Extends c) :
    a.Extends c where
  count := Nat.le_trans h₁.count h₂.count
  rowCount := Nat.le_trans h₁.rowCount h₂.rowCount
  limit := h₂.limit
  infos i hi := (h₂.infos i (Nat.lt_of_lt_of_le hi h₁.count)).trans (h₁.infos i hi)
  rows k hk := (h₂.rows k (Nat.lt_of_lt_of_le hk h₁.rowCount)).trans (h₁.rows k hk)
  refCount := h₂.refCount.trans h₁.refCount

theorem Builder.Extends.refl {b : Builder}
    (h : b.moduleAssocFDERowCount ≤ maxPerModuleAssocFDERowCount) : b.Extends b :=
  ⟨Nat.le_refl _, Nat.le_refl _, h, fun _ _ => rfl, fun _ _ => rfl, rfl⟩

/-- What a run of the row callback leaves behind. An accepted run has stored every
row behind the earlier ones and counted them all. -/
structure Builder.Received (b b' : Builder) (rows : List ReceivedRow) : Prop where
  extends_ : b.Extends b'
  slot : b'.tables.fdeTableCount = b.tables.fdeTableCount
  accepted : b'.innerErr = none →
    b'.moduleAssocFDERowCount = b.moduleAssocFDERowCount + rows.length ∧
    b'.tables.fdeInfos b.tables.fdeTableCount =
      { b.tables.fdeInfos b.tables.fdeTableCount with
        rowCount := (b.tables.fdeInfos b.tables.fdeTableCount).rowCount + rows.length } ∧
    (∀ k (hk : k < rows.length),
      b'.tables.fdeRows (b.moduleAssocFDERowCount + k) = tableRow rows[k]) ∧
    ∀ r ∈ rows, supportedReg r.cfa.reg = true

/-- A callback that stores its row moves both counters by one. -/
theorem received_of_supported {b : Builder} {r : ReceivedRow} (herr : b.innerErr = none)
    (hroom : b.moduleAssocFDERowCount < maxPerModuleAssocFDERowCount)
    (hreg : supportedReg r.cfa.reg = true) :
    received b r =
      { b with
        tables := { b.tables with
          fdeRows := Function.update b.tables.fdeRows b.moduleAssocFDERowCount (tableRow r)
          fdeInfos := Function.update b.tables.fdeInfos b.tables.fdeTableCount
            { b.tables.fdeInfos b.tables.fdeTableCount with
              rowCount := (b.tables.fdeInfos b.tables.fdeTableCount).rowCount + 1 } }
        moduleAssocFDERowCount := b.moduleAssocFDERowCount + 1 } := by
  rw [received, if_neg (by simp [herr]), if_neg (Nat.not_le.mpr hroom), if_neg (by simp [hreg])]

/-- A callback that rejects its row touches at most the first free row. -/
theorem received_of_rejected {b : Builder} {r : ReceivedRow} (herr : b.innerErr = none)
    (hbad : ¬ (b.moduleAssocFDERowCount < maxPerModuleAssocFDERowCount ∧
      supportedReg r.cfa.reg = true))
    (hlimit : b.moduleAssocFDERowCount ≤ maxPerModuleAssocFDERowCount) :
    b.Extends (received b r) ∧
      (received b r).tables.fdeTableCount = b.tables.fdeTableCount ∧
      (received b r).innerErr.isSome := by
  rw [received, if_neg (by simp [herr])]
  split
  · exact ⟨⟨Nat.le_refl _, Nat.le_refl _, hlimit, fun _ _ => rfl, fun _ _ => rfl, rfl⟩, rfl, rfl⟩
  · rename_i hroom
    have hreg : supportedReg r.cfa.reg = false := by
      cases h : supportedReg r.cfa.reg with
      | false => rfl
      | true => exact absurd ⟨Nat.lt_of_not_le hroom, h⟩ hbad
    rw [if_pos hreg]
    refine ⟨⟨Nat.le_refl _, Nat.le_refl _, hlimit, fun _ _ => rfl, ?_, rfl⟩, rfl, rfl⟩
    intro k hk
    exact Function.update_of_ne (Nat.ne_of_lt hk) _ _

theorem foldl_received (rows : List ReceivedRow) (b : Builder) (herr : b.innerErr = none)
    (hlimit : b.moduleAssocFDERowCount ≤ maxPerModuleAssocFDERowCount) :
    b.Received (rows.foldl received b) rows := by
  induction rows generalizing b with
  | nil =>
      refine ⟨.refl hlimit, rfl, fun _ => ⟨rfl, rfl, ?_, ?_⟩⟩
      · intro k hk
        exact absurd hk (Nat.not_lt_zero k)
      · intro r hr
        exact absurd hr List.not_mem_nil
  | cons r rows ih =>
      rw [List.foldl_cons]
      by_cases hgood : b.moduleAssocFDERowCount < maxPerModuleAssocFDERowCount ∧
          supportedReg r.cfa.reg = true
      · have hstep := received_of_supported herr hgood.1 hgood.2
        have rest := ih (received b r) (by rw [hstep]; exact herr) (by rw [hstep]; exact hgood.1)
        have first : b.Extends (received b r) := by
          rw [hstep]
          refine ⟨Nat.le_refl _, Nat.le_succ _, hgood.1, ?_, ?_, rfl⟩
          · intro i hi
            exact Function.update_of_ne (Nat.ne_of_lt hi) _ _
          · intro k hk
            exact Function.update_of_ne (Nat.ne_of_lt hk) _ _
        refine ⟨first.trans rest.extends_, rest.slot.trans (by rw [hstep]), fun hok => ?_⟩
        obtain ⟨hcount, hinfo, hrows, hregs⟩ := rest.accepted hok
        rw [hstep] at hcount hinfo hrows
        refine ⟨?_, ?_, ?_, ?_⟩
        · rw [hstep, hcount, List.length_cons]
          exact Nat.add_right_comm _ _ _
        · rw [hstep, hinfo]
          simp only [Function.update_self, List.length_cons]
          rw [Nat.add_right_comm, ← Nat.add_assoc]
        · intro k hk
          cases k with
          | zero =>
              have kept := rest.extends_.rows b.moduleAssocFDERowCount
                (by rw [hstep]; exact Nat.lt_succ_self _)
              rw [Nat.add_zero, kept, hstep]
              exact Function.update_self _ _ _
          | succ k =>
              have stored := hrows k (Nat.lt_of_succ_lt_succ hk)
              rw [hstep]
              simpa only [Nat.add_assoc, Nat.add_comm 1 k, List.getElem_cons_succ] using stored
        · intro x hx
          obtain rfl | hx := List.mem_cons.mp hx
          · exact hgood.2
          · exact hregs x hx
      · obtain ⟨hext, hslot, hsome⟩ := received_of_rejected herr hgood hlimit
        rw [foldl_received_of_innerErr hsome]
        exact ⟨hext, hslot, fun hok => by rw [hok] at hsome; cases hsome⟩

/-! ## The loop over the FDEs -/

/-- The info that an FDE gets when its rows start at `pos`. -/
def infoOf (fde : FrameDescriptionEntry) (pos : Nat) (rows : List ReceivedRow) : FdeTableInfo :=
  { start := fde.begin_, end_ := fde.end_, rowPos := pos, rowCount := rows.length }

/-- The tables hold the rows of `fde` at the place its info says. -/
structure Stored (order : ByteOrder) (b : Builder) (fde : FrameDescriptionEntry)
    (info : FdeTableInfo) (rows : List ReceivedRow) : Prop where
  run : fdeRows fde order = .ok rows
  shape : info = infoOf fde info.rowPos rows
  bound : info.rowPos + info.rowCount ≤ b.moduleAssocFDERowCount
  stored : b.tables.rowsOf info = rows.map tableRow
  supported : ∀ r ∈ rows, supportedReg r.cfa.reg = true

theorem Stored.mono {order : ByteOrder} {b b' : Builder} {fde : FrameDescriptionEntry}
    {info : FdeTableInfo} {rows : List ReceivedRow} (h : Stored order b fde info rows)
    (hext : b.Extends b') : Stored order b' fde info rows where
  run := h.run
  shape := h.shape
  bound := Nat.le_trans h.bound hext.rowCount
  stored := by
    rw [← h.stored]
    apply List.map_congr_left
    intro k hk
    have := List.mem_range.mp hk
    have := h.bound
    exact hext.rows _ (by omega)
  supported := h.supported

theorem setInfo_eq {t : ModuleFdeTables} {i : Nat} {info : FdeTableInfo}
    (h : i < perModuleFdeTableCount) :
    setInfo t i info = .ok { t with fdeInfos := Function.update t.fdeInfos i info } := by
  rw [setInfo, if_pos h]

/-- The builder with the slot of `fde` filled in and no row received yet. -/
def Builder.openSlot (b : Builder) (fde : FrameDescriptionEntry) : Builder :=
  { b with
    tables := { b.tables with
      fdeInfos := Function.update b.tables.fdeInfos b.tables.fdeTableCount
        (infoOf fde b.moduleAssocFDERowCount []) }
    innerErr := none }

theorem Builder.extends_openSlot {b : Builder} (fde : FrameDescriptionEntry)
    (hlimit : b.moduleAssocFDERowCount ≤ maxPerModuleAssocFDERowCount) :
    b.Extends (b.openSlot fde) := by
  refine ⟨Nat.le_refl _, Nat.le_refl _, hlimit, ?_, fun _ _ => rfl, rfl⟩
  intro i hi
  exact Function.update_of_ne (Nat.ne_of_lt hi) _ _

/-- The loop body in one line: run the FDE, fold the callback over its rows, and
count the slot if nothing went wrong. -/
theorem addFDE_eq {order : ByteOrder} {b : Builder} {fde : FrameDescriptionEntry}
    (hroom : b.tables.fdeTableCount < maxPerModuleFDETableCount) :
    addFDE order b fde = (fdeRows fde order).map fun rows =>
      let b' := rows.foldl received (b.openSlot fde)
      if b'.innerErr = none ∧ (b'.tables.fdeInfos b.tables.fdeTableCount).rowCount > 0 then
        { b' with tables := { b'.tables with fdeTableCount := b.tables.fdeTableCount + 1 } }
      else b' := by
  rw [addFDE, setInfo_eq hroom]
  change (executeFDE receiveRow fde order (b.openSlot fde) >>= _) = _
  rw [executeFDE_eq receiveRow_eq]
  cases fdeRows fde order with
  | error e => rfl
  | ok rows => exact (apply_ite Except.ok _ _ _).symm

/-- An accepted run has filled in the slot. -/
theorem Builder.Received.openSlot_info {b b' : Builder} {fde : FrameDescriptionEntry}
    {rows : List ReceivedRow} (h : (b.openSlot fde).Received b' rows) (hok : b'.innerErr = none) :
    b'.tables.fdeInfos b.tables.fdeTableCount = infoOf fde b.moduleAssocFDERowCount rows := by
  obtain ⟨-, hinfo, -⟩ := h.accepted hok
  have hself : (b.openSlot fde).tables.fdeInfos (b.openSlot fde).tables.fdeTableCount =
      infoOf fde b.moduleAssocFDERowCount [] := Function.update_self _ _ _
  rw [hself] at hinfo
  refine hinfo.trans ?_
  simp [infoOf]

/-- One FDE takes the next slot with all its rows, or no slot at all. -/
theorem addFDE_spec {order : ByteOrder} {b b' : Builder} {fde : FrameDescriptionEntry}
    (hroom : b.tables.fdeTableCount < maxPerModuleFDETableCount)
    (hlimit : b.moduleAssocFDERowCount ≤ maxPerModuleAssocFDERowCount)
    (h : addFDE order b fde = .ok b') :
    b.Extends b' ∧
      (b'.tables.fdeTableCount = b.tables.fdeTableCount ∨
        b'.tables.fdeTableCount = b.tables.fdeTableCount + 1 ∧
          (b'.tables.fdeInfos b.tables.fdeTableCount).rowPos = b.moduleAssocFDERowCount ∧
          ∃ rows, Stored order b' fde (b'.tables.fdeInfos b.tables.fdeTableCount) rows) := by
  rw [addFDE_eq hroom] at h
  cases hrun : fdeRows fde order with
  | error e => rw [hrun] at h; cases h
  | ok rows =>
      rw [hrun] at h
      simp only [Except.map, Except.ok.injEq] at h
      have fold := foldl_received rows (b.openSlot fde) rfl hlimit
      have hext := (Builder.extends_openSlot fde hlimit).trans fold.extends_
      split at h
      · rename_i hok
        subst h
        obtain ⟨hcount, -, hrows, hregs⟩ := fold.accepted hok.1
        have hslot := fold.openSlot_info hok.1
        refine ⟨⟨Nat.le_succ _, hext.rowCount, hext.limit, hext.infos, hext.rows,
          hext.refCount⟩, .inr ⟨rfl, by simp [hslot, infoOf], rows, hrun, ?_, ?_, ?_, hregs⟩⟩
        · simp only [hslot]
          rfl
        · simp only [hslot, hcount]
          exact Nat.le_refl _
        · simp only [hslot]
          apply List.ext_getElem
          · simp [infoOf]
          · intro k hk hk'
            rw [ModuleFdeTables.getElem_rowsOf, List.getElem_map]
            exact hrows k (by simpa using hk')
      · subst h
        exact ⟨hext, .inl fold.slot⟩

theorem addFDEs_append (order : ByteOrder) (fdes₁ fdes₂ : List FrameDescriptionEntry)
    (b : Builder) :
    addFDEs order (fdes₁ ++ fdes₂) b = addFDEs order fdes₁ b >>= addFDEs order fdes₂ := by
  induction fdes₁ generalizing b with
  | nil => rfl
  | cons fde fdes ih =>
      rw [List.cons_append, addFDEs, addFDEs]
      split
      · -- full tables skip the second list as well
        cases fdes₂ with
        | nil => rfl
        | cons fde' fdes' =>
            rw [ok_bind, addFDEs, if_pos ‹_›]
      · cases addFDE order b fde with
        | error e => rfl
        | ok b' => exact ih b'

/-- The invariant of the loop: what the slots in use say about the rows. -/
structure Builder.Valid (b : Builder) : Prop where
  count : b.tables.fdeTableCount ≤ maxPerModuleFDETableCount
  limit : b.moduleAssocFDERowCount ≤ maxPerModuleAssocFDERowCount
  bound : ∀ i, i < b.tables.fdeTableCount →
    (b.tables.fdeInfos i).rowPos + (b.tables.fdeInfos i).rowCount ≤ b.moduleAssocFDERowCount
  ordered : ∀ i j, i < j → j < b.tables.fdeTableCount →
    (b.tables.fdeInfos i).rowPos + (b.tables.fdeInfos i).rowCount ≤ (b.tables.fdeInfos j).rowPos

/-- The builder that the loop starts with. -/
def Builder.initial : Builder := { tables := { refCount := 1 } }

theorem Builder.valid_initial : Builder.initial.Valid where
  count := Nat.zero_le _
  limit := Nat.zero_le _
  bound i hi := absurd hi (Nat.not_lt_zero i)
  ordered _ j _ hj := absurd hj (Nat.not_lt_zero j)

theorem Builder.Valid.addFDE {order : ByteOrder} {b b' : Builder} {fde : FrameDescriptionEntry}
    (hb : b.Valid) (hroom : b.tables.fdeTableCount < maxPerModuleFDETableCount)
    (h : addFDE order b fde = .ok b') : b'.Valid := by
  obtain ⟨hext, hsame | ⟨hnext, hpos, rows, hstored⟩⟩ := addFDE_spec hroom hb.limit h
  · refine ⟨hsame ▸ hb.count, hext.limit, ?_, ?_⟩
    · intro i hi
      rw [hsame] at hi
      rw [hext.infos i hi]
      exact Nat.le_trans (hb.bound i hi) hext.rowCount
    · intro i j hij hj
      rw [hsame] at hj
      rw [hext.infos i (Nat.lt_trans hij hj), hext.infos j hj]
      exact hb.ordered i j hij hj
  · refine ⟨hnext ▸ hroom, hext.limit, ?_, ?_⟩
    · intro i hi
      rw [hnext] at hi
      obtain hi | rfl := Nat.lt_succ_iff_lt_or_eq.mp hi
      · rw [hext.infos i hi]
        exact Nat.le_trans (hb.bound i hi) hext.rowCount
      · exact hstored.bound
    · intro i j hij hj
      rw [hnext] at hj
      obtain hj | rfl := Nat.lt_succ_iff_lt_or_eq.mp hj
      · rw [hext.infos i (Nat.lt_trans hij hj), hext.infos j hj]
        exact hb.ordered i j hij hj
      · rw [hext.infos i hij, hpos]
        exact hb.bound i hij

theorem addFDEs_spec {order : ByteOrder} {fdes : List FrameDescriptionEntry} {b b' : Builder}
    (hb : b.Valid) (h : addFDEs order fdes b = .ok b') : b'.Valid ∧ b.Extends b' := by
  induction fdes generalizing b with
  | nil =>
      cases h
      exact ⟨hb, .refl hb.limit⟩
  | cons fde fdes ih =>
      rw [addFDEs] at h
      split at h
      · cases h
        exact ⟨hb, .refl hb.limit⟩
      · rename_i hroom
        obtain ⟨b₁, h₁, h₂⟩ := bind_eq_ok.mp h
        have hroom' := Nat.lt_of_not_le hroom
        obtain ⟨hvalid, hext⟩ := ih (hb.addFDE hroom' h₁) h₂
        exact ⟨hvalid, (addFDE_spec hroom' hb.limit h₁).1.trans hext⟩

/-! ## The committed FDEs -/

/-- `fde` is an element of the list that took the slot with the given info when the
loop came to it. -/
def CommittedAs (order : ByteOrder) (fdes : List FrameDescriptionEntry)
    (fde : FrameDescriptionEntry) (info : FdeTableInfo) : Prop :=
  ∃ before after b b', fdes = before ++ fde :: after ∧
    addFDEs order before Builder.initial = .ok b ∧
    b.tables.fdeTableCount < maxPerModuleFDETableCount ∧
    addFDE order b fde = .ok b' ∧
    b'.tables.fdeTableCount = b.tables.fdeTableCount + 1 ∧
    info = b'.tables.fdeInfos b.tables.fdeTableCount

/-- The finished tables hold a committed FDE in one of the slots in use. -/
theorem CommittedAs.stored {order : ByteOrder} {fdes : List FrameDescriptionEntry}
    {fde : FrameDescriptionEntry} {info : FdeTableInfo} {b : Builder}
    (hc : CommittedAs order fdes fde info) (h : addFDEs order fdes Builder.initial = .ok b) :
    (∃ i, i < b.tables.fdeTableCount ∧ b.tables.fdeInfos i = info) ∧
      ∃ rows, Stored order b fde info rows := by
  obtain ⟨before, after, b₀, b₁, rfl, hbefore, hroom, hstep, hcount, rfl⟩ := hc
  rw [addFDEs_append, hbefore, ok_bind, addFDEs, if_neg (Nat.not_le.mpr hroom), hstep,
    ok_bind] at h
  have hvalid := (addFDEs_spec Builder.valid_initial hbefore).1
  have hlast := (addFDEs_spec (hvalid.addFDE hroom hstep) h).2
  obtain ⟨-, hsame | ⟨-, -, rows, hstored⟩⟩ := addFDE_spec hroom hvalid.limit hstep
  · omega
  · refine ⟨⟨b₀.tables.fdeTableCount, ?_, ?_⟩, rows, hstored.mono hlast⟩
    · exact Nat.lt_of_lt_of_le (hcount ▸ Nat.lt_succ_self _) hlast.count
    · exact hlast.infos _ (hcount ▸ Nat.lt_succ_self _)

/-- Every slot in use was taken by an FDE of the list. -/
theorem exists_committedAs {order : ByteOrder} {fdes : List FrameDescriptionEntry} {b : Builder}
    (h : addFDEs order fdes Builder.initial = .ok b) (i : Nat) (hi : i < b.tables.fdeTableCount) :
    ∃ fde, CommittedAs order fdes fde (b.tables.fdeInfos i) := by
  induction fdes using List.reverseRecOn generalizing b with
  | nil =>
      cases h
      exact absurd hi (Nat.not_lt_zero i)
  | append_singleton fdes fde ih =>
      rw [addFDEs_append] at h
      obtain ⟨b₀, hbefore, h⟩ := bind_eq_ok.mp h
      have weaken {info : FdeTableInfo} (hex : ∃ f, CommittedAs order fdes f info) :
          ∃ f, CommittedAs order (fdes ++ [fde]) f info := by
        obtain ⟨f, before, after, b₁, b₂, rfl, rest⟩ := hex
        exact ⟨f, before, after ++ [fde], b₁, b₂, by simp, rest⟩
      rw [addFDEs] at h
      split at h
      · cases h
        exact weaken (ih hbefore hi)
      · rename_i hroom
        have hroom' := Nat.lt_of_not_le hroom
        obtain ⟨b₁, hstep, h⟩ := bind_eq_ok.mp h
        cases h
        have hvalid := (addFDEs_spec Builder.valid_initial hbefore).1
        obtain ⟨hext, hcases⟩ := addFDE_spec hroom' hvalid.limit hstep
        by_cases hold : i < b₀.tables.fdeTableCount
        · rw [hext.infos i hold]
          exact weaken (ih hbefore hold)
        · obtain hsame | ⟨hnext, -⟩ := hcases
          · omega
          · obtain rfl : i = b₀.tables.fdeTableCount := by omega
            exact ⟨fde, fdes, [], b₀, b, rfl, hbefore, hroom', hstep, hnext, rfl⟩

/-! ## FDEs that fit -/

theorem foldl_received_innerErr (rows : List ReceivedRow) (b : Builder)
    (herr : b.innerErr = none) (hregs : ∀ r ∈ rows, supportedReg r.cfa.reg = true)
    (hroom : b.moduleAssocFDERowCount + rows.length ≤ maxPerModuleAssocFDERowCount) :
    (rows.foldl received b).innerErr = none := by
  induction rows generalizing b with
  | nil => exact herr
  | cons r rows ih =>
      rw [List.length_cons] at hroom
      have hstep := received_of_supported herr (by omega) (hregs r List.mem_cons_self)
      rw [List.foldl_cons]
      apply ih
      · rw [hstep]
        exact herr
      · exact fun x hx => hregs x (List.mem_cons_of_mem r hx)
      · rw [hstep]
        change b.moduleAssocFDERowCount + 1 + rows.length ≤ _
        omega

/-- An FDE whose rows are supported and fit takes the next slot. -/
theorem addFDE_commits {order : ByteOrder} {b : Builder} {fde : FrameDescriptionEntry}
    {rows : List ReceivedRow} (hroom : b.tables.fdeTableCount < maxPerModuleFDETableCount)
    (hrun : fdeRows fde order = .ok rows) (hregs : ∀ r ∈ rows, supportedReg r.cfa.reg = true)
    (hrows : b.moduleAssocFDERowCount + rows.length ≤ maxPerModuleAssocFDERowCount) :
    ∃ b', addFDE order b fde = .ok b' ∧ b.Extends b' ∧
      b'.tables.fdeTableCount = b.tables.fdeTableCount + 1 ∧
      b'.moduleAssocFDERowCount = b.moduleAssocFDERowCount + rows.length ∧
      b'.tables.fdeInfos b.tables.fdeTableCount = infoOf fde b.moduleAssocFDERowCount rows := by
  have hlimit : b.moduleAssocFDERowCount ≤ maxPerModuleAssocFDERowCount := by omega
  have hnone := foldl_received_innerErr rows (b.openSlot fde) rfl hregs hrows
  have fold := foldl_received rows (b.openSlot fde) rfl hlimit
  obtain ⟨hcount, -⟩ := fold.accepted hnone
  have hslot := fold.openSlot_info hnone
  have hpos : 0 < rows.length := List.length_pos_iff.mpr (fdeRows_ne_nil hrun)
  have hext := (Builder.extends_openSlot fde hlimit).trans fold.extends_
  let b' := rows.foldl received (b.openSlot fde)
  refine ⟨{ b' with tables := { b'.tables with fdeTableCount := b.tables.fdeTableCount + 1 } },
    ?_, ⟨Nat.le_succ _, hext.rowCount, hext.limit, hext.infos, hext.rows, hext.refCount⟩, rfl,
    hcount, hslot⟩
  rw [addFDE_eq hroom, hrun]
  simp only [Except.map]
  rw [if_pos ⟨hnone, by rw [hslot]; exact hpos⟩]

/-- A list of FDEs that fits is committed whole, in its order. -/
theorem addFDEs_commits {order : ByteOrder} (run : FrameDescriptionEntry → List ReceivedRow)
    (fdes : List FrameDescriptionEntry) (b : Builder)
    (hrun : ∀ fde ∈ fdes, fdeRows fde order = .ok (run fde) ∧
      ∀ r ∈ run fde, supportedReg r.cfa.reg = true)
    (hcount : b.tables.fdeTableCount + fdes.length ≤ maxPerModuleFDETableCount)
    (hrows : b.moduleAssocFDERowCount + (fdes.map fun fde => (run fde).length).sum ≤
      maxPerModuleAssocFDERowCount) :
    ∃ b', addFDEs order fdes b = .ok b' ∧ b.Extends b' ∧
      b'.tables.fdeTableCount = b.tables.fdeTableCount + fdes.length ∧
      ∀ k (hk : k < fdes.length), ∃ pos,
        b'.tables.fdeInfos (b.tables.fdeTableCount + k) = infoOf fdes[k] pos (run fdes[k]) := by
  induction fdes generalizing b with
  | nil =>
      refine ⟨b, rfl, .refl (by omega), rfl, ?_⟩
      intro k hk
      exact absurd hk (Nat.not_lt_zero k)
  | cons fde fdes ih =>
      simp only [List.length_cons, List.map_cons, List.sum_cons] at hcount hrows
      have hroom : b.tables.fdeTableCount < maxPerModuleFDETableCount := by omega
      obtain ⟨hfde, hregs⟩ := hrun fde List.mem_cons_self
      obtain ⟨b₁, hstep, hext, hnext, hrow, hinfo⟩ := addFDE_commits hroom hfde hregs (by omega)
      obtain ⟨b₂, hrest, hext', hnext', hinfos⟩ := ih b₁
        (fun f hf => hrun f (List.mem_cons_of_mem fde hf)) (by omega) (by omega)
      refine ⟨b₂, ?_, hext.trans hext', by rw [hnext', hnext, List.length_cons]; omega, ?_⟩
      · rw [addFDEs, if_neg (Nat.not_le.mpr hroom), hstep, ok_bind, hrest]
      · intro k hk
        cases k with
        | zero =>
            refine ⟨b.moduleAssocFDERowCount, ?_⟩
            exact (hext'.infos _ (by omega)).trans hinfo
        | succ k =>
            obtain ⟨pos, hpos⟩ := hinfos k (Nat.lt_of_succ_lt_succ hk)
            refine ⟨pos, ?_⟩
            rw [hnext] at hpos
            simpa only [Nat.add_assoc, Nat.add_comm 1 k, List.getElem_cons_succ] using hpos

/-- The CIE that compilers emit for x86-64: `DW_CFA_def_cfa rsp, 8` and
`DW_CFA_offset ra, 1`. -/
def amd64CIE : CommonInformationEntry :=
  { codeAlignmentFactor := 1
    dataAlignmentFactor := -8
    returnAddressRegister := 16
    initialInstructions := [0x0c, 7, 8, 0x90, 1] }

/-- The context behind `amd64CIE`. -/
def amd64Frame : FrameContext :=
  { cfa := { rule := .cfa, reg := 7, offset := 8 }
    regs := Regs.set (fun _ => none) 16 { offset := -8, rule := .offset }
    buf := []
    retAddrReg := 16
    codeAlignment := 1
    dataAlignment := -8 }

theorem executeCIEInstructions_amd64CIE : executeCIEInstructions amd64CIE = .ok amd64Frame := by
  have hoffset : (1 : UInt64).toInt64 * -8 = (-8 : Int64) := by decide
  change Except.ok { amd64Frame with
    regs := Regs.set (fun _ => none) 16 { offset := (1 : UInt64).toInt64 * -8, rule := .offset } } =
      Except.ok amd64Frame
  rw [hoffset]
  rfl

/-! ## An FDE with a row for each address -/

/-- The location moves by one byte `n` times. -/
def steppingFDE (begin_ : UInt64) (n : Nat) : FrameDescriptionEntry :=
  { cie := amd64CIE, instructions := .replicate n 0x41, begin_, size := .ofNat (n + 1) }

def steppingRow (loc : UInt64) : ReceivedRow := amd64Frame.row loc

/-- The context in front of the last `n` instructions. -/
def steppingFrame (order : ByteOrder) (loc : UInt64) (n : Nat) : FrameContext :=
  { amd64Frame with order := some order, loc, buf := .replicate n 0x41 }

theorem rowsFrom_steppingFrame (order : ByteOrder) (n : Nat) (loc : UInt64) :
    rowsFrom n (steppingFrame order loc n) loc =
      .ok (steppingFrame order (loc + .ofNat n) 0, loc + .ofNat n,
        (List.range n).map fun k => steppingRow (loc + .ofNat k)) := by
  induction n generalizing loc with
  | zero =>
      have hloc : loc + UInt64.ofNat 0 = loc := UInt64.add_zero loc
      rw [hloc]
      rfl
  | succ n ih =>
      have hstep : executeDwarfInstruction (steppingFrame order loc (n + 1)) =
          .ok (steppingFrame order (loc + 1) n) := rfl
      have hne : loc + 1 ≠ loc := by simp
      have hnext (k : Nat) : loc + 1 + UInt64.ofNat k = loc + UInt64.ofNat (k + 1) := by
        rw [UInt64.add_assoc, Nat.add_comm k, UInt64.ofNat_add]
        rfl
      have hbuf : (steppingFrame order loc (n + 1)).buf ≠ [] := List.cons_ne_nil _ _
      have hmoved : (steppingFrame order (loc + 1) n).loc ≠ loc := hne
      rw [rowsFrom, if_neg hbuf, hstep, ok_bind, if_pos hmoved]
      change (rowsFrom n (steppingFrame order (loc + 1) n) (loc + 1)).bind _ = _
      rw [ih, List.range_succ_eq_map, List.map_cons, List.map_map]
      simp only [hnext, Function.comp_def]
      have hloc : loc + UInt64.ofNat 0 = loc := UInt64.add_zero loc
      rw [hloc]
      rfl

theorem fdeRows_steppingFDE (order : ByteOrder) (begin_ : UInt64) (n : Nat) :
    fdeRows (steppingFDE begin_ n) order =
      .ok ((List.range (n + 1)).map fun k => steppingRow (begin_ + .ofNat k)) := by
  have hstart : startFDE (steppingFDE begin_ n) order = .ok (steppingFrame order begin_ n) := by
    rw [startFDE]
    change (executeCIEInstructions amd64CIE).bind _ = _
    rw [executeCIEInstructions_amd64CIE]
    rfl
  have hlength : (steppingFDE begin_ n).instructions.length = n := List.length_replicate
  rw [fdeRows, hstart, ok_bind, hlength]
  change (rowsFrom n (steppingFrame order begin_ n) begin_).bind _ = _
  rw [rowsFrom_steppingFrame, List.range_succ, List.map_append]
  rfl

end XMonitor.Frame
