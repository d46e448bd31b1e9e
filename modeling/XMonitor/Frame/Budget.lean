import Mathlib.Data.List.TakeWhile
import XMonitor.Frame.TableInvariant
import XMonitor.Lib.GreedyBudget

/-!
# Rejected FDEs and the row budget

An FDE whose CFA is in a register other than `rsp` and `rbp` is rejected at the first such
row. The rows before it stay counted, and so take part of the 46080 rows of the module. Here
the tables are compared with those of the list without the FDEs that are rejected in this
way: all FDEs are charged for their rows, in their order.
-/

namespace XMonitor

/-- The address ranges and rows of the tables in use, in slot order. -/
def ModuleFdeTables.contents (t : ModuleFdeTables) : List (UInt64 × UInt64 × List FdeTableRow) :=
  t.infos.map fun info => (info.start, info.end_, t.rowsOf info)

namespace Frame

open ExceptRules GreedyBudget

/-- The rows that the callback receives, if the FDE does not panic. -/
def FrameDescriptionEntry.rows (fde : FrameDescriptionEntry) (order : ByteOrder) :
    List ReceivedRow :=
  (fdeRows fde order).toOption.getD []

def rowSupported (r : ReceivedRow) : Bool := supportedReg r.cfa.reg

/-- The CFA of each row is in a supported register. -/
def FrameDescriptionEntry.Supported (order : ByteOrder) (fde : FrameDescriptionEntry) : Prop :=
  ∀ r ∈ fde.rows order, rowSupported r = true

instance (order : ByteOrder) : DecidablePred (FrameDescriptionEntry.Supported order) :=
  fun fde => inferInstanceAs (Decidable (∀ r ∈ fde.rows order, rowSupported r = true))

/-- The rows up to the first one that is not supported: what the FDE adds to the counter, as
long as there is room. -/
def FrameDescriptionEntry.cost (order : ByteOrder) (fde : FrameDescriptionEntry) : Nat :=
  ((fde.rows order).takeWhile rowSupported).length

/-- What a committed FDE adds to the tables. -/
def FrameDescriptionEntry.content (order : ByteOrder) (fde : FrameDescriptionEntry) :
    UInt64 × UInt64 × List FdeTableRow :=
  (fde.begin_, fde.end_, (fde.rows order).map tableRow)

/-- The last FDE was rejected because of the register of its CFA. -/
def Builder.rejectedReg (b : Builder) : Bool :=
  match b.innerErr with
  | some (.invalidReg _) => true
  | _ => false

/-- The list without the FDEs that the loop rejects because of a register. Those that it
does not come to stay. -/
def dropRejected (order : ByteOrder) : List FrameDescriptionEntry → Builder →
    Except Panic (List FrameDescriptionEntry)
  | [], _ => .ok []
  | fde :: fdes, b =>
    if b.tables.fdeTableCount ≥ maxPerModuleFDETableCount then .ok (fde :: fdes)
    else do
      let b ← addFDE order b fde
      let fdes ← dropRejected order fdes b
      return if b.rejectedReg then fdes else fde :: fdes

/-! ## One FDE -/

section

variable {order : ByteOrder} {fde : FrameDescriptionEntry}

theorem rows_eq {rows : List ReceivedRow} (h : fdeRows fde order = .ok rows) :
    fde.rows order = rows := by
  rw [FrameDescriptionEntry.rows, h]
  rfl

/-- How the counter and the error come out of the callbacks of one FDE. -/
theorem foldl_received_budget (rows : List ReceivedRow) (b : Builder) (herr : b.innerErr = none)
    (hlimit : b.moduleAssocFDERowCount ≤ maxPerModuleAssocFDERowCount) :
    (rows.foldl received b).moduleAssocFDERowCount =
        min (b.moduleAssocFDERowCount +
          (rows.takeWhile rowSupported).length) maxPerModuleAssocFDERowCount ∧
      ((rows.foldl received b).innerErr = none ↔
        (∀ r ∈ rows, rowSupported r = true) ∧
          b.moduleAssocFDERowCount + (rows.takeWhile rowSupported).length ≤
            maxPerModuleAssocFDERowCount) ∧
      ((rows.foldl received b).rejectedReg = true ↔
        ¬ (∀ r ∈ rows, rowSupported r = true) ∧
          b.moduleAssocFDERowCount + (rows.takeWhile rowSupported).length <
            maxPerModuleAssocFDERowCount) := by
  induction rows generalizing b with
  | nil =>
      have hnone : ∀ r ∈ ([] : List ReceivedRow), rowSupported r = true :=
        fun r hr => absurd hr List.not_mem_nil
      refine ⟨(Nat.min_eq_left hlimit).symm, iff_of_true herr ⟨hnone, hlimit⟩, ?_⟩
      rw [List.foldl_nil, Builder.rejectedReg, herr]
      exact iff_of_false Bool.false_ne_true fun h => h.1 hnone
  | cons r rows ih =>
      rw [List.foldl_cons]
      obtain hfull | hroom := Nat.eq_or_lt_of_le hlimit
      · have hstep : received b r = { b with innerErr := some .rowCountExceedsLimit } := by
          rw [received, if_neg (by simp [herr]), if_pos (Nat.le_of_eq hfull.symm)]
        rw [hstep, foldl_received_of_innerErr rfl]
        refine ⟨?_, iff_of_false (Option.some_ne_none _) ?_,
          iff_of_false Bool.false_ne_true fun h => ?_⟩
        · change b.moduleAssocFDERowCount = _
          omega
        · rintro ⟨hregs, hle⟩
          rw [List.takeWhile_cons_of_pos (hregs r List.mem_cons_self), List.length_cons] at hle
          omega
        · have := h.2
          omega
      · cases hreg : rowSupported r with
        | true =>
            have hstep := received_of_supported herr hroom hreg
            obtain ⟨hcount, hnone, hrejected⟩ := ih (received b r) (by rw [hstep]; exact herr)
              (by rw [hstep]; exact hroom)
            have hnext : (received b r).moduleAssocFDERowCount = b.moduleAssocFDERowCount + 1 := by
              rw [hstep]
            rw [hcount, hnone, hrejected, hnext, List.takeWhile_cons_of_pos hreg,
              List.length_cons, List.forall_mem_cons, and_iff_right hreg, Nat.add_assoc,
              Nat.add_comm 1]
            exact ⟨rfl, Iff.rfl, Iff.rfl⟩
        | false =>
            have hreg' : supportedReg r.cfa.reg = false := hreg
            have hstep : (received b r).moduleAssocFDERowCount = b.moduleAssocFDERowCount ∧
                (received b r).innerErr = some (.invalidReg r.cfa.reg) := by
              rw [received, if_neg (by simp [herr]), if_neg (Nat.not_le.mpr hroom), if_pos hreg']
              exact ⟨rfl, rfl⟩
            have hbad : ¬ ∀ x ∈ r :: rows, rowSupported x = true := fun h =>
              Bool.false_ne_true (hreg.symm.trans (h r List.mem_cons_self))
            rw [foldl_received_of_innerErr (by rw [hstep.2]; rfl), hstep.1, Builder.rejectedReg,
              hstep.2, List.takeWhile_cons_of_neg (by rw [hreg]; exact Bool.false_ne_true), List.length_nil,
              Nat.add_zero]
            exact ⟨(Nat.min_eq_left hlimit).symm,
              iff_of_false (Option.some_ne_none _) fun h => hbad h.1,
              iff_of_true rfl ⟨hbad, hroom⟩⟩

/-- What the callbacks of one FDE make of the rows that have been spent before it. -/
theorem openSlot_budget {b : Builder} {spent : Nat} {rows : List ReceivedRow}
    (hspent : b.moduleAssocFDERowCount = min spent maxPerModuleAssocFDERowCount)
    (hrun : fdeRows fde order = .ok rows) :
    (rows.foldl received (b.openSlot fde)).moduleAssocFDERowCount =
        min (spent + fde.cost order) maxPerModuleAssocFDERowCount ∧
      ((rows.foldl received (b.openSlot fde)).innerErr = none ↔
        fde.Supported order ∧ spent + fde.cost order ≤ maxPerModuleAssocFDERowCount) ∧
      ((rows.foldl received (b.openSlot fde)).rejectedReg = true ↔
        ¬ fde.Supported order ∧ spent + fde.cost order < maxPerModuleAssocFDERowCount) := by
  have hlimit : b.moduleAssocFDERowCount ≤ maxPerModuleAssocFDERowCount := by
    rw [hspent]
    exact Nat.min_le_right _ _
  have hsupported : fde.Supported order ↔ ∀ r ∈ rows, rowSupported r = true := by
    rw [FrameDescriptionEntry.Supported, rows_eq hrun]
  have hcost : fde.cost order = (rows.takeWhile rowSupported).length := by
    rw [FrameDescriptionEntry.cost, rows_eq hrun]
  obtain ⟨hcount, hnone, hrejected⟩ := foldl_received_budget rows (b.openSlot fde) rfl hlimit
  have hopen : (b.openSlot fde).moduleAssocFDERowCount = b.moduleAssocFDERowCount := rfl
  rw [hcount, hnone, hrejected, hopen, ← hsupported, ← hcost, hspent]
  refine ⟨?_, and_congr_right fun hgood => ?_, and_congr_right fun _ => ?_⟩
  · omega
  · -- an FDE without unsupported rows has a row that costs something
    have hpos : 0 < fde.cost order := by
      rw [hcost, List.takeWhile_eq_self_iff.mpr (hsupported.mp hgood)]
      exact List.length_pos_iff.mpr (fdeRows_ne_nil hrun)
    omega
  · omega

/-- One FDE is charged for its rows, and takes a slot if they are all supported and fit. -/
theorem addFDE_budget {b b' : Builder} {spent : Nat}
    (hroom : b.tables.fdeTableCount < maxPerModuleFDETableCount)
    (hspent : b.moduleAssocFDERowCount = min spent maxPerModuleAssocFDERowCount)
    (h : addFDE order b fde = .ok b') :
    b'.moduleAssocFDERowCount = min (spent + fde.cost order) maxPerModuleAssocFDERowCount ∧
      b'.tables.fdeTableCount = b.tables.fdeTableCount +
        (if fde.Supported order ∧ spent + fde.cost order ≤ maxPerModuleAssocFDERowCount then 1
          else 0) ∧
      (b'.rejectedReg = true ↔
        ¬ fde.Supported order ∧ spent + fde.cost order < maxPerModuleAssocFDERowCount) := by
  have hlimit : b.moduleAssocFDERowCount ≤ maxPerModuleAssocFDERowCount := by
    rw [hspent]
    exact Nat.min_le_right _ _
  rw [addFDE_eq hroom] at h
  cases hrun : fdeRows fde order with
  | error e =>
      rw [hrun] at h
      cases h
  | ok rows =>
      rw [hrun] at h
      simp only [Except.map, Except.ok.injEq] at h
      obtain ⟨hcount, hcommits, hrejected⟩ := openSlot_budget hspent hrun
      have hfilled := foldl_received rows (b.openSlot fde) rfl hlimit
      by_cases hok : (rows.foldl received (b.openSlot fde)).innerErr = none
      · have hslot : ((rows.foldl received (b.openSlot fde)).tables.fdeInfos
            b.tables.fdeTableCount).rowCount > 0 := by
          rw [hfilled.openSlot_info hok]
          exact List.length_pos_iff.mpr (fdeRows_ne_nil hrun)
        rw [if_pos ⟨hok, hslot⟩] at h
        subst h
        rw [if_pos (hcommits.mp hok)]
        exact ⟨hcount, rfl, hrejected⟩
      · rw [if_neg fun hboth => hok hboth.1] at h
        subst h
        rw [if_neg fun hboth => hok (hcommits.mpr hboth)]
        exact ⟨hcount, hfilled.slot, hrejected⟩

/-- A committed FDE adds its content behind that of the others. -/
theorem addFDE_contents {b b' : Builder} {spent : Nat} (hb : b.Valid)
    (hroom : b.tables.fdeTableCount < maxPerModuleFDETableCount)
    (hspent : b.moduleAssocFDERowCount = min spent maxPerModuleAssocFDERowCount)
    (h : addFDE order b fde = .ok b') :
    b'.tables.contents = b.tables.contents ++
      (if fde.Supported order ∧ spent + fde.cost order ≤ maxPerModuleAssocFDERowCount then
        [fde.content order] else []) := by
  obtain ⟨-, hcount, -⟩ := addFDE_budget hroom hspent h
  obtain ⟨hext, hcases⟩ := addFDE_spec hroom hb.limit h
  have hold : (List.range b.tables.fdeTableCount).map (fun i =>
      ((b'.tables.fdeInfos i).start, (b'.tables.fdeInfos i).end_,
        b'.tables.rowsOf (b'.tables.fdeInfos i))) = b.tables.contents := by
    rw [ModuleFdeTables.contents, ModuleFdeTables.infos, List.map_map]
    apply List.map_congr_left
    intro i hi
    rw [List.mem_range] at hi
    have hrows : b'.tables.rowsOf (b.tables.fdeInfos i) =
        b.tables.rowsOf (b.tables.fdeInfos i) := by
      apply List.map_congr_left
      intro k hk
      rw [List.mem_range] at hk
      have hbound := hb.bound i hi
      exact hext.rows _ (by omega)
    rw [hext.infos i hi, hrows]
    rfl
  obtain hsame | ⟨hnext, -, rows, hstored⟩ := hcases
  · rw [hsame] at hcount
    have hnot : ¬ (fde.Supported order ∧
        spent + fde.cost order ≤ maxPerModuleAssocFDERowCount) := by
      intro hcommit
      rw [if_pos hcommit] at hcount
      omega
    rw [if_neg hnot, List.append_nil, ← hold, ModuleFdeTables.contents, ModuleFdeTables.infos,
      hsame, List.map_map]
    rfl
  · rw [hnext] at hcount
    have hcommit : fde.Supported order ∧
        spent + fde.cost order ≤ maxPerModuleAssocFDERowCount := by
      by_contra hnot
      rw [if_neg hnot] at hcount
      omega
    rw [if_pos hcommit, ← hold, ModuleFdeTables.contents, ModuleFdeTables.infos, hnext,
      List.range_succ, List.map_append, List.map_append, List.map_map]
    congr 1
    rw [List.map_cons, List.map_cons, List.map_nil, List.map_nil, hstored.stored, hstored.shape,
      FrameDescriptionEntry.content, rows_eq hstored.run]
    rfl

end

/-! ## The whole list -/

section

variable {order : ByteOrder} {fdes : List FrameDescriptionEntry} {b b' : Builder} {spent : Nat}

/-- The FDEs that are committed. -/
abbrev committedFDEs (order : ByteOrder) (fdes : List FrameDescriptionEntry) (spent count : Nat) :
    List FrameDescriptionEntry :=
  taken (FrameDescriptionEntry.cost order) (FrameDescriptionEntry.Supported order)
    maxPerModuleAssocFDERowCount maxPerModuleFDETableCount fdes spent count

abbrev keptFDEs (order : ByteOrder) (fdes : List FrameDescriptionEntry) (spent count : Nat) :
    List FrameDescriptionEntry :=
  withoutRejected (FrameDescriptionEntry.cost order) (FrameDescriptionEntry.Supported order)
    maxPerModuleAssocFDERowCount maxPerModuleFDETableCount fdes spent count

theorem addFDEs_contents (hb : b.Valid)
    (hspent : b.moduleAssocFDERowCount = min spent maxPerModuleAssocFDERowCount)
    (h : addFDEs order fdes b = .ok b') :
    b'.tables.contents = b.tables.contents ++
      (committedFDEs order fdes spent b.tables.fdeTableCount).map
        (FrameDescriptionEntry.content order) := by
  induction fdes generalizing b spent with
  | nil =>
      cases h
      exact (List.append_nil _).symm
  | cons fde fdes ih =>
      rw [addFDEs] at h
      rw [committedFDEs, taken]
      split at h
      · rename_i hfull
        cases h
        rw [if_pos hfull]
        exact (List.append_nil _).symm
      · rename_i hroom
        obtain ⟨b₁, hstep, h⟩ := bind_eq_ok.mp h
        have hroom' := Nat.lt_of_not_le hroom
        obtain ⟨hrows, hcount, -⟩ := addFDE_budget hroom' hspent hstep
        rw [ih (hb.addFDE hroom' hstep) hrows h, addFDE_contents hb hroom' hspent hstep,
          if_neg hroom, hcount]
        split
        · rw [List.map_cons, List.append_assoc, List.singleton_append]
        · rw [List.append_nil, Nat.add_zero]

theorem add_ite_of_supported {fde : FrameDescriptionEntry} (h : fde.Supported order) (n : Nat) :
    (n + if fde.Supported order ∧ spent + fde.cost order ≤ maxPerModuleAssocFDERowCount then 1
        else 0) =
      if spent + fde.cost order ≤ maxPerModuleAssocFDERowCount then n + 1 else n := by
  simp only [h, true_and]
  split <;> rfl

theorem dropRejected_eq (hspent : b.moduleAssocFDERowCount = min spent maxPerModuleAssocFDERowCount)
    (h : addFDEs order fdes b = .ok b') :
    dropRejected order fdes b = .ok (keptFDEs order fdes spent b.tables.fdeTableCount) := by
  induction fdes generalizing b spent with
  | nil => rfl
  | cons fde fdes ih =>
      rw [addFDEs] at h
      rw [dropRejected, keptFDEs, withoutRejected]
      split at h
      · rename_i hfull
        rw [if_pos hfull, if_pos hfull]
      · rename_i hroom
        obtain ⟨b₁, hstep, h⟩ := bind_eq_ok.mp h
        obtain ⟨hrows, hcount, hrejected⟩ := addFDE_budget (Nat.lt_of_not_le hroom) hspent hstep
        rw [if_neg hroom, if_neg hroom, hstep, ok_bind, ih hrows h, ok_bind, hcount]
        by_cases hgood : fde.Supported order
        · have hkeep : ¬ b₁.rejectedReg = true := fun hr => (hrejected.mp hr).1 hgood
          rw [if_neg hkeep, if_pos hgood, keptFDEs, add_ite_of_supported hgood]
          rfl
        · have hcount' : ¬ (fde.Supported order ∧
              spent + fde.cost order ≤ maxPerModuleAssocFDERowCount) := fun hc => hgood hc.1
          rw [if_neg hgood, if_neg hcount', Nat.add_zero]
          by_cases hbelow : spent + fde.cost order < maxPerModuleAssocFDERowCount
          · rw [if_pos (hrejected.mpr ⟨hgood, hbelow⟩), if_pos hbelow]
            rfl
          · rw [if_neg fun hr => hbelow (hrejected.mp hr).2, if_neg hbelow]
            rfl

theorem exists_addFDE {c : Builder} {fde : FrameDescriptionEntry}
    (hb : b.tables.fdeTableCount < maxPerModuleFDETableCount)
    (hc : c.tables.fdeTableCount < maxPerModuleFDETableCount) (h : addFDE order b fde = .ok b') :
    ∃ c', addFDE order c fde = .ok c' := by
  rw [addFDE_eq hb] at h
  rw [addFDE_eq hc]
  cases hrun : fdeRows fde order with
  | error e =>
      rw [hrun] at h
      cases h
  | ok rows => exact ⟨_, rfl⟩

/-- The list without the rejected FDEs does not panic either. -/
theorem addFDEs_keptFDEs {c : Builder} {kept : Nat}
    (hspent : b.moduleAssocFDERowCount = min spent maxPerModuleAssocFDERowCount)
    (hkept : c.moduleAssocFDERowCount = min kept maxPerModuleAssocFDERowCount)
    (hle : kept ≤ spent) (hcount : b.tables.fdeTableCount ≤ c.tables.fdeTableCount)
    (h : addFDEs order fdes b = .ok b') :
    ∃ c', addFDEs order (keptFDEs order fdes spent b.tables.fdeTableCount) c = .ok c' := by
  induction fdes generalizing b c spent kept with
  | nil => exact ⟨c, rfl⟩
  | cons fde fdes ih =>
      rw [addFDEs] at h
      rw [keptFDEs, withoutRejected]
      split at h
      · rename_i hfull
        rw [if_pos hfull, addFDEs, if_pos (Nat.le_trans hfull hcount)]
        exact ⟨c, rfl⟩
      · rename_i hroom
        obtain ⟨b₁, hstep, h⟩ := bind_eq_ok.mp h
        have hroom' := Nat.lt_of_not_le hroom
        obtain ⟨hrows, hnext, -⟩ := addFDE_budget hroom' hspent hstep
        rw [if_neg hroom]
        -- the FDE is kept, and run here as well unless the tables are full
        have hkeep : ∃ c', addFDEs order
            (fde :: keptFDEs order fdes (spent + fde.cost order) b₁.tables.fdeTableCount) c =
              .ok c' := by
          rw [addFDEs]
          split
          · exact ⟨c, rfl⟩
          · rename_i hroom₂
            obtain ⟨c₁, hstep₁⟩ := exists_addFDE hroom' (Nat.lt_of_not_le hroom₂) hstep
            obtain ⟨hrows₁, hnext₁, -⟩ := addFDE_budget (Nat.lt_of_not_le hroom₂) hkept hstep₁
            rw [hstep₁, ok_bind]
            refine ih hrows hrows₁ (Nat.add_le_add_right hle _) ?_ h
            rw [hnext, hnext₁]
            refine Nat.add_le_add hcount ?_
            split
            · rename_i hcommit
              rw [if_pos ⟨hcommit.1, by omega⟩]
            · exact Nat.zero_le _
        by_cases hgood : fde.Supported order
        · rw [hnext, keptFDEs, add_ite_of_supported hgood] at hkeep
          rw [if_pos hgood]
          exact hkeep
        · have hsame : b₁.tables.fdeTableCount = b.tables.fdeTableCount := by
            rw [hnext, if_neg fun hc => hgood hc.1, Nat.add_zero]
          rw [hsame] at hkeep
          rw [if_neg hgood]
          split
          · have hskip := ih hrows hkept (by omega) (by rw [hsame]; exact hcount) h
            rwa [hsame] at hskip
          · exact hkeep

end

theorem contents_sortInfos (S : SortFunc startLess) (t : ModuleFdeTables) :
    (sortInfos S t).contents.Perm t.contents := by
  rw [ModuleFdeTables.contents, infos_sortInfos]
  exact (S.perm t.infos).map _

/-- Deleting the FDEs that are rejected because of a register leaves the committed FDEs and
their rows as they are. -/
def RejectedUnnoticed (S : SortFunc startLess) (order : ByteOrder)
    (fdes : List FrameDescriptionEntry) (t : ModuleFdeTables) : Prop :=
  ∃ fdes' t', dropRejected order fdes Builder.initial = .ok fdes' ∧
    createModuleFDETables S order fdes' = .ok t' ∧ t'.contents.Perm t.contents

/-- Each supported FDE among the first 8192 that fits without the rows of the rejected ones
fits with them. -/
def NonePushedOut (order : ByteOrder) (fdes : List FrameDescriptionEntry) : Prop :=
  ∀ before fde after, fdes = before ++ fde :: after → fde.Supported order →
    (before.filter (FrameDescriptionEntry.Supported order)).length < maxPerModuleFDETableCount →
    spentWithout (FrameDescriptionEntry.cost order) (FrameDescriptionEntry.Supported order)
        maxPerModuleAssocFDERowCount before 0 0 + fde.cost order ≤ maxPerModuleAssocFDERowCount →
      (before.map (FrameDescriptionEntry.cost order)).sum + fde.cost order ≤
        maxPerModuleAssocFDERowCount

section

variable {S : SortFunc startLess} {order : ByteOrder} {fdes : List FrameDescriptionEntry}
  {t : ModuleFdeTables}

theorem initial_spent :
    Builder.initial.moduleAssocFDERowCount = min 0 maxPerModuleAssocFDERowCount := rfl

theorem createModuleFDETables_contents (h : createModuleFDETables S order fdes = .ok t) :
    t.contents.Perm ((committedFDEs order fdes 0 0).map (FrameDescriptionEntry.content order)) := by
  obtain ⟨b, hb, rfl⟩ := createModuleFDETables_eq_ok.mp h
  have hcontents := addFDEs_contents Builder.valid_initial initial_spent hb
  exact (contents_sortInfos S b.tables).trans (.of_eq hcontents)

theorem rejectedUnnoticed_iff_committed (h : createModuleFDETables S order fdes = .ok t) :
    RejectedUnnoticed S order fdes t ↔
      committedFDEs order (keptFDEs order fdes 0 0) 0 0 = committedFDEs order fdes 0 0 := by
  obtain ⟨b, hb, -⟩ := createModuleFDETables_eq_ok.mp h
  have hdrop : dropRejected order fdes Builder.initial = .ok (keptFDEs order fdes 0 0) :=
    dropRejected_eq initial_spent hb
  constructor
  · rintro ⟨fdes', t', hdrop', ht', hperm⟩
    cases hdrop.symm.trans hdrop'
    have hlength := ((createModuleFDETables_contents ht').symm.trans
      (hperm.trans (createModuleFDETables_contents h))).length_eq
    rw [List.length_map, List.length_map] at hlength
    exact ((taken_isPrefix_taken fdes (Nat.le_refl 0)).eq_of_length hlength.symm).symm
  · intro heq
    obtain ⟨c, hc⟩ := addFDEs_keptFDEs initial_spent initial_spent (Nat.le_refl 0)
      (Nat.le_refl _) hb
    have ht' : createModuleFDETables S order (keptFDEs order fdes 0 0) =
        .ok (sortInfos S c.tables) := createModuleFDETables_eq_ok.mpr ⟨c, hc, rfl⟩
    refine ⟨_, _, hdrop, ht', (createModuleFDETables_contents ht').trans ?_⟩
    rw [heq]
    exact (createModuleFDETables_contents h).symm

theorem committed_keptFDEs_iff :
    committedFDEs order (keptFDEs order fdes 0 0) 0 0 = committedFDEs order fdes 0 0 ↔
      NonePushedOut order fdes := by
  rw [committedFDEs, committedFDEs, keptFDEs, taken_withoutRejected_iff fdes (Nat.le_refl 0)]
  simp only [Nat.zero_add]
  rfl

end

theorem rejectedUnnoticed_iff (S : SortFunc startLess) (order : ByteOrder)
    (fdes : List FrameDescriptionEntry) (t : ModuleFdeTables)
    (h : createModuleFDETables S order fdes = .ok t) :
    RejectedUnnoticed S order fdes t ↔ NonePushedOut order fdes :=
  (rejectedUnnoticed_iff_committed h).trans committed_keptFDEs_iff

/-- Lists whose rows fit, those of rejected FDEs included. -/
theorem nonePushedOut_of_fits {order : ByteOrder} {fdes : List FrameDescriptionEntry}
    (h : (fdes.map (FrameDescriptionEntry.cost order)).sum ≤ maxPerModuleAssocFDERowCount) :
    NonePushedOut order fdes := by
  rintro before fde after rfl - - -
  rw [List.map_append, List.sum_append, List.map_cons, List.sum_cons] at h
  omega

/-! A function whose second row has its CFA in another register. -/

def leakingFDE : FrameDescriptionEntry :=
  { cie := amd64CIE, instructions := [0x41, 0x0d, 0], begin_ := 0x1000, size := 16 }

theorem leakingFDE_rows : ∃ rows, fdeRows leakingFDE .littleEndian = .ok rows ∧
    leakingFDE.cost .littleEndian = 1 ∧ ¬ leakingFDE.Supported .littleEndian :=
  ⟨_, rfl, rfl, by decide⟩

theorem steppingFDE_supported (begin_ : UInt64) (n : Nat) :
    (steppingFDE begin_ n).Supported .littleEndian ∧
      (steppingFDE begin_ n).cost .littleEndian = n + 1 := by
  have hrows := rows_eq (fdeRows_steppingFDE .littleEndian begin_ n)
  have hgood : (steppingFDE begin_ n).Supported .littleEndian := by
    intro r hr
    rw [hrows] at hr
    obtain ⟨k, -, rfl⟩ := List.mem_map.mp hr
    rfl
  refine ⟨hgood, ?_⟩
  rw [FrameDescriptionEntry.cost, List.takeWhile_eq_self_iff.mpr hgood, hrows, List.length_map,
    List.length_range]

/-- The rejected function in front of one with `n + 1` rows. -/
def leakingFDEs (n : Nat) : List FrameDescriptionEntry := [leakingFDE, steppingFDE 0x2000 n]

theorem exists_leakingFDEs (n : Nat) :
    ∃ t, createModuleFDETables stableSort .littleEndian (leakingFDEs n) = .ok t := by
  apply createModuleFDETables_of_rows
  rw [leakingFDEs, List.forall_mem_cons, List.forall_mem_singleton]
  obtain ⟨rows, hrows, -⟩ := leakingFDE_rows
  exact ⟨⟨rows, hrows⟩, ⟨_, fdeRows_steppingFDE .littleEndian 0x2000 n⟩⟩

/-- In a small module the row of the rejected function does no harm. -/
theorem leak_unnoticed : ∃ t,
    createModuleFDETables stableSort .littleEndian (leakingFDEs 0) = .ok t ∧
      RejectedUnnoticed stableSort .littleEndian (leakingFDEs 0) t := by
  obtain ⟨t, ht⟩ := exists_leakingFDEs 0
  refine ⟨t, ht, (rejectedUnnoticed_iff _ _ _ t ht).mpr (nonePushedOut_of_fits ?_)⟩
  obtain ⟨rows, -, hcost, -⟩ := leakingFDE_rows
  simp only [leakingFDEs, List.map_cons, List.map_nil, List.sum_cons, List.sum_nil, hcost,
    (steppingFDE_supported 0x2000 0).2]
  decide

/-- It pushes a function of 46080 rows out. -/
theorem leak_noticed : ¬ ∀ S order fdes t, createModuleFDETables S order fdes = .ok t →
    RejectedUnnoticed S order fdes t := by
  intro hclaim
  obtain ⟨t, ht⟩ := exists_leakingFDEs 46079
  obtain ⟨rows, -, hcost, hbad⟩ := leakingFDE_rows
  obtain ⟨hgood, hcost'⟩ := steppingFDE_supported 0x2000 46079
  have hnone := committed_keptFDEs_iff.mp
    ((rejectedUnnoticed_iff_committed ht).mp (hclaim _ _ _ t ht))
  have hfits := hnone [leakingFDE] (steppingFDE 0x2000 46079) [] rfl hgood (by
    rw [List.filter_cons_of_neg (by simpa using hbad)]
    decide) (by
    rw [spentWithout, if_pos ⟨hbad, by rw [hcost]; decide⟩, hcost']
    decide)
  rw [hcost', List.map_singleton, List.sum_singleton, hcost] at hfits
  exact absurd hfits (by decide)

end Frame

end XMonitor
