import XMonitor.Utils.ArlPointers

/-!
# The pointers do what the list does

Each function on the pointers returns, and what it leaves in memory is the list that the
function of the same name leaves. `arl_begin` is the one with a loop: `sweep_stores` is by
induction on the entries that are left, behind those that it has passed.
-/

namespace XMonitor

open IntrusiveList

variable {δ π : Type} {h : ArlHeap δ π} {xs : List (Nat × ArlData δ π)}

theorem ArlHeap.Stores.nextAddress_notMem (hs : h.Stores xs) : h.nextAddress ∉ addresses xs :=
  fun hmem => Nat.lt_irrefl _ (hs.fresh _ hmem)

/-- A new entry is in memory, and not yet in the list. -/
theorem ArlHeap.Stores.alloc (hs : h.Stores xs) (d : ArlData δ π) :
    IsList (h.alloc d).cells h.head xs ∧
      (h.alloc d).cells h.nextAddress = some ⟨none, none, d⟩ ∧
      ∀ a ∉ h.nextAddress :: addresses xs, (h.alloc d).cells a = none := by
  refine ⟨hs.isList.congr fun a ha => ?_, Function.update_self _ _ _, fun a ha => ?_⟩
  · apply Function.update_of_ne
    rintro rfl
    exact hs.nextAddress_notMem ha
  · rw [List.mem_cons, not_or] at ha
    exact (Function.update_of_ne ha.1 _ _).trans (hs.live a ha.2)

theorem ArlHeap.Stores.expectCustom (hs : h.Stores xs) (hp : h.Points xs) (keyword : CString)
    (processor : Option π) (dst : Option δ) :
    ∃ h' xs', h.expectCustom keyword processor dst = some h' ∧ h'.Stores xs' ∧ h'.Points xs' ∧
      h'.processor = h.processor ∧
      h'.toBase xs' = arlExpect (h.toBase xs) keyword
        (dst.map fun dst => (processor.getD h.processor, dst)) := by
  generalize hd : (⟨keyword, simpleHash keyword, dst, false, .expected,
    some (processor.getD h.processor)⟩ : ArlData δ π) = d
  obtain ⟨hlist, hcell, hlive⟩ := hs.alloc d
  obtain ⟨cells, hpush, hlist', hframe⟩ := hlist.pushFront hs.nextAddress_notMem hcell
  have hhead : h.head = none ↔ xs = [] := by
    rw [hs.isList.head_eq]
    cases xs <;> simp
  refine ⟨{ h.alloc d with
    cells
    head := some h.nextAddress
    nextKeyword := if h.head = none then some h.nextAddress else h.nextKeyword
    expected := h.expected + 1
    wanted := h.expected + 1 }, (h.nextAddress, d) :: xs, ?_, ⟨hlist', ?_, ?_, ?_, ?_⟩, ?_, rfl, ?_⟩
  · rw [ArlHeap.expectCustom, hd]
    change (IntrusiveList.pushFront (h.alloc d).cells h.head h.nextAddress).bind _ = _
    rw [hpush]
    rfl
  · intro a ha
    exact (hframe a ha).trans (hlive a ha)
  · intro a ha
    obtain rfl | ha := List.mem_cons.mp ha
    · exact Nat.lt_succ_self _
    · exact Nat.lt_succ_of_lt (hs.fresh a ha)
  · intro x hx
    obtain rfl | hx := List.mem_cons.mp hx
    · subst hd
      exact ⟨rfl, fun _ => rfl⟩
    · exact hs.wellFormed x hx
  · change h.allocated + 1 = h.fred + (xs.length + 1)
    rw [hs.count, Nat.add_assoc]
  · intro _
    by_cases hnil : h.head = none
    · exact ⟨h.nextAddress, List.mem_cons_self, if_pos hnil⟩
    · obtain ⟨n, hn, hnext⟩ := hp (hhead.not.mp hnil)
      exact ⟨n, List.mem_cons_of_mem _ hn, (if_neg hnil).trans hnext⟩
  · subst hd
    simp only [ArlHeap.toBase, arlExpect, List.map_cons, toEntry, ArlHeap.alloc,
      List.map_eq_nil_iff, hhead, Option.bind_some]

/-! ## Beginning an iteration -/

/-- The found entries that `arl_begin` counts. -/
def foundExpected (xs : List (Nat × ArlData δ π)) : Nat :=
  (xs.map toEntry).countP fun e => e.found && decide (e.kind = .expected)

/-- An entry keeps its place and gets other data. -/
theorem ArlHeap.Stores.setData {before behind : List (Nat × ArlData δ π)} {x : Nat × ArlData δ π}
    (hs : h.Stores (before ++ x :: behind)) {d : ArlData δ π} (hd : d.WellFormed) :
    ∃ cells, setData h.cells x.1 d = some cells ∧
      ∀ wanted, ({ h with cells, wanted } : ArlHeap δ π).Stores (before ++ (x.1, d) :: behind) := by
  obtain ⟨cells, hset, hsegment, hframe⟩ := hs.isList.segment.setData hs.isList.nodup d
  have haddresses :
      addresses (before ++ (x.1, d) :: behind) = addresses (before ++ x :: behind) := by
    simp
  refine ⟨cells, hset, fun wanted => ⟨⟨hsegment, ?_, ?_⟩, ?_, ?_, ?_, ?_⟩⟩
  · change h.head = _
    rw [hs.isList.head_eq]
    cases before <;> rfl
  · rw [haddresses]
    exact hs.isList.nodup
  · intro a ha
    rw [haddresses] at ha
    have hne : a ≠ x.1 := by
      rintro rfl
      exact ha (mem_addresses (List.mem_append_right before List.mem_cons_self))
    exact (hframe a hne).trans (hs.live a ha)
  · intro a ha
    rw [haddresses] at ha
    exact hs.fresh a ha
  · intro y hy
    rw [List.mem_append, List.mem_cons] at hy
    obtain hy | rfl | hy := hy
    · exact hs.wellFormed y (List.mem_append_left _ hy)
    · exact hd
    · exact hs.wellFormed y (List.mem_append_right _ (List.mem_cons_of_mem _ hy))
  · have hcount := hs.count
    rw [List.length_append, List.length_cons] at hcount ⊢
    exact hcount

/-- An entry is in memory beside the list. -/
structure ArlHeap.Detached (h : ArlHeap δ π) (e : Nat) (d : ArlData δ π)
    (xs : List (Nat × ArlData δ π)) : Prop where
  isList : IsList h.cells h.head xs
  notMem : e ∉ addresses xs
  cell : ∃ c, h.cells e = some c ∧ c.data = d
  live : ∀ a, a ≠ e → a ∉ addresses xs → h.cells a = none
  fresh : ∀ a ∈ e :: addresses xs, a < h.nextAddress
  wellFormed : ∀ x ∈ (e, d) :: xs, x.2.WellFormed
  count : h.allocated = h.fred + xs.length + 1

/-- An entry is taken out of the list. -/
theorem ArlHeap.Stores.unlink {before behind : List (Nat × ArlData δ π)} {x : Nat × ArlData δ π}
    (hs : h.Stores (before ++ x :: behind)) :
    ∃ cells head, unlink h.cells h.head x.1 = some (cells, head) ∧
      ∀ found relinkings,
        ({ h with cells, head, found, relinkings } : ArlHeap δ π).Detached x.1 x.2
          (before ++ behind) := by
  obtain ⟨cells, head, hunlink, hlist, hframe⟩ := hs.isList.unlink
  obtain ⟨-, hbefore, hbehind⟩ := nodup_of_append_cons hs.isList.nodup
  have hnot : x.1 ∉ addresses (before ++ behind) := by
    rw [addresses_append, List.mem_append, not_or]
    exact ⟨hbefore, hbehind⟩
  have haddresses : ∀ a, a ∈ addresses (before ++ x :: behind) ↔
      a = x.1 ∨ a ∈ addresses (before ++ behind) := by
    intro a
    simp only [addresses_append, addresses_cons, List.mem_append, List.mem_cons]
    tauto
  refine ⟨cells, head, hunlink, fun found relinkings => ⟨hlist, hnot, ?_, ?_, ?_, ?_, ?_⟩⟩
  · exact ⟨_, (hframe x.1 hnot).trans hs.isList.segment.cell, rfl⟩
  · intro a hne ha
    exact (hframe a ha).trans (hs.live a ((haddresses a).not.mpr (not_or.mpr ⟨hne, ha⟩)))
  · intro a ha
    exact hs.fresh a ((haddresses a).mpr (List.mem_cons.mp ha))
  · intro y hy
    refine hs.wellFormed y ?_
    rw [List.mem_cons, List.mem_append] at hy
    rw [List.mem_append, List.mem_cons]
    tauto
  · have hcount := hs.count
    rw [List.length_append, List.length_cons] at hcount
    rw [List.length_append]
    change h.allocated = h.fred + _ + 1
    omega

/-- An entry that is not in the list is freed. -/
theorem ArlHeap.Detached.free {e : Nat} {d : ArlData δ π} (hs : h.Detached e d xs) :
    ({ h with cells := Function.update h.cells e none, fred := h.fred + 1 } :
      ArlHeap δ π).Stores xs := by
  refine ⟨hs.isList.congr fun a ha => ?_, ?_, ?_, ?_, ?_⟩
  · apply Function.update_of_ne
    rintro rfl
    exact hs.notMem ha
  · intro a ha
    by_cases hne : a = e
    · subst hne
      exact Function.update_self _ _ _
    · exact (Function.update_of_ne hne _ _).trans (hs.live a hne ha)
  · exact fun a ha => hs.fresh a (List.mem_cons_of_mem e ha)
  · exact fun x hx => hs.wellFormed x (List.mem_cons_of_mem _ hx)
  · rw [hs.count]
    change h.fred + xs.length + 1 = h.fred + 1 + xs.length
    omega

/-- The loop of `arl_begin`, behind the entries that it has passed. -/
theorem sweep_stores (wantedEqualsExpected : Bool) {h : ArlHeap δ π}
    {before behind : List (Nat × ArlData δ π)} (hs : h.Stores (before ++ behind)) {n : Nat}
    (hn : behind.length ≤ n) :
    ∃ cells head fred behind',
      h.sweep wantedEqualsExpected n (first behind none) = some
        { h with
          cells, head, fred
          wanted := h.wanted + if wantedEqualsExpected then 0 else foundExpected behind } ∧
      (∀ wanted, ({ h with cells, head, fred, wanted } : ArlHeap δ π).Stores (before ++ behind')) ∧
      behind'.map toEntry = arlSweep before.isEmpty (behind.map toEntry) := by
  induction behind generalizing h before n with
  | nil =>
      refine ⟨h.cells, h.head, h.fred, [], ?_, fun wanted => ?_, rfl⟩
      · cases n <;> simp [ArlHeap.sweep, foundExpected]
      · exact ⟨hs.isList, hs.live, hs.fresh, hs.wellFormed, hs.count⟩
  | cons x behind ih =>
      obtain ⟨n, rfl⟩ : ∃ k, n = k + 1 := ⟨n - 1, by rw [List.length_cons] at hn; omega⟩
      have hn' : behind.length ≤ n := Nat.le_of_succ_le_succ hn
      have hcell := hs.isList.segment.cell
      have hcount : foundExpected (x :: behind) =
          foundExpected behind + if x.2.found && decide (x.2.kind = .expected) then 1 else 0 := by
        rw [foundExpected, List.map_cons, List.countP_cons]
        rfl
      -- an entry that stays is passed
      have pass {d : ArlData δ π} {h' : ArlHeap δ π}
          (hs' : h'.Stores (before ++ (x.1, d) :: behind)) :
          ∃ cells head fred behind',
            h'.sweep wantedEqualsExpected n (first behind none) = some
              { h' with
                cells, head, fred
                wanted := h'.wanted + if wantedEqualsExpected then 0 else foundExpected behind } ∧
            (∀ wanted, ({ h' with cells, head, fred, wanted } : ArlHeap δ π).Stores
              (before ++ behind')) ∧
            behind'.map toEntry =
              toEntry (x.1, d) :: arlSweep false (behind.map toEntry) := by
        rw [List.append_cons] at hs'
        obtain ⟨cells, head, fred, behind', hsweep, hstores, hmap⟩ := ih hs' hn'
        refine ⟨cells, head, fred, (x.1, d) :: behind', hsweep, fun wanted => ?_, ?_⟩
        · rw [List.append_cons]
          exact hstores wanted
        · have hne : (before ++ [(x.1, d)]).isEmpty = false := by cases before <;> rfl
          rw [List.map_cons, hmap, hne]
      rw [first_cons, ArlHeap.sweep, hcell, List.map_cons, arlSweep]
      simp only [Option.bind_eq_bind, Option.bind_some]
      by_cases hfound : x.2.found = true
      · -- the flag is cleared
        obtain ⟨cells, hset, hs'⟩ := hs.setData (d := { x.2 with found := false })
          (hs.wellFormed x (by simp))
        obtain ⟨cells', head', fred', behind', hsweep, hstores, hmap⟩ := pass
          (hs' (if !wantedEqualsExpected && decide (x.2.kind = .expected) then h.wanted + 1
            else h.wanted))
        refine ⟨cells', head', fred', behind', ?_, hstores, ?_⟩
        · rw [if_pos hfound, hset, Option.bind_some, hsweep, hcount, hfound]
          cases wantedEqualsExpected <;> cases x.2.kind <;> simp [Nat.add_assoc, Nat.add_comm]
        · rw [hmap, if_pos (show (toEntry x).found = true from hfound)]
          rfl
      · rw [if_neg hfound, if_neg (show ¬ (toEntry x).found = true from hfound)]
        have hnot : foundExpected (x :: behind) = foundExpected behind := by
          rw [hcount]
          simp [hfound]
        have halone : (h.head = some x.1 ∧ first behind none = none) ↔
            (before.isEmpty = true ∧ behind.map toEntry = []) := by
          rw [hs.isList.head_eq,
            first_append_cons_ne (nodup_of_append_cons hs.isList.nodup).2.1]
          cases before <;> cases behind <;> simp
        simp only [halone, hnot]
        by_cases hremove : x.2.kind = .dynamic ∧
            ¬(before.isEmpty = true ∧ behind.map toEntry = [])
        · -- the entry is freed
          obtain ⟨cells, head, hunlink, hs'⟩ := hs.unlink
          obtain ⟨cells', head', fred', behind', hsweep, hstores, hmap⟩ :=
            ih (hs' h.found h.relinkings).free hn'
          refine ⟨cells', head', fred', behind', ?_, hstores, ?_⟩
          · rw [if_pos hremove, hunlink, Option.bind_some, hsweep]
          · rw [hmap, if_pos (show (toEntry x).kind = .dynamic ∧ _ from hremove)]
        · obtain ⟨cells', head', fred', behind', hsweep, hstores, hmap⟩ := pass hs
          refine ⟨cells', head', fred', behind', ?_, hstores, ?_⟩
          · rw [if_neg hremove, hsweep]
          · rw [hmap, if_neg (show ¬ ((toEntry x).kind = .dynamic ∧ _) from hremove)]

theorem ArlHeap.Stores.head_eq_none (hs : h.Stores xs) : h.head = none ↔ xs = [] := by
  rw [hs.isList.head_eq]
  cases xs <;> simp

theorem ArlHeap.Stores.recheck (hs : h.Stores xs) :
    ∃ h' xs', h.recheck = some h' ∧ h'.Stores xs' ∧ h'.processor = h.processor ∧
      h'.toBase xs' = (h.toBase xs).rechecked := by
  by_cases hcond : 0 < h.iteration ∧ (h.added ≠ 0 ∨ h.iteration % h.rechecks = 0)
  · have hs' : ({ h with
        added := 0
        wanted := if decide (h.iteration % h.rechecks = 0) then h.expected else 0 } :
          ArlHeap δ π).Stores ([] ++ xs) :=
      ⟨hs.isList, hs.live, hs.fresh, hs.wellFormed, hs.count⟩
    have hfuel : xs.length ≤ h.allocated := by
      rw [hs.count]
      exact Nat.le_add_left _ _
    obtain ⟨cells, head, fred, xs', hsweep, hstores, hmap⟩ :=
      sweep_stores (decide (h.iteration % h.rechecks = 0)) hs' hfuel
    rw [← hs.isList.head_eq] at hsweep
    refine ⟨_, xs', (if_pos hcond).trans hsweep, hstores _, rfl, ?_⟩
    have hrechecked : (h.toBase xs).rechecked = arlRecheck (h.toBase xs) := if_pos hcond
    rw [hrechecked, arlRecheck]
    simp only [ArlHeap.toBase, hmap, List.isEmpty_nil, ArlBase.mk.injEq, true_and, and_true]
    by_cases hrecheck : h.iteration % h.rechecks = 0
    · simp [hrecheck]
    · simp [hrecheck, foundExpected]
  · refine ⟨h, xs, if_neg hcond, hs, rfl, ?_⟩
    rw [ArlBase.rechecked]
    exact (if_neg hcond).symm

theorem ArlHeap.Stores.nonempty (hs : h.Stores xs) :
    ∃ h' xs', h.nonempty = some h' ∧ h'.Stores xs' ∧ h'.processor = h.processor ∧
      h'.toBase xs' = (h.toBase xs).nonempty := by
  rw [ArlHeap.nonempty, ArlBase.nonempty]
  by_cases hnil : h.head = none
  · have hxs := hs.head_eq_none.mp hnil
    obtain ⟨h', xs', hexpect, hs', -, hprocessor, hbase⟩ :=
      hs.expectCustom (fun hne => absurd hxs hne) reallyNotExisting none none
    refine ⟨h', xs', (if_pos hnil).trans hexpect, hs', hprocessor, ?_⟩
    rw [hbase, if_pos (by rw [ArlHeap.toBase, hxs]; rfl)]
    rfl
  · refine ⟨h, xs, if_neg hnil, hs, rfl, ?_⟩
    rw [if_neg]
    intro hentries
    exact hnil (hs.head_eq_none.mpr (List.map_eq_nil_iff.mp hentries))

theorem ArlHeap.Stores.begin (hs : h.Stores xs) :
    ∃ h' xs', h.begin = some h' ∧ h'.Stores xs' ∧ h'.Points xs' ∧ h'.processor = h.processor ∧
      h'.toBase xs' = arlBegin (h.toBase xs) := by
  obtain ⟨h₁, xs₁, hrecheck, hs₁, hprocessor₁, hbase₁⟩ := hs.recheck
  obtain ⟨h₂, xs₂, hnonempty, hs₂, hprocessor₂, hbase₂⟩ := hs₁.nonempty
  refine ⟨{ h₂ with iteration := h₂.iteration + 1, nextKeyword := h₂.head, found := 0 }, xs₂, ?_,
    ⟨hs₂.isList, hs₂.live, hs₂.fresh, hs₂.wellFormed, hs₂.count⟩, ?_,
    hprocessor₂.trans hprocessor₁, ?_⟩
  · simp only [ArlHeap.begin, hrecheck, Option.bind_eq_bind, Option.bind_some, hnonempty]
  · intro hne
    cases xs₂ with
    | nil => exact absurd rfl hne
    | cons x xs => exact ⟨x.1, List.mem_cons_self, hs₂.isList.head_eq⟩
  · have hhead : h₂.head = (xs₂.map toEntry).head?.map ArlEntry.address := by
      rw [hs₂.isList.head_eq]
      cases xs₂ <;> rfl
    rw [arlBegin_eq, ← hbase₁, ← hbase₂]
    simp only [ArlHeap.toBase, hhead]

/-! ## Checking a keyword -/

theorem ArlHeap.Stores.alloc_detached (hs : h.Stores xs) {d : ArlData δ π} (hd : d.WellFormed)
    (added : Nat) :
    ({ h.alloc d with added } : ArlHeap δ π).Detached h.nextAddress d xs := by
  obtain ⟨hlist, hcell, hlive⟩ := hs.alloc d
  refine ⟨hlist, hs.nextAddress_notMem, ⟨_, hcell, rfl⟩, ?_, ?_, ?_, ?_⟩
  · intro a hne ha
    exact hlive a (List.not_mem_cons_of_ne_of_not_mem hne ha)
  · intro a ha
    obtain rfl | ha := List.mem_cons.mp ha
    · exact Nat.lt_succ_self _
    · exact Nat.lt_succ_of_lt (hs.fresh a ha)
  · intro x hx
    obtain rfl | hx := List.mem_cons.mp hx
    · exact hd
    · exact hs.wellFormed x hx
  · change h.allocated + 1 = _
    rw [hs.count]
    rfl

/-- The entry is linked in front of the pointer, which stays where it is. -/
theorem ArlHeap.Detached.relink {before behind : List (Nat × ArlData δ π)}
    {n : Nat × ArlData δ π} {e : Nat} {d : ArlData δ π}
    (hs : h.Detached e d (before ++ n :: behind)) (hnext : h.nextKeyword = some n.1)
    (call : Option (ArlCall δ π)) :
    ∃ cells head,
      h.relink e call = some ({ h with cells, head }, call, decide (h.found = h.wanted)) ∧
      ({ h with cells, head } : ArlHeap δ π).Stores
        (before ++ (e, { d with found := true }) :: n :: behind) := by
  obtain ⟨c, hcell, rfl⟩ := hs.cell
  generalize hcells₁ : Function.update h.cells e
    (some { c with data := { c.data with found := true } }) = cells₁
  have hset : setData h.cells e { c.data with found := true } = some cells₁ := by
    rw [IntrusiveList.setData, hcell, ← hcells₁]
    rfl
  have hcell₁ : cells₁ e = some { c with data := { c.data with found := true } } := by
    rw [← hcells₁, Function.update_self]
  have hframe₁ : ∀ a ≠ e, cells₁ a = h.cells a := fun a ha => by
    rw [← hcells₁, Function.update_of_ne ha]
  have hlist₁ : IsList cells₁ h.head (before ++ n :: behind) :=
    hs.isList.congr fun a ha => hframe₁ a fun heq => hs.notMem (heq ▸ ha)
  obtain ⟨cells₂, head, hinsert, hlist₂, hframe₂⟩ := hlist₁.insertBefore hs.notMem hcell₁
  have hcell₂ := hlist₂.segment.cell
  have haddresses : ∀ a, a ∈ addresses (before ++ (e, ({ c.data with found := true } :
      ArlData δ π)) :: n :: behind) ↔ a = e ∨ a ∈ addresses (before ++ n :: behind) := by
    intro a
    simp only [addresses_append, addresses_cons, List.mem_append, List.mem_cons]
    tauto
  refine ⟨cells₂, head, ?_, hlist₂, ?_, ?_, ?_, ?_⟩
  · simp only [ArlHeap.relink, hcell, Option.bind_eq_bind, Option.bind_some, hset, hnext, hinsert,
      hcell₂, first_cons, Option.some_or]
  · intro a ha
    have hnot := (haddresses a).not.mp ha
    rw [not_or] at hnot
    exact (hframe₂ a ha).trans ((hframe₁ a hnot.1).trans (hs.live a hnot.1 hnot.2))
  · intro a ha
    exact hs.fresh a (List.mem_cons.mpr ((haddresses a).mp ha))
  · intro x hx
    rw [List.mem_append, List.mem_cons] at hx
    obtain hx | rfl | hx := hx
    · exact hs.wellFormed x (List.mem_cons_of_mem _ (List.mem_append_left _ hx))
    · exact hs.wellFormed (e, c.data) List.mem_cons_self
    · exact hs.wellFormed x (List.mem_cons_of_mem _ (List.mem_append_right _ hx))
  · have hcount := hs.count
    rw [List.length_append, List.length_cons] at hcount ⊢
    rw [List.length_cons]
    change h.allocated = h.fred + _
    omega

/-- The call in memory for one of the list. -/
def arlCallOf (keyword : CString) (call : (π × δ) × CString) : ArlCall δ π where
  processor := call.1.1
  name := keyword
  hash := simpleHash keyword
  value := call.2
  dst := call.1.2

theorem ArlData.WellFormed.call_eq {d : ArlData δ π} (hd : d.WellFormed) (a : Nat)
    (value : CString) :
    d.call value = some (((toEntry (a, d)).dst.map fun dst => (dst, value)).map
      (arlCallOf d.name)) := by
  obtain ⟨hhash, hprocessor⟩ := hd
  rw [ArlData.call, toEntry]
  cases hdst : d.dst with
  | none => cases d.processor <;> rfl
  | some dst =>
      obtain ⟨processor, hp⟩ := Option.isSome_iff_exists.mp (hprocessor (by rw [hdst]; rfl))
      simp [hp, arlCallOf, hhash]

/-- The entry with the address of the pointer. -/
theorem arlLink_map (e : ArlEntry (π × δ)) {before behind : List (Nat × ArlData δ π)}
    {n : Nat × ArlData δ π} (hn : n.1 ∉ addresses before) :
    arlLink e (some n.1) ((before ++ n :: behind).map toEntry) =
      before.map toEntry ++ e :: (n :: behind).map toEntry := by
  induction before with
  | nil => exact if_pos rfl
  | cons x before ih =>
      rw [addresses_cons, List.mem_cons, not_or] at hn
      rw [List.cons_append, List.map_cons, arlLink, if_neg, ih hn.2]
      · rfl
      · intro heq
        exact hn.1 (Option.some.inj heq).symm

theorem arlNext_map {before behind : List (Nat × ArlData δ π)} {n : Nat × ArlData δ π}
    (hn : n.1 ∉ addresses before) :
    arlNext n.1 ((before ++ n :: behind).map toEntry) = first behind none := by
  induction before with
  | nil =>
      rw [List.nil_append, List.map_cons, arlNext]
      refine (if_pos rfl).trans ?_
      cases behind <;> rfl
  | cons x before ih =>
      rw [addresses_cons, List.mem_cons, not_or] at hn
      rw [List.cons_append, List.map_cons, arlNext]
      exact (if_neg (Ne.symm hn.1)).trans (ih hn.2)

/-- What a search by name finds in the list is what it finds in memory. -/
theorem find_name (hwf : ∀ x ∈ xs, x.2.WellFormed) (keyword : CString) :
    (xs.map toEntry).find? (fun e => e.name = keyword) =
      (xs.find? fun x => x.2.hash = simpleHash keyword && x.2.name = keyword).map toEntry := by
  induction xs with
  | nil => rfl
  | cons x xs ih =>
      obtain ⟨hhash, -⟩ := hwf x List.mem_cons_self
      have htest : (x.2.hash = simpleHash keyword && x.2.name = keyword : Bool) =
          decide ((toEntry x).name = keyword) := by
        by_cases hname : x.2.name = keyword
        · simp [toEntry, hhash, hname]
        · simp [toEntry, hname]
      rw [List.map_cons, List.find?_cons, List.find?_cons, htest,
        ih fun y hy => hwf y (List.mem_cons_of_mem x hy)]
      cases decide ((toEntry x).name = keyword) <;> rfl

section

variable {base : ArlBase (π × δ)} {keyword : CString}

theorem arlFindOrCreateAndRelink_none (value : CString)
    (hfind : base.entries.find? (fun e => e.name = keyword) = none) :
    arlFindOrCreateAndRelink base keyword value =
      { base :=
          { base with
            added := base.added + 1
            entries := arlLink ⟨base.nextAddress, keyword, none, true, .dynamic⟩
              base.nextKeyword base.entries
            nextAddress := base.nextAddress + 1 }
        call := none
        stop := base.found = base.wanted } := by
  rw [arlFindOrCreateAndRelink, hfind]

theorem arlFindOrCreateAndRelink_some (value : CString) {e : ArlEntry (π × δ)}
    (hfind : base.entries.find? (fun e => e.name = keyword) = some e) :
    arlFindOrCreateAndRelink base keyword value =
      { base :=
          { base with
            found := if e.dst.isSome then base.found + 1 else base.found
            entries := arlLink { e with found := true } base.nextKeyword
              (base.entries.eraseP fun e => e.name = keyword) }
        call := e.dst.map fun dst => (dst, value)
        stop := (if e.dst.isSome then base.found + 1 else base.found) = base.wanted } := by
  rw [arlFindOrCreateAndRelink, hfind]

end

/-- The first entry with a name is taken out. -/
theorem eraseP_name {xs₁ xs₂ : List (Nat × ArlData δ π)} {x : Nat × ArlData δ π}
    {keyword : CString} (hwf : ∀ y ∈ xs₁, y.2.WellFormed) (hkeyword : x.2.name = keyword)
    (hfirst : ∀ y ∈ xs₁, (!(y.2.hash = simpleHash keyword && y.2.name = keyword : Bool)) = true) :
    ((xs₁ ++ x :: xs₂).map toEntry).eraseP (fun e => e.name = keyword) =
      (xs₁ ++ xs₂).map toEntry := by
  rw [List.map_append, List.map_cons, List.eraseP_append_right, List.eraseP_cons_of_pos,
    List.map_append]
  · exact decide_eq_true hkeyword
  · intro e he
    obtain ⟨y, hy, rfl⟩ := List.mem_map.mp he
    have hnot := hfirst y hy
    intro hname
    have hname' : y.2.name = keyword := of_decide_eq_true hname
    rw [(hwf y hy).1, hname'] at hnot
    simp at hnot

theorem notMem_before {before behind : List (Nat × ArlData δ π)} {n : Nat × ArlData δ π}
    (h : (addresses (before ++ n :: behind)).Nodup) : n.1 ∉ addresses before :=
  (nodup_of_append_cons h).2.1

/-- What is linked in memory in front of the pointer is linked there in the list. -/
theorem toBase_relink {before behind : List (Nat × ArlData δ π)} {n : Nat × ArlData δ π} {e : Nat}
    {d : ArlData δ π} (hs : h.Detached e d (before ++ n :: behind)) :
    (before ++ (e, { d with found := true }) :: n :: behind).map toEntry =
      arlLink { toEntry (e, d) with found := true } (some n.1)
        ((before ++ n :: behind).map toEntry) := by
  rw [arlLink_map _ (notMem_before hs.isList.nodup), List.map_append]
  rfl

theorem ArlHeap.Stores.findOrCreateAndRelink {before behind : List (Nat × ArlData δ π)}
    {n : Nat × ArlData δ π} (hs : h.Stores (before ++ n :: behind))
    (hnext : h.nextKeyword = some n.1) {keyword : CString} (hother : n.2.name ≠ keyword)
    (value : CString) :
    ∃ h' xs', h.findOrCreateAndRelink keyword value = some (h',
        (arlFindOrCreateAndRelink (h.toBase (before ++ n :: behind)) keyword value).call.map
          (arlCallOf keyword),
        (arlFindOrCreateAndRelink (h.toBase (before ++ n :: behind)) keyword value).stop) ∧
      h'.Stores xs' ∧ h'.Points xs' ∧ h'.processor = h.processor ∧
      h'.toBase xs' =
        (arlFindOrCreateAndRelink (h.toBase (before ++ n :: behind)) keyword value).base := by
  have hfuel : (before ++ n :: behind).length ≤ h.allocated := by
    rw [hs.count]
    exact Nat.le_add_left _ _
  have hfind := hs.isList.segment.find
    (fun d => d.hash = simpleHash keyword && d.name = keyword) hfuel
  rw [← hs.isList.head_eq] at hfind
  have hname := find_name hs.wellFormed keyword
  cases hx : (before ++ n :: behind).find?
      (fun x => x.2.hash = simpleHash keyword && x.2.name = keyword) with
  | none =>
      rw [hx] at hfind hname
      have hdetached := hs.alloc_detached
        (d := ⟨keyword, simpleHash keyword, none, false, .dynamic, none⟩)
        ⟨rfl, fun hsome => hsome⟩ (h.added + 1)
      obtain ⟨cells, head, hrelink, hstores⟩ := hdetached.relink hnext none
      have hlist : arlFindOrCreateAndRelink (h.toBase (before ++ n :: behind)) keyword value = _ :=
        arlFindOrCreateAndRelink_none value hname
      refine ⟨_, _, ?_, hstores, fun _ => ⟨n.1, by simp, hnext⟩, rfl, ?_⟩
      · rw [hlist]
        simp only [ArlHeap.findOrCreateAndRelink, hfind, Option.bind_eq_bind, Option.bind_some,
          Option.map_none]
        exact hrelink
      · rw [hlist, ArlHeap.toBase, toBase_relink hdetached, ← hnext]
        rfl
  | some x =>
      rw [hx] at hfind hname
      obtain ⟨htest, xs₁, xs₂, hsplit, hfirst⟩ := List.find?_eq_some_iff_append.mp hx
      have hkeyword : x.2.name = keyword := by
        rw [Bool.and_eq_true] at htest
        exact of_decide_eq_true htest.2
      have hwf : x.2.WellFormed := hs.wellFormed x (List.mem_of_find?_eq_some hx)
      -- the pointer is to another entry
      have hcursor : n ∈ xs₁ ++ xs₂ := by
        have hmem : n ∈ xs₁ ++ x :: xs₂ := by
          rw [← hsplit]
          simp
        rw [List.mem_append, List.mem_cons] at hmem
        rw [List.mem_append]
        obtain hmem | rfl | hmem := hmem
        · exact .inl hmem
        · exact absurd hkeyword hother
        · exact .inr hmem
      obtain ⟨before', behind', hsplit'⟩ := List.append_of_mem hcursor
      rw [hsplit] at hs
      have hcell := hs.isList.segment.cell
      obtain ⟨cells, head, hunlink, hdetached⟩ := hs.unlink
      rw [hsplit'] at hdetached
      have hcall := hwf.call_eq x.1 value
      rw [hkeyword] at hcall
      obtain ⟨cells', head', hrelink, hstores⟩ :=
        (hdetached (if (toEntry x).dst.isSome then h.found + 1 else h.found)
          (h.relinkings + 1)).relink hnext
          (((toEntry x).dst.map fun dst => (dst, value)).map (arlCallOf keyword))
      have hlist : arlFindOrCreateAndRelink (h.toBase (before ++ n :: behind)) keyword value = _ :=
        arlFindOrCreateAndRelink_some value hname
      have herase : (h.toBase (before ++ n :: behind)).entries.eraseP (fun e => e.name = keyword) =
          (before' ++ n :: behind').map toEntry := by
        rw [← hsplit', ← eraseP_name (fun y hy => hs.wellFormed y (List.mem_append_left _ hy))
          hkeyword hfirst, ← hsplit]
        rfl
      refine ⟨_, _, ?_, hstores, fun _ => ⟨n.1, by simp, hnext⟩, rfl, ?_⟩
      · rw [hlist]
        simp only [ArlHeap.findOrCreateAndRelink, hfind, Option.map_some, Option.bind_eq_bind,
          Option.bind_some, hcell, hcall, hunlink, Option.isSome_map]
        exact hrelink
      · rw [hlist, herase, ArlHeap.toBase, toBase_relink (hdetached 0 0), ← hnext]
        rfl

theorem find_address {before behind : List (Nat × ArlData δ π)} {n : Nat × ArlData δ π}
    (hn : n.1 ∉ addresses before) :
    ((before ++ n :: behind).map toEntry).find? (fun e => some e.address = some n.1) =
      some (toEntry n) := by
  rw [List.map_append, List.find?_append, List.find?_eq_none.mpr, List.map_cons,
    List.find?_cons_of_pos]
  · rfl
  · exact decide_eq_true rfl
  · intro e he heq
    obtain ⟨y, hy, rfl⟩ := List.mem_map.mp he
    have heq' : y.1 = n.1 := Option.some.inj (of_decide_eq_true heq)
    exact hn (heq' ▸ mem_addresses hy)

/-- One entry has the address. -/
theorem map_found {before behind : List (Nat × ArlData δ π)} {n : Nat × ArlData δ π}
    (hn : n.1 ∉ addresses (before ++ behind)) :
    ((before ++ n :: behind).map toEntry).map
        (fun m => if m.address = (toEntry n).address then { m with found := true } else m) =
      (before ++ (n.1, { n.2 with found := true }) :: behind).map toEntry := by
  have hsame : ∀ ys : List (Nat × ArlData δ π), n.1 ∉ addresses ys →
      (ys.map toEntry).map
        (fun m => if m.address = (toEntry n).address then { m with found := true } else m) =
      ys.map toEntry := by
    intro ys hys
    rw [List.map_map]
    refine List.map_congr_left fun y hy => if_neg ?_
    intro heq
    have heq' : y.1 = n.1 := heq
    exact hys (heq' ▸ mem_addresses hy)
  rw [addresses_append, List.mem_append, not_or] at hn
  rw [List.map_append, List.map_append, List.map_cons, List.map_cons, hsame before hn.1,
    hsame behind hn.2, List.map_append, List.map_cons, if_pos rfl]
  rfl

theorem ArlHeap.Stores.check (hs : h.Stores xs) (hp : h.Points xs) (hne : xs ≠ [])
    (keyword value : CString) :
    ∃ h' xs', h.check keyword value = some (h',
        (arlCheck (h.toBase xs) keyword value).call.map (arlCallOf keyword),
        (arlCheck (h.toBase xs) keyword value).stop) ∧
      h'.Stores xs' ∧ h'.Points xs' ∧ h'.processor = h.processor ∧
      h'.toBase xs' = (arlCheck (h.toBase xs) keyword value).base := by
  obtain ⟨a, ha, hnext⟩ := hp hne
  obtain ⟨n, hn, rfl⟩ := List.mem_map.mp ha
  obtain ⟨before, behind, rfl⟩ := List.append_of_mem hn
  have hcell := hs.isList.segment.cell
  have hbefore := notMem_before hs.isList.nodup
  have hentry : (h.toBase (before ++ n :: behind)).entries.find?
      (fun e => some e.address = (h.toBase (before ++ n :: behind)).nextKeyword) =
        some (toEntry n) := by
    rw [ArlHeap.toBase, hnext]
    exact find_address hbefore
  by_cases hkeyword : keyword = n.2.name
  · -- the entry is where it is expected
    have hlist : arlCheck (h.toBase (before ++ n :: behind)) keyword value =
        arlHit (h.toBase (before ++ n :: behind)) (toEntry n) value := by
      rw [arlCheck, hentry]
      exact if_pos hkeyword.symm
    have hwf := hs.wellFormed n hn
    have hcall := hwf.call_eq n.1 value
    rw [← hkeyword] at hcall
    obtain ⟨cells, hset, hstores⟩ := hs.setData (d := { n.2 with found := true }) hwf
    obtain ⟨-, hnot, hnot'⟩ := nodup_of_append_cons hs.isList.nodup
    have hothers : n.1 ∉ addresses (before ++ behind) := by
      rw [addresses_append, List.mem_append, not_or]
      exact ⟨hnot, hnot'⟩
    refine ⟨{ h with
      cells
      found := if (toEntry n).dst.isSome then h.found + 1 else h.found
      nextKeyword := (first behind none).or h.head }, _, ?_,
      ⟨(hstores 0).isList, (hstores 0).live, (hstores 0).fresh, (hstores 0).wellFormed,
        (hstores 0).count⟩, ?_, rfl, ?_⟩
    · rw [hlist, ArlHeap.check]
      simp only [hnext, Option.bind_eq_bind, Option.bind_some, hcell, if_pos hkeyword, hset, hcall,
        Option.isSome_map]
      rfl
    · intro _
      change ∃ m ∈ _, (first behind none).or h.head = some m
      rw [hs.isList.head_eq]
      cases behind with
      | nil => cases before <;> simp
      | cons y behind => exact ⟨y.1, by simp, rfl⟩
    · have hhead : h.head = ((before ++ n :: behind).map toEntry).head?.map ArlEntry.address := by
        rw [hs.isList.head_eq]
        cases before <;> rfl
      have hbehind : arlNext (toEntry n).address ((before ++ n :: behind).map toEntry) =
          first behind none := arlNext_map hbefore
      rw [hlist, arlHit, ArlHeap.toBase, ArlHeap.toBase, map_found hothers, hbehind, ← hhead]
  · have hlist : arlCheck (h.toBase (before ++ n :: behind)) keyword value =
        arlFindOrCreateAndRelink (h.toBase (before ++ n :: behind)) keyword value := by
      rw [arlCheck, hentry]
      exact if_neg (Ne.symm hkeyword)
    rw [hlist, ArlHeap.check]
    simp only [hnext, Option.bind_eq_bind, Option.bind_some, hcell, if_neg hkeyword]
    exact hs.findOrCreateAndRelink hnext (Ne.symm hkeyword) value

end XMonitor
