import Mathlib.Data.List.Perm.Basic
import XMonitor.Lib.EventRun
import XMonitor.Utils.Arl

/-!
# The early stop of the re-sortable list

The callers read a source until `arl_check` says that all wanted keywords have been found.
How many are wanted is what `arl_begin` has found out from earlier iterations: at first,
and every `rechecks` iterations, all that are expected; after new keywords, those that were
found since it last counted.

Without the early stop a source would be read to its end, and the processor would be called
for each expected keyword that is in it. `agreesWithAll_iff_readsAll` says when the callers' loop
does the same.
-/

namespace XMonitor

variable {δ : Type*}

/-- The loop of the callers over the keywords and values of a source. -/
def arlRead (base : ArlBase δ) : List (CString × CString) → ArlBase δ × List (δ × CString)
  | [] => (base, [])
  | pair :: pairs =>
      let result := arlCheck base pair.1 pair.2
      if result.stop then (result.base, result.call.toList)
      else
        let (base, calls) := arlRead result.base pairs
        (base, result.call.toList ++ calls)

/-- The same without the early stop. -/
def arlReadAll (base : ArlBase δ) : List (CString × CString) → ArlBase δ × List (δ × CString)
  | [] => (base, [])
  | pair :: pairs =>
      let result := arlCheck base pair.1 pair.2
      let (base, calls) := arlReadAll result.base pairs
      (base, result.call.toList ++ calls)

/-- The keywords and values that the collectors find in a file. -/
def sourcePairs (lines : ProcFile) : List (CString × CString) :=
  (lines.filter fun line => 2 ≤ line.length).map fun line => (lineword line 0, lineword line 1)

theorem arlScan_eq_arlRead (base : ArlBase δ) (lines : ProcFile) :
    arlScan base lines = arlRead base (sourcePairs lines) := by
  induction lines generalizing base with
  | nil => rfl
  | cons line lines ih =>
      rw [arlScan]
      by_cases hlen : line.length < 2
      · have hskip : ¬ decide (2 ≤ line.length) = true := fun hle =>
          Nat.not_le.mpr hlen (of_decide_eq_true hle)
        rw [if_pos hlen, ih, sourcePairs, sourcePairs, List.filter_cons, if_neg hskip]
      · have hkeep : decide (2 ≤ line.length) = true := decide_eq_true (Nat.not_lt.mp hlen)
        rw [if_neg hlen, sourcePairs, List.filter_cons, if_pos hkeep, List.map_cons,
          arlRead]
        simp only [ih, sourcePairs]

/-! ## The list as a dictionary -/

/-- The entries with a destination are those of the expected keywords. -/
structure ArlBase.Dictionary (base : ArlBase δ) (keywords : List (CString × δ)) : Prop
    extends base.Expects keywords where
  only : ∀ e ∈ base.entries, ∀ dst, e.dst = some dst → (e.name, dst) ∈ keywords

/-- The destination of a keyword. -/
def destination (keywords : List (CString × δ)) (keyword : CString) : Option δ :=
  (keywords.find? fun k => k.1 = keyword).map Prod.snd

variable {base : ArlBase δ} {keywords : List (CString × δ)}

theorem destination_eq_none {keyword : CString}
    (h : destination keywords keyword = none) (dst : δ) : (keyword, dst) ∉ keywords := by
  intro hmem
  have hnone := List.find?_eq_none.mp (Option.map_eq_none_iff.mp h) _ hmem
  simp at hnone

theorem mem_of_destination {keyword : CString} {dst : δ}
    (h : destination keywords keyword = some dst) : (keyword, dst) ∈ keywords := by
  obtain ⟨k, hk, rfl⟩ := Option.map_eq_some_iff.mp h
  have hname : k.1 = keyword := by simpa using List.find?_some hk
  rw [← hname]
  exact List.mem_of_find?_eq_some hk

/-- What an operation leaves in the list has no other destinations. -/
theorem ArlBase.Dictionary.of_kept (h : base.Dictionary keywords) {base' : ArlBase δ}
    (hexpects : base'.Expects keywords)
    (hkept : ∀ e' ∈ base'.entries, e'.dst = none ∨
      ∃ e ∈ base.entries, e'.name = e.name ∧ e'.dst = e.dst) : base'.Dictionary keywords where
  toExpects := hexpects
  only := by
    intro e' he' dst hdst
    obtain hnone | ⟨e, he, hname, hsame⟩ := hkept e' he'
    · rw [hnone] at hdst
      cases hdst
    · rw [hname]
      exact h.only e he dst (hsame ▸ hdst)

/-- An entry that was kept by `arl_begin` is one from before, with its flag cleared perhaps. -/
theorem of_mem_arlSweep {first : Bool} {entries : List (ArlEntry δ)} {e' : ArlEntry δ}
    (h : e' ∈ arlSweep first entries) :
    ∃ e ∈ entries, e' = e ∨ e' = { e with found := false } := by
  induction entries generalizing first with
  | nil => exact absurd h List.not_mem_nil
  | cons m ms ih =>
      have tail {first' : Bool} (h' : e' ∈ arlSweep first' ms) :
          ∃ e ∈ m :: ms, e' = e ∨ e' = { e with found := false } := by
        obtain ⟨e, he, hsame⟩ := ih h'
        exact ⟨e, List.mem_cons_of_mem m he, hsame⟩
      rw [arlSweep] at h
      split at h
      · obtain rfl | h := List.mem_cons.mp h
        · exact ⟨m, List.mem_cons_self, .inr rfl⟩
        · exact tail h
      · split at h
        · exact tail h
        · obtain rfl | h := List.mem_cons.mp h
          · exact ⟨e', List.mem_cons_self, .inl rfl⟩
          · exact tail h

theorem exists_of_mem_arlSweep {first : Bool} {entries : List (ArlEntry δ)} {e' : ArlEntry δ}
    (h : e' ∈ arlSweep first entries) : ∃ e ∈ entries, e'.name = e.name ∧ e'.dst = e.dst := by
  obtain ⟨e, he, rfl | rfl⟩ := of_mem_arlSweep h
  · exact ⟨e', he, rfl, rfl⟩
  · exact ⟨e, he, rfl, rfl⟩

theorem exists_of_mem_arlBegin {e' : ArlEntry δ} (h : e' ∈ (arlBegin base).entries) :
    e'.dst = none ∨ ∃ e ∈ base.entries, e'.name = e.name ∧ e'.dst = e.dst := by
  have rechecked (hmem : e' ∈ base.rechecked.entries) :
      ∃ e ∈ base.entries, e'.name = e.name ∧ e'.dst = e.dst := by
    rw [ArlBase.rechecked] at hmem
    split at hmem
    · exact exists_of_mem_arlSweep hmem
    · exact ⟨e', hmem, rfl, rfl⟩
  rw [arlBegin_eq] at h
  change e' ∈ base.rechecked.nonempty.entries at h
  rw [ArlBase.nonempty] at h
  split at h
  · obtain rfl | h := List.mem_cons.mp h
    · exact .inl rfl
    · exact .inr (rechecked h)
  · exact .inr (rechecked h)

theorem ArlBase.Dictionary.arlBegin (h : base.Dictionary keywords) :
    (arlBegin base).Dictionary keywords :=
  h.of_kept h.toExpects.arlBegin fun _ => exists_of_mem_arlBegin

/-- An entry after `arl_check` is a new one or one from before, with its flag set perhaps. -/
theorem mem_arlCheck {keyword value : CString} {e' : ArlEntry δ}
    (h : e' ∈ (arlCheck base keyword value).base.entries) :
    e' = ⟨base.nextAddress, keyword, none, true, .dynamic⟩ ∨
      ∃ e ∈ base.entries, e' = e ∨ e' = { e with found := true } := by
  obtain ⟨e, -, -, hcheck⟩ | ⟨e, he, -, hcheck⟩ | ⟨-, hcheck⟩ :=
    arlCheck_cases base keyword value
  · rw [hcheck] at h
    obtain ⟨m, hm, rfl⟩ := List.mem_map.mp h
    refine .inr ⟨m, hm, ?_⟩
    split
    · exact .inr rfl
    · exact .inl rfl
  · rw [hcheck] at h
    obtain rfl | h := List.mem_cons.mp ((arlLink_perm _ _ _).mem_iff.mp h)
    · exact .inr ⟨e, he, .inr rfl⟩
    · exact .inr ⟨e', List.mem_of_mem_eraseP h, .inl rfl⟩
  · rw [hcheck] at h
    obtain rfl | h := List.mem_cons.mp ((arlLink_perm _ _ _).mem_iff.mp h)
    · exact .inl rfl
    · exact .inr ⟨e', h, .inl rfl⟩

/-- What `arl_check` leaves in the list. -/
theorem exists_of_mem_arlCheck {keyword value : CString} {e' : ArlEntry δ}
    (h : e' ∈ (arlCheck base keyword value).base.entries) :
    e'.dst = none ∨ ∃ e ∈ base.entries, e'.name = e.name ∧ e'.dst = e.dst := by
  obtain rfl | ⟨e, he, rfl | rfl⟩ := mem_arlCheck h
  · exact .inl rfl
  · exact .inr ⟨e', he, rfl, rfl⟩
  · exact .inr ⟨e, he, rfl, rfl⟩

theorem ArlBase.Dictionary.arlCheck (h : base.Dictionary keywords) (keyword value : CString) :
    (arlCheck base keyword value).base.Dictionary keywords :=
  h.of_kept (h.toExpects.arlCheck keyword value) fun _ => exists_of_mem_arlCheck

/-- No processor is called for a keyword without a destination. -/
theorem call_arlCheck_eq_none {keyword : CString}
    (hno : ∀ e ∈ base.entries, e.name = keyword → e.dst = none) (value : CString) :
    (arlCheck base keyword value).call = none := by
  obtain ⟨e, he, hname, hcheck⟩ | ⟨e, he, hname, hcheck⟩ | ⟨-, hcheck⟩ :=
    arlCheck_cases base keyword value
  · rw [hcheck]
    exact Option.map_eq_none_iff.mpr (hno e he hname)
  · rw [hcheck]
    exact Option.map_eq_none_iff.mpr (hno e he hname)
  · rw [hcheck]
    rfl

/-- The processor is called for the expected keywords only. -/
theorem ArlBase.Dictionary.call_arlCheck (h : base.Dictionary keywords)
    (keyword value : CString) :
    (XMonitor.arlCheck base keyword value).call =
      (destination keywords keyword).map fun dst => (dst, value) := by
  cases hdst : destination keywords keyword with
  | some dst => exact h.toExpects.call_arlCheck (mem_of_destination hdst) value
  | none =>
      refine call_arlCheck_eq_none (fun e he hname => ?_) value
      cases hd : e.dst with
      | none => rfl
      | some dst => exact absurd (hname ▸ h.only e he dst hd) (destination_eq_none hdst dst)

/-- A check counts the call of the processor and stops at the wanted number. -/
theorem arlCheck_counts (base : ArlBase δ) (keyword value : CString) :
    (arlCheck base keyword value).base.found =
        base.found + (arlCheck base keyword value).call.toList.length ∧
      (arlCheck base keyword value).base.wanted = base.wanted ∧
      (arlCheck base keyword value).stop =
        decide ((arlCheck base keyword value).base.found = base.wanted) := by
  obtain ⟨e, -, -, hcheck⟩ | ⟨e, -, -, hcheck⟩ | ⟨-, hcheck⟩ :=
    arlCheck_cases base keyword value
  · rw [hcheck, arlHit]
    cases e.dst <;> simp
  · rw [hcheck, arlRelinked]
    cases e.dst <;> simp
  · rw [hcheck]
    exact ⟨rfl, rfl, rfl⟩

/-! ## The loops -/

/-- The calls for a source that is read to its end. -/
def allCalls (keywords : List (CString × δ)) (pairs : List (CString × CString)) :
    List (δ × CString) :=
  pairs.filterMap fun pair => (destination keywords pair.1).map fun dst => (dst, pair.2)

/-- The expected keywords of a source. -/
def present (keywords : List (CString × δ)) (pairs : List (CString × CString)) : Nat :=
  pairs.countP fun pair => (destination keywords pair.1).isSome

theorem length_allCalls (keywords : List (CString × δ)) (pairs : List (CString × CString)) :
    (allCalls keywords pairs).length = present keywords pairs := by
  rw [allCalls, List.length_filterMap_eq_countP, present]
  congr 1
  funext pair
  simp

theorem ArlBase.Dictionary.arlReadAll (h : base.Dictionary keywords)
    (pairs : List (CString × CString)) :
    (arlReadAll base pairs).1.Dictionary keywords ∧
      (arlReadAll base pairs).2 = allCalls keywords pairs := by
  induction pairs generalizing base with
  | nil => exact ⟨h, rfl⟩
  | cons pair pairs ih =>
      obtain ⟨hrest, hcalls⟩ := ih (h.arlCheck pair.1 pair.2)
      refine ⟨hrest, ?_⟩
      rw [XMonitor.arlReadAll]
      dsimp only
      rw [hcalls, h.call_arlCheck, allCalls, allCalls, List.filterMap_cons]
      cases destination keywords pair.1 <;> rfl

theorem ArlBase.Dictionary.arlRead (h : base.Dictionary keywords)
    (pairs : List (CString × CString)) : (arlRead base pairs).1.Dictionary keywords := by
  induction pairs generalizing base with
  | nil => exact h
  | cons pair pairs ih =>
      rw [XMonitor.arlRead]
      dsimp only
      split
      · exact h.arlCheck pair.1 pair.2
      · exact ih (h.arlCheck pair.1 pair.2)

/-- The first keyword of a source, and the rest unless the loop stops. -/
theorem ArlBase.Dictionary.calls_cons (h : base.Dictionary keywords) (pair : CString × CString)
    (pairs : List (CString × CString)) :
    ∃ n, present keywords (pair :: pairs) = n + present keywords pairs ∧ n ≤ 1 ∧
      (n = 1 ↔ (destination keywords pair.1).isSome = true) ∧
      ∃ base' : ArlBase δ, base'.Dictionary keywords ∧ base'.found = base.found + n ∧
        base'.wanted = base.wanted ∧
        ((XMonitor.arlRead base (pair :: pairs)).2 = allCalls keywords (pair :: pairs) ↔
          if base.found + n = base.wanted then present keywords pairs = 0
          else (XMonitor.arlRead base' pairs).2 = allCalls keywords pairs) := by
  have hcall := h.call_arlCheck pair.1 pair.2
  obtain ⟨hfound, hwanted, hstop⟩ := arlCheck_counts base pair.1 pair.2
  have hall : allCalls keywords (pair :: pairs) =
      (XMonitor.arlCheck base pair.1 pair.2).call.toList ++ allCalls keywords pairs := by
    rw [hcall, allCalls, allCalls, List.filterMap_cons]
    cases destination keywords pair.1 <;> rfl
  refine ⟨(XMonitor.arlCheck base pair.1 pair.2).call.toList.length, ?_, ?_, ?_,
    (XMonitor.arlCheck base pair.1 pair.2).base, h.arlCheck pair.1 pair.2, hfound, hwanted, ?_⟩
  · rw [← length_allCalls, ← length_allCalls, hall, List.length_append]
  · cases (XMonitor.arlCheck base pair.1 pair.2).call <;> simp
  · rw [hcall]
    cases destination keywords pair.1 <;> simp
  · rw [hall, XMonitor.arlRead]
    dsimp only
    rw [hstop, hfound]
    split
    · rename_i hreached
      rw [if_pos (of_decide_eq_true hreached), ← length_allCalls, List.length_eq_zero_iff,
        List.self_eq_append_right]
    · rename_i hmissed
      rw [if_neg fun heq => hmissed (decide_eq_true heq)]
      exact List.append_right_inj _

/-- The loop does not stop once it has found more keywords than are wanted. -/
theorem ArlBase.Dictionary.calls_of_lt (h : base.Dictionary keywords)
    (pairs : List (CString × CString)) (hfound : base.wanted < base.found) :
    (XMonitor.arlRead base pairs).2 = allCalls keywords pairs := by
  induction pairs generalizing base with
  | nil => rfl
  | cons pair pairs ih =>
      obtain ⟨n, -, -, -, base', h', hfound', hwanted', hiff⟩ := h.calls_cons pair pairs
      rw [hiff, if_neg (by omega)]
      exact ih h' (by omega)

/-- Stopping early leaves nothing out of a source without expected keywords. -/
theorem ArlBase.Dictionary.calls_of_present (h : base.Dictionary keywords)
    {pairs : List (CString × CString)} (hpresent : present keywords pairs = 0) :
    (XMonitor.arlRead base pairs).2 = allCalls keywords pairs := by
  induction pairs generalizing base with
  | nil => rfl
  | cons pair pairs ih =>
      obtain ⟨n, hsum, -, -, base', h', -, -, hiff⟩ := h.calls_cons pair pairs
      rw [hiff]
      split
      · omega
      · exact ih h' (by omega)

/-- How far the loop gets that has found fewer keywords than are wanted. -/
theorem ArlBase.Dictionary.calls_eq_iff (h : base.Dictionary keywords)
    (pairs : List (CString × CString)) (hfound : base.found < base.wanted) :
    (XMonitor.arlRead base pairs).2 = allCalls keywords pairs ↔
      base.found + present keywords pairs ≤ base.wanted := by
  induction pairs generalizing base with
  | nil => exact ⟨fun _ => Nat.le_of_lt hfound, fun _ => rfl⟩
  | cons pair pairs ih =>
      obtain ⟨n, hpresent, hone, -, base', h', hfound', hwanted', hiff⟩ := h.calls_cons pair pairs
      rw [hiff, hpresent]
      split
      · omega
      · rw [ih h' (by omega)]
        omega

/-! ## Iterations -/

/-- The number of keywords that the next iteration wants. -/
def ArlBase.nextWanted (base : ArlBase δ) : Nat :=
  if 0 < base.iteration ∧ base.iteration % base.rechecks = 0 then base.expected
  else if 0 < base.iteration ∧ base.added ≠ 0 then
    base.entries.countP fun e => e.found && decide (e.kind = .expected)
  else base.wanted

/-- The next source has at most as many expected keywords as are wanted, or its first keyword
is expected and none is wanted. -/
def ArlBase.ReadsAll (keywords : List (CString × δ)) (base : ArlBase δ)
    (pairs : List (CString × CString)) : Prop :=
  present keywords pairs ≤ base.nextWanted ∨
    base.nextWanted = 0 ∧
      (pairs.head?.bind fun pair => destination keywords pair.1).isSome = true

/-- An iteration of the callers. -/
def arlIterate (base : ArlBase δ) (pairs : List (CString × CString)) : ArlBase δ :=
  (arlRead (arlBegin base) pairs).1

/-- The processor is called for every expected keyword of the source, and for no other. -/
def ArlBase.AgreesWithAll (base : ArlBase δ) (pairs : List (CString × CString)) : Prop :=
  (arlRead (arlBegin base) pairs).2 = (arlReadAll (arlBegin base) pairs).2

theorem arlBegin_wanted (h : base.rechecked.entries ≠ []) :
    (arlBegin base).wanted = base.nextWanted := by
  rw [arlBegin_eq]
  change base.rechecked.nonempty.wanted = _
  rw [ArlBase.nonempty, if_neg h, ArlBase.rechecked, ArlBase.nextWanted]
  by_cases hpos : 0 < base.iteration
  · by_cases hrecheck : base.iteration % base.rechecks = 0
    · simp [hpos, hrecheck, arlRecheck]
    · by_cases hadded : base.added = 0
      · simp [hrecheck, hadded]
      · simp [hpos, hrecheck, hadded, arlRecheck]
  · simp [hpos]

theorem arlBegin_found (base : ArlBase δ) : (arlBegin base).found = 0 := rfl

theorem ArlBase.Dictionary.agreesWithAll_iff (h : base.Dictionary keywords)
    (pairs : List (CString × CString)) :
    base.AgreesWithAll pairs ↔ base.ReadsAll keywords pairs := by
  have hbegin := h.arlBegin
  rw [AgreesWithAll, (hbegin.arlReadAll pairs).2, ReadsAll]
  by_cases hempty : base.rechecked.entries = []
  · -- nothing is expected
    have hnone : keywords = [] := by
      rw [List.eq_nil_iff_forall_not_mem]
      rintro ⟨keyword, dst⟩ hmem
      have hexpects : base.rechecked.Expects keywords :=
        h.toExpects.of_keeps (ArlBase.Distinct.keeps_rechecked h.nodup)
      obtain ⟨e, he, -⟩ := hexpects.entry keyword dst hmem
      rw [hempty] at he
      exact absurd he List.not_mem_nil
    subst hnone
    have hpresent : present ([] : List (CString × δ)) pairs = 0 := by
      simp [present, destination]
    exact ⟨fun _ => .inl (by rw [hpresent]; exact Nat.zero_le _),
      fun _ => hbegin.calls_of_present hpresent⟩
  · have hwanted := arlBegin_wanted hempty
    have hfound := arlBegin_found base
    by_cases hzero : base.nextWanted = 0
    · cases pairs with
      | nil => simp [XMonitor.arlRead, allCalls, present]
      | cons pair pairs =>
          obtain ⟨n, hpresent, hle, hone, base', h', hfound', hwanted', hiff⟩ :=
            hbegin.calls_cons pair pairs
          rw [hiff, hpresent, List.head?_cons, Option.bind_some, ← hone]
          split
          · omega
          · have hall := h'.calls_of_lt pairs (by omega)
            simp only [hall, true_iff]
            omega
    · rw [hbegin.calls_eq_iff pairs (by omega)]
      omega

/-- A list with an entry for each expected keyword. -/
def arlExpectAll (rechecks : Nat) (keywords : List (CString × δ)) : ArlBase δ :=
  keywords.foldl (fun base keyword => arlExpect base keyword.1 (some keyword.2))
    (arlCreate rechecks)

theorem arlExpectAll_dictionary (rechecks : Nat) (hdistinct : (keywords.map Prod.fst).Nodup) :
    (arlExpectAll rechecks keywords).Dictionary keywords where
  toExpects := by
    have h := (arlCreate_expects (δ := δ) rechecks).foldl_arlExpect hdistinct fun _ _ =>
      List.not_mem_nil
    rwa [List.append_nil] at h
  only := by
    have key : ∀ (more : List (CString × δ)) (base : ArlBase δ) (known : List (CString × δ)),
        (∀ e ∈ base.entries, ∀ dst, e.dst = some dst → (e.name, dst) ∈ known) →
        ∀ e ∈ (more.foldl (fun base keyword => arlExpect base keyword.1 (some keyword.2))
          base).entries, ∀ dst, e.dst = some dst → (e.name, dst) ∈ known ++ more := by
      intro more
      induction more with
      | nil =>
          intro base known h
          simpa using h
      | cons keyword more ih =>
          intro base known h
          rw [List.append_cons]
          refine ih _ (known ++ [keyword]) ?_
          intro e he dst hdst
          obtain rfl | he := List.mem_cons.mp he
          · obtain rfl := Option.some.inj hdst
            exact List.mem_append_right _ List.mem_cons_self
          · exact List.mem_append_left _ (h e he dst hdst)
    exact key keywords (arlCreate rechecks) [] fun e he => absurd he List.not_mem_nil

theorem ArlBase.Dictionary.arlIterate (h : base.Dictionary keywords)
    (pairs : List (CString × CString)) : (arlIterate base pairs).Dictionary keywords :=
  h.arlBegin.arlRead pairs

/-- The lists and destinations after some iterations that read the sources with `read`. The
processor is any function that changes the destinations. -/
def readSources {σ : Type*}
    (read : ArlBase δ → List (CString × CString) → ArlBase δ × List (δ × CString))
    (process : σ → δ × CString → σ) :
    ArlBase δ → σ → List (List (CString × CString)) → ArlBase δ × σ
  | base, dsts, [] => (base, dsts)
  | base, dsts, pairs :: sources =>
      let (base, calls) := read (arlBegin base) pairs
      readSources read process base (calls.foldl process dsts) sources

/-- Iterations that agree leave the same in the destinations. -/
theorem ArlBase.Dictionary.readSources_eq {σ : Type*} (process : σ → δ × CString → σ)
    {base' : ArlBase δ} (h : base.Dictionary keywords) (h' : base'.Dictionary keywords)
    {sources : List (List (CString × CString))} (dsts : σ)
    (hagree : EventRun.AllSteps XMonitor.arlIterate ArlBase.AgreesWithAll base sources) :
    (readSources XMonitor.arlRead process base dsts sources).2 =
      (readSources XMonitor.arlReadAll process base' dsts sources).2 := by
  induction sources generalizing base base' dsts with
  | nil => rfl
  | cons pairs sources ih =>
      obtain ⟨hfirst, hrest⟩ := hagree
      obtain ⟨hnext, hcalls⟩ := h'.arlBegin.arlReadAll pairs
      have heq : (XMonitor.arlRead (XMonitor.arlBegin base) pairs).2 = allCalls keywords pairs :=
        hfirst.trans (h.arlBegin.arlReadAll pairs).2
      rw [readSources, readSources]
      dsimp only
      rw [heq, hcalls]
      exact ih (h.arlIterate pairs) hnext _ hrest

/-- The callers' loop does in every iteration what it would do without the early stop, if and
only if every source is as `ReadsAll` says. Then the destinations have the same values. -/
theorem agreesWithAll_iff_readsAll (rechecks : Nat) (hdistinct : (keywords.map Prod.fst).Nodup)
    (sources : List (List (CString × CString))) {σ : Type*} (process : σ → δ × CString → σ)
    (dsts : σ) :
    (EventRun.AllSteps arlIterate ArlBase.AgreesWithAll (arlExpectAll rechecks keywords)
        sources ↔
      EventRun.AllSteps arlIterate (ArlBase.ReadsAll keywords) (arlExpectAll rechecks keywords)
        sources) ∧
      (EventRun.AllSteps arlIterate (ArlBase.ReadsAll keywords)
          (arlExpectAll rechecks keywords) sources →
        (readSources arlRead process (arlExpectAll rechecks keywords) dsts sources).2 =
          (readSources arlReadAll process (arlExpectAll rechecks keywords) dsts sources).2) := by
  have hbase := arlExpectAll_dictionary rechecks hdistinct
  have hiff := EventRun.allSteps_congr (I := fun base : ArlBase δ => base.Dictionary keywords)
    (fun _ pairs h _ => h.arlIterate pairs) (fun _ pairs h => h.agreesWithAll_iff pairs) hbase
    sources
  exact ⟨hiff, fun hreads => hbase.readSources_eq process hbase dsts (hiff.mpr hreads)⟩

/-- A keyword that first appears in the second iteration. -/
def lateKeyword : List (List (CString × CString)) :=
  [[(['x'], ['1'])], [(['x'], ['1']), (['a'], ['2'])]]

theorem lateKeyword_not_read :
    ¬ EventRun.AllSteps arlIterate ArlBase.AgreesWithAll (arlExpectAll 60 [(['a'], ())])
      lateKeyword := by
  rintro ⟨-, hsecond, -⟩
  have hlost : ([] : List (Unit × CString)) = [((), ['2'])] := hsecond
  cases hlost

/-- A keyword that is in the source from the beginning is read in every iteration. -/
theorem earlyKeyword_read :
    (EventRun.AllSteps arlIterate ArlBase.AgreesWithAll (arlExpectAll 60 [(['a'], ())])
        lateKeyword ↔
      EventRun.AllSteps arlIterate (ArlBase.ReadsAll [(['a'], ())])
        (arlExpectAll 60 [(['a'], ())]) lateKeyword) ∧
      (readSources arlRead (fun _ call => some call.2) (arlExpectAll 60 [(['a'], ())]) none
          (lateKeyword.drop 1)).2 =
        (readSources arlReadAll (fun _ call => some call.2) (arlExpectAll 60 [(['a'], ())]) none
          (lateKeyword.drop 1)).2 := by
  have hdistinct : ([(['a'], ())] : List (CString × Unit)).map Prod.fst |>.Nodup := by decide
  refine ⟨(agreesWithAll_iff_readsAll 60 hdistinct lateKeyword (fun _ _ => ()) ()).1, ?_⟩
  refine (agreesWithAll_iff_readsAll 60 hdistinct _ _ none).2 ⟨.inl ?_, trivial⟩
  decide

end XMonitor
