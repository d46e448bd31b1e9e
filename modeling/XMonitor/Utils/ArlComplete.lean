import XMonitor.Utils.ArlEarlyStop

/-!
# Sources with all expected keywords

If every source has all expected keywords, an iteration finds all of them, and so wants all
of them in the next one. Then nothing is lost by the early stop. A caller may also read
several sources in one iteration; the later ones are read with what the earlier ones have
left in the counters.
-/

namespace XMonitor

variable {δ : Type*} {base : ArlBase δ} {keywords : List (CString × δ)}

/-! ## Flags -/

/-- The keyword has been found since the flags were cleared last. -/
def ArlBase.Flagged (base : ArlBase δ) (keyword : CString) : Prop :=
  ∃ e ∈ base.entries, e.name = keyword ∧ e.found = true

/-- The entries that were expected have a destination. -/
def ArlBase.Tracked (base : ArlBase δ) : Prop :=
  ∀ e ∈ base.entries, e.kind = .expected → e.dst.isSome = true

theorem flagged_arlCheck (base : ArlBase δ) (keyword value : CString) :
    (arlCheck base keyword value).base.Flagged keyword := by
  obtain ⟨e, he, hname, hcheck⟩ | ⟨e, -, hname, hcheck⟩ | ⟨-, hcheck⟩ :=
    arlCheck_cases base keyword value
  · have hmem := List.mem_map_of_mem (f := fun m : ArlEntry δ =>
      if m.address = e.address then { m with found := true } else m) he
    rw [if_pos rfl] at hmem
    rw [hcheck]
    exact ⟨_, hmem, hname, rfl⟩
  · rw [hcheck]
    exact ⟨_, (arlLink_perm _ _ _).mem_iff.mpr List.mem_cons_self, hname, rfl⟩
  · rw [hcheck]
    exact ⟨_, (arlLink_perm _ _ _).mem_iff.mpr List.mem_cons_self, rfl, rfl⟩

theorem ArlBase.Flagged.arlCheck {name : CString} (h : base.Flagged name)
    (keyword value : CString) : (XMonitor.arlCheck base keyword value).base.Flagged name := by
  by_cases hname : name = keyword
  · rw [hname]
    exact flagged_arlCheck base keyword value
  obtain ⟨e, he, rfl, hfound⟩ := h
  obtain ⟨_, -, -, hcheck⟩ | ⟨e', -, hname', hcheck⟩ | ⟨-, hcheck⟩ :=
    arlCheck_cases base keyword value
  · rw [hcheck]
    refine ⟨_, List.mem_map_of_mem he, ?_⟩
    split
    · exact ⟨rfl, rfl⟩
    · exact ⟨rfl, hfound⟩
  · rw [hcheck]
    refine ⟨e, (arlLink_perm _ _ _).mem_iff.mpr (List.mem_cons_of_mem _ ?_), rfl, hfound⟩
    rw [List.mem_eraseP_of_neg (by simpa [hname'] using hname)]
    exact he
  · rw [hcheck]
    exact ⟨e, (arlLink_perm _ _ _).mem_iff.mpr (List.mem_cons_of_mem _ he), rfl, hfound⟩

theorem ArlBase.Tracked.arlCheck (h : base.Tracked) (keyword value : CString) :
    (XMonitor.arlCheck base keyword value).base.Tracked := by
  intro e' he' hkind
  obtain rfl | ⟨e, he, rfl | rfl⟩ := mem_arlCheck he'
  · cases hkind
  · exact h e' he hkind
  · exact h e he hkind

theorem arlCheck_expected (base : ArlBase δ) (keyword value : CString) :
    (arlCheck base keyword value).base.expected = base.expected := by
  obtain ⟨_, -, -, hcheck⟩ | ⟨_, -, -, hcheck⟩ | ⟨-, hcheck⟩ :=
    arlCheck_cases base keyword value
  all_goals
    rw [hcheck]
    rfl

/-! ## Between the iterations and in one -/

/-- In an iteration: all expected keywords are wanted. -/
structure ArlBase.WantsAll (base : ArlBase δ) (keywords : List (CString × δ)) : Prop
    extends base.Dictionary keywords where
  tracked : base.Tracked
  expected : base.expected = keywords.length
  wanted : base.wanted = keywords.length

/-- Between the iterations: the next one will want all expected keywords. -/
structure ArlBase.Settled (base : ArlBase δ) (keywords : List (CString × δ)) : Prop
    extends base.Dictionary keywords where
  tracked : base.Tracked
  expected : base.expected = keywords.length
  wanted : base.nextWanted = keywords.length

theorem ArlBase.WantsAll.arlCheck (h : base.WantsAll keywords) (keyword value : CString) :
    (XMonitor.arlCheck base keyword value).base.WantsAll keywords where
  toDictionary := h.toDictionary.arlCheck keyword value
  tracked := h.tracked.arlCheck keyword value
  expected := (arlCheck_expected base keyword value).trans h.expected
  wanted := (arlCheck_counts base keyword value).2.1.trans h.wanted

/-- The first iteration wants all expected keywords. -/
theorem arlExpectAll_settled (rechecks : Nat) (hdistinct : (keywords.map Prod.fst).Nodup) :
    (arlExpectAll rechecks keywords).Settled keywords := by
  have key : ∀ (more : List (CString × δ)) (base : ArlBase δ), base.iteration = 0 →
      base.Tracked → base.wanted = base.expected →
      let base' := more.foldl (fun base keyword => arlExpect base keyword.1 (some keyword.2)) base
      base'.iteration = 0 ∧ base'.Tracked ∧ base'.wanted = base'.expected ∧
        base'.expected = base.expected + more.length := by
    intro more
    induction more with
    | nil => exact fun base hiteration htracked hwanted => ⟨hiteration, htracked, hwanted, rfl⟩
    | cons keyword more ih =>
        intro base hiteration htracked hwanted
        have htracked' : (arlExpect base keyword.1 (some keyword.2)).Tracked := by
          intro e he hkind
          obtain rfl | he := List.mem_cons.mp he
          · rfl
          · exact htracked e he hkind
        obtain ⟨hiteration', htracked'', hwanted', hexpected⟩ :=
          ih (arlExpect base keyword.1 (some keyword.2)) hiteration htracked' rfl
        refine ⟨hiteration', htracked'', hwanted', hexpected.trans ?_⟩
        rw [List.length_cons]
        change base.expected + 1 + more.length = _
        omega
  obtain ⟨hiteration, htracked, hwanted, hexpected⟩ := key keywords (arlCreate rechecks) rfl
    (fun e he => absurd he List.not_mem_nil) rfl
  have hlength : (arlExpectAll rechecks keywords).expected = keywords.length :=
    hexpected.trans (Nat.zero_add _)
  have hfirst : ¬ 0 < (arlExpectAll rechecks keywords).iteration :=
    Nat.not_lt.mpr (Nat.le_of_eq hiteration)
  refine ⟨arlExpectAll_dictionary rechecks hdistinct, htracked, hlength, ?_⟩
  rw [ArlBase.nextWanted, if_neg fun h => hfirst h.1, if_neg fun h => hfirst h.1]
  exact hwanted.trans hlength

/-- An expected keyword keeps the list from being empty. -/
theorem ArlBase.Dictionary.rechecked_ne_nil (h : base.Dictionary keywords)
    (hsome : keywords ≠ []) : base.rechecked.entries ≠ [] := by
  obtain ⟨keyword, hmem⟩ := List.exists_mem_of_ne_nil keywords hsome
  have hexpects : base.rechecked.Expects keywords :=
    h.toExpects.of_keeps (ArlBase.Distinct.keeps_rechecked h.nodup)
  obtain ⟨e, he, -⟩ := hexpects.entry keyword.1 keyword.2 hmem
  exact List.ne_nil_of_mem he

/-- The entries at the beginning of an iteration are those that were kept. -/
theorem arlBegin_entries (h : base.rechecked.entries ≠ []) :
    (arlBegin base).entries = base.rechecked.entries := by
  rw [arlBegin_eq]
  change base.rechecked.nonempty.entries = _
  rw [ArlBase.nonempty, if_neg h]

theorem arlBegin_expected (h : base.rechecked.entries ≠ []) :
    (arlBegin base).expected = base.expected := by
  rw [arlBegin_eq]
  change base.rechecked.nonempty.expected = _
  rw [ArlBase.nonempty, if_neg h, ArlBase.rechecked]
  split <;> rfl

theorem ArlBase.Tracked.arlBegin (h : base.Tracked) (hsome : base.rechecked.entries ≠ []) :
    (XMonitor.arlBegin base).Tracked := by
  rw [Tracked, arlBegin_entries hsome, ArlBase.rechecked]
  split
  · intro e' he' hkind
    obtain ⟨e, he, rfl | rfl⟩ := of_mem_arlSweep he'
    · exact h e' he hkind
    · exact h e he hkind
  · exact h

theorem ArlBase.Settled.arlBegin (h : base.Settled keywords) (hsome : keywords ≠ []) :
    (XMonitor.arlBegin base).WantsAll keywords := by
  have hentries := h.toDictionary.rechecked_ne_nil hsome
  exact ⟨h.toDictionary.arlBegin, h.tracked.arlBegin hentries,
    (arlBegin_expected hentries).trans h.expected, (arlBegin_wanted hentries).trans h.wanted⟩

/-- The entries that were expected and found. -/
theorem ArlBase.WantsAll.settled (h : base.WantsAll keywords)
    (hdistinct : (keywords.map Prod.fst).Nodup)
    (hflagged : ∀ keyword ∈ keywords.map Prod.fst, base.Flagged keyword) :
    base.Settled keywords where
  toDictionary := h.toDictionary
  tracked := h.tracked
  expected := h.expected
  wanted := by
    rw [ArlBase.nextWanted]
    split
    · exact h.expected
    · split
      · -- the names of what is counted are the keywords
        have hperm : ((base.entries.filter fun e => e.found && decide (e.kind = .expected)).map
            ArlEntry.name).Perm (keywords.map Prod.fst) := by
          rw [List.perm_ext_iff_of_nodup (h.nodup.sublist (List.filter_sublist.map _)) hdistinct]
          intro keyword
          constructor
          · intro hmem
            obtain ⟨e, he, rfl⟩ := List.mem_map.mp hmem
            obtain ⟨he, hcounted⟩ := List.mem_filter.mp he
            rw [Bool.and_eq_true, decide_eq_true_eq] at hcounted
            obtain ⟨dst, hdst⟩ := Option.isSome_iff_exists.mp (h.tracked e he hcounted.2)
            exact List.mem_map_of_mem (f := Prod.fst) (h.only e he dst hdst)
          · intro hmem
            obtain ⟨k, hk, rfl⟩ := List.mem_map.mp hmem
            obtain ⟨e, he, hname, -, hkind⟩ := h.entry k.1 k.2 hk
            obtain ⟨e', he', hname', hfound⟩ := hflagged k.1 hmem
            have hsame := List.inj_on_of_nodup_map h.nodup he he' (hname.trans hname'.symm)
            refine List.mem_map.mpr ⟨e, List.mem_filter.mpr ⟨he, ?_⟩, hname⟩
            rw [Bool.and_eq_true, decide_eq_true_eq, hsame]
            exact ⟨hfound, hsame ▸ hkind⟩
        rw [List.countP_eq_length_filter]
        simpa using hperm.length_eq
      · exact h.wanted

/-! ## Reading -/

/-- The loop of the callers reads a first part of the source. -/
theorem exists_arlRead_eq (base : ArlBase δ) (pairs : List (CString × CString)) :
    ∃ read rest, pairs = read ++ rest ∧ arlRead base pairs = arlReadAll base read := by
  induction pairs generalizing base with
  | nil => exact ⟨[], [], rfl, rfl⟩
  | cons pair pairs ih =>
      rw [arlRead]
      dsimp only
      split
      · refine ⟨[pair], pairs, rfl, ?_⟩
        simp [arlReadAll]
      · obtain ⟨read, rest, rfl, heq⟩ := ih (arlCheck base pair.1 pair.2).base
        refine ⟨pair :: read, rest, rfl, ?_⟩
        rw [arlReadAll, heq]

theorem ArlBase.WantsAll.arlReadAll (h : base.WantsAll keywords)
    (pairs : List (CString × CString)) :
    (XMonitor.arlReadAll base pairs).1.WantsAll keywords := by
  induction pairs generalizing base with
  | nil => exact h
  | cons pair pairs ih => exact ih (h.arlCheck pair.1 pair.2)

theorem ArlBase.WantsAll.arlRead (h : base.WantsAll keywords)
    (pairs : List (CString × CString)) : (XMonitor.arlRead base pairs).1.WantsAll keywords := by
  obtain ⟨read, rest, -, heq⟩ := exists_arlRead_eq base pairs
  rw [heq]
  exact h.arlReadAll read

theorem ArlBase.Flagged.arlReadAll {name : CString} (h : base.Flagged name)
    (pairs : List (CString × CString)) :
    (XMonitor.arlReadAll base pairs).1.Flagged name := by
  induction pairs generalizing base with
  | nil => exact h
  | cons pair pairs ih => exact ih (h.arlCheck pair.1 pair.2)

theorem ArlBase.Flagged.arlRead {name : CString} (h : base.Flagged name)
    (pairs : List (CString × CString)) : (XMonitor.arlRead base pairs).1.Flagged name := by
  obtain ⟨read, rest, -, heq⟩ := exists_arlRead_eq base pairs
  rw [heq]
  exact h.arlReadAll read

theorem flagged_arlReadAll {pairs : List (CString × CString)} {pair : CString × CString}
    (h : pair ∈ pairs) : (arlReadAll base pairs).1.Flagged pair.1 := by
  induction pairs generalizing base with
  | nil => exact absurd h List.not_mem_nil
  | cons first pairs ih =>
      obtain rfl | h := List.mem_cons.mp h
      · exact (flagged_arlCheck base pair.1 pair.2).arlReadAll pairs
      · exact ih h

theorem arlReadAll_found (base : ArlBase δ) (pairs : List (CString × CString)) :
    (arlReadAll base pairs).1.found = base.found + (arlReadAll base pairs).2.length := by
  induction pairs generalizing base with
  | nil => rfl
  | cons pair pairs ih =>
      rw [arlReadAll]
      dsimp only
      rw [ih, (arlCheck_counts base pair.1 pair.2).1, List.length_append, Nat.add_assoc]

/-- The counter goes up with the calls. -/
theorem arlRead_found (base : ArlBase δ) (pairs : List (CString × CString)) :
    (arlRead base pairs).1.found = base.found + (arlRead base pairs).2.length := by
  obtain ⟨read, rest, -, heq⟩ := exists_arlRead_eq base pairs
  rw [heq]
  exact arlReadAll_found base read

theorem allCalls_append (keywords : List (CString × δ)) (pairs pairs' : List (CString × CString)) :
    allCalls keywords (pairs ++ pairs') = allCalls keywords pairs ++ allCalls keywords pairs' :=
  List.filterMap_append

/-- Where no call is left out, all expected keywords of the source are flagged. -/
theorem ArlBase.Dictionary.flagged_arlRead (h : base.Dictionary keywords)
    {pairs : List (CString × CString)} {pair : CString × CString} (hpair : pair ∈ pairs)
    (hdst : (destination keywords pair.1).isSome = true)
    (hcalls : (XMonitor.arlRead base pairs).2 = allCalls keywords pairs) :
    (XMonitor.arlRead base pairs).1.Flagged pair.1 := by
  obtain ⟨read, rest, rfl, heq⟩ := exists_arlRead_eq base pairs
  rw [heq, (h.arlReadAll read).2, allCalls_append, List.self_eq_append_right] at hcalls
  rw [heq]
  obtain hread | hrest := List.mem_append.mp hpair
  · exact flagged_arlReadAll hread
  · have hnone := List.filterMap_eq_nil_iff.mp hcalls pair hrest
    rw [Option.map_eq_none_iff] at hnone
    rw [hnone] at hdst
    cases hdst

/-! ## Complete sources -/

/-- All expected keywords are in the source, and none of its keywords is there twice. -/
structure Complete (keywords : List (CString × δ)) (pairs : List (CString × CString)) : Prop where
  nodup : (pairs.map Prod.fst).Nodup
  all : ∀ keyword ∈ keywords.map Prod.fst, keyword ∈ pairs.map Prod.fst

theorem destination_of_mem (hdistinct : (keywords.map Prod.fst).Nodup) {keyword : CString × δ}
    (h : keyword ∈ keywords) : destination keywords keyword.1 = some keyword.2 := by
  rw [destination, Option.map_eq_some_iff]
  cases hfind : keywords.find? fun k => k.1 = keyword.1 with
  | none =>
      have hnone := List.find?_eq_none.mp hfind keyword h
      simp at hnone
  | some k =>
      have hname : k.1 = keyword.1 := by simpa using List.find?_some hfind
      rw [List.inj_on_of_nodup_map hdistinct (List.mem_of_find?_eq_some hfind) h hname]
      exact ⟨keyword, rfl, rfl⟩

theorem isSome_destination {keyword : CString} (hdistinct : (keywords.map Prod.fst).Nodup) :
    (destination keywords keyword).isSome = true ↔ keyword ∈ keywords.map Prod.fst := by
  constructor
  · intro hsome
    obtain ⟨dst, hdst⟩ := Option.isSome_iff_exists.mp hsome
    exact List.mem_map_of_mem (f := Prod.fst) (mem_of_destination hdst)
  · intro hmem
    obtain ⟨k, hk, rfl⟩ := List.mem_map.mp hmem
    rw [destination_of_mem hdistinct hk]
    rfl

/-- All expected keywords are in the source, each of them once. -/
def Once (keywords : List (CString × δ)) (pairs : List (CString × CString)) : Prop :=
  ∀ keyword ∈ keywords.map Prod.fst, (pairs.map Prod.fst).count keyword = 1

theorem Complete.once {pairs : List (CString × CString)} (h : Complete keywords pairs) :
    Once keywords pairs :=
  fun keyword hkeyword => List.count_eq_one_of_mem h.nodup (h.all keyword hkeyword)

/-- A keyword that is there once has one value. -/
theorem Once.value_eq {pairs : List (CString × CString)} (h : Once keywords pairs)
    {keyword value value' : CString} (hkeyword : keyword ∈ keywords.map Prod.fst)
    (hpair : (keyword, value) ∈ pairs) (hpair' : (keyword, value') ∈ pairs) : value = value' := by
  have hone := h keyword hkeyword
  rw [List.count, List.countP_map, List.countP_eq_length_filter, List.length_eq_one_iff] at hone
  obtain ⟨pair, hfilter⟩ := hone
  have only {value : CString} (hmem : (keyword, value) ∈ pairs) : (keyword, value) = pair := by
    rw [← List.mem_singleton, ← hfilter, List.mem_filter]
    exact ⟨hmem, beq_self_eq_true keyword⟩
  exact congrArg Prod.snd ((only hpair).trans (only hpair').symm)

theorem Once.present {pairs : List (CString × CString)} (h : Once keywords pairs)
    (hdistinct : (keywords.map Prod.fst).Nodup) :
    present keywords pairs = keywords.length := by
  have hperm : ((pairs.map Prod.fst).filter fun keyword =>
      (destination keywords keyword).isSome).Perm (keywords.map Prod.fst) := by
    rw [List.perm_iff_count]
    intro keyword
    by_cases hmem : keyword ∈ keywords.map Prod.fst
    · rw [List.count_filter (p := fun keyword => (destination keywords keyword).isSome)
        ((isSome_destination hdistinct).mpr hmem), h keyword hmem,
        List.count_eq_one_of_mem hdistinct hmem]
    · rw [List.count_eq_zero_of_not_mem hmem, List.count_eq_zero]
      exact fun hfilter => hmem ((isSome_destination hdistinct).mp (List.mem_filter.mp hfilter).2)
  have hlength := hperm.length_eq
  rw [List.length_map, ← List.countP_eq_length_filter, List.countP_map] at hlength
  exact hlength

theorem Complete.present {pairs : List (CString × CString)} (h : Complete keywords pairs)
    (hdistinct : (keywords.map Prod.fst).Nodup) :
    present keywords pairs = keywords.length :=
  h.once.present hdistinct

/-- A source with each expected keyword once is read to the last of them, at the beginning of an
iteration and also after all of them have been found, if it begins with one of them. -/
theorem ArlBase.WantsAll.calls_once (h : base.WantsAll keywords)
    (hdistinct : (keywords.map Prod.fst).Nodup) {pairs : List (CString × CString)}
    (hpairs : Once keywords pairs)
    (hfound : base.found = 0 ∨ base.found = keywords.length ∧
      ∃ pair ∈ pairs.head?, pair.1 ∈ keywords.map Prod.fst) :
    (XMonitor.arlRead base pairs).2 = allCalls keywords pairs := by
  have hpresent := hpairs.present hdistinct
  have hwanted := h.wanted
  obtain hzero | ⟨hall, pair, hhead, hmem⟩ := hfound
  · obtain hnone | hsome := Nat.eq_zero_or_pos keywords.length
    · exact h.calls_of_present (hpresent.trans hnone)
    · rw [h.calls_eq_iff pairs (by omega)]
      omega
  · cases pairs with
    | nil => cases hhead
    | cons first pairs =>
        cases hhead
        obtain ⟨n, -, -, hone, base', h', hfound', hwanted', hiff⟩ :=
          h.calls_cons pair pairs
        have hn := hone.mpr ((isSome_destination hdistinct).mpr hmem)
        rw [hiff, if_neg (by omega)]
        exact h'.calls_of_lt pairs (by omega)

/-- An iteration over a source with each expected keyword once leaves nothing out, and neither
does the next one. -/
theorem ArlBase.Settled.read_once (h : base.Settled keywords) (hsome : keywords ≠ [])
    (hdistinct : (keywords.map Prod.fst).Nodup) {pairs : List (CString × CString)}
    (hpairs : Once keywords pairs) :
    (XMonitor.arlRead (XMonitor.arlBegin base) pairs).1.Settled keywords ∧
      (XMonitor.arlRead (XMonitor.arlBegin base) pairs).2 = allCalls keywords pairs := by
  have hwants := h.arlBegin hsome
  have hcalls := hwants.calls_once hdistinct hpairs (.inl (arlBegin_found base))
  refine ⟨(hwants.arlRead pairs).settled hdistinct fun keyword hkeyword => ?_, hcalls⟩
  have hmem : keyword ∈ pairs.map Prod.fst :=
    List.count_pos_iff.mp (Nat.lt_of_lt_of_eq Nat.zero_lt_one (hpairs keyword hkeyword).symm)
  obtain ⟨pair, hpair, rfl⟩ := List.mem_map.mp hmem
  exact hwants.flagged_arlRead hpair ((isSome_destination hdistinct).mpr hkeyword) hcalls

/-- A complete source is such a source. -/
theorem ArlBase.WantsAll.calls_complete (h : base.WantsAll keywords)
    (hdistinct : (keywords.map Prod.fst).Nodup) {pairs : List (CString × CString)}
    (hpairs : Complete keywords pairs)
    (hfound : base.found = 0 ∨ base.found = keywords.length ∧
      ∃ pair ∈ pairs.head?, pair.1 ∈ keywords.map Prod.fst) :
    (XMonitor.arlRead base pairs).2 = allCalls keywords pairs :=
  h.calls_once hdistinct hpairs.once hfound

/-- Once all expected keywords have been found, reading stops at the first other keyword. -/
theorem ArlBase.WantsAll.calls_stopped (h : base.WantsAll keywords)
    (hdistinct : (keywords.map Prod.fst).Nodup) {pairs : List (CString × CString)}
    (hfound : base.found = keywords.length)
    (hother : ∀ pair ∈ pairs.head?, pair.1 ∉ keywords.map Prod.fst) :
    (XMonitor.arlRead base pairs).2 = [] := by
  cases pairs with
  | nil => rfl
  | cons pair pairs =>
      have hcall : (XMonitor.arlCheck base pair.1 pair.2).call = none := by
        rw [h.call_arlCheck, Option.map_eq_none_iff, ← Option.not_isSome_iff_eq_none,
          isSome_destination hdistinct]
        exact hother pair rfl
      obtain ⟨hcount, -, hstop⟩ := arlCheck_counts base pair.1 pair.2
      rw [hcall] at hcount
      have hreached : (XMonitor.arlCheck base pair.1 pair.2).stop = true := by
        rw [hstop, decide_eq_true_eq, hcount, h.wanted]
        exact hfound
      rw [XMonitor.arlRead]
      dsimp only
      rw [if_pos hreached, hcall]
      rfl

theorem mem_allCalls {pairs : List (CString × CString)} {dst : δ} {value : CString} :
    (dst, value) ∈ allCalls keywords pairs ↔
      ∃ keyword, (keyword, value) ∈ pairs ∧ destination keywords keyword = some dst := by
  constructor
  · intro hmem
    obtain ⟨pair, hpair, hcall⟩ := List.mem_filterMap.mp hmem
    obtain ⟨dst', hdst, heq⟩ := Option.map_eq_some_iff.mp hcall
    cases heq
    exact ⟨pair.1, hpair, hdst⟩
  · rintro ⟨keyword, hpair, hdst⟩
    exact List.mem_filterMap.mpr ⟨(keyword, value), hpair, Option.map_eq_some_iff.mpr
      ⟨dst, hdst, rfl⟩⟩

/-- A list calls the processor for its own destinations. -/
theorem ArlBase.Dictionary.dst_mem (h : base.Dictionary keywords)
    {pairs : List (CString × CString)} {call : δ × CString}
    (hcall : call ∈ (XMonitor.arlRead base pairs).2) : call.1 ∈ keywords.map Prod.snd := by
  obtain ⟨read, rest, -, heq⟩ := exists_arlRead_eq base pairs
  rw [heq, (h.arlReadAll read).2] at hcall
  obtain ⟨keyword, -, hdst⟩ := mem_allCalls.mp hcall
  exact List.mem_map_of_mem (f := Prod.snd) (mem_of_destination hdst)

/-- The calls for such a source store the value of each expected keyword. -/
theorem Once.stored [DecidableEq δ] {α : Type*} (parse : CString → α)
    {pairs : List (CString × CString)} (h : Once keywords pairs)
    (hdistinct : (keywords.map Prod.fst).Nodup) (hdsts : (keywords.map Prod.snd).Nodup)
    {keyword value : CString} {dst : δ} (hkeyword : (keyword, dst) ∈ keywords)
    (hpair : (keyword, value) ∈ pairs) (dsts : δ → α) :
    (allCalls keywords pairs).foldl
      (fun dsts call => Function.update dsts call.1 (parse call.2)) dsts dst = parse value := by
  apply foldl_update_of_mem parse
  · exact mem_allCalls.mpr ⟨keyword, hpair, destination_of_mem hdistinct hkeyword⟩
  · intro value' hmem
    obtain ⟨keyword', hpair', hdst⟩ := mem_allCalls.mp hmem
    have hsame := List.inj_on_of_nodup_map hdsts (mem_of_destination hdst) hkeyword rfl
    cases hsame
    rw [h.value_eq (List.mem_map_of_mem (f := Prod.fst) hkeyword) hpair' hpair]

/-- The number of the keyword with a destination in a source. -/
def sourceValue [DecidableEq δ] (keywords : List (CString × δ)) (pairs : List (CString × CString))
    (dst : δ) : UInt64 :=
  ((pairs.find? fun pair => destination keywords pair.1 = some dst).map fun pair =>
    str2uint64 pair.2).getD 0

theorem Once.sourceValue_eq [DecidableEq δ] {pairs : List (CString × CString)}
    (h : Once keywords pairs) (hdistinct : (keywords.map Prod.fst).Nodup)
    (hdsts : (keywords.map Prod.snd).Nodup) {keyword value : CString} {dst : δ}
    (hkeyword : (keyword, dst) ∈ keywords) (hpair : (keyword, value) ∈ pairs) :
    sourceValue keywords pairs dst = str2uint64 value := by
  rw [sourceValue]
  cases hfind : pairs.find? fun pair => destination keywords pair.1 = some dst with
  | none =>
      have hnot := List.find?_eq_none.mp hfind _ hpair
      exact absurd (decide_eq_true (destination_of_mem hdistinct hkeyword)) hnot
  | some pair =>
      have hsome := List.find?_some hfind
      have hdestination := mem_of_destination (of_decide_eq_true hsome)
      have hsame := List.inj_on_of_nodup_map hdsts hdestination hkeyword rfl
      obtain ⟨hname, -⟩ := Prod.mk.inj hsame
      have hmem := List.mem_of_find?_eq_some hfind
      have hvalue : pair.2 = value := by
        refine h.value_eq (List.mem_map_of_mem (f := Prod.fst) hkeyword) ?_ hpair
        rw [← hname]
        exact hmem
      rw [← hvalue]
      rfl

/-- The calls store the numbers of all keywords. -/
theorem Once.stored_sourceValue [DecidableEq δ] {pairs : List (CString × CString)}
    (h : Once keywords pairs) (hdistinct : (keywords.map Prod.fst).Nodup)
    (hdsts : (keywords.map Prod.snd).Nodup) {dst : δ} (hdst : dst ∈ keywords.map Prod.snd)
    (dsts : δ → UInt64) :
    (allCalls keywords pairs).foldl
      (fun dsts call => Function.update dsts call.1 (str2uint64 call.2)) dsts dst =
        sourceValue keywords pairs dst := by
  obtain ⟨⟨keyword, _⟩, hkeyword, rfl⟩ := List.mem_map.mp hdst
  have hmem : keyword ∈ pairs.map Prod.fst :=
    List.count_pos_iff.mp (Nat.lt_of_lt_of_eq Nat.zero_lt_one
      (h keyword (List.mem_map_of_mem (f := Prod.fst) hkeyword)).symm)
  obtain ⟨⟨_, value⟩, hpair, rfl⟩ := List.mem_map.mp hmem
  rw [h.sourceValue_eq hdistinct hdsts hkeyword hpair]
  exact h.stored str2uint64 hdistinct hdsts hkeyword hpair dsts

theorem Complete.stored [DecidableEq δ] {α : Type*} (parse : CString → α)
    {pairs : List (CString × CString)} (h : Complete keywords pairs)
    (hdistinct : (keywords.map Prod.fst).Nodup) (hdsts : (keywords.map Prod.snd).Nodup)
    {keyword value : CString} {dst : δ} (hkeyword : (keyword, dst) ∈ keywords)
    (hpair : (keyword, value) ∈ pairs) (dsts : δ → α) :
    (allCalls keywords pairs).foldl
      (fun dsts call => Function.update dsts call.1 (parse call.2)) dsts dst = parse value :=
  h.once.stored parse hdistinct hdsts hkeyword hpair dsts

end XMonitor
