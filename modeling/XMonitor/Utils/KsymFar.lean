import XMonitor.Utils.Ksym
import Mathlib.Data.List.GetD
import Mathlib.Data.List.Permutation

/-!
# Lookups of kernel symbols

Addresses that lie `2 ^ 31` or more apart are not compared by their order. The comparator may
still be an order of its own, and then the array is in that order: one of its ends is not the
smallest or the greatest address, or the key `2 ^ 32` below its last element hits that element. If
the comparator is no order, the array is whatever `qsort` makes of the symbols, and among their
arrangements there is one with a key that is looked up wrong.
-/

namespace XMonitor.Ksyms

variable {symbols syms : List Ksym} {key : Int64} {i : Nat}

/-! ## Addresses far from each other -/

theorem exists_between {low high : Ksym} {n : Int} (hmemlow : low ∈ syms) (hmemhigh : high ∈ syms)
    (hlow : low.addr.toInt ≤ n) (hhigh : n ≤ high.addr.toInt) :
    ∃ key : Int64, key.toInt = n ∧ Between syms key := by
  have hmin := low.addr.le_toInt
  have hmax := high.addr.toInt_lt
  have hkey : (Int64.ofInt n).toInt = n := Int64.toInt_ofInt_of_le (by omega) (by omega)
  refine ⟨Int64.ofInt n, hkey, ⟨low, hmemlow, ?_⟩, high, hmemhigh, ?_⟩
  · rw [Int64.le_iff_toInt_le, hkey]
    exact hlow
  · rw [Int64.le_iff_toInt_le, hkey]
    exact hhigh

/-- Where the first element is not the smallest, it is returned for the key below it. -/
theorem not_right_of_before_first (hordered : Ordered syms) (hpos : 0 < syms.length)
    (hkey : key.toInt = (elem syms 0).addr.toInt - 1) : ¬ Right syms syms key := by
  have hneg : ∀ i, i < syms.length → delta key (elem syms i).addr < 0 := by
    intro i hi
    obtain ⟨q, hq, hlow, hhigh⟩ := exists_delta_eq key (elem syms i).addr
    obtain rfl | hlt := Nat.eq_zero_or_pos i
    · omega
    · obtain ⟨hfirst, hsecond⟩ := hordered 0 i hlt hi
      obtain ⟨r, hr, hrlow, hrhigh⟩ := exists_delta_eq (elem syms 0).addr (elem syms i).addr
      obtain ⟨t, ht, htlow, hthigh⟩ := exists_delta_eq (elem syms i).addr (elem syms 0).addr
      omega
  obtain ⟨mid, hmid, hplace, hprobe⟩ | ⟨start, hle, hplace, hbefore, hat⟩ :=
    place_cases syms key
  · have hlt := hneg mid hmid
    omega
  · have hnone : ¬ 1 ≤ start := fun hone => by
      have hgt := hbefore hone
      have hlt := hneg (start - 1) (by omega)
      omega
    rw [right_iff_of_first hpos.ne' hplace fun hone => absurd hone hnone]
    intro hsym
    have hfirst := Int64.le_iff_toInt_le.mp hsym.2.1
    omega

/-- The key behind the last element is compared with what follows it, if that element is not the
first one. -/
theorem not_right_of_behind_last (hordered : Ordered syms) (hpos : 0 < syms.length)
    (hfirst : (elem syms 0).addr.toInt < (elem syms (syms.length - 1)).addr.toInt)
    (hkey : key.toInt = (elem syms (syms.length - 1)).addr.toInt + 1) :
    ¬ Right syms syms key := by
  have hlast : 0 < syms.length - 1 := by
    apply Nat.pos_of_ne_zero
    intro hzero
    rw [hzero] at hfirst
    exact Int.lt_irrefl _ hfirst
  have hspan := (hordered 0 (syms.length - 1) hlast (by omega)).2
  obtain ⟨r, hr, -, hrhigh⟩ :=
    exists_delta_eq (elem syms (syms.length - 1)).addr (elem syms 0).addr
  have hne : delta key (elem syms 0).addr ≠ 0 := by
    obtain ⟨q, hq, -, -⟩ := exists_delta_eq key (elem syms 0).addr
    omega
  have hgt : ∀ i, 0 < i → i < syms.length → 0 < delta key (elem syms i).addr := by
    intro i hzero hi
    obtain ⟨q, hq, hlow, hhigh⟩ := exists_delta_eq key (elem syms i).addr
    obtain hlt | rfl := Nat.lt_or_eq_of_le (Nat.le_sub_one_of_lt hi)
    · obtain ⟨t, ht, -, hthigh⟩ := exists_delta_eq (elem syms i).addr (elem syms 0).addr
      obtain ⟨u, hu, -, huhigh⟩ :=
        exists_delta_eq (elem syms (syms.length - 1)).addr (elem syms i).addr
      have hstart := (hordered 0 i hzero hi).2
      have hend := (hordered i (syms.length - 1) hlt (by omega)).2
      omega
    · omega
  obtain ⟨mid, hmid, hplace, hprobe⟩ | ⟨start, hle, hplace, hbefore, hat⟩ :=
    place_cases syms key
  · obtain rfl | hzero := Nat.eq_zero_or_pos mid
    · exact absurd hprobe hne
    · exact absurd hprobe (hgt mid hzero hmid).ne'
  · obtain rfl | hzero := Nat.eq_zero_or_pos start
    · rw [right_iff_of_first hpos.ne' hplace fun hone => absurd hone (by decide)]
      intro hsym
      have hbelow : (elem syms (syms.length - 1)).addr ≤ key := by
        rw [Int64.le_iff_toInt_le]
        omega
      have hle := Int64.le_iff_toInt_le.mp (hsym.2.2 _ (elem_mem (by omega)) hbelow)
      omega
    · obtain hlt | rfl := Nat.lt_or_eq_of_le hle
      · exact absurd (hat hlt) (Int.not_lt.mpr (hgt start hzero hlt).le)
      · apply not_right_of_end hpos.ne' hplace
        rw [Int64.lt_iff_toInt_lt]
        omega

/-- The key that lies `2 ^ 32` below the last element hits it. -/
theorem not_right_of_wrapped (hordered : Ordered syms) (hpos : 0 < syms.length)
    (hkey : key.toInt = (elem syms (syms.length - 1)).addr.toInt - 4294967296) :
    ¬ Right syms syms key := by
  have hdelta : ∀ i, delta key (elem syms i).addr =
      delta (elem syms (syms.length - 1)).addr (elem syms i).addr := by
    intro i
    obtain ⟨q, hq, hlow, hhigh⟩ := exists_delta_eq key (elem syms i).addr
    obtain ⟨r, hr, hrlow, hrhigh⟩ :=
      exists_delta_eq (elem syms (syms.length - 1)).addr (elem syms i).addr
    omega
  have hgt : ∀ i, i < syms.length - 1 → 0 < delta key (elem syms i).addr := by
    intro i hi
    rw [hdelta]
    exact (hordered i (syms.length - 1) hi (by omega)).2
  have hself : delta key (elem syms (syms.length - 1)).addr = 0 := by
    obtain ⟨q, hq, hlow, hhigh⟩ := exists_delta_eq key (elem syms (syms.length - 1)).addr
    omega
  obtain ⟨mid, hmid, hplace, hprobe⟩ | ⟨start, hle, hplace, hbefore, hat⟩ :=
    place_cases syms key
  · obtain hlt | rfl := Nat.lt_or_eq_of_le (Nat.le_sub_one_of_lt hmid)
    · exact absurd hprobe (hgt mid hlt).ne'
    · rw [right_iff_of_hit hplace]
      intro hsym
      have hle := Int64.le_iff_toInt_le.mp hsym.2.1
      omega
  · obtain hlt | rfl := Nat.lt_or_eq_of_le hle
    · have hneg := hat hlt
      obtain hbelow | rfl := Nat.lt_or_eq_of_le (Nat.le_sub_one_of_lt hlt)
      · exact absurd hneg (Int.not_lt.mpr (hgt start hbelow).le)
      · omega
    · exact absurd hself (hbefore hpos).ne'

/-- Even where the comparator is an order, some key between two symbols is looked up wrong. -/
theorem exists_wrong_of_ordered (hordered : Ordered syms) (hfar : ¬ Near syms) :
    ∃ key, Between syms key ∧ ¬ Right syms syms key := by
  simp only [Near, not_forall, Int.not_lt] at hfar
  obtain ⟨a, ha, b, hb, hab⟩ := hfar
  have hpos := List.length_pos_of_mem ha
  have hfirstmem := elem_mem hpos
  have hlastmem : elem syms (syms.length - 1) ∈ syms :=
    elem_mem (Nat.sub_lt hpos Nat.one_pos)
  by_cases hmin : ∀ sym ∈ syms, (elem syms 0).addr.toInt ≤ sym.addr.toInt
  · have hlast : 0 < syms.length - 1 := by
      by_contra hsingle
      have hone : syms.length = 1 := by omega
      rw [eq_elem_of_single hone ha hpos, eq_elem_of_single hone hb hpos] at hab
      omega
    obtain ⟨hspan, hspan'⟩ := hordered 0 (syms.length - 1) hlast (by omega)
    have hlow := hmin _ hlastmem
    obtain ⟨q, hq, -, hqhigh⟩ :=
      exists_delta_eq (elem syms (syms.length - 1)).addr (elem syms 0).addr
    by_cases hmax : ∀ sym ∈ syms, sym.addr.toInt ≤ (elem syms (syms.length - 1)).addr.toInt
    · have hfirst := hmin a ha
      have hend := hmax b hb
      obtain ⟨key, hkey, hbetween⟩ := exists_between hfirstmem hlastmem
        (n := (elem syms (syms.length - 1)).addr.toInt - 4294967296) (by omega) (by omega)
      exact ⟨key, hbetween, not_right_of_wrapped hordered hpos hkey⟩
    · simp only [not_forall, Int.not_le] at hmax
      obtain ⟨sym, hsym, hlt⟩ := hmax
      obtain ⟨key, hkey, hbetween⟩ := exists_between hlastmem hsym
        (n := (elem syms (syms.length - 1)).addr.toInt + 1) (by omega) (by omega)
      exact ⟨key, hbetween, not_right_of_behind_last hordered hpos (by omega) hkey⟩
  · simp only [not_forall, Int.not_le] at hmin
    obtain ⟨sym, hsym, hlt⟩ := hmin
    obtain ⟨key, hkey, hbetween⟩ := exists_between hsym hfirstmem
      (n := (elem syms 0).addr.toInt - 1) (by omega) (by omega)
    exact ⟨key, hbetween, not_right_of_before_first hordered hpos hkey⟩

/-! ## Addresses that the comparator does not order -/

/-- If the first comparison does not lead to the upper half, the symbol is one up to the middle. -/
theorem exists_le_middle (symbols : List Ksym) (hpos : 0 < syms.length)
    (hprobe : probe syms key (syms.length / 2) ≠ .gt) :
    ∃ i, i ≤ syms.length / 2 ∧ (Right symbols syms key → IsSymbolOf symbols key (elem syms i)) := by
  have hmiddle : BinarySearch.middle 0 syms.length = syms.length / 2 := by
    rw [BinarySearch.middle, Nat.zero_add, Nat.sub_zero]
  have hhalf : syms.length / 2 < syms.length := Nat.div_lt_self hpos Nat.one_lt_two
  rw [← hmiddle] at hprobe ⊢
  cases hresult : probe syms key (BinarySearch.middle 0 syms.length) with
  | gt => exact absurd hresult hprobe
  | eq =>
      have hplace : place syms key = .hit (BinarySearch.middle 0 syms.length) := by
        rw [place, BinarySearch.search_of_eq hpos hresult]
      exact ⟨_, Nat.le_refl _, (right_iff_of_hit hplace).mp⟩
  | lt =>
      have hends := BinarySearch.ends_search (probe syms key)
        (Nat.zero_le (BinarySearch.middle 0 syms.length))
      have hlower : place syms key =
          (BinarySearch.search (probe syms key) 0 (BinarySearch.middle 0 syms.length)).1 := by
        rw [place, BinarySearch.search_of_lt hpos hresult]
      rw [← hlower] at hends
      rw [hmiddle] at hends ⊢
      cases hplace : place syms key with
      | hit mid =>
          rw [hplace] at hends
          exact ⟨mid, Nat.le_of_lt hends.2.1, (right_iff_of_hit hplace).mp⟩
      | miss start =>
          rw [hplace] at hends
          have hstart : start < syms.length := Nat.lt_of_le_of_lt hends.2.1 hhalf
          by_cases hbetween : 1 ≤ start ∧ (elem syms (start - 1)).addr < key ∧
              key < (elem syms start).addr
          · obtain ⟨hone, hbefore, hat⟩ := hbetween
            exact ⟨start - 1, Nat.le_trans (Nat.sub_le _ _) hends.2.1,
              (right_iff_of_between hplace hone hstart hbefore hat).mp⟩
          · refine ⟨0, Nat.zero_le _, (right_iff_of_first hpos.ne' hplace ?_).mp⟩
            exact fun hone hbefore => ⟨hstart, fun hat => hbetween ⟨hone, hbefore, hat⟩⟩

theorem elem_append_left {front back : List Ksym} (h : i < front.length) :
    elem (front ++ back) i = elem front i :=
  List.getD_append front back _ i h

/-- Three symbols can be arranged with one of them in the middle and another one behind it. -/
theorem exists_arrangement (hmany : 3 ≤ symbols.length) {k x : Ksym} (hk : k ∈ symbols)
    (hx : x ∈ symbols) (hne : x ≠ k) :
    ∃ front back, (front ++ back).Perm symbols ∧ front.length = symbols.length / 2 + 1 ∧
      elem front (symbols.length / 2) = x ∧ k ∈ back := by
  obtain ⟨others, hsymbols⟩ : ∃ others, symbols.Perm (k :: x :: others) :=
    ⟨_, (List.perm_cons_erase hk).trans
      ((List.perm_cons_erase ((List.mem_erase_of_ne hne).mpr hx)).cons k)⟩
  have hcount : symbols.length = others.length + 2 := hsymbols.length_eq
  have htake : (others.take (symbols.length / 2)).length = symbols.length / 2 :=
    List.length_take_of_le (by omega)
  refine ⟨others.take (symbols.length / 2) ++ [x], k :: others.drop (symbols.length / 2),
    ?_, ?_, ?_, List.mem_cons_self⟩
  · have hsplit : (k :: x :: (others.take (symbols.length / 2) ++
        others.drop (symbols.length / 2))).Perm symbols := by
      rw [List.take_append_drop]
      exact hsymbols.symm
    refine List.Perm.trans ?_ hsplit
    rw [List.append_assoc, List.singleton_append]
    exact List.perm_middle.trans ((List.perm_middle.cons x).trans (List.Perm.swap k x _))
  · rw [List.length_append, htake, List.length_singleton]
  · rw [elem_eq_getElem (by rw [List.length_append, htake]; exact Nat.lt_succ_self _),
      List.getElem_append_right (Nat.le_of_eq htake)]
    simp [htake]

/-- The symbol behind the middle is not found if the comparison there leads to the front. -/
theorem exists_wrong_arrangement (hdistinct : (symbols.map Ksym.addr).Nodup)
    (hmany : 3 ≤ symbols.length) {k x : Ksym} (hk : k ∈ symbols) (hx : x ∈ symbols) (hne : x ≠ k)
    (hle : delta k.addr x.addr ≤ 0) :
    ∃ syms, syms.Perm symbols ∧ ¬ Right symbols syms k.addr := by
  obtain ⟨front, back, hperm, hfront, hmiddle, hback⟩ := exists_arrangement hmany hk hx hne
  have hlength : (front ++ back).length = symbols.length := hperm.length_eq
  have hout : k ∉ front := fun hmem =>
    List.disjoint_of_nodup_append (hperm.nodup_iff.mpr hdistinct.of_map) hmem hback
  have hprobe : probe (front ++ back) k.addr ((front ++ back).length / 2) ≠ .gt := by
    rw [hlength]
    intro hgt
    rw [probe_gt_iff, elem_append_left (by omega), hmiddle] at hgt
    omega
  refine ⟨front ++ back, hperm, fun hright => ?_⟩
  obtain ⟨i, hi, hsym⟩ := exists_le_middle symbols (by omega) hprobe
  rw [hlength] at hi
  have hlt : i < front.length := by omega
  obtain ⟨hmem, hbelow, hgreatest⟩ := hsym hright
  rw [elem_append_left hlt] at hmem hbelow hgreatest
  have heq : elem front i = k :=
    List.inj_on_of_nodup_map hdistinct hmem hk
      (Int64.le_antisymm hbelow (hgreatest k hk (Int64.le_refl _)))
  exact hout (heq ▸ elem_mem hlt)

/-- Two addresses are compared consistently unless the lower halves are equal, or as far apart as
they can be. -/
theorem totalOrderOn_pair {a b : Ksym} (hmem : ∀ sym ∈ symbols, sym = a ∨ sym = b)
    (hzero : delta a.addr b.addr ≠ 0) (hmin : delta a.addr b.addr ≠ -2147483648) :
    TotalOrderOn ksymCmp symbols := by
  have hself : ∀ sym : Ksym, (ksymCmp sym sym).toInt = 0 := by
    intro sym
    obtain ⟨q, hq, hlow, hhigh⟩ := exists_delta_eq sym.addr sym.addr
    rw [ksymCmp, ← delta]
    omega
  have hswap : (ksymCmp b a).toInt = -(ksymCmp a b).toInt := by
    obtain ⟨q, hq, hlow, hhigh⟩ := exists_delta_eq a.addr b.addr
    obtain ⟨r, hr, hrlow, hrhigh⟩ := exists_delta_eq b.addr a.addr
    rw [ksymCmp, ksymCmp, ← delta, ← delta]
    omega
  have hne : (ksymCmp a b).toInt ≠ 0 := hzero
  have ha := hself a
  have hb := hself b
  refine ⟨?_, ?_, ?_⟩
  · intro s hs t ht
    rw [Int32.lt_iff_toInt_lt, Int32.lt_iff_toInt_lt, Int32.toInt_zero]
    obtain rfl | rfl := hmem s hs <;> obtain rfl | rfl := hmem t ht <;> omega
  · intro s hs t ht u hu
    rw [Int32.le_iff_toInt_le, Int32.le_iff_toInt_le, Int32.le_iff_toInt_le, Int32.toInt_zero]
    obtain rfl | rfl := hmem s hs <;> obtain rfl | rfl := hmem t ht <;>
      obtain rfl | rfl := hmem u hu <;> omega
  · intro s hs t ht heq
    have hcmp := congrArg Int32.toInt heq
    rw [Int32.toInt_zero] at hcmp
    obtain rfl | rfl := hmem s hs <;> obtain rfl | rfl := hmem t ht
    · rfl
    · exact absurd hcmp hne
    · omega
    · rfl

theorem length_pair_pos (a b : Ksym) : 0 < [a, b].length := Nat.zero_lt_two

theorem middle_pair (a b : Ksym) : BinarySearch.middle 0 [a, b].length = 1 := by
  simp [BinarySearch.middle]

/-- Where the second of two symbols has the lower half of the key, it is found. -/
theorem not_right_of_second_eq {a b : Ksym} (hzero : delta key b.addr = 0)
    (hlt : key.toInt < b.addr.toInt) : ¬ Right symbols [a, b] key := by
  have hprobe : probe [a, b] key (BinarySearch.middle 0 [a, b].length) = .eq := by
    rw [middle_pair]
    exact probe_eq_iff.mpr hzero
  have hplace : place [a, b] key = .hit 1 := by
    rw [place, BinarySearch.search_of_eq (length_pair_pos a b) hprobe, middle_pair]
  rw [right_iff_of_hit hplace]
  intro hsym
  have hle : b.addr.toInt ≤ key.toInt := Int64.le_iff_toInt_le.mp hsym.2.1
  omega

/-- Where the key compares above the second one, the search ends behind it. -/
theorem not_right_of_second_gt {a b : Ksym} (hgt : 0 < delta key b.addr)
    (hlt : b.addr.toInt < key.toInt) : ¬ Right symbols [a, b] key := by
  have hprobe : probe [a, b] key (BinarySearch.middle 0 [a, b].length) = .gt := by
    rw [middle_pair]
    exact probe_gt_iff.mpr hgt
  have hplace : place [a, b] key = .miss 2 := by
    rw [place, BinarySearch.search_of_gt (length_pair_pos a b) hprobe, middle_pair]
    exact congrArg Prod.fst (BinarySearch.search_of_not_lt (Nat.lt_irrefl 2))
  apply not_right_of_end (length_pair_pos a b).ne' hplace
  exact Int64.lt_iff_toInt_lt.mpr hlt

/-- Where the comparator is no order, a `qsort` may leave an array in which a key between two
symbols is looked up wrong. -/
theorem exists_wrong_of_not_total (hdistinct : (symbols.map Ksym.addr).Nodup)
    (hfar : ¬ Near symbols) (hnot : ¬ TotalOrderOn ksymCmp symbols) :
    ∃ syms, syms.Perm symbols ∧ ∃ key, Between symbols key ∧ ¬ Right symbols syms key := by
  simp only [Near, not_forall, Int.not_lt] at hfar
  obtain ⟨a, ha, b, hb, hab⟩ := hfar
  have hne : b ≠ a := by
    rintro rfl
    omega
  obtain ⟨others, hsymbols⟩ : ∃ others, symbols.Perm (a :: b :: others) :=
    ⟨_, (List.perm_cons_erase ha).trans
      ((List.perm_cons_erase ((List.mem_erase_of_ne hne).mpr hb)).cons a)⟩
  have hself : ∀ sym ∈ symbols, Between symbols sym.addr := fun sym hsym =>
    ⟨⟨sym, hsym, Int64.le_refl _⟩, sym, hsym, Int64.le_refl _⟩
  cases others with
  | nil =>
      have hmem : ∀ sym ∈ symbols, sym = a ∨ sym = b := by
        intro sym hsym
        have hpair := hsymbols.mem_iff.mp hsym
        simpa using hpair
      by_cases hzero : delta a.addr b.addr = 0
      · exact ⟨[a, b], hsymbols.symm, a.addr, hself a ha,
          not_right_of_second_eq hzero (by omega)⟩
      · by_cases hmin : delta a.addr b.addr = -2147483648
        · obtain ⟨key, hkey, hbetween⟩ :=
            exists_between ha hb (n := b.addr.toInt - 1) (by omega) (by omega)
          have hgt : 0 < delta key a.addr := by
            obtain ⟨q, hq, hlow, hhigh⟩ := exists_delta_eq key a.addr
            obtain ⟨r, hr, hrlow, hrhigh⟩ := exists_delta_eq a.addr b.addr
            omega
          exact ⟨[b, a], (List.Perm.swap a b []).trans hsymbols.symm, key, hbetween,
            not_right_of_second_gt hgt (by omega)⟩
        · exact absurd (totalOrderOn_pair hmem hzero hmin) hnot
  | cons other others =>
      have hmany : 3 ≤ symbols.length := by
        rw [hsymbols.length_eq]
        simp
      by_cases hle : delta a.addr b.addr ≤ 0
      · obtain ⟨syms, hperm, hwrong⟩ := exists_wrong_arrangement hdistinct hmany ha hb hne hle
        exact ⟨syms, hperm, a.addr, hself a ha, hwrong⟩
      · have hle' : delta b.addr a.addr ≤ 0 := by
          obtain ⟨q, hq, hlow, hhigh⟩ := exists_delta_eq a.addr b.addr
          obtain ⟨r, hr, hrlow, hrhigh⟩ := exists_delta_eq b.addr a.addr
          omega
        obtain ⟨syms, hperm, hwrong⟩ :=
          exists_wrong_arrangement hdistinct hmany hb ha hne.symm hle'
        exact ⟨syms, hperm, b.addr, hself b hb, hwrong⟩

/-! ## Lookups -/

theorem isSymbolOf_congr (hperm : syms.Perm symbols) (sym : Ksym) :
    IsSymbolOf syms key sym ↔ IsSymbolOf symbols key sym := by
  simp only [IsSymbolOf, hperm.mem_iff]

theorem right_congr (hperm : syms.Perm symbols) : Right syms syms key ↔ Right symbols syms key := by
  simp only [Right, isSymbolOf_congr hperm]

theorem reached_congr (hperm : syms.Perm symbols) : Reached syms key ↔ Reached symbols key := by
  simp only [Reached, hperm.mem_iff, hperm.length_eq]

theorem near_congr (hperm : syms.Perm symbols) : Near syms ↔ Near symbols := by
  simp only [Near, hperm.mem_iff]

theorem between_congr (hperm : syms.Perm symbols) : Between syms key ↔ Between symbols key := by
  simp only [Between, hperm.mem_iff]

theorem lookupRight_iff {qsort : Qsort Ksym} {lines : List (Option Ksym)}
    (hcount : (scanned lines).length ≤ maxSyms) :
    LookupRight qsort lines key ↔
      Right (scanned lines) (qsort.sort ksymCmp (scanned lines)) key := by
  simp only [LookupRight, loadKallsyms, if_pos hcount, Option.mem_some_iff, exists_eq_left']

/-- While the addresses are near each other, a lookup is right exactly for the keys that are
reached. Otherwise some `qsort` leaves an array in which the lookup of a key between two symbols
goes wrong. -/
theorem lookup_right_iff {lines : List (Option Ksym)}
    (hdistinct : ((scanned lines).map Ksym.addr).Nodup)
    (hcount : (scanned lines).length ≤ maxSyms) :
    (Near (scanned lines) → ∀ (qsort : Qsort Ksym) (key : Int64),
      (∃ sym ∈ scanned lines, sym.addr ≤ key) →
        (LookupRight qsort lines key ↔ Reached (scanned lines) key)) ∧
    (¬ Near (scanned lines) → ∃ (qsort : Qsort Ksym) (key : Int64),
      Between (scanned lines) key ∧ ¬ LookupRight qsort lines key) := by
  constructor
  · intro hnear qsort key hlow
    have hperm := qsort.perm ksymCmp (scanned lines)
    have hordered := ordered_sort qsort hdistinct (totalOrderOn_of_near hdistinct hnear)
    rw [lookupRight_iff hcount, ← right_congr hperm, ← reached_congr hperm]
    apply right_iff_of_near hordered ((near_congr hperm).mpr hnear)
    simpa only [hperm.mem_iff] using hlow
  · intro hfar
    by_cases htotal : TotalOrderOn ksymCmp (scanned lines)
    · have hperm := Qsort.merge.perm ksymCmp (scanned lines)
      have hordered := ordered_sort Qsort.merge hdistinct htotal
      obtain ⟨key, hbetween, hwrong⟩ :=
        exists_wrong_of_ordered hordered (mt (near_congr hperm).mp hfar)
      refine ⟨Qsort.merge, key, (between_congr hperm).mp hbetween, ?_⟩
      rw [lookupRight_iff hcount, ← right_congr hperm]
      exact hwrong
    · obtain ⟨syms, hperm, key, hbetween, hwrong⟩ :=
        exists_wrong_of_not_total hdistinct hfar htotal
      obtain ⟨qsort, hqsort⟩ := Qsort.merge.exists_sort_eq htotal hperm
      refine ⟨qsort, key, hbetween, ?_⟩
      rw [lookupRight_iff hcount, hqsort]
      exact hwrong

/-- Two symbols that are near each other, and a key between them. -/
theorem lookup_right_near :
    LookupRight Qsort.merge [some ⟨0x2000, "second"⟩, some ⟨0x1000, "first"⟩] 0x1800 := by
  have hnear : Near (scanned [some ⟨0x2000, "second"⟩, some ⟨0x1000, "first"⟩]) := by
    unfold Near
    decide
  refine ((lookup_right_iff (by decide) (by decide)).1 hnear Qsort.merge 0x1800 ?_).mpr (.inl ?_)
  · decide
  · decide

/-- A key that equals a symbol in its lower half, and one above the only symbol. -/
theorem far_symbol_found_and_end_read :
    (¬ ∃ qsort, LookupRight qsort [some ⟨1, "low"⟩, some ⟨0x100000002, "high"⟩] 2) ∧
      ¬ ∃ qsort, LookupRight qsort [some ⟨1, "only"⟩] 2 := by
  constructor
  · rintro ⟨qsort, hright⟩
    rw [lookupRight_iff (by decide)] at hright
    have hperm : (qsort.sort ksymCmp (scanned [some ⟨1, "low"⟩, some ⟨0x100000002, "high"⟩])).Perm
        [⟨1, "low"⟩, ⟨0x100000002, "high"⟩] := qsort.perm _ _
    obtain hsyms | hsyms := List.perm_pair.mp hperm
    · rw [hsyms] at hright
      exact not_right_of_second_eq (by decide) (by decide) hright
    · rw [hsyms] at hright
      exact not_right_of_second_gt (by decide) (by decide) hright
  · rintro ⟨qsort, hright⟩
    have hnear : Near (scanned [some ⟨1, "only"⟩]) := by
      unfold Near
      decide
    have hperm := qsort.perm ksymCmp (scanned [some ⟨1, "only"⟩])
    have hordered := ordered_sort qsort (by decide) (totalOrderOn_of_near (by decide) hnear)
    rw [lookupRight_iff (by decide), ← right_congr hperm,
      right_iff_of_near hordered ((near_congr hperm).mpr hnear)
        ⟨_, hperm.mem_iff.mpr List.mem_cons_self, by decide⟩, reached_congr hperm] at hright
    revert hright
    unfold Reached
    decide

end XMonitor.Ksyms
