import XMonitor.Lib.BinarySearch
import XMonitor.Lib.Qsort
import Mathlib.Data.List.Nodup

/-!
# Kernel symbols

`xm_load_kallsyms` fills an array with the symbols of the kernel and sorts it by address, and
`xm_ksym_search` looks a key up in it. Both take the difference of two addresses for their order,
and put it into 32 bits first. Where the search has ended without a hit, the element there is read
to see whether the key lies below it.

`Near` addresses lie less than `2 ^ 31` apart, so that the 32 bits hold every difference.
-/

namespace XMonitor.Ksyms

structure Ksym where
  addr : Int64
  name : String
deriving DecidableEq

/-- `MAX_SYMS`. -/
def maxSyms : Nat := 300000

/-- `__ksym_cmp`. -/
def ksymCmp (p1 p2 : Ksym) : Int32 := (p1.addr - p2.addr).toInt32

/-- The loop of `xm_load_kallsyms`, over what `sscanf` makes of the lines: a line that it cannot
read ends the loop, and a symbol without an address is left out. -/
def scanned : List (Option Ksym) → List Ksym
  | [] | none :: _ => []
  | some sym :: lines => if sym.addr = 0 then scanned lines else sym :: scanned lines

/-- `xm_load_kallsyms`, which does not look at the end of the array. -/
def loadKallsyms (qsort : Qsort Ksym) (lines : List (Option Ksym)) : Option (List Ksym) :=
  if (scanned lines).length ≤ maxSyms then some (qsort.sort ksymCmp (scanned lines)) else none

/-- An element of `__syms`, where zeros follow the symbols. -/
def elem (syms : List Ksym) (i : Nat) : Ksym := syms.getD i ⟨0, ""⟩

/-- One comparison of the search. -/
def probe (syms : List Ksym) (key : Int64) (mid : Nat) : Ordering :=
  let result := (key - (elem syms mid).addr).toInt32
  if result < 0 then .lt else if result > 0 then .gt else .eq

/-- What a search returns, if not `NULL`, and the elements that it has read. -/
structure Lookup where
  found : Option Nat
  reads : List Nat
deriving DecidableEq

/-- `xm_ksym_search`. -/
def ksymSearch (syms : List Ksym) (key : Int64) : Lookup :=
  if syms.length = 0 then ⟨none, []⟩
  else
    match BinarySearch.search (probe syms key) 0 syms.length with
    | (.hit mid, reads) => ⟨some mid, reads⟩
    | (.miss start, reads) =>
        if 1 ≤ start then
          if (elem syms (start - 1)).addr < key then
            ⟨some (if key < (elem syms start).addr then start - 1 else 0),
              reads ++ [start - 1, start]⟩
          else ⟨some 0, reads ++ [start - 1]⟩
        else ⟨some 0, reads⟩

/-- The symbol of the key: the last one that does not start above it. -/
def IsSymbolOf (symbols : List Ksym) (key : Int64) (sym : Ksym) : Prop :=
  sym ∈ symbols ∧ sym.addr ≤ key ∧ ∀ other ∈ symbols, other.addr ≤ key → other.addr ≤ sym.addr

/-- The search in `syms` returns the symbol of the key, and reads only symbols. -/
def Right (symbols syms : List Ksym) (key : Int64) : Prop :=
  (∀ i ∈ (ksymSearch syms key).reads, i < syms.length) ∧
    ∃ i ∈ (ksymSearch syms key).found, IsSymbolOf symbols key (elem syms i)

/-- A lookup in the array that has been loaded from the lines. -/
def LookupRight (qsort : Qsort Ksym) (lines : List (Option Ksym)) (key : Int64) : Prop :=
  ∃ syms ∈ loadKallsyms qsort lines, Right (scanned lines) syms key

/-- The differences of the addresses fit into 32 bits. -/
def Near (symbols : List Ksym) : Prop :=
  ∀ a ∈ symbols, ∀ b ∈ symbols, b.addr.toInt - a.addr.toInt < 2147483648

/-- The key does not lie above the symbols, or where the lower half of the difference hides
that. -/
def Reached (symbols : List Ksym) (key : Int64) : Prop :=
  (∃ sym ∈ symbols, key ≤ sym.addr) ∨
    ∃ last ∈ symbols, (∀ sym ∈ symbols, sym.addr ≤ last.addr) ∧
      ((key - last.addr).toInt32 = 0 ∨
        symbols.length = 1 ∧ (key - last.addr).toInt32 < 0)

/-- The key lies between two symbols, or on one. -/
def Between (symbols : List Ksym) (key : Int64) : Prop :=
  (∃ sym ∈ symbols, sym.addr ≤ key) ∧ ∃ sym ∈ symbols, key ≤ sym.addr

/-! ## Differences -/

/-- A difference in 32 bits. -/
def delta (a b : Int64) : Int := (a - b).toInt32.toInt

theorem delta_eq (a b : Int64) : delta a b = (a.toInt - b.toInt).bmod 4294967296 := by
  rw [delta, Int64.toInt_toInt32, Int64.toInt_sub]
  exact Int.bmod_bmod_of_dvd (by decide)

/-- The difference, less a multiple of `2 ^ 32` that brings it into range. -/
theorem exists_delta_eq (a b : Int64) :
    ∃ q : Int, delta a b = a.toInt - b.toInt - 4294967296 * q ∧
      -2147483648 ≤ delta a b ∧ delta a b < 2147483648 := by
  refine ⟨(a.toInt - b.toInt).bdiv 4294967296, ?_, ?_, ?_⟩
  · rw [delta_eq]
    exact Int.bmod_eq_self_sub_mul_bdiv _ _
  · rw [delta_eq]
    exact Int.le_bmod (by decide)
  · rw [delta_eq]
    exact Int.bmod_lt (by decide)

theorem delta_of_near {a b : Int64} (hab : a.toInt - b.toInt < 2147483648)
    (hba : b.toInt - a.toInt < 2147483648) : delta a b = a.toInt - b.toInt := by
  obtain ⟨q, hq, hlow, hhigh⟩ := exists_delta_eq a b
  omega

theorem toInt32_lt_zero_iff (a b : Int64) : (a - b).toInt32 < 0 ↔ delta a b < 0 :=
  Int32.lt_iff_toInt_lt

theorem zero_lt_toInt32_iff (a b : Int64) : 0 < (a - b).toInt32 ↔ 0 < delta a b :=
  Int32.lt_iff_toInt_lt

theorem toInt32_eq_zero_iff (a b : Int64) : (a - b).toInt32 = 0 ↔ delta a b = 0 :=
  Int32.toInt_inj.symm

/-! ## What the search returns -/

variable {symbols syms : List Ksym} {key : Int64} {i start : Nat}

theorem probe_eq_compare (syms : List Ksym) (key : Int64) (i : Nat) :
    probe syms key i = compare (delta key (elem syms i).addr) 0 := by
  have hlt := toInt32_lt_zero_iff key (elem syms i).addr
  have hgt := zero_lt_toInt32_iff key (elem syms i).addr
  rw [probe]
  split
  next h => exact (compare_lt_iff_lt.mpr (hlt.mp h)).symm
  next hnot =>
    split
    next h => exact (compare_gt_iff_gt.mpr (hgt.mp h)).symm
    next hnot' =>
      rw [hlt] at hnot
      have hzero : delta key (elem syms i).addr = 0 := by
        have hnot'' : ¬ 0 < delta key (elem syms i).addr := fun h => hnot' (hgt.mpr h)
        omega
      exact (compare_eq_iff_eq.mpr hzero).symm

theorem probe_lt_iff : probe syms key i = .lt ↔ delta key (elem syms i).addr < 0 := by
  rw [probe_eq_compare, compare_lt_iff_lt]

theorem probe_gt_iff : probe syms key i = .gt ↔ 0 < delta key (elem syms i).addr := by
  rw [probe_eq_compare, compare_gt_iff_gt]

theorem probe_eq_iff : probe syms key i = .eq ↔ delta key (elem syms i).addr = 0 := by
  rw [probe_eq_compare, compare_eq_iff_eq]

/-- The search for the place. -/
def place (syms : List Ksym) (key : Int64) : BinarySearch.Outcome :=
  (BinarySearch.search (probe syms key) 0 syms.length).1

theorem ends_place (syms : List Ksym) (key : Int64) :
    BinarySearch.Ends (probe syms key) 0 syms.length (place syms key) :=
  BinarySearch.ends_search _ (Nat.zero_le _)

/-- Where a search can end. -/
theorem place_cases (syms : List Ksym) (key : Int64) :
    (∃ mid, mid < syms.length ∧ place syms key = .hit mid ∧ delta key (elem syms mid).addr = 0) ∨
      ∃ start, start ≤ syms.length ∧ place syms key = .miss start ∧
        (0 < start → 0 < delta key (elem syms (start - 1)).addr) ∧
        (start < syms.length → delta key (elem syms start).addr < 0) := by
  have hends := ends_place syms key
  cases hplace : place syms key with
  | hit mid =>
      rw [hplace] at hends
      obtain ⟨-, hmid, hprobe⟩ := hends
      exact .inl ⟨mid, hmid, rfl, probe_eq_iff.mp hprobe⟩
  | miss start =>
      rw [hplace] at hends
      obtain ⟨-, hle, hbefore, hat⟩ := hends
      exact .inr ⟨start, hle, rfl, fun h => probe_gt_iff.mp (hbefore h),
        fun h => probe_lt_iff.mp (hat h)⟩

theorem exists_search_eq (syms : List Ksym) (key : Int64) :
    ∃ reads, BinarySearch.search (probe syms key) 0 syms.length = (place syms key, reads) ∧
      ∀ i ∈ reads, i < syms.length :=
  ⟨_, rfl, fun _ => BinarySearch.lt_of_mem_probes⟩

theorem right_iff_of_found (reads : List Nat) (h : ksymSearch syms key = ⟨some i, reads⟩)
    (hreads : ∀ j ∈ reads, j < syms.length) :
    Right symbols syms key ↔ IsSymbolOf symbols key (elem syms i) := by
  simp only [Right, h, Option.mem_some_iff, exists_eq_left']
  exact and_iff_right hreads

theorem right_iff_of_hit {mid : Nat} (h : place syms key = .hit mid) :
    Right symbols syms key ↔ IsSymbolOf symbols key (elem syms mid) := by
  have hends := ends_place syms key
  obtain ⟨reads, hsearch, hreads⟩ := exists_search_eq syms key
  rw [h] at hends hsearch
  have hne : syms.length ≠ 0 := (Nat.zero_lt_of_lt hends.2.1).ne'
  refine right_iff_of_found reads ?_ hreads
  rw [ksymSearch, if_neg hne, hsearch]

/-- The key is not between the two elements at the place where the search ended, or there are
not two: the first symbol is returned. -/
theorem right_iff_of_first (hpos : syms.length ≠ 0) (h : place syms key = .miss start)
    (hfirst : 1 ≤ start → (elem syms (start - 1)).addr < key →
      start < syms.length ∧ ¬ key < (elem syms start).addr) :
    Right symbols syms key ↔ IsSymbolOf symbols key (elem syms 0) := by
  have hends := ends_place syms key
  obtain ⟨reads, hsearch, hreads⟩ := exists_search_eq syms key
  rw [h] at hends hsearch
  have hplace : start ≤ syms.length := hends.2.1
  by_cases hone : 1 ≤ start
  · have hprev : start - 1 < syms.length := by omega
    by_cases hbefore : (elem syms (start - 1)).addr < key
    · obtain ⟨hlt, hat⟩ := hfirst hone hbefore
      refine right_iff_of_found (reads ++ [start - 1, start]) ?_ ?_
      · simp only [ksymSearch, if_neg hpos, hsearch, if_pos hone, if_pos hbefore, if_neg hat]
      · simpa [or_imp, forall_and] using ⟨hreads, hprev, hlt⟩
    · refine right_iff_of_found (reads ++ [start - 1]) ?_ ?_
      · simp only [ksymSearch, if_neg hpos, hsearch, if_pos hone, if_neg hbefore]
      · simpa [or_imp, forall_and] using ⟨hreads, hprev⟩
  · refine right_iff_of_found reads ?_ hreads
    simp only [ksymSearch, if_neg hpos, hsearch, if_neg hone]

/-- The key is between two elements. -/
theorem right_iff_of_between (h : place syms key = .miss start) (hone : 1 ≤ start)
    (hlt : start < syms.length) (hbefore : (elem syms (start - 1)).addr < key)
    (hat : key < (elem syms start).addr) :
    Right symbols syms key ↔ IsSymbolOf symbols key (elem syms (start - 1)) := by
  obtain ⟨reads, hsearch, hreads⟩ := exists_search_eq syms key
  rw [h] at hsearch
  have hpos : syms.length ≠ 0 := (Nat.zero_lt_of_lt hlt).ne'
  have hprev : start - 1 < syms.length := Nat.lt_of_le_of_lt (Nat.sub_le _ _) hlt
  refine right_iff_of_found (reads ++ [start - 1, start]) ?_ ?_
  · simp only [ksymSearch, if_neg hpos, hsearch, if_pos hone, if_pos hbefore, if_pos hat]
  · simpa [or_imp, forall_and] using ⟨hreads, hprev, hlt⟩

/-- Behind the last element, another one is read. -/
theorem not_right_of_end (hpos : syms.length ≠ 0) (h : place syms key = .miss syms.length)
    (hbefore : (elem syms (syms.length - 1)).addr < key) : ¬ Right symbols syms key := by
  obtain ⟨reads, hsearch, -⟩ := exists_search_eq syms key
  rw [h] at hsearch
  have hone : 1 ≤ syms.length := Nat.one_le_iff_ne_zero.mpr hpos
  rw [Right, ksymSearch, if_neg hpos, hsearch]
  simp only [if_pos hone, if_pos hbefore]
  intro hright
  exact Nat.lt_irrefl _ (hright.1 syms.length (by simp))

/-! ## The loaded array -/

theorem elem_eq_getElem (h : i < syms.length) : elem syms i = syms[i] :=
  (List.getElem_eq_getD _).symm

theorem elem_mem (h : i < syms.length) : elem syms i ∈ syms := by
  rw [elem_eq_getElem h]
  exact List.getElem_mem h

theorem exists_elem_eq {sym : Ksym} (h : sym ∈ syms) :
    ∃ i, i < syms.length ∧ elem syms i = sym := by
  obtain ⟨i, hi, rfl⟩ := List.mem_iff_getElem.mp h
  exact ⟨i, hi, elem_eq_getElem hi⟩

/-- The comparator puts each element in front of the ones that follow. -/
def Ordered (syms : List Ksym) : Prop :=
  ∀ i j, i < j → j < syms.length →
    delta (elem syms i).addr (elem syms j).addr < 0 ∧
      0 < delta (elem syms j).addr (elem syms i).addr

theorem ordered_sort (qsort : Qsort Ksym) (hdistinct : (symbols.map Ksym.addr).Nodup)
    (htotal : TotalOrderOn ksymCmp symbols) : Ordered (qsort.sort ksymCmp symbols) := by
  have hperm := qsort.perm ksymCmp symbols
  have hnodup : (qsort.sort ksymCmp symbols).Nodup := hperm.nodup_iff.mpr hdistinct.of_map
  have hsorted := (qsort.sorted ksymCmp symbols htotal).and hnodup
  intro i j hij hj
  have hi := Nat.lt_trans hij hj
  obtain ⟨hle, hne⟩ := List.pairwise_iff_getElem.mp hsorted i j hi hj hij
  rw [← elem_eq_getElem hi, ← elem_eq_getElem hj] at hle hne
  have hmemi := hperm.mem_iff.mp (elem_mem hi)
  have hmemj := hperm.mem_iff.mp (elem_mem hj)
  have hlt := Int32.lt_of_le_of_ne hle fun heq => hne (htotal.antisymm _ hmemi _ hmemj heq)
  exact ⟨(toInt32_lt_zero_iff _ _).mp hlt,
    (zero_lt_toInt32_iff _ _).mp ((htotal.swap _ hmemi _ hmemj).mp hlt)⟩

theorem totalOrderOn_of_near (hdistinct : (symbols.map Ksym.addr).Nodup) (hnear : Near symbols) :
    TotalOrderOn ksymCmp symbols := by
  have hdelta : ∀ a ∈ symbols, ∀ b ∈ symbols,
      (ksymCmp a b).toInt = a.addr.toInt - b.addr.toInt := fun a ha b hb =>
    delta_of_near (hnear b hb a ha) (hnear a ha b hb)
  refine ⟨?_, ?_, ?_⟩
  · intro a ha b hb
    rw [Int32.lt_iff_toInt_lt, Int32.lt_iff_toInt_lt, hdelta a ha b hb, hdelta b hb a ha,
      Int32.toInt_zero]
    omega
  · intro a ha b hb c hc hab hbc
    rw [Int32.le_iff_toInt_le, Int32.toInt_zero, hdelta a ha b hb] at hab
    rw [Int32.le_iff_toInt_le, Int32.toInt_zero, hdelta b hb c hc] at hbc
    rw [Int32.le_iff_toInt_le, Int32.toInt_zero, hdelta a ha c hc]
    omega
  · intro a ha b hb heq
    have hzero := hdelta a ha b hb
    rw [heq, Int32.toInt_zero] at hzero
    apply List.inj_on_of_nodup_map hdistinct ha hb
    apply Int64.toInt_inj.mp
    omega

theorem addr_lt_of_near (hordered : Ordered syms) (hnear : Near syms) {j : Nat} (hij : i < j)
    (hj : j < syms.length) : (elem syms i).addr.toInt < (elem syms j).addr.toInt := by
  have hmemi := elem_mem (Nat.lt_trans hij hj)
  have hmemj := elem_mem hj
  have hlt := (hordered i j hij hj).1
  rw [delta_of_near (hnear _ hmemj _ hmemi) (hnear _ hmemi _ hmemj)] at hlt
  omega

theorem addr_le_of_near (hordered : Ordered syms) (hnear : Near syms) {j : Nat} (hij : i ≤ j)
    (hj : j < syms.length) : (elem syms i).addr.toInt ≤ (elem syms j).addr.toInt := by
  obtain hlt | rfl := Nat.lt_or_eq_of_le hij
  · exact (addr_lt_of_near hordered hnear hlt hj).le
  · exact Int.le_refl _

/-- A key that lies between the symbols is found. -/
theorem right_of_between (hordered : Ordered syms) (hnear : Near syms)
    (hbetween : Between syms key) : Right syms syms key := by
  obtain ⟨⟨low, hlow, hlowle⟩, high, hhigh, hhighle⟩ := hbetween
  rw [Int64.le_iff_toInt_le] at hlowle hhighle
  have hdelta : ∀ i, i < syms.length →
      delta key (elem syms i).addr = key.toInt - (elem syms i).addr.toInt := by
    intro i hi
    have h1 := hnear _ (elem_mem hi) high hhigh
    have h2 := hnear low hlow _ (elem_mem hi)
    exact delta_of_near (by omega) (by omega)
  obtain ⟨l, hl, rfl⟩ := exists_elem_eq hlow
  obtain ⟨m, hm, rfl⟩ := exists_elem_eq hhigh
  obtain ⟨mid, hmid, hplace, hprobe⟩ | ⟨start, hle, hplace, hbefore, hat⟩ :=
    place_cases syms key
  · rw [hdelta mid hmid] at hprobe
    apply (right_iff_of_hit hplace).mpr
    have heq : (elem syms mid).addr = key := Int64.toInt_inj.mp (by omega)
    exact ⟨elem_mem hmid, Int64.le_of_eq heq, fun other _ hle => heq ▸ hle⟩
  · have hone : 1 ≤ start := by
      by_contra hzero
      have hat := hat (by omega)
      have hfirst := addr_le_of_near hordered hnear (Nat.zero_le l) hl
      obtain rfl : start = 0 := by omega
      rw [hdelta 0 (by omega)] at hat
      omega
    have hbefore := hbefore hone
    rw [hdelta _ (by omega)] at hbefore
    have hlt : start < syms.length := by
      by_contra hge
      have hlast := addr_le_of_near hordered hnear (i := m) (j := start - 1) (by omega) (by omega)
      omega
    have hat := hat hlt
    rw [hdelta _ hlt] at hat
    refine (right_iff_of_between hplace hone hlt ?_ ?_).mpr ?_
    · rw [Int64.lt_iff_toInt_lt]
      omega
    · rw [Int64.lt_iff_toInt_lt]
      omega
    · refine ⟨elem_mem (by omega), ?_, ?_⟩
      · rw [Int64.le_iff_toInt_le]
        omega
      · intro other hother hle
        obtain ⟨i, hi, rfl⟩ := exists_elem_eq hother
        rw [Int64.le_iff_toInt_le] at hle ⊢
        apply addr_le_of_near hordered hnear _ (by omega)
        by_contra hgt
        have hfrom := addr_le_of_near hordered hnear (i := start) (j := i) (by omega) hi
        omega

theorem addr_eq_of_delta {a b : Int64} (hab : b.toInt - a.toInt < 2147483648)
    (hba : a.toInt - b.toInt < 2147483648) (h : delta key b = delta key a) : b = a := by
  obtain ⟨q, hq, -, -⟩ := exists_delta_eq key a
  obtain ⟨q', hq', -, -⟩ := exists_delta_eq key b
  apply Int64.toInt_inj.mp
  omega

theorem eq_elem_of_single (hsingle : syms.length = 1) {sym : Ksym} (h : sym ∈ syms)
    (hi : i < syms.length) : sym = elem syms i := by
  obtain ⟨j, hj, rfl⟩ := exists_elem_eq h
  congr 1
  omega

/-- Of a key that lies above all symbols, the symbol is the last one. -/
theorem isSymbolOf_iff_of_above (habove : ∀ sym ∈ symbols, sym.addr < key) {sym : Ksym}
    (hmem : sym ∈ symbols) :
    IsSymbolOf symbols key sym ↔ ∀ other ∈ symbols, other.addr ≤ sym.addr :=
  ⟨fun h other hother => h.2.2 other hother (Int64.le_of_lt (habove other hother)),
    fun h => ⟨hmem, Int64.le_of_lt (habove sym hmem), fun other hother _ => h other hother⟩⟩

theorem reached_iff_of_above (habove : ∀ sym ∈ symbols, sym.addr < key) :
    Reached symbols key ↔ ∃ last ∈ symbols, (∀ sym ∈ symbols, sym.addr ≤ last.addr) ∧
      (delta key last.addr = 0 ∨ symbols.length = 1 ∧ delta key last.addr < 0) := by
  simp only [Reached, toInt32_eq_zero_iff, toInt32_lt_zero_iff]
  refine or_iff_right ?_
  rintro ⟨sym, hsym, hle⟩
  exact Int64.not_lt.mpr hle (habove sym hsym)

/-- The last symbol in order is the one with the greatest address. -/
theorem addr_eq_end (hordered : Ordered syms) (hnear : Near syms) (hpos : syms.length ≠ 0)
    {last : Ksym} (hmem : last ∈ syms) (hlast : ∀ sym ∈ syms, sym.addr ≤ last.addr) :
    last.addr = (elem syms (syms.length - 1)).addr := by
  obtain ⟨i, hi, rfl⟩ := exists_elem_eq hmem
  have hend : syms.length - 1 < syms.length := Nat.sub_lt (Nat.pos_of_ne_zero hpos) Nat.one_pos
  have hupper := addr_le_of_near hordered hnear (Nat.le_sub_one_of_lt hi) hend
  have hlower := Int64.le_iff_toInt_le.mp (hlast _ (elem_mem hend))
  exact Int64.toInt_inj.mp (Int.le_antisymm hupper hlower)

/-- A key above the symbols is looked up right only if the lower half of its difference from the
last one is zero, or negative with no other symbol. -/
theorem right_iff_of_above (hordered : Ordered syms) (hnear : Near syms) (hpos : syms.length ≠ 0)
    (habove : ∀ sym ∈ syms, sym.addr < key) : Right syms syms key ↔ Reached syms key := by
  rw [reached_iff_of_above habove]
  obtain ⟨mid, hmid, hplace, hprobe⟩ | ⟨start, hle, hplace, hbefore, hat⟩ :=
    place_cases syms key
  · rw [right_iff_of_hit hplace, isSymbolOf_iff_of_above habove (elem_mem hmid)]
    constructor
    · intro hlast
      exact ⟨elem syms mid, elem_mem hmid, hlast, .inl hprobe⟩
    · rintro ⟨last, hmem, hlast, hzero | ⟨hsingle, hneg⟩⟩
      · have heq := addr_eq_of_delta (hnear _ hmem _ (elem_mem hmid))
          (hnear _ (elem_mem hmid) _ hmem) (hprobe.trans hzero.symm)
        rw [heq]
        exact hlast
      · rw [eq_elem_of_single hsingle hmem hmid] at hlast
        exact hlast
  · obtain hlt | rfl := Nat.lt_or_eq_of_le hle
    · have hnot : ¬ key < (elem syms start).addr :=
        Int64.not_lt.mpr (Int64.le_of_lt (habove _ (elem_mem hlt)))
      have hzero := Nat.pos_of_ne_zero hpos
      rw [right_iff_of_first hpos hplace fun _ _ => ⟨hlt, hnot⟩,
        isSymbolOf_iff_of_above habove (elem_mem hzero)]
      constructor
      · intro hlast
        have hsingle : syms.length = 1 := by
          by_contra hne
          have hsecond := addr_lt_of_near hordered hnear Nat.zero_lt_one (by omega)
          have hfirst := Int64.le_iff_toInt_le.mp (hlast _ (elem_mem (i := 1) (by omega)))
          omega
        obtain rfl : start = 0 := by omega
        exact ⟨elem syms 0, elem_mem hzero, hlast, .inr ⟨hsingle, hat hlt⟩⟩
      · rintro ⟨last, hmem, hlast, hdelta | ⟨hsingle, hneg⟩⟩
        · have hneg := hat hlt
          have hstart := Int64.le_iff_toInt_le.mp (hlast _ (elem_mem hlt))
          have hclose := hnear _ (elem_mem hlt) _ hmem
          obtain ⟨q, hq, -, -⟩ := exists_delta_eq key last.addr
          obtain ⟨q', hq', hlow, -⟩ := exists_delta_eq key (elem syms start).addr
          omega
        · rw [eq_elem_of_single hsingle hmem hzero] at hlast
          exact hlast
    · have hmemend : elem syms (syms.length - 1) ∈ syms :=
        elem_mem (Nat.sub_lt (Nat.pos_of_ne_zero hpos) Nat.one_pos)
      refine iff_of_false (not_right_of_end hpos hplace (habove _ hmemend)) ?_
      rintro ⟨last, hmem, hlast, hdelta⟩
      rw [addr_eq_end hordered hnear hpos hmem hlast] at hdelta
      have hgt := hbefore (Nat.pos_of_ne_zero hpos)
      omega

theorem right_iff_of_near (hordered : Ordered syms) (hnear : Near syms)
    (hlow : ∃ sym ∈ syms, sym.addr ≤ key) : Right syms syms key ↔ Reached syms key := by
  by_cases hhigh : ∃ sym ∈ syms, key ≤ sym.addr
  · exact iff_of_true (right_of_between hordered hnear ⟨hlow, hhigh⟩) (.inl hhigh)
  · obtain ⟨sym, hsym, -⟩ := hlow
    apply right_iff_of_above hordered hnear (List.length_pos_of_mem hsym).ne'
    intro other hother
    by_contra hnot
    exact hhigh ⟨other, hother, Int64.not_lt.mp hnot⟩

end XMonitor.Ksyms
