import XMonitor.Lib.Glob
import XMonitor.Lib.SortFunc
import XMonitor.Utils.Strings
import Mathlib.Algebra.BigOperators.Group.List.Lemmas
import Mathlib.Logic.Function.Basic

/-!
# Cleaning the log directory

`__clean` goes through the log files from the newest to the oldest and, inside that, through the
tags of the options. Each tag in the path of a file takes one from the number of files of its
level that may stay, and removes the file when nothing is left of that number. A file is meant to
be counted once.
-/

namespace XMonitor.Clean

/-- What `filepath.Walk` says of a file. -/
structure FileInfo where
  path : CString
  isDir : Bool
  isSymlink : Bool
  modTime : Int

structure FileWithTime where
  path : CString
  time : Int
deriving DecidableEq

inductive LogLevel where
  | info
  | warning
  | error
deriving DecidableEq

/-- The options that `__clean` reads: how many files of a level are reserved, and the tags. -/
structure Options where
  reserved : LogLevel → Int
  filterTags : List CString

/-- `strings.Contains` -/
def contains (s substr : CString) : Bool := (Lib.Glob.strstr s substr).isSome

/-- The level in a path, the first that is asked for. -/
def levelOf (path : CString) : Option LogLevel :=
  if contains path ".INFO.".toList then some .info
  else if contains path ".WARNING.".toList then some .warning
  else if contains path ".ERROR.".toList then some .error
  else none

/-- The files that the walk collects. -/
def collect (walked : List FileInfo) : List FileWithTime :=
  (walked.filter fun info => !info.isDir && !info.isSymlink).map fun info =>
    ⟨info.path, info.modTime⟩

/-- The order of the files: `logFiles[i].Time.After(logFiles[j].Time)`. -/
def after (a b : FileWithTime) : Bool := decide (b.time < a.time)

/-- The counters of the loop, and the paths for which `os.Remove` has been called. -/
structure Cleaning where
  reserved : LogLevel → Int
  removed : List CString := []

/-- The body of the inner loop. -/
def visitTag (path : CString) (s : Cleaning) (tag : CString) : Cleaning :=
  if contains path tag then
    match levelOf path with
    | none => s
    | some level =>
        if s.reserved level = 0 then { s with removed := s.removed ++ [path] }
        else { s with reserved := Function.update s.reserved level (s.reserved level - 1) }
  else s

def visitFile (opts : Options) (s : Cleaning) (file : FileWithTime) : Cleaning :=
  opts.filterTags.foldl (visitTag file.path) s

/-- `__clean`, with the calls of `os.Remove` that it makes. -/
def clean (S : SortFunc after) (opts : Options) (walked : List FileInfo) : List CString :=
  ((S.sort (collect walked)).foldl (visitFile opts) { reserved := opts.reserved }).removed

/-! ## What is to be removed -/

/-- The number of tags in the path of a file. -/
def tagMatches (opts : Options) (file : FileWithTime) : Nat :=
  opts.filterTags.countP fun tag => contains file.path tag

/-- The files of a level with a tag in their path. -/
def ofLevel (opts : Options) (level : LogLevel) (files : List FileWithTime) : List FileWithTime :=
  files.filter fun file => decide (levelOf file.path = some level ∧ 0 < tagMatches opts file)

/-- Of the files of each level, from the newest on, the reserved ones stay, and each older one is
removed by one call. No other file is touched. -/
def Retained (opts : Options) (files : List FileWithTime) (removed : List CString) : Prop :=
  ∀ newestFirst, newestFirst.Perm files → newestFirst.Pairwise (fun a b => b.time < a.time) →
    (∀ level (i : Nat) file, (ofLevel opts level newestFirst)[i]? = some file →
      removed.count file.path = if (i : Int) < opts.reserved level then 0 else 1) ∧
    ∀ path ∈ removed, ∃ file ∈ newestFirst, file.path = path ∧
      ∃ level, file ∈ ofLevel opts level newestFirst

/-- Each file of a level is counted once, or all counts together are reserved. -/
def CountedOnce (opts : Options) (level : LogLevel) (files : List FileWithTime) : Prop :=
  (((ofLevel opts level files).map (tagMatches opts)).sum : Int) ≤ opts.reserved level ∨
    ∀ file ∈ ofLevel opts level files, tagMatches opts file = 1

instance (opts : Options) (level : LogLevel) (files : List FileWithTime) :
    Decidable (CountedOnce opts level files) :=
  inferInstanceAs (Decidable (_ ∨ _))

/-! ## Spending a budget -/

/-- What each of some costs exceeds the rest of a budget by. -/
def excess : Nat → List Nat → List Nat
  | _, [] => []
  | budget, cost :: costs => (cost - budget) :: excess (budget - cost) costs

/-- A property of the elements of a list and their positions, for the first and the others. -/
theorem forall_getElem?_cons {α : Type*} {P : Nat → α → Prop} {a : α} {l : List α} :
    (∀ i x, (a :: l)[i]? = some x → P i x) ↔ P 0 a ∧ ∀ i x, l[i]? = some x → P (i + 1) x := by
  constructor
  · intro h
    exact ⟨h 0 a rfl, fun i x hx => h (i + 1) x hx⟩
  · rintro ⟨hfirst, hrest⟩ i x hx
    cases i with
    | zero =>
        obtain rfl := Option.some.inj hx
        exact hfirst
    | succ i => exact hrest i x hx

/-- With a budget of at most `n`, the first `n` costs exceed it by nothing and the others by one
exactly if all costs fit, or if the budget is `n` and each cost is one. -/
theorem excess_iff {costs : List Nat} (hpos : ∀ cost ∈ costs, 0 < cost) {budget n : Nat}
    (hle : budget ≤ n) :
    (∀ i part, (excess budget costs)[i]? = some part → part = if i < n then 0 else 1) ↔
      costs.sum ≤ budget ∨ budget = n ∧ ∀ cost ∈ costs, cost = 1 := by
  induction costs generalizing budget n with
  | nil => simp [excess]
  | cons cost costs ih =>
      obtain ⟨hcost, hpos⟩ := List.forall_mem_cons.mp hpos
      rw [excess, forall_getElem?_cons, List.sum_cons, List.forall_mem_cons]
      cases n with
      | zero =>
          obtain rfl := Nat.le_zero.mp hle
          have hrest := ih hpos (Nat.le_refl 0)
          simp only [Nat.not_lt_zero, if_false, true_and] at hrest ⊢
          rw [Nat.zero_sub, hrest]
          have hnil : costs.sum ≤ 0 → ∀ c ∈ costs, c = 1 := by
            intro hsum c hc
            have hzero := List.sum_eq_zero_iff_forall_eq_nat.mp (Nat.le_zero.mp hsum) c hc
            exact absurd (hpos c hc) (by omega)
          rw [or_iff_right_of_imp hnil]
          constructor
          · rintro ⟨hone, hall⟩
            exact .inr ⟨hone, hall⟩
          · rintro (hsum | ⟨hone, hall⟩)
            · omega
            · exact ⟨hone, hall⟩
      | succ n =>
          have hless : budget - cost ≤ n := by omega
          have hrest := ih hpos hless
          simp only [Nat.succ_lt_succ_iff, Nat.zero_lt_succ, if_true]
          rw [hrest]
          constructor
          · rintro ⟨hfit, hsum | ⟨heq, hall⟩⟩
            · exact .inl (by omega)
            · exact .inr ⟨by omega, by omega, hall⟩
          · rintro (hsum | ⟨heq, hone, hall⟩)
            · exact ⟨by omega, .inl (by omega)⟩
            · exact ⟨by omega, .inr ⟨by omega, hall⟩⟩

/-! ## The loops -/

section

variable (opts : Options)

/-- The state of the loop with a budget for each level. -/
def Cleaning.of (budget : LogLevel → Nat) (removed : List CString) : Cleaning where
  reserved level := budget level
  removed := removed

/-- The budget that a file leaves. -/
def spend (budget : LogLevel → Nat) (file : FileWithTime) : LogLevel → Nat :=
  match levelOf file.path with
  | none => budget
  | some level => Function.update budget level (budget level - tagMatches opts file)

/-- The number of times that a file is removed. -/
def removals (budget : LogLevel → Nat) (file : FileWithTime) : Nat :=
  match levelOf file.path with
  | none => 0
  | some level => tagMatches opts file - budget level

end

variable {opts : Options} {budget : LogLevel → Nat} {removed : List CString}
variable {level : LogLevel} {file : FileWithTime} {files : List FileWithTime}

theorem Cleaning.update_of {n : Nat} :
    { Cleaning.of budget removed with
      reserved := Function.update (Cleaning.of budget removed).reserved level n } =
      Cleaning.of (Function.update budget level n) removed := by
  have hupdate : Function.update (fun l => (budget l : Int)) level n =
      fun l => ((Function.update budget level n l : Nat) : Int) := by
    funext l
    by_cases hl : l = level
    · subst hl
      simp
    · simp [hl]
  exact congrArg (fun reserved => Cleaning.mk reserved removed) hupdate

theorem foldl_visitTag_of_level {path : CString} (hlevel : levelOf path = some level)
    (tags : List CString) (budget : LogLevel → Nat) (removed : List CString) :
    let count := tags.countP fun tag => contains path tag
    tags.foldl (visitTag path) (.of budget removed) =
      .of (Function.update budget level (budget level - count))
        (removed ++ List.replicate (count - budget level) path) := by
  induction tags generalizing budget removed with
  | nil => simp
  | cons tag tags ih =>
      simp only [List.foldl_cons, List.countP_cons]
      cases htag : contains path tag with
      | false =>
          rw [visitTag, htag]
          exact ih budget removed
      | true =>
          rw [visitTag, htag, if_pos rfl, hlevel]
          dsimp only
          by_cases hzero : budget level = 0
          · have hnone : (Cleaning.of budget removed).reserved level = 0 := by
              show (budget level : Int) = 0
              rw [hzero]
              rfl
            rw [if_pos hnone]
            refine (ih budget (removed ++ [path])).trans ?_
            rw [hzero, Nat.zero_sub, Nat.zero_sub, Nat.sub_zero, Nat.sub_zero, List.append_assoc,
              if_pos rfl, List.replicate_succ]
            rfl
          · have hsome : (Cleaning.of budget removed).reserved level ≠ 0 :=
              Int.natCast_ne_zero.mpr hzero
            have hpred : (Cleaning.of budget removed).reserved level - 1 =
                ((budget level - 1 : Nat) : Int) := by
              show (budget level : Int) - 1 = _
              omega
            rw [if_neg hsome, hpred, Cleaning.update_of]
            refine (ih _ removed).trans ?_
            rw [Function.update_self, Function.update_idem, if_pos rfl, Nat.sub_sub, Nat.add_comm 1]
            congr 3
            omega

theorem foldl_visitTag_none {path : CString} (hlevel : levelOf path = none) (tags : List CString)
    (s : Cleaning) : tags.foldl (visitTag path) s = s := by
  induction tags with
  | nil => rfl
  | cons tag tags ih =>
      have hvisit : visitTag path s tag = s := by
        rw [visitTag, hlevel]
        split <;> rfl
      rw [List.foldl_cons, hvisit, ih]

/-- What one file does. -/
theorem visitFile_of (budget : LogLevel → Nat) (removed : List CString) (file : FileWithTime) :
    visitFile opts (.of budget removed) file =
      .of (spend opts budget file)
        (removed ++ List.replicate (removals opts budget file) file.path) := by
  rw [visitFile, spend, removals]
  cases hlevel : levelOf file.path with
  | none =>
      rw [foldl_visitTag_none hlevel]
      simp
  | some level => exact foldl_visitTag_of_level hlevel _ budget removed

/-- The removals of a whole run, file by file. -/
def allRemovals (opts : Options) : (LogLevel → Nat) → List FileWithTime → List CString
  | _, [] => []
  | budget, file :: files =>
      List.replicate (removals opts budget file) file.path ++
        allRemovals opts (spend opts budget file) files

theorem foldl_visitFile (files : List FileWithTime) (budget : LogLevel → Nat)
    (removed : List CString) :
    (files.foldl (visitFile opts) (.of budget removed)).removed =
      removed ++ allRemovals opts budget files := by
  induction files generalizing budget removed with
  | nil => exact (List.append_nil removed).symm
  | cons file files ih =>
      rw [List.foldl_cons, visitFile_of, ih, allRemovals, List.append_assoc]

theorem exists_of_removals_pos (h : removals opts budget file ≠ 0) :
    ∃ level, levelOf file.path = some level ∧ 0 < tagMatches opts file := by
  rw [removals] at h
  cases hlevel : levelOf file.path with
  | none =>
      rw [hlevel] at h
      exact absurd rfl h
  | some level =>
      rw [hlevel] at h
      dsimp only at h
      exact ⟨level, rfl, by omega⟩

/-- Only files of a level with a tag are removed. -/
theorem exists_of_mem_allRemovals {path : CString} (h : path ∈ allRemovals opts budget files) :
    ∃ file ∈ files, file.path = path ∧ ∃ level, file ∈ ofLevel opts level files := by
  induction files generalizing budget with
  | nil => cases h
  | cons file files ih =>
      obtain hmem | hmem := List.mem_append.mp h
      · obtain ⟨hpos, rfl⟩ := List.mem_replicate.mp hmem
        obtain ⟨level, hlevel⟩ := exists_of_removals_pos hpos
        refine ⟨file, List.mem_cons_self, rfl, level, ?_⟩
        exact List.mem_filter.mpr ⟨List.mem_cons_self, decide_eq_true hlevel⟩
      · obtain ⟨other, hother, hpath, level, hlevel⟩ := ih hmem
        refine ⟨other, List.mem_cons_of_mem _ hother, hpath, level, ?_⟩
        exact ((List.sublist_cons_self file files).filter _).mem hlevel

theorem spend_of_not (h : ¬ (levelOf file.path = some level ∧ 0 < tagMatches opts file)) :
    spend opts budget file level = budget level := by
  rw [spend]
  cases hother : levelOf file.path with
  | none => rfl
  | some other =>
      dsimp only
      by_cases heq : other = level
      · subst heq
        have hmatch : tagMatches opts file = 0 := by
          by_contra hne
          exact h ⟨hother, Nat.pos_of_ne_zero hne⟩
        rw [hmatch, Function.update_self, Nat.sub_zero]
      · exact Function.update_of_ne (Ne.symm heq) _ _

/-- The files of one level are removed as often as their tags exceed the budget of the level. -/
theorem map_count_allRemovals (hpaths : (files.map FileWithTime.path).Nodup) (level : LogLevel)
    (budget : LogLevel → Nat) :
    (ofLevel opts level files).map (fun file => (allRemovals opts budget files).count file.path) =
      excess (budget level) ((ofLevel opts level files).map (tagMatches opts)) := by
  induction files generalizing budget with
  | nil => rfl
  | cons file files ih =>
      obtain ⟨hnew, hpaths⟩ := List.nodup_cons.mp hpaths
      have hfirst : (allRemovals opts budget (file :: files)).count file.path =
          removals opts budget file := by
        have hzero : (allRemovals opts (spend opts budget file) files).count file.path = 0 := by
          refine List.count_eq_zero.mpr fun hmem => hnew ?_
          obtain ⟨other, hother, hpath, -⟩ := exists_of_mem_allRemovals hmem
          exact hpath ▸ List.mem_map_of_mem hother
        rw [allRemovals, List.count_append, hzero, List.count_replicate_self, Nat.add_zero]
      have hrest : (ofLevel opts level files).map
          (fun other => (allRemovals opts budget (file :: files)).count other.path) =
          (ofLevel opts level files).map
            fun other => (allRemovals opts (spend opts budget file) files).count other.path := by
        refine List.map_congr_left fun other hother => ?_
        have hne : ¬ (file.path == other.path) = true := by
          intro heq
          apply hnew
          rw [eq_of_beq heq]
          exact List.mem_map_of_mem (List.mem_of_mem_filter hother)
        rw [allRemovals, List.count_append, List.count_replicate, if_neg hne, Nat.zero_add]
      have hspend := ih hpaths (spend opts budget file)
      by_cases hlevel : levelOf file.path = some level ∧ 0 < tagMatches opts file
      · have hcons : ofLevel opts level (file :: files) = file :: ofLevel opts level files :=
          List.filter_cons_of_pos (decide_eq_true hlevel)
        rw [hcons, List.map_cons, List.map_cons, hfirst, hrest, hspend, excess, removals, spend,
          hlevel.1]
        simp only [Function.update_self]
      · have hcons : ofLevel opts level (file :: files) = ofLevel opts level files :=
          List.filter_cons_of_neg (by simpa using hlevel)
        rw [hcons, hrest, hspend, spend_of_not hlevel]

/-! ## A whole run -/

theorem forall_getElem?_map {α β : Type*} {P : Nat → β → Prop} {g : α → β} {l : List α} :
    (∀ i a, l[i]? = some a → P i (g a)) ↔ ∀ i b, (l.map g)[i]? = some b → P i b := by
  constructor
  · intro h i b hb
    rw [List.getElem?_map] at hb
    obtain ⟨a, ha, rfl⟩ := Option.map_eq_some_iff.mp hb
    exact h i a ha
  · intro h i a ha
    apply h
    rw [List.getElem?_map, ha]
    rfl

theorem ofLevel_perm (opts : Options) (level : LogLevel) {files' : List FileWithTime}
    (h : files.Perm files') : (ofLevel opts level files).Perm (ofLevel opts level files') :=
  h.filter _

theorem countedOnce_perm {files' : List FileWithTime} (h : files.Perm files') :
    CountedOnce opts level files ↔ CountedOnce opts level files' := by
  have hperm := ofLevel_perm opts level h
  have hmem : ∀ file, file ∈ ofLevel opts level files ↔ file ∈ ofLevel opts level files' :=
    fun file => hperm.mem_iff
  rw [CountedOnce, CountedOnce, (hperm.map _).sum_nat]
  simp only [hmem]

/-- With different times, the sorted files are the only list of them from the newest on. -/
theorem eq_sort_of_newestFirst (S : SortFunc after) {newestFirst : List FileWithTime}
    (hperm : newestFirst.Perm files) (hsorted : newestFirst.Pairwise fun a b => b.time < a.time) :
    newestFirst = S.sort files := by
  have hle : newestFirst.Pairwise fun a b => b.time ≤ a.time :=
    hsorted.imp fun h => Int.le_of_lt h
  have hsort : (S.sort files).Pairwise fun a b => b.time ≤ a.time :=
    (S.sorted files).imp fun h => Int.not_lt.mp (of_decide_eq_false h)
  have hall := hperm.trans (S.perm files).symm
  refine List.Perm.eq_of_pairwise ?_ hle hsort hall
  intro a b ha hb hab hba
  have htimes : (newestFirst.map FileWithTime.time).Nodup :=
    List.pairwise_map.mpr (hsorted.imp fun h => (Int.ne_of_lt h).symm)
  exact List.inj_on_of_nodup_map htimes ha (hall.mem_iff.mpr hb) (Int.le_antisymm hba hab)

theorem sort_newestFirst (S : SortFunc after) (htimes : (files.map FileWithTime.time).Nodup) :
    (S.sort files).Pairwise fun a b => b.time < a.time := by
  have hne : (S.sort files).Pairwise fun a b => a.time ≠ b.time :=
    S.pairwise_sort (fun _ _ => Ne.symm) (List.pairwise_map.mp htimes)
  refine ((S.sorted files).and hne).imp ?_
  rintro a b ⟨hafter, hne⟩
  have hle : b.time ≤ a.time := Int.not_lt.mp (of_decide_eq_false hafter)
  exact Int.lt_iff_le_and_ne.mpr ⟨hle, Ne.symm hne⟩

theorem clean_eq_allRemovals (S : SortFunc after) (walked : List FileInfo)
    (hreserved : ∀ level, 0 ≤ opts.reserved level) :
    clean S opts walked =
      allRemovals opts (fun level => (opts.reserved level).toNat) (S.sort (collect walked)) := by
  have hinit :
      Cleaning.mk opts.reserved [] = .of (fun level => (opts.reserved level).toNat) [] := by
    refine congrArg (fun reserved => Cleaning.mk reserved []) (funext fun level => ?_)
    exact (Int.toNat_of_nonneg (hreserved level)).symm
  rw [clean, hinit, foldl_visitFile]
  exact List.nil_append _

/-- The removals of the files of one level are right exactly if they are counted once. -/
theorem removals_iff_countedOnce (budget : LogLevel → Nat)
    (hpaths : (files.map FileWithTime.path).Nodup) (hreserved : 0 ≤ opts.reserved level)
    (hbudget : budget level = (opts.reserved level).toNat) :
    (∀ (i : Nat) file, (ofLevel opts level files)[i]? = some file →
      (allRemovals opts budget files).count file.path =
        if (i : Int) < opts.reserved level then 0 else 1) ↔ CountedOnce opts level files := by
  have hpos : ∀ cost ∈ (ofLevel opts level files).map (tagMatches opts), 0 < cost := by
    intro cost hcost
    obtain ⟨file, hfile, rfl⟩ := List.mem_map.mp hcost
    exact (of_decide_eq_true (List.mem_filter.mp hfile).2).2
  have hlt (i : Nat) : (i : Int) < opts.reserved level ↔ i < budget level := by omega
  have hmap := forall_getElem?_map (l := ofLevel opts level files)
    (P := fun i count => count = if i < budget level then 0 else 1)
    (g := fun file => (allRemovals opts budget files).count file.path)
  simp only [hlt]
  rw [hmap, map_count_allRemovals hpaths, excess_iff hpos (Nat.le_refl _), CountedOnce,
    List.forall_mem_map]
  refine or_congr ?_ (and_iff_right rfl)
  omega

/-- The newest files of each level are kept exactly if, for each level, no file is counted for
two tags or all counts together are reserved. -/
theorem retained_clean_iff (S : SortFunc after) (opts : Options) (walked : List FileInfo)
    (hpaths : ((collect walked).map FileWithTime.path).Nodup)
    (htimes : ((collect walked).map FileWithTime.time).Nodup)
    (hreserved : ∀ level, 0 ≤ opts.reserved level) :
    Retained opts (collect walked) (clean S opts walked) ↔
      ∀ level, CountedOnce opts level (collect walked) := by
  have hperm := S.perm (collect walked)
  have hsorted : ((S.sort (collect walked)).map FileWithTime.path).Nodup :=
    (hperm.map _).nodup_iff.mpr hpaths
  have hlevel (level : LogLevel) :=
    (removals_iff_countedOnce (fun level => (opts.reserved level).toNat) hsorted
      (hreserved level) rfl).trans (countedOnce_perm hperm)
  rw [clean_eq_allRemovals S walked hreserved]
  constructor
  · intro h level
    exact (hlevel level).mp ((h _ hperm (sort_newestFirst S htimes)).1 level)
  · intro h newestFirst hnewest hdescending
    obtain rfl := eq_sort_of_newestFirst S hnewest hdescending
    refine ⟨fun level => (hlevel level).mpr (h level), fun path hpath => ?_⟩
    exact exists_of_mem_allRemovals hpath

/-- A sort by time. -/
def sortByTime : SortFunc after :=
  .ofLe (fun a b => decide (b.time ≤ a.time))
    (fun _ _ _ hab hbc => decide_eq_true (Int.le_trans (of_decide_eq_true hbc)
      (of_decide_eq_true hab)))
    (fun a b => by simpa using Int.le_total b.time a.time)
    (fun _ _ h => decide_eq_false (Int.not_lt.mpr (of_decide_eq_true h)))

/-- Some tags, and one reserved file for each level. -/
def oneReserved (tags : List CString) : Options := ⟨fun _ => 1, tags⟩

/-- A log file and a directory. -/
def logDirectory : List FileInfo :=
  [⟨"logs".toList, true, false, 4⟩, ⟨"logs/x-monitor.ebpf.INFO.1".toList, false, false, 5⟩]

theorem logDirectory_retained :
    Retained (oneReserved ["x-monitor.ebpf".toList]) (collect logDirectory)
      (clean sortByTime (oneReserved ["x-monitor.ebpf".toList]) logDirectory) := by
  apply (retained_clean_iff sortByTime _ logDirectory (by decide) (by decide)
    fun _ => Int.zero_le_ofNat 1).mpr
  intro level
  cases level with
  | info => exact .inr (by decide)
  | warning => exact .inr (by decide)
  | error => exact .inr (by decide)

/-- The only log file has two tags, and is removed. -/
theorem two_tags_remove_newest : ¬ ∀ S opts walked,
    ((collect walked).map FileWithTime.path).Nodup →
    ((collect walked).map FileWithTime.time).Nodup →
    (∀ level, 0 ≤ opts.reserved level) →
    Retained opts (collect walked) (clean S opts walked) := by
  intro h
  let opts := oneReserved ["x-monitor".toList, "ebpf".toList]
  have hreserved : ∀ level, 0 ≤ opts.reserved level := fun _ => Int.zero_le_ofNat 1
  have hretained := h sortByTime opts logDirectory (by decide) (by decide) hreserved
  have hsort : sortByTime.sort (collect logDirectory) = collect logDirectory :=
    List.perm_singleton.mp (sortByTime.perm _)
  rw [clean_eq_allRemovals _ _ hreserved, hsort] at hretained
  have hcounts := (hretained _ (List.Perm.refl _) (List.pairwise_singleton _ _)).1
  have hcounted := (removals_iff_countedOnce _ (by decide) (hreserved .info) rfl).mp (hcounts .info)
  exact absurd hcounted (by decide)

end XMonitor.Clean
