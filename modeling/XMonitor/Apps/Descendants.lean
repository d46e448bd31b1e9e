import Mathlib.Data.List.Induction
import Mathlib.Data.List.Perm.Subperm
import Mathlib.Data.Nat.Digits.Defs
import XMonitor.Apps.Match

/-!
# The descendants of a process

`get_process_descendant_pids` reads the children of a process, takes up to 256 of them, and goes
on with each. For a tree of processes, this ends, and what it returns are pids of the tree, none
of them twice. They are all descendants where no process has more children than are taken.
-/

namespace XMonitor.Apps

/-- The file with the children of a process, if it can be read. -/
abbrev ChildrenFiles := Int32 → Option CString

/-- `__get_all_childpids`: the children as `pid_t`, and what the call for each of them adds. The
fuel bounds the depth of the recursion. -/
def getAllChildpids (files : ChildrenFiles) : Nat → Int32 → Option (List Int32)
  | 0, _ => none
  | fuel + 1, ppid => do
      let childrenPids := (childPids (files ppid)).map Int32.ofNat
      let below ← childrenPids.mapM (getAllChildpids files fuel)
      some (childrenPids ++ below.flatten)

/-- `get_process_descendant_pids`, with the array that it has filled. -/
def getProcessDescendantPids (files : ChildrenFiles) (fuel : Nat) (pid : Int32) :
    Option (Int × List Int32) :=
  if pid < 0 then some (-1, [])
  else (getAllChildpids files fuel pid).map fun pids => ((pids.length : Int), pids)

/-- The recursion ends with these pids. -/
def Returns (files : ChildrenFiles) (pid : Int32) (pids : List Int32) : Prop :=
  ∃ depth, ∀ fuel, depth ≤ fuel →
    getProcessDescendantPids files fuel pid = some ((pids.length : Int), pids)

theorem Returns.unique {files : ChildrenFiles} {pid : Int32} {pids pids' : List Int32}
    (h : Returns files pid pids) (h' : Returns files pid pids') : pids = pids' := by
  obtain ⟨depth, h⟩ := h
  obtain ⟨depth', h'⟩ := h'
  have heq := (h _ (Nat.le_max_left depth depth')).symm.trans (h' _ (Nat.le_max_right ..))
  exact (Prod.mk.inj (Option.some.inj heq)).2

/-! ## The text of a file -/

/-- A pid as it is printed. -/
def printPid (pid : Int32) : CString := Nat.toDigits 10 pid.toInt.toNat

/-- The children, with blanks between them, and with or without one behind the last. -/
def childrenText (trailing : Bool) : List Int32 → CString
  | [] => []
  | [pid] => printPid pid ++ if trailing then [' '] else []
  | pid :: pids => printPid pid ++ ' ' :: childrenText trailing pids

theorem isDigit_of_mem_printPid {pid : Int32} {c : Char} (h : c ∈ printPid pid) : c.isDigit :=
  Nat.isDigit_of_mem_toDigits (by omega) (by omega) h

theorem blank_notMem_printPid (pid : Int32) : ' ' ∉ printPid pid :=
  fun h => absurd (isDigit_of_mem_printPid h) (by decide)

theorem foldl_takeWhile_isDigit (s : CString) (n : Nat) :
    (s.takeWhile Char.isDigit).foldl (fun n c => n * 10 + (c.toNat - '0'.toNat)) n =
      scanDigits id n s := by
  induction s generalizing n with
  | nil => rfl
  | cons c s ih =>
      rw [List.takeWhile_cons, scanDigits]
      split
      · exact ih _
      · rfl

/-- A pid that has been printed is read back. -/
theorem strtoull_printPid {pid : Int32} (h : 0 ≤ pid) :
    Int32.ofNat (strtoull (printPid pid)) = pid := by
  have hscan : scanDigits id 0 (printPid pid) = pid.toInt.toNat :=
    scanDigits_toDigits (fun _ _ => rfl) (fun _ _ => rfl) _
  have hlt : pid.toInt < 2 ^ 31 := pid.toInt_lt
  have hnonneg : 0 ≤ pid.toInt := Int32.le_iff_toInt_le.mp h
  rw [strtoull, foldl_takeWhile_isDigit, hscan, Nat.min_eq_right (by omega),
    ← Int32.ofInt_eq_ofNat, Int.toNat_of_nonneg hnonneg, Int32.ofInt_toInt]

/-- The tokens of a text. -/
def tokens (s : CString) : List CString := (s.splitOn ' ').filter (· ≠ [])

theorem printPid_ne_nil (pid : Int32) : printPid pid ≠ [] := Nat.toDigits_ne_nil

theorem tokens_cons (pid : Int32) (s : CString) :
    tokens (printPid pid ++ ' ' :: s) = printPid pid :: tokens s := by
  rw [tokens, List.splitOn_append_cons_self_of_not_mem (blank_notMem_printPid pid),
    List.filter_cons_of_pos (by simpa using printPid_ne_nil pid)]
  rfl

theorem tokens_single (pid : Int32) : tokens (printPid pid) = [printPid pid] := by
  rw [tokens, List.splitOn_eq_singleton (blank_notMem_printPid pid),
    List.filter_cons_of_pos (by simpa using printPid_ne_nil pid)]
  rfl

theorem tokens_flatMap (pids : List Int32) (s : CString) :
    tokens ((pids.flatMap fun pid => printPid pid ++ [' ']) ++ s) =
      pids.map printPid ++ tokens s := by
  induction pids with
  | nil => rfl
  | cons pid pids ih =>
      rw [List.flatMap_cons, List.append_assoc, List.append_assoc, List.singleton_append,
        tokens_cons, ih]
      rfl

theorem length_printPid_le (pid : Int32) : (printPid pid).length ≤ 10 := by
  have hlt : pid.toInt < 2 ^ 31 := pid.toInt_lt
  exact Nat.toDigits_length 10 _ 10 (by omega) (by omega)

theorem childrenText_append (trailing : Bool) (pids : List Int32) {more : List Int32}
    (h : more ≠ []) :
    childrenText trailing (pids ++ more) =
      (pids.flatMap fun pid => printPid pid ++ [' ']) ++ childrenText trailing more := by
  induction pids with
  | nil => rfl
  | cons pid pids ih =>
      have hcons : childrenText trailing (pid :: (pids ++ more)) =
          printPid pid ++ ' ' :: childrenText trailing (pids ++ more) := by
        cases hrest : pids ++ more with
        | nil => exact absurd (List.append_eq_nil_iff.mp hrest).2 h
        | cons pid' rest => rfl
      rw [List.cons_append, hcons, ih, List.flatMap_cons, List.append_assoc, List.append_assoc,
        List.singleton_append]

theorem tokens_childrenText (trailing : Bool) (pids : List Int32) :
    tokens (childrenText trailing pids) = pids.map printPid := by
  induction pids using List.reverseRecOn with
  | nil => rfl
  | append_singleton pids pid _ =>
      rw [childrenText_append trailing pids (List.cons_ne_nil _ _), tokens_flatMap, List.map_append]
      congr 1
      cases trailing with
      | false =>
          rw [childrenText]
          exact (congrArg tokens (List.append_nil _)).trans (tokens_single pid)
      | true => exact tokens_cons pid []

theorem length_flatMap_le (pids : List Int32) :
    (pids.flatMap fun pid => printPid pid ++ [' ']).length ≤ 11 * pids.length := by
  induction pids with
  | nil => exact Nat.le_refl _
  | cons pid pids ih =>
      have hpid := length_printPid_le pid
      simp only [List.flatMap_cons, List.length_append, List.length_cons, List.length_nil]
      omega

theorem length_childrenText_le (trailing : Bool) (pids : List Int32) :
    (childrenText trailing pids).length ≤ 11 * pids.length := by
  induction pids using List.reverseRecOn with
  | nil => exact Nat.le_refl _
  | append_singleton pids pid _ =>
      have hpids := length_flatMap_le pids
      have hpid := length_printPid_le pid
      have hlast : (childrenText trailing [pid]).length ≤ 11 := by
        rw [childrenText, List.length_append]
        split
        · exact Nat.add_le_add_right hpid 1
        · exact Nat.le_succ_of_le hpid
      rw [childrenText_append trailing pids (List.cons_ne_nil _ _), List.length_append,
        List.length_append, List.length_singleton]
      omega

/-- The buffer has space for the text of more children than are taken. -/
theorem tokens_take (trailing : Bool) (pids : List Int32) :
    (tokens ((childrenText trailing pids).take (procChildrenLineSize - 1))).take
        childpidCountMax = (pids.take childpidCountMax).map printPid := by
  obtain hle | hlt := Nat.lt_or_ge childpidCountMax pids.length
  · -- the first children are in front of where the text may be cut
    have hmore : pids.drop childpidCountMax ≠ [] := by
      rw [Ne, List.drop_eq_nil_iff]
      omega
    have hsplit := childrenText_append trailing (pids.take childpidCountMax) hmore
    rw [List.take_append_drop] at hsplit
    have hlen := length_flatMap_le (pids.take childpidCountMax)
    have htake : (pids.take childpidCountMax).length = childpidCountMax :=
      List.length_take_of_le (Nat.le_of_lt hle)
    have hfits : ((pids.take childpidCountMax).flatMap fun pid => printPid pid ++ [' ']).length ≤
        procChildrenLineSize - 1 := by
      rw [htake] at hlen
      exact Nat.le_trans hlen (by decide)
    rw [hsplit, List.take_append, List.take_of_length_le hfits, tokens_flatMap,
      List.take_append_of_le_length (by rw [List.length_map, htake]), List.take_of_length_le]
    rw [List.length_map, htake]
  · have hlen : (childrenText trailing pids).length ≤ procChildrenLineSize - 1 :=
      Nat.le_trans (length_childrenText_le trailing pids)
        (Nat.le_trans (Nat.mul_le_mul_left 11 hlt) (by decide))
    rw [List.take_of_length_le hlen, tokens_childrenText, List.take_of_length_le hlt,
      List.take_of_length_le (by rw [List.length_map]; exact hlt)]

/-- What the call takes from the text of some children. -/
theorem childPids_childrenText (trailing : Bool) {pids : List Int32} (h : ∀ pid ∈ pids, 0 ≤ pid) :
    (childPids (some (childrenText trailing pids))).map Int32.ofNat =
      pids.take childpidCountMax := by
  have htokens := tokens_take trailing pids
  rw [tokens] at htokens
  rw [childPids, Option.getD_some, strsplitToNums, htokens, List.map_map, List.map_map]
  refine (List.map_congr_left fun pid hpid => ?_).trans (List.map_id _)
  exact strtoull_printPid (h pid (List.mem_of_mem_take hpid))

/-! ## Trees -/

/-- A process with its children. -/
inductive ProcTree
  | node (pid : Int32) (children : List ProcTree)

namespace ProcTree

def pid : ProcTree → Int32
  | node pid _ => pid

def children : ProcTree → List ProcTree
  | node _ children => children

/-- The trees in a tree, from the root on. -/
def subtrees : ProcTree → List ProcTree
  | node pid children => node pid children :: children.flatMap subtrees

/-- The pids below the root. -/
def descendants (t : ProcTree) : List Int32 := (t.children.flatMap subtrees).map pid

/-- What the call for the root returns. -/
def walk : ProcTree → List Int32
  | node _ children =>
      (children.take childpidCountMax).map pid ++
        ((children.map walk).take childpidCountMax).flatten

/-- What holds for a process if it does for its children holds for all. -/
theorem induct {p : ProcTree → Prop}
    (h : ∀ pid children, (∀ c ∈ children, p c) → p (node pid children)) : ∀ t, p t
  | node pid children => h pid children fun c _ => induct h c

theorem subtrees_node (pid : Int32) (children : List ProcTree) :
    (node pid children).subtrees = node pid children :: children.flatMap subtrees := by
  rw [subtrees]

theorem walk_node (pid : Int32) (children : List ProcTree) :
    (node pid children).walk =
      (children.take childpidCountMax).map ProcTree.pid ++
        (children.take childpidCountMax).flatMap walk := by
  rw [walk, ← List.map_take, List.flatMap_def]

theorem map_pid_subtrees (t : ProcTree) : t.subtrees.map pid = t.pid :: t.descendants := by
  cases t with
  | node pid children =>
      rw [subtrees_node]
      rfl

theorem descendants_node (pid : Int32) (children : List ProcTree) :
    (node pid children).descendants =
      children.flatMap fun c => c.pid :: c.descendants := by
  rw [descendants, ProcTree.children, List.map_flatMap]
  exact List.flatMap_congr fun c _ => map_pid_subtrees c

theorem mem_subtrees_self (t : ProcTree) : t ∈ t.subtrees := by
  cases t with
  | node pid children =>
      rw [subtrees_node]
      exact List.mem_cons_self

theorem mem_subtrees_of_child (pid : Int32) {children : List ProcTree} {c s : ProcTree}
    (hc : c ∈ children) (hs : s ∈ c.subtrees) : s ∈ (node pid children).subtrees := by
  rw [subtrees_node]
  exact List.mem_cons_of_mem _ (List.mem_flatMap.mpr ⟨c, hc, hs⟩)

/-- No process has more children than are taken. -/
def SmallFanout (t : ProcTree) : Prop := ∀ s ∈ t.subtrees, s.children.length ≤ childpidCountMax

theorem smallFanout_node {pid : Int32} {children : List ProcTree} :
    (node pid children).SmallFanout ↔
      children.length ≤ childpidCountMax ∧ ∀ c ∈ children, c.SmallFanout := by
  rw [SmallFanout, subtrees_node, List.forall_mem_cons]
  refine and_congr Iff.rfl ⟨fun h c hc s hs => ?_, fun h s hs => ?_⟩
  · exact h s (List.mem_flatMap.mpr ⟨c, hc, hs⟩)
  · obtain ⟨c, hc, hs⟩ := List.mem_flatMap.mp hs
    exact h c hc s hs

theorem perm_descendants_node (pid : Int32) (children : List ProcTree) :
    (node pid children).descendants.Perm
      (children.map ProcTree.pid ++ children.flatMap descendants) := by
  rw [descendants_node]
  exact (List.map_append_flatMap_perm children ProcTree.pid descendants).symm

/-- With few children everywhere, the walk finds all descendants. -/
theorem walk_perm : ∀ t : ProcTree, t.SmallFanout → t.walk.Perm t.descendants := by
  refine induct fun pid children ih h => ?_
  obtain ⟨hlen, hchildren⟩ := smallFanout_node.mp h
  rw [walk_node, List.take_of_length_le hlen]
  refine ((List.Perm.refl _).append ?_).trans (perm_descendants_node pid children).symm
  exact List.Perm.flatMap_left _ fun c hc => ih c hc (hchildren c hc)

theorem take_flatMap_sublist (children : List ProcTree) (f : ProcTree → List Int32) :
    ((children.take childpidCountMax).flatMap f).Sublist (children.flatMap f) := by
  have hsplit : children.flatMap f = (children.take childpidCountMax).flatMap f ++
      (children.drop childpidCountMax).flatMap f := by
    rw [← List.flatMap_append, List.take_append_drop]
  rw [hsplit]
  exact List.sublist_append_left _ _

theorem length_subtrees_lt (pid : Int32) {children : List ProcTree} {c : ProcTree}
    (hc : c ∈ children) : c.subtrees.length < (node pid children).subtrees.length := by
  obtain ⟨front, back, rfl⟩ := List.append_of_mem hc
  rw [subtrees_node, List.length_cons, List.flatMap_append, List.flatMap_cons,
    List.length_append, List.length_append]
  omega

/-- The walk finds no pid that is not below the root, and none twice. -/
theorem walk_subperm : ∀ t : ProcTree, t.walk.Subperm t.descendants := by
  refine induct fun pid children ih => ?_
  have hpids : ((children.take childpidCountMax).map ProcTree.pid).Subperm
      (children.map ProcTree.pid) :=
    ((List.take_sublist _ _).map _).subperm
  have hbelow : ((children.take childpidCountMax).flatMap walk).Subperm
      (children.flatMap descendants) := by
    refine (?_ : List.Subperm _ ((children.take childpidCountMax).flatMap descendants)).trans
      (take_flatMap_sublist _ _).subperm
    have hkids : ∀ c ∈ children.take childpidCountMax, c.walk.Subperm c.descendants :=
      fun c hc => ih c (List.mem_of_mem_take hc)
    revert hkids
    generalize children.take childpidCountMax = kids
    intro hkids
    induction kids with
    | nil => exact .refl _
    | cons c kids ih =>
        obtain ⟨hc, hkids⟩ := List.forall_mem_cons.mp hkids
        rw [List.flatMap_cons, List.flatMap_cons]
        exact hc.append (ih hkids)
  rw [walk_node]
  exact (hpids.append hbelow).trans (perm_descendants_node pid children).symm.subperm

theorem sum_le_sum {f g : ProcTree → Nat} {l : List ProcTree} (h : ∀ c ∈ l, f c ≤ g c) :
    (l.map f).sum ≤ (l.map g).sum := by
  induction l with
  | nil => exact Nat.le_refl _
  | cons c l ih =>
      obtain ⟨hc, hl⟩ := List.forall_mem_cons.mp h
      rw [List.map_cons, List.map_cons, List.sum_cons, List.sum_cons]
      exact Nat.add_le_add hc (ih hl)

theorem eq_of_sum_le {f g : ProcTree → Nat} {l : List ProcTree} (h : ∀ c ∈ l, f c ≤ g c)
    (hsum : (l.map g).sum ≤ (l.map f).sum) : ∀ c ∈ l, f c = g c := by
  induction l with
  | nil => exact List.forall_mem_nil _
  | cons c l ih =>
      obtain ⟨hc, hl⟩ := List.forall_mem_cons.mp h
      have hle := sum_le_sum hl
      rw [List.map_cons, List.map_cons, List.sum_cons, List.sum_cons] at hsum
      exact List.forall_mem_cons.mpr ⟨by omega, ih hl (by omega)⟩

/-- A walk that finds as many pids as there are has found few children everywhere. -/
theorem smallFanout_of_length : ∀ t : ProcTree,
    t.descendants.length ≤ t.walk.length → t.SmallFanout := by
  refine induct fun pid children ih h => ?_
  have hle : ∀ c ∈ children, c.walk.length ≤ c.descendants.length :=
    fun c _ => c.walk_subperm.length_le
  have htake := sum_le_sum (fun c hc => hle c (List.mem_of_mem_take hc) :
    ∀ c ∈ children.take childpidCountMax, c.walk.length ≤ c.descendants.length)
  have hall : ((children.take childpidCountMax).map fun c => c.descendants.length).sum ≤
      (children.map fun c => c.descendants.length).sum := by
    rw [← List.length_flatMap, ← List.length_flatMap]
    exact (take_flatMap_sublist _ _).length_le
  rw [(perm_descendants_node pid children).length_eq, walk_node, List.length_append,
    List.length_append, List.length_map, List.length_map, List.length_flatMap,
    List.length_flatMap, List.length_take] at h
  have hlen : children.length ≤ childpidCountMax := by omega
  rw [List.take_of_length_le hlen] at h
  refine smallFanout_node.mpr ⟨hlen, fun c hc => ih c hc ?_⟩
  exact Nat.le_of_eq (eq_of_sum_le hle (by omega) c hc).symm

end ProcTree

/-! ## Walking a tree -/

/-- A tree of processes with different pids, each of which has its children in its file. -/
structure ProcTree.Listed (t : ProcTree) (files : ChildrenFiles) : Prop where
  nonneg : ∀ s ∈ t.subtrees, 0 ≤ s.pid
  distinct : (t.subtrees.map ProcTree.pid).Nodup
  listed : ∀ s ∈ t.subtrees, ∃ trailing,
    files s.pid = some (childrenText trailing (s.children.map ProcTree.pid))

theorem mapM_pid {f : Int32 → Option (List Int32)} {g : ProcTree → List Int32}
    {l : List ProcTree} (h : ∀ c ∈ l, f c.pid = some (g c)) :
    (l.map ProcTree.pid).mapM f = some (l.map g) := by
  induction l with
  | nil => rfl
  | cons c l ih =>
      obtain ⟨hc, hl⟩ := List.forall_mem_cons.mp h
      rw [List.map_cons, List.mapM_cons, hc, ih hl]
      rfl

/-- The recursion ends below the depth of the tree. -/
theorem getAllChildpids_walk {files : ChildrenFiles} : ∀ t : ProcTree,
    (∀ s ∈ t.subtrees, 0 ≤ s.pid) →
    (∀ s ∈ t.subtrees, ∃ trailing,
      files s.pid = some (childrenText trailing (s.children.map ProcTree.pid))) →
    ∀ fuel, t.subtrees.length ≤ fuel → getAllChildpids files fuel t.pid = some t.walk := by
  refine ProcTree.induct fun pid children ih hnonneg hlisted fuel hfuel => ?_
  have hchild {c s : ProcTree} (hc : c ∈ children) (hs : s ∈ c.subtrees) :=
    ProcTree.mem_subtrees_of_child pid hc hs
  cases fuel with
  | zero =>
      rw [ProcTree.subtrees_node, List.length_cons] at hfuel
      omega
  | succ fuel =>
      obtain ⟨trailing, hfile⟩ := hlisted _ (ProcTree.mem_subtrees_self _)
      have hpids : (childPids (files pid)).map Int32.ofNat =
          (children.take childpidCountMax).map ProcTree.pid := by
        rw [show files pid = _ from hfile, childPids_childrenText, ← List.map_take]
        · rfl
        · intro p hp
          obtain ⟨c, hc, rfl⟩ := List.mem_map.mp hp
          exact hnonneg c (hchild hc c.mem_subtrees_self)
      have hbelow : ((children.take childpidCountMax).map ProcTree.pid).mapM
          (getAllChildpids files fuel) =
            some ((children.take childpidCountMax).map ProcTree.walk) := by
        refine mapM_pid fun c hc => ?_
        have hc := List.mem_of_mem_take hc
        refine ih c hc (fun s hs => hnonneg s (hchild hc hs))
          (fun s hs => hlisted s (hchild hc hs)) fuel ?_
        have hlt := ProcTree.length_subtrees_lt pid hc
        omega
      rw [ProcTree.walk_node, List.flatMap_def]
      change (do
        let below ← ((childPids (files pid)).map Int32.ofNat).mapM (getAllChildpids files fuel)
        some ((childPids (files pid)).map Int32.ofNat ++ below.flatten)) = _
      rw [hpids, hbelow]
      rfl

namespace ProcTree

variable {t : ProcTree} {files : ChildrenFiles}

theorem Listed.returns (h : t.Listed files) : Returns files t.pid t.walk := by
  refine ⟨t.subtrees.length, fun fuel hfuel => ?_⟩
  have hpid : ¬t.pid < 0 := by
    have hnonneg := h.nonneg t t.mem_subtrees_self
    rw [Int32.lt_iff_toInt_lt]
    rw [Int32.le_iff_toInt_le] at hnonneg
    omega
  rw [getProcessDescendantPids, if_neg hpid,
    getAllChildpids_walk t h.nonneg h.listed fuel hfuel]
  rfl

theorem Listed.nodup_descendants (h : t.Listed files) : t.descendants.Nodup := by
  have hdistinct := h.distinct
  rw [map_pid_subtrees] at hdistinct
  exact (List.nodup_cons.mp hdistinct).2

/-- Whatever the tree, the call ends, no pid is returned twice, and all of them are pids of
descendants. -/
theorem Listed.returns_some_descendants (h : t.Listed files) :
    ∃ pids, Returns files t.pid pids ∧ pids.Nodup ∧ ∀ p ∈ pids, p ∈ t.descendants := by
  obtain ⟨pids, hperm, hsub⟩ := t.walk_subperm
  refine ⟨t.walk, h.returns, hperm.nodup_iff.mp (hsub.nodup h.nodup_descendants), fun p hp => ?_⟩
  exact hsub.subset (hperm.mem_iff.mpr hp)

/-- If all descendants are returned, all children have been taken. -/
theorem Listed.smallFanout (h : t.Listed files) {pids : List Int32}
    (hreturns : Returns files t.pid pids) (hnodup : pids.Nodup)
    (hmem : ∀ p, p ∈ pids ↔ p ∈ t.descendants) : t.SmallFanout := by
  have hperm : pids.Perm t.descendants :=
    (List.perm_ext_iff_of_nodup hnodup h.nodup_descendants).mpr hmem
  obtain rfl := h.returns.unique hreturns
  exact smallFanout_of_length t (Nat.le_of_eq hperm.length_eq.symm)

end ProcTree

/-- When a call returns the descendants of the process, each once and nothing else. -/
theorem returns_descendants_iff (files : ChildrenFiles) (t : ProcTree) (h : t.Listed files) :
    (∃ pids, Returns files t.pid pids ∧ pids.Nodup ∧ ∀ p, p ∈ pids ↔ p ∈ t.descendants) ↔
      t.SmallFanout := by
  constructor
  · rintro ⟨pids, hreturns, hnodup, hmem⟩
    exact h.smallFanout hreturns hnodup hmem
  · intro hsmall
    have hperm := t.walk_perm hsmall
    exact ⟨t.walk, h.returns, hperm.nodup_iff.mpr h.nodup_descendants, fun p => hperm.mem_iff⟩

/-! ## A process with many children -/

/-- The files of a tree. -/
def ProcTree.files (t : ProcTree) : ChildrenFiles := fun p =>
  (t.subtrees.find? fun s => s.pid = p).map fun s =>
    childrenText true (s.children.map ProcTree.pid)

theorem ProcTree.listed_files {t : ProcTree} (hnonneg : ∀ s ∈ t.subtrees, 0 ≤ s.pid)
    (hdistinct : (t.subtrees.map ProcTree.pid).Nodup) : t.Listed t.files where
  nonneg := hnonneg
  distinct := hdistinct
  listed s hs := by
    refine ⟨true, ?_⟩
    rw [ProcTree.files]
    cases hfind : t.subtrees.find? fun s' => s'.pid = s.pid with
    | none => exact absurd (decide_eq_true rfl) (List.find?_eq_none.mp hfind s hs)
    | some s' =>
        have hsome := List.find?_some hfind
        have hpid : s'.pid = s.pid := of_decide_eq_true hsome
        rw [List.inj_on_of_nodup_map hdistinct (List.mem_of_find?_eq_some hfind) hs hpid]
        rfl

/-- A process with some children that have none. -/
def fan (n : Nat) : ProcTree :=
  .node 1 ((List.range n).map fun i => .node (Int32.ofNat (i + 2)) [])

theorem map_pid_fan (n : Nat) :
    (fan n).subtrees.map ProcTree.pid = (List.range (n + 1)).map fun i => Int32.ofNat (i + 1) := by
  have hleaf (pid : Int32) : (ProcTree.node pid []).subtrees = [.node pid []] := by
    rw [ProcTree.subtrees_node]
    rfl
  rw [fan, ProcTree.subtrees_node, List.flatMap_map, List.range_succ_eq_map]
  simp only [hleaf, List.map_cons, List.map_map, ProcTree.pid, ← List.map_eq_flatMap]
  rfl

theorem fan_listed {n : Nat} (h : n < 2 ^ 31 - 2) : (fan n).Listed (fan n).files := by
  have hmap := map_pid_fan n
  have htoInt {i : Nat} (hi : i < n + 1) : (Int32.ofNat (i + 1)).toInt = i + 1 :=
    Int32.toInt_ofNat_of_lt (by omega)
  refine ProcTree.listed_files (fun s hs => ?_) ?_
  · have hpid : s.pid ∈ (fan n).subtrees.map ProcTree.pid := List.mem_map_of_mem hs
    rw [hmap] at hpid
    obtain ⟨i, hi, hpid⟩ := List.mem_map.mp hpid
    rw [← hpid, Int32.le_iff_toInt_le, htoInt (List.mem_range.mp hi)]
    exact Int.natCast_nonneg (i + 1)
  · rw [hmap]
    refine List.Nodup.map_on (fun i hi j hj heq => ?_) List.nodup_range
    have hint := congrArg Int32.toInt heq
    rw [htoInt (List.mem_range.mp hi), htoInt (List.mem_range.mp hj)] at hint
    omega

theorem length_children_fan (n : Nat) : (fan n).children.length = n := by
  rw [fan, ProcTree.children, List.length_map, List.length_range]

theorem smallFanout_fan {n : Nat} (h : n ≤ childpidCountMax) : (fan n).SmallFanout := by
  refine ProcTree.smallFanout_node.mpr ⟨?_, fun c hc => ?_⟩
  · rw [List.length_map, List.length_range]
    exact h
  · obtain ⟨i, -, rfl⟩ := List.mem_map.mp hc
    exact ProcTree.smallFanout_node.mpr ⟨Nat.zero_le _, List.forall_mem_nil _⟩

/-- Two children are returned. -/
theorem children_returned :
    ∃ pids, Returns (fan 2).files 1 pids ∧ pids.Nodup ∧ ∀ p, p ∈ pids ↔ p ∈ (fan 2).descendants :=
  (returns_descendants_iff (fan 2).files (fan 2) (fan_listed (by decide))).mpr
    (smallFanout_fan (by decide))

/-- Of 257 children, one is missing. -/
theorem child_missing :
    (fan 257).Listed (fan 257).files ∧
      ¬∃ pids, Returns (fan 257).files 1 pids ∧ pids.Nodup ∧
        ∀ p, p ∈ pids ↔ p ∈ (fan 257).descendants := by
  have hlisted : (fan 257).Listed (fan 257).files := fan_listed (by decide)
  refine ⟨hlisted, fun ⟨pids, hreturns, hnodup, hmem⟩ => ?_⟩
  have hsmall := hlisted.smallFanout hreturns hnodup hmem _ (ProcTree.mem_subtrees_self _)
  rw [length_children_fan] at hsmall
  exact absurd hsmall (by decide)

end XMonitor.Apps
