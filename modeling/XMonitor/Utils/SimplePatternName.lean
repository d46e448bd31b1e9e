import XMonitor.Utils.SimplePatternGlob
import Mathlib.Algebra.Order.BigOperators.Group.List
import Mathlib.Algebra.Order.Group.Nat

/-!
# Patterns and host names

`simple_pattern_is_potential_name` looks at all characters of all patterns. The scan of a chain
goes on to the child of a node only if the node has a text, and stays at a node without one.
-/

namespace XMonitor

/-- What `__scan_is_potential_name` is told the addresses of. -/
structure NameFlags where
  alpha : Bool := false
  colon : Bool := false
  wildcards : Bool := false
deriving DecidableEq

/-- The loop over the characters of a text. -/
def scanText : CString → NameFlags → NameFlags
  | [], flags => flags
  | c :: scan, flags =>
      scanText scan
        { flags with alpha := flags.alpha || c.isAlpha, colon := flags.colon || c = ':' }

/-- What a node with a text adds to the flags. -/
def scanNode (flags : NameFlags) (p : PatternNode) : NameFlags :=
  if p.mode = .exact ∧ p.text = "localhost".toList then flags
  else
    let scanned := scanText p.text flags
    { scanned with wildcards := scanned.wildcards || p.mode ≠ .exact }

/-- `__scan_is_potential_name`, for at most some rounds of its loop. -/
def scanIsPotentialName : (rounds : Nat) → List PatternNode → NameFlags → Option NameFlags
  | _, [], flags => some flags
  | 0, _ :: _, _ => none
  | rounds + 1, p :: child, flags =>
      if p.text ≠ [] then scanIsPotentialName rounds child (scanNode flags p)
      -- `p` is not advanced
      else scanIsPotentialName rounds (p :: child) flags

/-- The body of the loop over the patterns. A pattern has a node at least. -/
def scanRoot (rounds : Nat) (flags : NameFlags) (m : SimplePattern) : Option NameFlags :=
  match m.chain with
  | [] => some flags
  | root :: child => do
      let scanned ←
        if root.text ≠ [] then scanIsPotentialName rounds (root :: child) flags else some flags
      return if root.mode ≠ .exact then { scanned with wildcards := true } else scanned

/-- What `simple_pattern_is_potential_name` returns, from the flags. -/
def NameFlags.answer (flags : NameFlags) : Bool := (flags.alpha || flags.wildcards) && !flags.colon

/-- `simple_pattern_is_potential_name`, for at most some rounds of the loop for each pattern. -/
def simplePatternIsPotentialName (rounds : Nat) (list : List SimplePattern) : Option Bool :=
  (list.foldlM (scanRoot rounds) {}).map NameFlags.answer

/-! ## The scan of a chain -/

section Scan

variable {rounds : Nat} {chain : List PatternNode} {flags : NameFlags} {m : SimplePattern}

theorem scanIsPotentialName_of_texts (h : ∀ p ∈ chain, p.text ≠ [])
    (hrounds : chain.length ≤ rounds) :
    scanIsPotentialName rounds chain flags = some (chain.foldl scanNode flags) := by
  induction chain generalizing rounds flags with
  | nil =>
      cases rounds <;> rfl
  | cons p child ih =>
      obtain ⟨hp, hchild⟩ := List.forall_mem_cons.mp h
      cases rounds with
      | zero => cases hrounds
      | succ rounds =>
          rw [scanIsPotentialName, if_pos hp]
          exact ih hchild (Nat.le_of_succ_le_succ hrounds)

/-- A node without a text is never left. -/
theorem scanIsPotentialName_eq_none (h : ∃ p ∈ chain, p.text = []) :
    scanIsPotentialName rounds chain flags = none := by
  induction rounds generalizing chain flags with
  | zero =>
      cases chain with
      | nil =>
          obtain ⟨p, hp, -⟩ := h
          cases hp
      | cons p child => rfl
  | succ rounds ih =>
      cases chain with
      | nil =>
          obtain ⟨p, hp, -⟩ := h
          cases hp
      | cons p child =>
          rw [scanIsPotentialName]
          split
          · rename_i hp
            obtain ⟨q, hq, htext⟩ := h
            obtain rfl | hq := List.mem_cons.mp hq
            · exact absurd htext hp
            · exact ih ⟨q, hq, htext⟩
          · exact ih h

/-- The scan of a pattern comes to an end: it is not made, or no node is without a text. -/
def Scans (m : SimplePattern) : Prop :=
  ∀ root ∈ m.chain.head?, root.text ≠ [] → ∀ p ∈ m.chain.tail, p.text ≠ []

/-- What the scan of a pattern that comes to an end adds to the flags. -/
def rootFlags (flags : NameFlags) (m : SimplePattern) : NameFlags :=
  match m.chain with
  | [] => flags
  | root :: child =>
      let scanned := if root.text ≠ [] then (root :: child).foldl scanNode flags else flags
      if root.mode ≠ .exact then { scanned with wildcards := true } else scanned

theorem scanRoot_of_scans (h : Scans m) (hrounds : m.chain.length ≤ rounds) :
    scanRoot rounds flags m = some (rootFlags flags m) := by
  rw [scanRoot, rootFlags]
  cases hchain : m.chain with
  | nil => rfl
  | cons root child =>
      rw [Scans, hchain] at h
      rw [hchain] at hrounds
      by_cases hroot : root.text ≠ []
      · have htexts : ∀ p ∈ root :: child, p.text ≠ [] :=
          List.forall_mem_cons.mpr ⟨hroot, h root rfl hroot⟩
        simp only [if_pos hroot, scanIsPotentialName_of_texts htexts hrounds]
        rfl
      · simp only [if_neg hroot]
        rfl

theorem scanRoot_eq_none (h : ¬ Scans m) : scanRoot rounds flags m = none := by
  rw [scanRoot]
  cases hchain : m.chain with
  | nil =>
      rw [Scans, hchain] at h
      exact absurd (fun root hroot => by cases hroot) h
  | cons root child =>
      rw [Scans, hchain] at h
      simp only [List.head?_cons, Option.mem_some_iff, List.tail_cons, forall_eq', not_forall] at h
      obtain ⟨hroot, p, hp, htext⟩ := h
      have hnone : scanIsPotentialName rounds (root :: child) flags = none :=
        scanIsPotentialName_eq_none ⟨p, List.mem_cons_of_mem root hp, not_not.mp htext⟩
      simp only [if_pos hroot, hnone]
      rfl

theorem foldlM_scanRoot_of_scans {list : List SimplePattern} (h : ∀ m ∈ list, Scans m)
    (hrounds : ∀ m ∈ list, m.chain.length ≤ rounds) :
    list.foldlM (scanRoot rounds) flags = some (list.foldl rootFlags flags) := by
  induction list generalizing flags with
  | nil => rfl
  | cons m next ih =>
      obtain ⟨hm, hnext⟩ := List.forall_mem_cons.mp h
      obtain ⟨hmrounds, hnextrounds⟩ := List.forall_mem_cons.mp hrounds
      rw [List.foldlM_cons, scanRoot_of_scans hm hmrounds]
      exact ih hnext hnextrounds

theorem foldlM_scanRoot_eq_none {list : List SimplePattern} (h : ∃ m ∈ list, ¬ Scans m) :
    list.foldlM (scanRoot rounds) flags = none := by
  induction list generalizing flags with
  | nil =>
      obtain ⟨m, hm, -⟩ := h
      cases hm
  | cons m next ih =>
      rw [List.foldlM_cons]
      by_cases hm : Scans m
      · obtain ⟨n, hn, hscans⟩ := h
        have hnext : n ∈ next := (List.mem_cons.mp hn).resolve_left fun heq => hscans (heq ▸ hm)
        cases scanRoot rounds flags m with
        | none => rfl
        | some scanned => exact ih ⟨n, hnext, hscans⟩
      · rw [scanRoot_eq_none hm]
        rfl

/-- The function returns if and only if the scan of every pattern comes to an end. -/
theorem exists_isPotentialName_iff (list : List SimplePattern) :
    (∃ rounds answer, simplePatternIsPotentialName rounds list = some answer) ↔
      ∀ m ∈ list, Scans m := by
  constructor
  · rintro ⟨rounds, answer, hanswer⟩ m hm
    by_contra hscans
    have hnone : list.foldlM (scanRoot rounds) {} = none :=
      foldlM_scanRoot_eq_none ⟨m, hm, hscans⟩
    rw [simplePatternIsPotentialName, hnone] at hanswer
    cases hanswer
  · intro h
    let rounds := (list.map fun m => m.chain.length).sum
    have hrounds : ∀ m ∈ list, m.chain.length ≤ rounds :=
      fun m hm => List.le_sum_of_mem (List.mem_map_of_mem hm)
    refine ⟨rounds, (list.foldl rootFlags {}).answer, ?_⟩
    rw [simplePatternIsPotentialName, foldlM_scanRoot_of_scans h hrounds]
    rfl

end Scan

/-! ## Which nodes have no text -/

/-- An item with exactly two asterisks at its end, behind something else. -/
def EndsInTwoAsterisks (text : CString) : Prop :=
  let before := text.dropLast.dropLast
  text = before ++ ['*', '*'] ∧ before ≠ [] ∧ before.getLast? ≠ some '*'

instance (text : CString) : Decidable (EndsInTwoAsterisks text) :=
  inferInstanceAs (Decidable (_ ∧ _))

section Chain

variable {mode : SimplePrefixMode} {s : CString}

theorem endsInTwoAsterisks_iff :
    EndsInTwoAsterisks s ↔ ∃ before, s = before ++ ['*', '*'] ∧ before ≠ [] ∧
      before.getLast? ≠ some '*' := by
  constructor
  · intro h
    exact ⟨_, h⟩
  · rintro ⟨before, rfl, h⟩
    have hbefore : (before ++ ['*', '*']).dropLast.dropLast = before := by simp
    show _ = _ ∧ _
    rw [hbefore]
    exact ⟨rfl, h⟩

@[simp] theorem allocNode_text (s : CString) (mode : SimplePrefixMode) :
    (allocNode s mode).text = s := by
  rw [allocNode]
  split
  · rename_i h
    exact h.symm
  · rfl

/-- Only one asterisk or two leave a node without a text. -/
theorem patternNode_text_eq_nil_iff :
    (patternNode mode s).text = [] ↔ s = [] ∨ s = ['*'] ∨ s = ['*', '*'] := by
  cases s with
  | nil =>
      exact iff_of_true (allocNode_text [] mode) (.inl rfl)
  | cons c t =>
      rw [patternNode]
      split
      · rename_i hends
        obtain ⟨hlong, hhead, hlast⟩ := hends
        obtain rfl : c = '*' := Option.some.inj hhead
        rw [allocNode_text, List.tail_cons]
        cases t with
        | nil => cases Nat.le_of_succ_le_succ hlong
        | cons d u =>
            have hnil : (d :: u).dropLast = [] ↔ u = [] := by cases u <;> simp
            rw [hnil]
            constructor
            · rintro rfl
              obtain rfl : d = '*' := by simpa using hlast
              exact .inr (.inr rfl)
            · rintro (h | h | h) <;> cases h
              rfl
      · split
        · rename_i hends hhead
          obtain rfl : c = '*' := Option.some.inj hhead
          rw [allocNode_text, List.tail_cons]
          constructor
          · rintro rfl
            exact .inr (.inl rfl)
          · rintro (h | h | h) <;> cases h
            · rfl
            · exact absurd ⟨Nat.le_refl 2, rfl, rfl⟩ hends
        · rename_i hhead
          have hnot : c ≠ '*' := fun hc => hhead (by rw [hc]; rfl)
          have hright : ¬ (c :: t = [] ∨ c :: t = ['*'] ∨ c :: t = ['*', '*']) := by
            rintro (h | h | h) <;> cases h
            · exact hnot rfl
            · exact hnot rfl
          rw [iff_false_right hright]
          split
          · rename_i hlast
            rw [allocNode_text]
            cases t with
            | nil => exact absurd hlast hhead
            | cons d u => exact List.cons_ne_nil _ _
          · rw [allocNode_text]
            exact List.cons_ne_nil c t

/-- The node at the head of a chain has no text if there is nothing else in the item. -/
theorem parsePattern_head_text (hs : s ≠ []) {p : PatternNode} {child : List PatternNode}
    (h : parsePattern mode s = p :: child) : p.text = [] ↔ s = ['*'] ∨ s = ['*', '*'] := by
  obtain ⟨stars, word, rest, hcut⟩ := exists_cut s
  rw [parsePattern_of_cut hcut] at h
  split at h
  · rename_i hlong
    have hrest : rest ≠ [] := List.length_pos_iff.mp (Nat.lt_of_lt_of_le Nat.zero_lt_two hlong)
    obtain ⟨c, t, hword⟩ := List.exists_cons_of_ne_nil (hcut.word_ne hrest)
    have hc : c ∈ word := hword ▸ List.mem_cons_self
    have hne : c ≠ '*' := fun hstar => hcut.not_mem (hstar ▸ hc)
    obtain ⟨rfl, -⟩ := List.cons.inj h
    have hmem : c ∈ s := by
      rw [hcut.str_eq]
      exact List.mem_append_right _ (List.mem_append_left _ hc)
    have hnode : c ∈ List.replicate stars '*' ++ word ++ ['*'] :=
      List.mem_append_left _ (List.mem_append_right _ hc)
    have honly {u : CString} (hu : u = [] ∨ u = ['*'] ∨ u = ['*', '*']) : c ∉ u := by
      obtain rfl | rfl | rfl := hu <;> simp [hne]
    rw [patternNode_text_eq_nil_iff]
    exact iff_of_false (fun hu => honly hu hnode) fun hu => honly (.inr hu) hmem
  · obtain ⟨rfl, -⟩ := List.cons.inj h
    rw [patternNode_text_eq_nil_iff, List.append_assoc, ← hcut.str_eq, or_iff_right hs]

/-- The end of an item is that of what is left behind a word. -/
theorem endsInTwoAsterisks_append {front rest : CString} (hfront : front ≠ [])
    (hlast : front.getLast? ≠ some '*') (hrest : 2 ≤ rest.length) :
    EndsInTwoAsterisks (front ++ rest) ↔ rest = ['*', '*'] ∨ EndsInTwoAsterisks rest := by
  rw [endsInTwoAsterisks_iff, endsInTwoAsterisks_iff]
  constructor
  · rintro ⟨before, heq, hne, hbefore⟩
    have hsuffix : ['*', '*'] <:+ rest :=
      List.suffix_of_suffix_length_le ⟨before, heq.symm⟩ (List.suffix_append front rest) hrest
    obtain ⟨middle, rfl⟩ := hsuffix
    have hsplit : before = front ++ middle := by
      rw [← List.append_assoc] at heq
      exact (List.append_cancel_right heq).symm
    by_cases hmiddle : middle = []
    · rw [hmiddle]
      exact .inl rfl
    · rw [hsplit, List.getLast?_append_of_ne_nil _ hmiddle] at hbefore
      exact .inr ⟨middle, rfl, hmiddle, hbefore⟩
  · rintro (rfl | ⟨middle, rfl, hmiddle, hbefore⟩)
    · exact ⟨front, rfl, hfront, hlast⟩
    · refine ⟨front ++ middle, (List.append_assoc _ _ _).symm,
        List.append_ne_nil_of_left_ne_nil hfront _, ?_⟩
      rw [List.getLast?_append_of_ne_nil _ hmiddle]
      exact hbefore

/-- An item that is not cut does not end in two asterisks, unless they are all there is. -/
theorem not_endsInTwoAsterisks_of_cut {stars : Nat} {word rest : CString}
    (h : Cut s stars word rest) (hrest : rest = [] ∨ rest = ['*']) : ¬ EndsInTwoAsterisks s := by
  rw [endsInTwoAsterisks_iff]
  rintro ⟨before, hs, hne, hlast⟩
  by_cases hword : word = []
  · have hstars : s = List.replicate stars '*' := by
      rw [h.str_eq, hword, h.rest_eq_nil hword, List.append_nil, List.append_nil]
    obtain ⟨c, hc⟩ := Option.ne_none_iff_exists'.mp (List.getLast?_eq_none_iff.not.mpr hne)
    have hmem : c ∈ s := hs ▸ List.mem_append_left _ (List.mem_of_getLast? hc)
    rw [hstars] at hmem
    exact hlast (hc.trans (congrArg some (List.eq_of_mem_replicate hmem)))
  · obtain ⟨front, c, rfl⟩ := List.eq_nil_or_concat word |>.resolve_left hword
    have hend : c :: rest <:+ s := by
      refine ⟨List.replicate stars '*' ++ front, ?_⟩
      rw [h.str_eq]
      simp
    have hlength : (c :: rest).length ≤ ['*', '*'].length := by
      obtain rfl | rfl := hrest <;> exact Nat.le_of_ble_eq_true rfl
    have hsuffix : c :: rest <:+ ['*', '*'] :=
      List.suffix_of_suffix_length_le hend ⟨before, hs.symm⟩ hlength
    have hc : c ∈ ['*', '*'] := hsuffix.subset List.mem_cons_self
    apply h.not_mem
    obtain rfl : c = '*' := by simpa using hc
    rw [List.concat_eq_append]
    exact List.mem_concat_self

theorem exists_child_text_eq_nil_iff (mode : SimplePrefixMode) (hs : s ≠ []) :
    (∃ p ∈ (parsePattern mode s).tail, p.text = []) ↔ EndsInTwoAsterisks s := by
  induction hn : s.length using Nat.strong_induction_on generalizing s with
  | _ n ih =>
      obtain ⟨stars, word, rest, hcut⟩ := exists_cut s
      rw [parsePattern_of_cut hcut]
      by_cases hlong : 2 ≤ rest.length
      · have hrest : rest ≠ [] := by
          rintro rfl
          cases hlong
        have hlt : rest.length < n := hn ▸ hcut.length_lt hrest
        have hword := hcut.word_ne hrest
        have hlast : (List.replicate stars '*' ++ word).getLast? ≠ some '*' := by
          rw [List.getLast?_append_of_ne_nil _ hword]
          exact getLast?_ne hcut.not_mem
        obtain ⟨p, child, hchain⟩ := List.exists_cons_of_ne_nil (parsePattern_ne_nil mode rest)
        have hhead := parsePattern_head_text hrest hchain
        have hchild := ih _ hlt hrest rfl
        have hone : rest ≠ ['*'] := by
          rintro rfl
          cases Nat.le_of_succ_le_succ hlong
        rw [if_pos hlong, List.tail_cons, hcut.str_eq, ← List.append_assoc,
          endsInTwoAsterisks_append (List.append_ne_nil_of_right_ne_nil _ hword) hlast hlong,
          ← hchild, hchain, List.tail_cons]
        rw [or_iff_right hone] at hhead
        rw [← hhead]
        exact List.exists_mem_cons_iff _ p child
      · have hshort : rest = [] ∨ rest = ['*'] := by
          obtain h | h | ⟨more, hmore, rfl⟩ := hcut.rest_cases
          · exact .inl h
          · exact .inr h
          · exact absurd (Nat.succ_le_succ (List.length_pos_iff.mpr hmore)) hlong
        rw [if_neg hlong]
        refine iff_of_false ?_ (not_endsInTwoAsterisks_of_cut hcut hshort)
        rintro ⟨p, hp, -⟩
        cases hp

/-- The chain of an item can be scanned unless two asterisks end it. -/
theorem scans_iff (hs : s ≠ []) (negative : Bool) :
    Scans { chain := parsePattern mode s, negative } ↔ ¬ EndsInTwoAsterisks s := by
  obtain ⟨p, child, hchain⟩ := List.exists_cons_of_ne_nil (parsePattern_ne_nil mode s)
  have hchild := exists_child_text_eq_nil_iff mode hs
  rw [← hchild, Scans, hchain]
  simp only [List.head?_cons, Option.mem_some_iff, List.tail_cons, forall_eq', not_exists, not_and]
  refine ⟨fun h q hq htext => ?_, fun h _ => h⟩
  by_cases hp : p.text = []
  · have hends : EndsInTwoAsterisks s := hchild.mp ⟨q, by rw [hchain]; exact hq, htext⟩
    obtain rfl | rfl := (parsePattern_head_text hs hchain).mp hp
    · exact absurd hends (by decide)
    · exact absurd hends (by decide)
  · exact h hp q hq htext

end Chain

/-- Exactly when the function returns for a list. -/
theorem simple_pattern_is_potential_name_terminates_iff (list separators : CString)
    (mode : SimplePrefixMode) :
    (∃ rounds answer, simplePatternIsPotentialName rounds
        (simplePatternCreate list separators mode) = some answer) ↔
      ∀ item ∈ listItems (isSeparator separators) list, ¬ EndsInTwoAsterisks item.text := by
  rw [exists_isPotentialName_iff, simplePatternCreate, List.forall_mem_map]
  exact forall₂_congr fun item hitem => scans_iff (text_ne_of_mem_listItems hitem) item.negative

/-- The second node of this item has no text. -/
theorem is_potential_name_loops : ¬ ∃ rounds answer, simplePatternIsPotentialName rounds
    (simplePatternCreate ['a', '*', '*'] [] .exact) = some answer := by
  have hitems : listItems (isSeparator []) ['a', '*', '*'] =
      [{ negative := false, text := ['a', '*', '*'] }] := by
    rw [listItems_eq (by decide)]
    decide
  rw [exists_isPotentialName_iff, simplePatternCreate, hitems, List.forall_mem_map]
  intro h
  have hscans := h { negative := false, text := ['a', '*', '*'] } List.mem_cons_self
  exact (scans_iff (List.cons_ne_nil _ _) false).mp hscans (by decide)

end XMonitor
