import XMonitor.Lib.Glob
import XMonitor.Utils.Strings
import Mathlib.Data.List.TakeWhile

/-!
# Simple patterns

`simple_pattern_create` splits a list into items and cuts each item at its asterisks into a chain
of nodes, and `simple_pattern_matches` looks for the first item whose chain matches. A chain is
matched from the left without going back.

The comment "skip asterisks in front" is not what happens to several of them. The first is taken
off the text of the node, and the others stay there as characters.
-/

namespace XMonitor

open Lib

/-- `enum SIMPLE_PREFIX_MODE`. -/
inductive SimplePrefixMode where
  | exact
  | prefixed
  | suffixed
  | substring
deriving DecidableEq

/-- A node of a chain. -/
structure PatternNode where
  text : CString
  mode : SimplePrefixMode
deriving DecidableEq

/-- `struct simple_pattern`, the children of which are in the chain. -/
structure SimplePattern where
  chain : List PatternNode
  negative : Bool

/-- The allocation at the end of `__parse_pattern`. -/
def allocNode (s : CString) (mode : SimplePrefixMode) : PatternNode :=
  if s = [] then { text := [], mode := .substring } else { text := s, mode }

/-- What a node matches, by the asterisks at the ends of its text. -/
def patternNode (defaultMode : SimplePrefixMode) (s : CString) : PatternNode :=
  if 2 ≤ s.length ∧ s.head? = some '*' ∧ s.getLast? = some '*' then
    allocNode s.tail.dropLast .substring
  else if s.head? = some '*' then allocNode s.tail .suffixed
  else if s.getLast? = some '*' then allocNode s.dropLast .prefixed
  else allocNode s defaultMode

/-- The characters up to the asterisk at which an item is cut, and those from it on. -/
def cutAtAsterisk (str : CString) : CString × CString :=
  let stars := str.takeWhile fun c => c = '*'
  let behind := str.dropWhile fun c => c = '*'
  (stars ++ behind.takeWhile fun c => c ≠ '*', behind.dropWhile fun c => c ≠ '*')

/-- How an item is cut: its asterisks in front, its first word, and the rest. -/
structure Cut (str : CString) (stars : Nat) (word rest : CString) : Prop where
  str_eq : str = List.replicate stars '*' ++ (word ++ rest)
  not_mem : '*' ∉ word
  word_ne : rest ≠ [] → word ≠ []
  head_rest : rest ≠ [] → rest.head? = some '*'
  cut_eq : cutAtAsterisk str = (List.replicate stars '*' ++ word, rest)

theorem exists_cut (str : CString) : ∃ stars word rest, Cut str stars word rest := by
  let behind := str.dropWhile fun c => c = '*'
  have hstars : str.takeWhile (fun c => c = '*') =
      List.replicate (str.takeWhile fun c => c = '*').length '*' := by
    apply List.eq_replicate_of_mem
    intro c hc
    simpa using List.mem_takeWhile_imp hc
  have hbehind : behind.head? ≠ some '*' := by
    intro h
    have hnot := List.head?_dropWhile_not (fun c => decide (c = '*')) str
    rw [show str.dropWhile (fun c => decide (c = '*')) = behind from rfl, h] at hnot
    simp at hnot
  refine ⟨(str.takeWhile fun c => c = '*').length, behind.takeWhile fun c => c ≠ '*',
    behind.dropWhile fun c => c ≠ '*', ?_, ?_, ?_, ?_, ?_⟩
  · rw [← hstars, List.takeWhile_append_dropWhile, List.takeWhile_append_dropWhile]
  · intro hmem
    simpa using List.mem_takeWhile_imp hmem
  · intro hne hword
    cases hcons : behind with
    | nil => exact hne (by rw [hcons]; rfl)
    | cons c t =>
        have hc : c ≠ '*' := fun hc => hbehind (by rw [hcons, hc]; rfl)
        rw [hcons, List.takeWhile_cons_of_pos (by simpa using hc)] at hword
        cases hword
  · intro hne
    obtain ⟨c, t, hcons⟩ := List.exists_cons_of_ne_nil hne
    have hnot := List.head?_dropWhile_not (fun c => decide (c ≠ '*')) behind
    rw [hcons] at hnot ⊢
    have hc : c = '*' := by simpa using hnot
    rw [hc]
    rfl
  · rw [cutAtAsterisk, ← hstars]

theorem Cut.rest_eq_nil {str word rest : CString} {stars : Nat} (h : Cut str stars word rest)
    (hword : word = []) : rest = [] := by
  by_contra hrest
  exact h.word_ne hrest hword

theorem Cut.length_lt {str word rest : CString} {stars : Nat} (h : Cut str stars word rest)
    (hne : rest ≠ []) : rest.length < str.length := by
  have hword := List.length_pos_iff.mpr (h.word_ne hne)
  rw [h.str_eq, List.length_append, List.length_append]
  omega

theorem length_cutAtAsterisk_lt {str : CString} (h : 2 ≤ (cutAtAsterisk str).2.length) :
    (cutAtAsterisk str).2.length < str.length := by
  obtain ⟨stars, word, rest, hcut⟩ := exists_cut str
  rw [hcut.cut_eq] at h ⊢
  exact hcut.length_lt fun hnil => by rw [hnil] at h; cases h

/-- `__parse_pattern`. The asterisk belongs to the text in front of it, and to the rest. -/
def parsePattern (defaultMode : SimplePrefixMode) (str : CString) : List PatternNode :=
  let c := (cutAtAsterisk str).2
  if 2 ≤ c.length then
    patternNode defaultMode ((cutAtAsterisk str).1 ++ ['*']) :: parsePattern defaultMode c
  else [patternNode defaultMode ((cutAtAsterisk str).1 ++ c)]
termination_by str.length
decreasing_by
  rename_i h
  exact length_cutAtAsterisk_lt h

/-- `__match_pattern` without a buffer for what the asterisks stand for. -/
def matchPattern : List PatternNode → CString → Bool
  | [], _ => false
  | m :: child, str =>
      if m.text.length ≤ str.length then
        match m.mode with
        | .substring =>
            if m.text = [] then true
            else
              match Glob.strstr str m.text with
              | some s => child.isEmpty || matchPattern child (s.drop m.text.length)
              | none => false
        | .prefixed =>
            if m.text <+: str then
              child.isEmpty || matchPattern child (str.drop m.text.length)
            else false
        | .suffixed =>
            if str.drop (str.length - m.text.length) = m.text then child.isEmpty else false
        | .exact => if str = m.text then child.isEmpty else false
      else false

/-- The characters that separate items: those given, or white space. -/
def isSeparator (separators : CString) (c : Char) : Bool :=
  if separators = [] then [' ', '\t', '\r', '\n', '\x0c', '\x0b'].contains c
  else separators.contains c

/-- The loop that copies an item up to the next separator, and the list behind it. A character
behind a backslash is copied whatever it is. -/
def readItem (isSep : Char → Bool) : (escape : Bool) → CString → CString × CString
  | _, [] => ([], [])
  | escape, c :: s =>
      if c = '\\' ∧ escape = false then readItem isSep true s
      else if isSep c ∧ escape = false then ([], s)
      else
        let (buf, rest) := readItem isSep false s
        (c :: buf, rest)

theorem length_readItem_le (isSep : Char → Bool) (escape : Bool) (s : CString) :
    (readItem isSep escape s).2.length ≤ s.length := by
  induction s generalizing escape with
  | nil => exact Nat.le_refl _
  | cons c s ih =>
      rw [readItem]
      split
      · exact (ih true).trans (Nat.le_succ _)
      · split
        · exact Nat.le_succ _
        · exact (ih false).trans (Nat.le_succ _)

/-- Reading an item consumes a character at least. -/
theorem length_readItem_lt (isSep : Char → Bool) {s : CString} (h : s ≠ []) :
    (readItem isSep false s).2.length < s.length := by
  obtain ⟨c, s, rfl⟩ := List.exists_cons_of_ne_nil h
  rw [readItem]
  split
  · exact Nat.lt_succ_of_le (length_readItem_le isSep true s)
  · split
    · exact Nat.lt_succ_self _
    · exact Nat.lt_succ_of_le (length_readItem_le isSep false s)

/-- An item of a list: its text without backslashes, and whether an exclamation mark is in front
of it. -/
structure PatternItem where
  negative : Bool
  text : CString
deriving DecidableEq

/-- What is left of the list where the text of an item begins. -/
def skipToItem (isSep : Char → Bool) (s : CString) : Bool × CString :=
  let s := s.dropWhile isSep
  if s.head? = some '!' then (true, s.tail) else (false, s)

theorem length_skipToItem_le (isSep : Char → Bool) (s : CString) :
    (skipToItem isSep s).2.length ≤ s.length := by
  have hdrop := (List.dropWhile_suffix isSep (l := s)).length_le
  rw [skipToItem]
  split
  · rw [List.length_tail]
    exact (Nat.sub_le _ _).trans hdrop
  · exact hdrop

/-- The items of a list. The loop ends where nothing is left for an item. -/
def listItems (isSep : Char → Bool) (s : CString) : List PatternItem :=
  let text := (skipToItem isSep s).2
  if text = [] then []
  else
    let buf := (readItem isSep false text).1
    let rest := (readItem isSep false text).2
    if buf = [] then listItems isSep rest
    else { negative := (skipToItem isSep s).1, text := buf } :: listItems isSep rest
termination_by s.length
decreasing_by
  all_goals
    rename_i htext _
    exact (length_readItem_lt isSep htext).trans_le (length_skipToItem_le isSep s)

/-- `simple_pattern_create`. -/
def simplePatternCreate (list separators : CString) (defaultMode : SimplePrefixMode) :
    List SimplePattern :=
  (listItems (isSeparator separators) list).map fun item =>
    { chain := parsePattern defaultMode item.text, negative := item.negative }

/-- `simple_pattern_matches`, which is `simple_pattern_matches_extract` without a buffer. -/
def simplePatternMatches (list : List SimplePattern) (str : CString) : Bool :=
  if list = [] ∨ str = [] then false
  else
    match list.find? fun m => matchPattern m.chain str with
    | some m => !m.negative
    | none => false

end XMonitor
