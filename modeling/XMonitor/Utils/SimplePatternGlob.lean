import XMonitor.Utils.SimplePattern

/-!
# Patterns as globs

A list is read as globs with a sign, of which the first that matches decides. The chain of an item
is a glob as well, in which only some of the asterisks are wildcards: the first of several in a
row, and the one at the end of the item.
-/

namespace XMonitor

open Lib Lib.Glob

/-- An asterisk is a wildcard. -/
def looseTokens (s : CString) : List (Token Char) :=
  s.map fun c => if c = '*' then .any else .lit c

/-- An asterisk is a wildcard if it is not behind another or if it is the last character. -/
def strictTokens : (behind : Bool) → CString → List (Token Char)
  | _, [] => []
  | behind, c :: s =>
      (if c = '*' ∧ (behind = false ∨ s = []) then .any else .lit c) :: strictTokens (c = '*') s

/-- What an item without an asterisk matches. -/
def modeTokens : SimplePrefixMode → CString → List (Token Char)
  | .exact, s => lits s
  | .prefixed, s => lits s ++ [.any]
  | .suffixed, s => .any :: lits s
  | .substring, s => .any :: (lits s ++ [.any])

/-- The glob of an item. -/
def globOf (mode : SimplePrefixMode) (s : CString) : List (Token Char) :=
  if '*' ∈ s then looseTokens s else modeTokens mode s

/-- The glob of an item in which further asterisks in a row are characters. -/
def strictGlobOf (mode : SimplePrefixMode) (s : CString) : List (Token Char) :=
  if '*' ∈ s then strictTokens false s else modeTokens mode s

section Tokens

variable {s w : CString}

theorem strictTokens_word (hw : '*' ∉ w) (hne : w ≠ []) (behind : Bool) (s : CString) :
    strictTokens behind (w ++ s) = lits w ++ strictTokens false s := by
  induction w generalizing behind with
  | nil => exact absurd rfl hne
  | cons c w ih =>
      obtain ⟨hc, hw'⟩ := not_or.mp (List.mem_cons.not.mp hw)
      have hc' : c ≠ '*' := fun h => hc h.symm
      rw [List.cons_append, strictTokens, if_neg (fun h => hc' h.1), decide_eq_false hc']
      cases w with
      | nil => rfl
      | cons d w =>
          rw [ih hw' (List.cons_ne_nil d w)]
          rfl

theorem strictTokens_stars (k : Nat) (hs : s ≠ []) :
    strictTokens true (List.replicate k '*' ++ s) =
      lits (List.replicate k '*') ++ strictTokens true s := by
  induction k with
  | zero => rfl
  | succ k ih =>
      have hne : List.replicate k '*' ++ s ≠ [] := List.append_ne_nil_of_right_ne_nil _ hs
      rw [List.replicate_succ, List.cons_append, strictTokens,
        if_neg (fun h => h.2.elim (by decide) hne)]
      exact congrArg (Token.lit '*' :: ·) ih

theorem strictTokens_last (k : Nat) : strictTokens true (List.replicate (k + 1) '*') =
    lits (List.replicate k '*') ++ [.any] := by
  have hsplit : List.replicate (k + 1) '*' = List.replicate k '*' ++ ['*'] :=
    List.replicate_succ'
  rw [hsplit, strictTokens_stars k (List.cons_ne_nil _ _)]
  rfl

/-- A run of asterisks with a word behind it: one wildcard, and the rest are characters. -/
theorem strictTokens_run (k : Nat) (hw : '*' ∉ w) (hne : w ≠ []) (s : CString) :
    strictTokens false (List.replicate (k + 1) '*' ++ (w ++ s)) =
      .any :: (lits (List.replicate k '*' ++ w) ++ strictTokens false s) := by
  have hne' : w ++ s ≠ [] := List.append_ne_nil_of_left_ne_nil hne s
  rw [List.replicate_succ, List.cons_append, strictTokens, if_pos ⟨rfl, .inl rfl⟩]
  have hrest : strictTokens (decide ('*' = '*')) (List.replicate k '*' ++ (w ++ s)) =
      lits (List.replicate k '*') ++ (lits w ++ strictTokens false s) := by
    rw [decide_eq_true rfl, strictTokens_stars k hne', strictTokens_word hw hne]
  rw [hrest, lits, lits, lits, List.map_append, List.append_assoc]

end Tokens

/-! ## Chains -/

section Match

variable {str w : CString} {child : List PatternNode}

theorem matchPattern_empty : matchPattern (⟨[], .substring⟩ :: child) str = true := by
  rw [matchPattern]
  rfl

theorem matchPattern_substring (hw : w ≠ []) :
    matchPattern (⟨w, .substring⟩ :: child) str = true ↔
      ∃ t, strstr str w = some t ∧
        (child = [] ∨ matchPattern child (t.drop w.length) = true) := by
  rw [matchPattern]
  cases hfirst : strstr str w with
  | none => simp [hw]
  | some t =>
      obtain ⟨hts, hwt, -⟩ := strstr_eq_some hfirst
      have hlen : w.length ≤ str.length := hwt.length_le.trans hts.length_le
      simp [hw, hlen]

theorem matchPattern_prefixed :
    matchPattern (⟨w, .prefixed⟩ :: child) str = true ↔
      ∃ t, str = w ++ t ∧ (child = [] ∨ matchPattern child t = true) := by
  rw [matchPattern]
  by_cases hbegin : w <+: str
  · obtain ⟨t, rfl⟩ := hbegin
    simp
  · have hnot : ¬ ∃ t, str = w ++ t ∧ (child = [] ∨ matchPattern child t = true) := by
      rintro ⟨t, rfl, -⟩
      exact hbegin (List.prefix_append w t)
    rw [iff_false_right hnot]
    simp [hbegin]

theorem matchPattern_suffixed : matchPattern [⟨w, .suffixed⟩] str = true ↔ w <:+ str := by
  rw [matchPattern]
  constructor
  · intro h
    split at h
    · rename_i hlen
      simp only [List.isEmpty_nil, Bool.if_true_left, Bool.or_false, decide_eq_true_eq] at h
      rw [← h]
      exact List.drop_suffix _ _
    · cases h
  · rintro ⟨t, rfl⟩
    have hlen : w.length ≤ (t ++ w).length := by
      rw [List.length_append]
      omega
    simp

theorem matchPattern_exact : matchPattern [⟨w, .exact⟩] str = true ↔ str = w := by
  rw [matchPattern]
  constructor
  · intro h
    split at h
    · simpa using h
    · cases h
  · rintro rfl
    simp

end Match

section Node

variable {mode : SimplePrefixMode} {w : CString}

theorem allocNode_of_ne (hw : w ≠ []) : allocNode w mode = ⟨w, mode⟩ := if_neg hw

theorem patternNode_between (w : CString) :
    patternNode mode ('*' :: w ++ ['*']) = allocNode w .substring := by
  rw [patternNode, if_pos]
  · rw [List.cons_append, List.tail_cons, List.dropLast_concat]
  · refine ⟨?_, rfl, List.getLast?_concat⟩
    rw [List.length_append, List.length_cons, List.length_singleton]
    omega

theorem getLast?_ne (hw : '*' ∉ w) : w.getLast? ≠ some '*' :=
  fun h => hw (List.mem_of_getLast? h)

theorem head?_ne (hw : '*' ∉ w) : w.head? ≠ some '*' := fun h => hw (List.mem_of_head? h)

theorem patternNode_behind (hw : '*' ∉ w) (hne : w ≠ []) (k : Nat) :
    patternNode mode ('*' :: (List.replicate k '*' ++ w)) =
      ⟨List.replicate k '*' ++ w, .suffixed⟩ := by
  have hlast : ('*' :: (List.replicate k '*' ++ w)).getLast? ≠ some '*' := by
    rw [← List.cons_append, List.getLast?_append_of_ne_nil _ hne]
    exact getLast?_ne hw
  rw [patternNode, if_neg (fun h => hlast h.2.2), if_pos List.head?_cons,
    List.tail_cons,
    allocNode_of_ne (List.append_ne_nil_of_right_ne_nil _ hne)]

theorem patternNode_front (hw : '*' ∉ w) (hne : w ≠ []) :
    patternNode mode (w ++ ['*']) = ⟨w, .prefixed⟩ := by
  have hhead : (w ++ ['*']).head? ≠ some '*' := by
    rw [List.head?_append_of_ne_nil _ hne]
    exact head?_ne hw
  rw [patternNode, if_neg (fun h => hhead h.2.1), if_neg hhead, if_pos List.getLast?_concat,
    List.dropLast_concat, allocNode_of_ne hne]

theorem patternNode_word (hw : '*' ∉ w) (hne : w ≠ []) : patternNode mode w = ⟨w, mode⟩ := by
  rw [patternNode, if_neg (fun h => head?_ne hw h.2.1), if_neg (head?_ne hw),
    if_neg (getLast?_ne hw), allocNode_of_ne hne]

end Node

section Chain

variable {mode : SimplePrefixMode} {s str : CString}

theorem parsePattern_ne_nil (mode : SimplePrefixMode) (s : CString) : parsePattern mode s ≠ [] := by
  rw [parsePattern]
  split <;> exact List.cons_ne_nil _ _

theorem parsePattern_of_cut {stars : Nat} {word rest : CString} (h : Cut s stars word rest) :
    parsePattern mode s =
      if 2 ≤ rest.length then
        patternNode mode (List.replicate stars '*' ++ word ++ ['*']) :: parsePattern mode rest
      else [patternNode mode (List.replicate stars '*' ++ word ++ rest)] := by
  rw [parsePattern, h.cut_eq]

/-- The rest of an item begins with an asterisk, and with it ends the item or goes on. -/
theorem Cut.rest_cases {stars : Nat} {word rest : CString} (h : Cut s stars word rest) :
    rest = [] ∨ rest = ['*'] ∨ ∃ more, more ≠ [] ∧ rest = '*' :: more := by
  cases rest with
  | nil => exact .inl rfl
  | cons c more =>
      obtain rfl : c = '*' := Option.some.inj (h.head_rest (List.cons_ne_nil c more))
      cases more with
      | nil => exact .inr (.inl rfl)
      | cons d more => exact .inr (.inr ⟨d :: more, List.cons_ne_nil d more, rfl⟩)

theorem Cut.stars_pos {stars : Nat} {word rest : CString} (h : Cut s stars word rest)
    (hs : s.head? = some '*') : 0 < stars := by
  apply Nat.pos_of_ne_zero
  rintro rfl
  have hs' : s = word ++ rest := h.str_eq
  by_cases hword : word = []
  · rw [hs', hword, h.rest_eq_nil hword] at hs
    cases hs
  · rw [hs', List.head?_append_of_ne_nil _ hword] at hs
    exact head?_ne h.not_mem hs

/-- The chains that items are cut into, with their globs. Behind a node that has a child there is
an asterisk, with which the glob of the child begins. -/
inductive ChainGlob : List PatternNode → List (Token Char) → Prop
  | star : ChainGlob [⟨[], .substring⟩] [.any]
  | stars : ChainGlob [⟨[], .substring⟩] [.any, .any]
  | last {w : CString} (mode : SimplePrefixMode) (hw : w ≠ []) :
      ChainGlob [⟨w, mode⟩] (modeTokens mode w)
  | prefixed {w : CString} {child : List PatternNode} {g : List (Token Char)} (hw : w ≠ [])
      (h : ChainGlob child (.any :: g)) : ChainGlob (⟨w, .prefixed⟩ :: child) (lits w ++ .any :: g)
  | substring {w : CString} {child : List PatternNode} {g : List (Token Char)} (hw : w ≠ [])
      (h : ChainGlob child (.any :: g)) :
      ChainGlob (⟨w, .substring⟩ :: child) (.any :: (lits w ++ .any :: g))

theorem ChainGlob.ne_nil {chain : List PatternNode} {g : List (Token Char)}
    (h : ChainGlob chain g) : chain ≠ [] := by
  cases h <;> exact List.cons_ne_nil _ _

/-- A text of asterisks. -/
theorem chainGlob_only_stars (k : Nat) :
    ChainGlob [patternNode mode (List.replicate (k + 1) '*')]
      (strictTokens false (List.replicate (k + 1) '*')) := by
  cases k with
  | zero => exact .star
  | succ k =>
      have hnode : patternNode mode (List.replicate (k + 1 + 1) '*') =
          allocNode (List.replicate k '*') .substring := by
        rw [← patternNode_between, List.replicate_succ, List.replicate_succ', List.cons_append]
      have htokens : strictTokens false (List.replicate (k + 1 + 1) '*') =
          .any :: (lits (List.replicate k '*') ++ [.any]) := by
        rw [List.replicate_succ, strictTokens, if_pos ⟨rfl, .inl rfl⟩]
        exact congrArg (Token.any :: ·) (strictTokens_last k)
      rw [hnode, htokens]
      cases k with
      | zero => exact .stars
      | succ k =>
          have hne : List.replicate (k + 1) '*' ≠ [] := List.cons_ne_nil _ _
          rw [allocNode_of_ne hne]
          exact .last .substring hne

/-- The chain of a text that begins with an asterisk. The induction is on what is left behind the
next asterisk. -/
theorem chainGlob_stars (hs : s.head? = some '*') :
    ChainGlob (parsePattern mode s) (strictTokens false s) := by
  induction hn : s.length using Nat.strong_induction_on generalizing s with
  | _ n ih =>
      obtain ⟨stars, word, rest, hcut⟩ := exists_cut s
      obtain ⟨k, rfl⟩ : ∃ k, stars = k + 1 := ⟨stars - 1, by have := hcut.stars_pos hs; omega⟩
      rw [parsePattern_of_cut hcut]
      by_cases hword : word = []
      · obtain rfl := hcut.rest_eq_nil hword
        have hs' : s = List.replicate (k + 1) '*' := by
          rw [hcut.str_eq, hword, List.append_nil, List.append_nil]
        rw [if_neg (by decide), hword, List.append_nil, List.append_nil, hs']
        exact chainGlob_only_stars k
      · have htokens : strictTokens false s =
            .any :: (lits (List.replicate k '*' ++ word) ++ strictTokens false rest) := by
          rw [hcut.str_eq]
          exact strictTokens_run k hcut.not_mem hword rest
        have hne : List.replicate k '*' ++ word ≠ [] := List.append_ne_nil_of_right_ne_nil _ hword
        have hbetween : patternNode mode (List.replicate (k + 1) '*' ++ word ++ ['*']) =
            ⟨List.replicate k '*' ++ word, .substring⟩ := by
          rw [← allocNode_of_ne hne, ← patternNode_between, List.replicate_succ, List.cons_append]
        rw [htokens]
        obtain rfl | rfl | ⟨more, hmore, rfl⟩ := hcut.rest_cases
        · rw [if_neg (by decide), List.append_nil, List.replicate_succ, List.cons_append,
            patternNode_behind hcut.not_mem hword]
          show ChainGlob _ (.any :: (lits _ ++ []))
          rw [List.append_nil]
          exact .last .suffixed hne
        · rw [if_neg (by decide), hbetween]
          exact .last .substring hne
        · have hlong : 2 ≤ ('*' :: more).length := Nat.succ_le_succ (List.length_pos_iff.mpr hmore)
          have hlt : ('*' :: more).length < n := hn ▸ hcut.length_lt (List.cons_ne_nil _ _)
          have hchild := ih _ hlt rfl rfl
          rw [if_pos hlong, hbetween]
          rw [strictTokens, if_pos ⟨rfl, .inl rfl⟩] at hchild ⊢
          exact .substring hne hchild

/-- The chain of an item, with the glob in which further asterisks in a row are characters. -/
theorem parsePattern_chainGlob (mode : SimplePrefixMode) (hs : s ≠ []) :
    ChainGlob (parsePattern mode s) (strictGlobOf mode s) := by
  obtain ⟨stars, word, rest, hcut⟩ := exists_cut s
  obtain rfl | hstars := Nat.eq_zero_or_pos stars
  · have hs' : s = word ++ rest := hcut.str_eq
    have hword : word ≠ [] := by
      intro hword
      apply hs
      rw [hs', hword, hcut.rest_eq_nil hword]
      rfl
    have hfront : patternNode mode (List.replicate 0 '*' ++ word ++ ['*']) = ⟨word, .prefixed⟩ :=
      patternNode_front hcut.not_mem hword
    rw [parsePattern_of_cut hcut]
    obtain rfl | rfl | ⟨more, hmore, rfl⟩ := hcut.rest_cases
    · rw [List.append_nil] at hs'
      have hnode : patternNode mode (List.replicate 0 '*' ++ word ++ []) = ⟨word, mode⟩ := by
        rw [List.append_nil]
        exact patternNode_word hcut.not_mem hword
      rw [if_neg (by decide), hnode, hs', strictGlobOf, if_neg hcut.not_mem]
      exact .last mode hword
    · have htokens : strictGlobOf mode s = lits word ++ [.any] := by
        rw [strictGlobOf, hs', if_pos (List.mem_append_right _ List.mem_cons_self),
          strictTokens_word hcut.not_mem hword]
        rfl
      rw [if_neg (by decide), hfront, htokens]
      exact .last .prefixed hword
    · have hlong : 2 ≤ ('*' :: more).length := Nat.succ_le_succ (List.length_pos_iff.mpr hmore)
      have hchild : ChainGlob (parsePattern mode ('*' :: more))
          (strictTokens false ('*' :: more)) := chainGlob_stars rfl
      have htokens : strictGlobOf mode s = lits word ++ strictTokens false ('*' :: more) := by
        rw [strictGlobOf, hs', if_pos (List.mem_append_right _ List.mem_cons_self),
          strictTokens_word hcut.not_mem hword]
      rw [if_pos hlong, hfront, htokens]
      rw [strictTokens, if_pos ⟨rfl, .inl rfl⟩] at hchild ⊢
      exact .prefixed hword hchild
  · have hhead : s.head? = some '*' := by
      obtain ⟨k, rfl⟩ : ∃ k, stars = k + 1 := ⟨stars - 1, by omega⟩
      rw [hcut.str_eq, List.replicate_succ]
      rfl
    rw [strictGlobOf, if_pos (List.mem_of_head? hhead)]
    exact chainGlob_stars hhead

/-- A chain, which is matched without going back, finds every match of its glob. -/
theorem matchPattern_chainGlob {chain : List PatternNode} {g : List (Token Char)}
    (h : ChainGlob chain g) (str : CString) :
    matchPattern chain str = true ↔ Matches g str := by
  induction h generalizing str with
  | star => exact iff_of_true matchPattern_empty (matches_any str)
  | stars =>
      apply iff_of_true matchPattern_empty
      exact matches_any_cons.mpr ⟨str, List.suffix_refl str, matches_any str⟩
  | last mode hw =>
      cases mode with
      | exact => rw [matchPattern_exact, modeTokens, matches_lits]
      | prefixed =>
          rw [matchPattern_prefixed, modeTokens, matches_lits_any]
          exact ⟨fun ⟨t, h, _⟩ => ⟨t, h.symm⟩, fun ⟨t, h⟩ => ⟨t, h.symm, .inl rfl⟩⟩
      | suffixed => rw [matchPattern_suffixed, modeTokens, matches_any_lits]
      | substring =>
          rw [matchPattern_substring hw, modeTokens, matches_any_lits_any]
          exact exists_congr fun t => and_congr_right fun _ =>
            iff_of_true (.inl rfl) (matches_any _)
  | prefixed hw h ih =>
      rw [matchPattern_prefixed, matches_lits_append]
      refine exists_congr fun t => and_congr_right fun _ => ?_
      rw [or_iff_right h.ne_nil, ih]
  | substring hw h ih =>
      rw [matchPattern_substring hw, matches_any_lits_any]
      refine exists_congr fun t => and_congr_right fun _ => ?_
      rw [or_iff_right h.ne_nil, ih]

/-- An item matches as the glob in which further asterisks in a row are characters. -/
theorem matchPattern_iff (mode : SimplePrefixMode) (hs : s ≠ []) (str : CString) :
    matchPattern (parsePattern mode s) str = true ↔ Matches (strictGlobOf mode s) str :=
  matchPattern_chainGlob (parsePattern_chainGlob mode hs) str

/-- Wildcards only match more than the characters that they are written with. -/
theorem strictTokens_weaken (behind : Bool) (s : CString) :
    List.Forall₂ (fun a b => a = b ∨ b = .any) (strictTokens behind s) (looseTokens s) := by
  induction s generalizing behind with
  | nil => exact .nil
  | cons c s ih =>
      refine .cons ?_ (ih _)
      by_cases hc : c = '*'
      · exact .inr (if_pos hc)
      · exact .inl ((if_neg fun h => hc h.1).trans (if_neg hc).symm)

theorem matches_globOf_of_strict (h : Matches (strictGlobOf mode s) str) :
    Matches (globOf mode s) str := by
  rw [strictGlobOf] at h
  rw [globOf]
  split
  · rename_i hstar
    rw [if_pos hstar] at h
    exact h.weaken (strictTokens_weaken false s)
  · rename_i hstar
    rw [if_neg hstar] at h
    exact h

end Chain

section Single

variable {s : CString}

/-- Without two asterisks in a row, every asterisk is a wildcard. -/
theorem strictTokens_eq {behind : Bool} (hs : ¬ ['*', '*'] <:+: s)
    (hbehind : behind = true → s.head? ≠ some '*') : strictTokens behind s = looseTokens s := by
  induction s generalizing behind with
  | nil => rfl
  | cons c s ih =>
      have hrest : ¬ ['*', '*'] <:+: s := fun h => hs (h.trans (List.suffix_cons c s).isInfix)
      have hnext : decide (c = '*') = true → s.head? ≠ some '*' := by
        intro hc hhead
        obtain ⟨t, rfl⟩ := List.head?_eq_some_iff.mp hhead
        rw [of_decide_eq_true hc] at hs
        exact hs ⟨[], t, rfl⟩
      have hhead : c = '*' → behind = false := by
        intro hc
        rw [← Bool.not_eq_true]
        intro h
        exact hbehind h (by rw [hc]; rfl)
      have htoken : (if c = '*' ∧ (behind = false ∨ s = []) then Token.any else Token.lit c) =
          if c = '*' then .any else .lit c := by
        by_cases hc : c = '*'
        · rw [if_pos ⟨hc, .inl (hhead hc)⟩, if_pos hc]
        · rw [if_neg (fun h => hc h.1), if_neg hc]
      rw [strictTokens, htoken, ih hrest hnext]
      rfl

theorem strictGlobOf_eq (mode : SimplePrefixMode) (hs : ¬ ['*', '*'] <:+: s) :
    strictGlobOf mode s = globOf mode s := by
  rw [strictGlobOf, globOf, strictTokens_eq hs (fun h => by cases h)]

end Single

/-! ## Lists -/

/-- The characters of a list without the backslashes that protect them, and whether one does. -/
def unescape : (escape : Bool) → CString → List (Char × Bool)
  | _, [] => []
  | escape, c :: s =>
      if c = '\\' ∧ escape = false then unescape true s else (c, escape) :: unescape false s

/-- An item with its sign, if there is something behind the sign. -/
def toItem (piece : List (Char × Bool)) : Option PatternItem :=
  let negative : Bool := piece.head? = some ('!', false)
  let text := if negative then piece.tail else piece
  if text = [] then none else some { negative, text := text.map Prod.fst }

/-- A separator that is not protected. -/
def cutsAt (isSep : Char → Bool) (p : Char × Bool) : Bool := isSep p.1 && !p.2

/-- The items between separators that are not protected. -/
def splitItems (isSep : Char → Bool) (list : CString) : List PatternItem :=
  ((unescape false list).splitOnP (cutsAt isSep)).filterMap toItem

section Items

variable {isSep : Char → Bool} {s : CString}

/-- What is read of an item is the first piece. -/
theorem readItem_eq (isSep : Char → Bool) (escape : Bool) (s : CString) :
    ∃ piece pieces, (unescape escape s).splitOnP (cutsAt isSep) = piece :: pieces ∧
      piece.map Prod.fst = (readItem isSep escape s).1 ∧
      pieces.filterMap toItem = splitItems isSep (readItem isSep escape s).2 := by
  induction s generalizing escape with
  | nil => exact ⟨[], [], rfl, rfl, rfl⟩
  | cons c s ih =>
      rw [unescape, readItem]
      by_cases hescape : c = '\\' ∧ escape = false
      · rw [if_pos hescape, if_pos hescape]
        exact ih true
      · rw [if_neg hescape, if_neg hescape, List.splitOnP_cons_eq_if_modifyHead]
        by_cases hcut : isSep c ∧ escape = false
        · have hcuts : cutsAt isSep (c, escape) = true := by rw [cutsAt, hcut.1, hcut.2]; rfl
          rw [if_pos hcut, if_pos hcuts]
          exact ⟨[], _, rfl, rfl, rfl⟩
        · have hcuts : ¬ cutsAt isSep (c, escape) = true := by
            intro h
            rw [cutsAt, Bool.and_eq_true, Bool.not_eq_true'] at h
            exact hcut h
          obtain ⟨piece, pieces, hsplit, hbuf, hrest⟩ := ih false
          rw [if_neg hcut, if_neg hcuts, hsplit]
          exact ⟨(c, escape) :: piece, pieces, rfl, congrArg (c :: ·) hbuf, hrest⟩

/-- Separators in front of an item do not matter. -/
theorem splitItems_dropWhile (hsep : isSep '\\' = false) (s : CString) :
    splitItems isSep (s.dropWhile isSep) = splitItems isSep s := by
  induction s with
  | nil => rfl
  | cons c s ih =>
      cases hc : isSep c with
      | false => rw [List.dropWhile_cons_of_neg (by rw [hc]; decide)]
      | true =>
          have hne : ¬ (c = '\\' ∧ false = false) := by
            rintro ⟨rfl, -⟩
            rw [hsep] at hc
            cases hc
          have hcuts : cutsAt isSep (c, false) = true := by rw [cutsAt, hc]; rfl
          rw [List.dropWhile_cons_of_pos hc, ih, splitItems, splitItems, unescape, if_neg hne,
            List.splitOnP_cons_eq_if_modifyHead, if_pos hcuts]
          rfl

theorem head?_unescape (h : (unescape false s).head? = some ('!', false)) :
    s.head? = some '!' := by
  cases s with
  | nil => cases h
  | cons c s =>
      rw [unescape] at h
      split at h
      · cases s with
        | nil => cases h
        | cons d s =>
            rw [unescape, if_neg (fun h => by cases h.2)] at h
            cases h
      · obtain ⟨rfl, -⟩ := Prod.mk.inj (Option.some.inj h)
        rfl

theorem head?_piece {l piece : List (Char × Bool)} {pieces : List (List (Char × Bool))}
    {x : Char × Bool} (h : l.splitOnP (cutsAt isSep) = piece :: pieces)
    (hx : piece.head? = some x) : l.head? = some x := by
  cases l with
  | nil =>
      obtain ⟨rfl, -⟩ := List.cons.inj h
      cases hx
  | cons y l =>
      rw [List.splitOnP_cons_eq_if_modifyHead] at h
      split at h
      · obtain ⟨rfl, -⟩ := List.cons.inj h
        cases hx
      · obtain ⟨first, rest, hl⟩ := List.exists_cons_of_ne_nil (List.splitOnP_ne_nil _ l)
        rw [hl] at h
        obtain ⟨rfl, -⟩ := List.cons.inj h
        exact hx

theorem head?_dropWhile_isSep {c : Char} (h : (s.dropWhile isSep).head? = some c) :
    isSep c = false := by
  have hnot := List.head?_dropWhile_not isSep s
  rw [h] at hnot
  exact hnot

/-- The first item of a list without separators in front, whose text is behind its sign. -/
theorem splitItems_item {text : CString} {negative : Bool}
    (h : s = if negative then '!' :: text else text)
    (hsign : negative = false → s.head? ≠ some '!')
    (hsep : negative = true → isSep '!' = false) :
    splitItems isSep s =
      if (readItem isSep false text).1 = [] then splitItems isSep (readItem isSep false text).2
      else { negative, text := (readItem isSep false text).1 } ::
        splitItems isSep (readItem isSep false text).2 := by
  obtain ⟨piece, pieces, hsplit, hbuf, hrest⟩ := readItem_eq isSep false text
  have hitems : ∃ first, (unescape false s).splitOnP (cutsAt isSep) = first :: pieces ∧
      toItem first = if piece = [] then none
        else some { negative, text := piece.map Prod.fst } := by
    cases negative with
    | true =>
        have hcuts : ¬ cutsAt isSep ('!', false) = true := by
          rw [cutsAt, hsep rfl]
          decide
        rw [if_pos rfl] at h
        refine ⟨('!', false) :: piece, ?_, rfl⟩
        rw [h, unescape, if_neg (by decide), List.splitOnP_cons_eq_if_modifyHead, if_neg hcuts,
          hsplit]
        rfl
    | false =>
        rw [if_neg Bool.false_ne_true] at h
        rw [h]
        refine ⟨piece, hsplit, ?_⟩
        have hhead : piece.head? ≠ some ('!', false) := by
          intro hx
          rw [← h] at hsplit
          exact hsign rfl (head?_unescape (head?_piece hsplit hx))
        rw [toItem]
        simp only [hhead, decide_false, Bool.false_eq_true, if_false]
  obtain ⟨first, hfirst, hitem⟩ := hitems
  have hnil : (readItem isSep false text).1 = [] ↔ piece = [] := by
    rw [← hbuf, List.map_eq_nil_iff]
  rw [splitItems, hfirst, List.filterMap_cons, hitem, hrest, ← hbuf]
  by_cases hpiece : piece = []
  · rw [if_pos hpiece, if_pos (by rw [hpiece]; rfl)]
  · rw [if_neg hpiece, if_neg (by rw [List.map_eq_nil_iff]; exact hpiece)]

/-- What is skipped in front of the text of an item. -/
theorem skipToItem_spec (isSep : Char → Bool) (s : CString) :
    (s.dropWhile isSep = if (skipToItem isSep s).1 then '!' :: (skipToItem isSep s).2
      else (skipToItem isSep s).2) ∧
    ((skipToItem isSep s).1 = false → (s.dropWhile isSep).head? ≠ some '!') ∧
    ((skipToItem isSep s).1 = true → isSep '!' = false) := by
  by_cases hhead : (s.dropWhile isSep).head? = some '!'
  · have hskip : skipToItem isSep s = (true, (s.dropWhile isSep).tail) := if_pos hhead
    rw [hskip]
    refine ⟨?_, (fun h => by cases h), fun _ => head?_dropWhile_isSep hhead⟩
    obtain ⟨t, ht⟩ := List.head?_eq_some_iff.mp hhead
    rw [ht]
    rfl
  · have hskip : skipToItem isSep s = (false, s.dropWhile isSep) := if_neg hhead
    rw [hskip]
    exact ⟨rfl, fun _ => hhead, (fun h => by cases h)⟩

theorem listItems_of_text_ne (h : (skipToItem isSep s).2 ≠ []) :
    listItems isSep s =
      if (readItem isSep false (skipToItem isSep s).2).1 = [] then
        listItems isSep (readItem isSep false (skipToItem isSep s).2).2
      else
        { negative := (skipToItem isSep s).1
          text := (readItem isSep false (skipToItem isSep s).2).1 } ::
            listItems isSep (readItem isSep false (skipToItem isSep s).2).2 := by
  rw [listItems, if_neg h]

theorem listItems_of_text_nil (h : (skipToItem isSep s).2 = []) : listItems isSep s = [] := by
  rw [listItems, if_pos h]

/-- Unless the backslash is a separator, the items of the code are those between separators. -/
theorem listItems_eq (hsep : isSep '\\' = false) (s : CString) :
    listItems isSep s = splitItems isSep s := by
  induction hn : s.length using Nat.strong_induction_on generalizing s with
  | _ n ih =>
      obtain ⟨hskip, hsign, hmark⟩ := skipToItem_spec isSep s
      rw [← splitItems_dropWhile hsep s, splitItems_item hskip hsign hmark]
      by_cases htext : (skipToItem isSep s).2 = []
      · rw [listItems_of_text_nil htext, htext]
        rfl
      · have hlt : (readItem isSep false (skipToItem isSep s).2).2.length < n :=
          hn ▸ (length_readItem_lt isSep htext).trans_le (length_skipToItem_le isSep s)
        rw [listItems_of_text_ne htext, ih _ hlt _ rfl]

theorem text_ne_of_mem_listItems {item : PatternItem} (h : item ∈ listItems isSep s) :
    item.text ≠ [] := by
  induction hn : s.length using Nat.strong_induction_on generalizing s with
  | _ n ih =>
      by_cases htext : (skipToItem isSep s).2 = []
      · rw [listItems_of_text_nil htext] at h
        exact absurd h List.not_mem_nil
      · have hlt : (readItem isSep false (skipToItem isSep s).2).2.length < n :=
          hn ▸ (length_readItem_lt isSep htext).trans_le (length_skipToItem_le isSep s)
        rw [listItems_of_text_ne htext] at h
        split at h
        · exact ih _ hlt h rfl
        · rename_i hbuf
          obtain rfl | h := List.mem_cons.mp h
          · exact hbuf
          · exact ih _ hlt h rfl

end Items

/-! ## Answers -/

/-- The first item whose glob matches decides by its sign. -/
def globAnswer (glob : CString → List (Token Char)) (str : CString) : List PatternItem → Bool
  | [] => false
  | item :: rest =>
      if Matches (glob item.text) str then !item.negative else globAnswer glob str rest

/-- The first item that matches as a glob does so as well with further asterisks in a row as
characters, or the items behind it lead to the same answer in that reading. -/
def AnswerKept (mode : SimplePrefixMode) (str : CString) : List PatternItem → Prop
  | [] => True
  | item :: rest =>
      if Matches (globOf mode item.text) str then
        Matches (strictGlobOf mode item.text) str ∨
          globAnswer (strictGlobOf mode) str rest = !item.negative
      else AnswerKept mode str rest

instance AnswerKept.decidable (mode : SimplePrefixMode) (str : CString) :
    (items : List PatternItem) → Decidable (AnswerKept mode str items)
  | [] => .isTrue trivial
  | item :: rest =>
      have := AnswerKept.decidable mode str rest
      inferInstanceAs (Decidable
        (if Matches (globOf mode item.text) str then
          Matches (strictGlobOf mode item.text) str ∨
            globAnswer (strictGlobOf mode) str rest = !item.negative
        else AnswerKept mode str rest))

section Answers

variable {mode : SimplePrefixMode} {str : CString}

theorem globAnswer_strict_iff (items : List PatternItem) :
    globAnswer (strictGlobOf mode) str items = globAnswer (globOf mode) str items ↔
      AnswerKept mode str items := by
  induction items with
  | nil => exact iff_of_true rfl trivial
  | cons item rest ih =>
      rw [globAnswer, globAnswer, AnswerKept]
      by_cases hloose : Matches (globOf mode item.text) str
      · rw [if_pos hloose, if_pos hloose]
        by_cases hstrict : Matches (strictGlobOf mode item.text) str
        · rw [if_pos hstrict]
          exact iff_of_true rfl (.inl hstrict)
        · rw [if_neg hstrict, or_iff_right hstrict]
      · rw [if_neg hloose, if_neg hloose, if_neg fun h => hloose (matches_globOf_of_strict h)]
        exact ih

/-- A list without two asterisks in a row is answered as a list of globs. -/
theorem answerKept_of_single {items : List PatternItem}
    (h : ∀ item ∈ items, ¬ ['*', '*'] <:+: item.text) : AnswerKept mode str items := by
  induction items with
  | nil => trivial
  | cons item rest ih =>
      obtain ⟨hitem, hrest⟩ := List.forall_mem_cons.mp h
      rw [AnswerKept, strictGlobOf_eq mode hitem]
      split
      · rename_i hmatch
        exact .inl hmatch
      · exact ih hrest

theorem find?_chain {items : List PatternItem} (hitems : ∀ item ∈ items, item.text ≠ [])
    (str : CString) :
    (match (items.map fun item =>
        ({ chain := parsePattern mode item.text, negative := item.negative } :
          SimplePattern)).find? fun m => matchPattern m.chain str with
      | some m => !m.negative
      | none => false) = globAnswer (strictGlobOf mode) str items := by
  induction items with
  | nil => rfl
  | cons item rest ih =>
      obtain ⟨hitem, hrest⟩ := List.forall_mem_cons.mp hitems
      have hmatch := matchPattern_iff mode hitem str
      rw [List.map_cons, List.find?_cons, globAnswer]
      by_cases h : Matches (strictGlobOf mode item.text) str
      · rw [if_pos h, hmatch.mpr h]
      · have hfalse : matchPattern (parsePattern mode item.text) str = false := by
          rw [← Bool.not_eq_true, hmatch]
          exact h
        rw [if_neg h, hfalse]
        exact ih hrest

/-- What the patterns of a list answer. -/
theorem simplePatternMatches_eq (list separators : CString) (mode : SimplePrefixMode)
    (hstr : str ≠ []) :
    simplePatternMatches (simplePatternCreate list separators mode) str =
      globAnswer (strictGlobOf mode) str (listItems (isSeparator separators) list) := by
  have hitems : ∀ item ∈ listItems (isSeparator separators) list, item.text ≠ [] :=
    fun item h => text_ne_of_mem_listItems h
  rw [simplePatternMatches, ← find?_chain hitems]
  split
  · rename_i h
    have hnil := h.resolve_right hstr
    rw [simplePatternCreate, List.map_eq_nil_iff] at hnil
    rw [hnil]
    rfl
  · rfl

end Answers

/-- The answer of a list of globs. -/
def GlobList (list separators : CString) (mode : SimplePrefixMode) (str : CString) : Bool :=
  globAnswer (globOf mode) str (splitItems (isSeparator separators) list)

/-- A backslash that is a separator is skipped in front of an item. Otherwise only asterisks in a
row matter. -/
def PatternKept (list separators : CString) (mode : SimplePrefixMode) (str : CString) : Prop :=
  if isSeparator separators '\\' then
    globAnswer (strictGlobOf mode) str (listItems (isSeparator separators) list) =
      GlobList list separators mode str
  else AnswerKept mode str (splitItems (isSeparator separators) list)

/-- Exactly when simple patterns implement a list of globs. -/
theorem simple_pattern_iff (list separators : CString) (mode : SimplePrefixMode) {str : CString}
    (hstr : str ≠ []) :
    simplePatternMatches (simplePatternCreate list separators mode) str =
        GlobList list separators mode str ↔ PatternKept list separators mode str := by
  rw [simplePatternMatches_eq list separators mode hstr, PatternKept]
  split
  · exact Iff.rfl
  · rename_i hsep
    have hsep' : isSeparator separators '\\' = false := by simpa using hsep
    rw [listItems_eq hsep', GlobList, globAnswer_strict_iff]

/-- An item with an asterisk in the middle. -/
theorem simple_pattern_iff_one :
    simplePatternMatches (simplePatternCreate ['a', '*', 'b'] [] .exact) ['a', 'x', 'b'] =
      GlobList ['a', '*', 'b'] [] .exact ['a', 'x', 'b'] :=
  (simple_pattern_iff ['a', '*', 'b'] [] .exact (List.cons_ne_nil _ _)).mpr (by
    rw [PatternKept, if_neg (by decide)]
    decide)

/-- Of two asterisks in a row, the second must be found in the string. -/
theorem two_asterisks : simplePatternMatches
      (simplePatternCreate ['a', '*', '*', 'b'] [] .exact) ['a', 'x', 'b'] ≠
    GlobList ['a', '*', '*', 'b'] [] .exact ['a', 'x', 'b'] := by
  rw [simplePatternMatches_eq _ _ _ (List.cons_ne_nil _ _), listItems_eq (by decide)]
  decide

end XMonitor
