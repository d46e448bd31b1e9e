import XMonitor.Utils.SimplePatternGlob

/-!
# The parts of a string

The asterisks of a pattern match parts of a string. `wildcardText` is what they match as a chain
finds it, from the left, and `wildcardText_splits` says that this is a way to cut the string along
the glob of the item.
-/

namespace XMonitor

open Lib Lib.Glob

/-- The parts of a string in front of the text of a node and behind it. They are empty where the
node has no asterisk. -/
def PatternNode.parts (m : PatternNode) (str : CString) : Option (CString × CString) :=
  match m.mode with
  | .substring =>
      (strstr str m.text).map fun s =>
        (str.take (str.length - s.length), s.drop m.text.length)
  | .prefixed => if m.text <+: str then some ([], str.drop m.text.length) else none
  | .suffixed =>
      if m.text <:+ str then some (str.take (str.length - m.text.length), []) else none
  | .exact => if str = m.text then some ([], []) else none

/-- The node is asterisks without a text. -/
def PatternNode.IsStar (m : PatternNode) : Prop := m.mode = .substring ∧ m.text = []

instance (m : PatternNode) : Decidable m.IsStar := inferInstanceAs (Decidable (_ ∧ _))

/-- The parts of a string that the asterisks of a chain match, one behind the other. If a node
fails, these are the parts in front of it. -/
def wildcardText : List PatternNode → CString → CString
  | [], _ => []
  | m :: child, str =>
      match m.parts str with
      | some (front, behind) =>
          front ++ if m.IsStar ∨ child = [] then behind else wildcardText child behind
      | none => []

/-- The last of these parts if it belongs to asterisks without a text. -/
def starText : List PatternNode → CString → CString
  | [], _ => []
  | m :: child, str =>
      match m.parts str with
      | some (_, behind) =>
          if m.IsStar then behind else if child = [] then [] else starText child behind
      | none => []

section Parts

variable {m : PatternNode} {child : List PatternNode} {str front behind : CString}

theorem wildcardText_cons (h : m.parts str = some (front, behind)) :
    wildcardText (m :: child) str =
      front ++ if m.IsStar ∨ child = [] then behind else wildcardText child behind := by
  rw [wildcardText, h]

theorem wildcardText_singleton (h : m.parts str = some (front, behind)) :
    wildcardText [m] str = front ++ behind := by
  rw [wildcardText_cons h, if_pos (.inr rfl)]

theorem wildcardText_of_child (h : m.parts str = some (front, behind)) (hstar : ¬ m.IsStar)
    (hchild : child ≠ []) :
    wildcardText (m :: child) str = front ++ wildcardText child behind := by
  rw [wildcardText_cons h, if_neg (not_or.mpr ⟨hstar, hchild⟩)]

theorem starText_cons (h : m.parts str = some (front, behind)) :
    starText (m :: child) str =
      if m.IsStar then behind else if child = [] then [] else starText child behind := by
  rw [starText, h]

theorem wildcardText_of_parts_none (h : m.parts str = none) :
    wildcardText (m :: child) str = [] := by
  rw [wildcardText, h]

theorem starText_of_parts_none (h : m.parts str = none) : starText (m :: child) str = [] := by
  rw [starText, h]

/-! ### The parts of each mode -/

theorem parts_substring_iff {text : CString} :
    PatternNode.parts ⟨text, .substring⟩ str = some (front, behind) ↔
      ∃ s, strstr str text = some s ∧ str.take (str.length - s.length) = front ∧
        s.drop text.length = behind := by
  show (strstr str text).map _ = _ ↔ _
  rw [Option.map_eq_some_iff]
  exact exists_congr fun s => and_congr_right fun _ => Prod.ext_iff

theorem parts_prefixed_iff {text : CString} :
    PatternNode.parts ⟨text, .prefixed⟩ str = some (front, behind) ↔
      front = [] ∧ str = text ++ behind := by
  show (if text <+: str then some ([], str.drop text.length) else none) = _ ↔ _
  constructor
  · intro h
    obtain ⟨⟨t, rfl⟩, heq⟩ := Option.ite_none_right_eq_some.mp h
    obtain ⟨rfl, rfl⟩ := Prod.mk.inj (Option.some.inj heq)
    exact ⟨rfl, by rw [List.drop_left]⟩
  · rintro ⟨rfl, rfl⟩
    rw [if_pos (List.prefix_append text behind), List.drop_left]

theorem parts_suffixed_iff {text : CString} :
    PatternNode.parts ⟨text, .suffixed⟩ str = some (front, behind) ↔
      str = front ++ text ∧ behind = [] := by
  show (if text <:+ str then some (str.take (str.length - text.length), []) else none) = _ ↔ _
  constructor
  · intro h
    obtain ⟨hsuffix, heq⟩ := Option.ite_none_right_eq_some.mp h
    obtain ⟨rfl, rfl⟩ := Prod.mk.inj (Option.some.inj heq)
    exact ⟨(List.suffix_iff_eq_append.mp hsuffix).symm, rfl⟩
  · rintro ⟨rfl, rfl⟩
    rw [if_pos (List.suffix_append front text), List.length_append, Nat.add_sub_cancel,
      List.take_left]

theorem parts_exact_iff {text : CString} :
    PatternNode.parts ⟨text, .exact⟩ str = some (front, behind) ↔
      str = text ∧ front = [] ∧ behind = [] := by
  show (if str = text then some ([], []) else none) = _ ↔ _
  rw [Option.ite_none_right_eq_some, Option.some_inj, Prod.mk.injEq]
  exact and_congr_right fun _ => and_congr eq_comm eq_comm

theorem parts_star (str : CString) : PatternNode.parts ⟨[], .substring⟩ str = some ([], str) := by
  refine parts_substring_iff.mpr ⟨str, strstr_nil str, ?_, rfl⟩
  rw [Nat.sub_self]
  rfl

/-- The parts and the text of the node are the whole string. -/
theorem parts_append (h : m.parts str = some (front, behind)) :
    str = front ++ (m.text ++ behind) := by
  obtain ⟨text, mode⟩ := m
  cases mode with
  | substring =>
      obtain ⟨s, hfirst, rfl, rfl⟩ := parts_substring_iff.mp h
      obtain ⟨⟨before, rfl⟩, hbegin, -⟩ := strstr_eq_some hfirst
      have hbefore : (before ++ s).take ((before ++ s).length - s.length) = before := by
        rw [List.length_append, Nat.add_sub_cancel, List.take_left]
      rw [hbefore, ← List.prefix_append_drop hbegin]
  | prefixed =>
      obtain ⟨rfl, hwhole⟩ := parts_prefixed_iff.mp h
      exact hwhole
  | suffixed =>
      obtain ⟨hwhole, rfl⟩ := parts_suffixed_iff.mp h
      rw [List.append_nil]
      exact hwhole
  | exact =>
      obtain ⟨hwhole, rfl, rfl⟩ := parts_exact_iff.mp h
      rw [List.append_nil]
      exact hwhole

theorem parts_nil (h : m.parts [] = some (front, behind)) : front = [] ∧ behind = [] := by
  obtain ⟨hfront, hrest⟩ := List.append_eq_nil_iff.mp (parts_append h).symm
  exact ⟨hfront, (List.append_eq_nil_iff.mp hrest).2⟩

/-- A string that is shorter than the text has no parts around it. -/
theorem parts_eq_none (h : str.length < m.text.length) : m.parts str = none := by
  cases hparts : m.parts str with
  | none => rfl
  | some p =>
      obtain ⟨front, behind⟩ := p
      have hlength := congrArg List.length (parts_append hparts)
      rw [List.length_append, List.length_append] at hlength
      omega

theorem wildcardText_nil (chain : List PatternNode) : wildcardText chain [] = [] := by
  induction chain with
  | nil => rfl
  | cons m child ih =>
      cases hparts : m.parts [] with
      | none => exact wildcardText_of_parts_none hparts
      | some p =>
          obtain ⟨front, behind⟩ := p
          obtain ⟨rfl, rfl⟩ := parts_nil hparts
          rw [wildcardText_cons hparts, ih, ite_self]
          rfl

theorem starText_nil (chain : List PatternNode) : starText chain [] = [] := by
  induction chain with
  | nil => rfl
  | cons m child ih =>
      cases hparts : m.parts [] with
      | none => exact starText_of_parts_none hparts
      | some p =>
          obtain ⟨front, behind⟩ := p
          obtain ⟨rfl, rfl⟩ := parts_nil hparts
          rw [starText_cons hparts, ih, ite_self, ite_self]

/-- The parts around the text of a node that matches. Its children match what is behind it. -/
theorem exists_parts (h : matchPattern (m :: child) str = true) :
    ∃ front behind, m.parts str = some (front, behind) ∧
      (m.IsStar ∨ child = [] ∨ matchPattern child behind = true) := by
  obtain ⟨text, mode⟩ := m
  cases mode with
  | substring =>
      by_cases htext : text = []
      · obtain rfl := htext
        exact ⟨_, _, parts_star str, .inl ⟨rfl, rfl⟩⟩
      · obtain ⟨s, hfirst, hchild⟩ := (matchPattern_substring htext).mp h
        exact ⟨_, _, parts_substring_iff.mpr ⟨s, hfirst, rfl, rfl⟩, .inr hchild⟩
  | prefixed =>
      obtain ⟨t, hwhole, hchild⟩ := matchPattern_prefixed.mp h
      exact ⟨_, _, parts_prefixed_iff.mpr ⟨rfl, hwhole⟩, .inr hchild⟩
  | suffixed =>
      rw [matchPattern] at h
      split at h
      · dsimp only at h
        split at h
        · rename_i hsuffix
          obtain ⟨before, hwhole⟩ := List.suffix_iff_eq_drop.mpr hsuffix.symm
          exact ⟨_, _, parts_suffixed_iff.mpr ⟨hwhole.symm, rfl⟩,
            .inr (.inl (List.isEmpty_iff.mp h))⟩
        · cases h
      · cases h
  | exact =>
      rw [matchPattern] at h
      split at h
      · dsimp only at h
        split at h
        · rename_i heq
          exact ⟨_, _, parts_exact_iff.mpr ⟨heq, rfl, rfl⟩, .inr (.inl (List.isEmpty_iff.mp h))⟩
        · cases h
      · cases h

end Parts

/-- The parts of a string that is matched are the words for the asterisks in the glob of the
item. -/
theorem wildcardText_splits {chain : List PatternNode} {g : List (Token Char)}
    (h : ChainGlob chain g) {str : CString} (hmatch : matchPattern chain str = true) :
    ∃ parts, Splits g str parts ∧ parts.flatten = wildcardText chain str := by
  induction h generalizing str with
  | star =>
      rw [wildcardText_singleton (parts_star str)]
      exact ⟨[str], splits_any str, List.flatten_singleton⟩
  | stars =>
      rw [wildcardText_singleton (parts_star str)]
      exact ⟨[[], str], (splits_any str).any [], List.flatten_singleton⟩
  | @last w mode hw =>
      obtain ⟨front, behind, hparts, -⟩ := exists_parts hmatch
      rw [wildcardText_singleton hparts, parts_append hparts]
      cases mode with
      | exact =>
          obtain ⟨-, rfl, rfl⟩ := parts_exact_iff.mp hparts
          rw [List.append_nil]
          exact ⟨[], splits_lits w, rfl⟩
      | prefixed =>
          obtain ⟨rfl, -⟩ := parts_prefixed_iff.mp hparts
          exact ⟨[behind], (splits_any behind).lits w, List.append_nil behind⟩
      | suffixed =>
          obtain ⟨-, rfl⟩ := parts_suffixed_iff.mp hparts
          rw [List.append_nil]
          exact ⟨[front], (splits_lits w).any front, rfl⟩
      | substring =>
          refine ⟨[front, behind], ((splits_any behind).lits w).any front, ?_⟩
          rw [List.flatten_cons, List.flatten_singleton]
  | @prefixed w child g hw h ih =>
      obtain ⟨front, behind, hparts, hchild⟩ := exists_parts hmatch
      have hstar : ¬ PatternNode.IsStar ⟨w, .prefixed⟩ := fun hstar => hw hstar.2
      obtain ⟨parts, hsplits, hflatten⟩ :=
        ih ((hchild.resolve_left hstar).resolve_left h.ne_nil)
      obtain ⟨rfl, -⟩ := parts_prefixed_iff.mp hparts
      rw [wildcardText_of_child hparts hstar h.ne_nil, parts_append hparts]
      exact ⟨parts, hsplits.lits w, hflatten⟩
  | @substring w child g hw h ih =>
      obtain ⟨front, behind, hparts, hchild⟩ := exists_parts hmatch
      have hstar : ¬ PatternNode.IsStar ⟨w, .substring⟩ := fun hstar => hw hstar.2
      obtain ⟨parts, hsplits, hflatten⟩ :=
        ih ((hchild.resolve_left hstar).resolve_left h.ne_nil)
      rw [wildcardText_of_child hparts hstar h.ne_nil, parts_append hparts]
      exact ⟨front :: parts, (hsplits.lits w).any front, by rw [List.flatten_cons, hflatten]⟩

theorem wildcardText_item (mode : SimplePrefixMode) {s str : CString} (hs : s ≠ [])
    (hmatch : matchPattern (parsePattern mode s) str = true) :
    ∃ parts, Splits (strictGlobOf mode s) str parts ∧
      parts.flatten = wildcardText (parsePattern mode s) str :=
  wildcardText_splits (parsePattern_chainGlob mode hs) hmatch

end XMonitor
