import Mathlib.Data.List.Forall2
import Mathlib.Data.List.Infix

/-!
# Globs

A glob is a list of letters and wildcards, and a wildcard stands for any word. A matcher need not
try all words for it: if another wildcard follows behind a word of letters, the first occurrence
of that word is as good as any other (`matches_any_lits_any`).
-/

namespace XMonitor.Lib

variable {α : Type*}

inductive Token (α : Type*) where
  | any
  | lit (a : α)
deriving DecidableEq

namespace Glob

def Matches : List (Token α) → List α → Prop
  | [], s => s = []
  | .lit a :: g, s => ∃ t, s = a :: t ∧ Matches g t
  | .any :: g, s => ∃ t ∈ s.tails, Matches g t

/-- The letters of a word. -/
def lits (w : List α) : List (Token α) := w.map .lit

/-- The part of a list from the first occurrence of a word on. -/
def strstr [DecidableEq α] : List α → List α → Option (List α)
  | [], w => if w <+: [] then some [] else none
  | a :: s, w => if w <+: a :: s then some (a :: s) else strstr s w

instance decidableMatches [DecidableEq α] :
    (g : List (Token α)) → (s : List α) → Decidable (Matches g s)
  | [], s => inferInstanceAs (Decidable (s = []))
  | .lit a :: g, [] => .isFalse fun ⟨_, h, _⟩ => by cases h
  | .lit a :: g, b :: s =>
      have := decidableMatches g s
      decidable_of_iff (b = a ∧ Matches g s)
        ⟨fun ⟨hab, h⟩ => ⟨s, by rw [hab], h⟩, fun ⟨_, hs, h⟩ => by cases hs; exact ⟨rfl, h⟩⟩
  | .any :: g, s =>
      have := decidableMatches g
      inferInstanceAs (Decidable (∃ t ∈ s.tails, Matches g t))

variable {g g' : List (Token α)} {s t w : List α}

theorem matches_any_cons : Matches (.any :: g) s ↔ ∃ t, t <:+ s ∧ Matches g t := by
  simp only [Matches, List.mem_tails]

theorem matches_lits_append : Matches (lits w ++ g) s ↔ ∃ t, s = w ++ t ∧ Matches g t := by
  induction w generalizing s with
  | nil => exact ⟨fun h => ⟨s, rfl, h⟩, fun ⟨t, hs, h⟩ => by rw [hs]; exact h⟩
  | cons a w ih =>
      show (∃ t, s = a :: t ∧ Matches (lits w ++ g) t) ↔ _
      constructor
      · rintro ⟨t, rfl, h⟩
        obtain ⟨u, rfl, hu⟩ := ih.mp h
        exact ⟨u, rfl, hu⟩
      · rintro ⟨t, rfl, h⟩
        exact ⟨w ++ t, rfl, ih.mpr ⟨t, rfl, h⟩⟩

theorem matches_lits : Matches (lits w) s ↔ s = w := by
  have h := matches_lits_append (w := w) (g := []) (s := s)
  rw [List.append_nil] at h
  rw [h]
  constructor
  · rintro ⟨t, rfl, rfl⟩
    exact List.append_nil w
  · rintro rfl
    exact ⟨[], (List.append_nil s).symm, rfl⟩

theorem matches_any (s : List α) : Matches [.any] s :=
  matches_any_cons.mpr ⟨[], List.nil_suffix, rfl⟩

theorem matches_lits_any : Matches (lits w ++ [.any]) s ↔ w <+: s := by
  rw [matches_lits_append]
  exact ⟨fun ⟨t, hs, _⟩ => ⟨t, hs.symm⟩, fun ⟨t, hs⟩ => ⟨t, hs.symm, matches_any t⟩⟩

theorem matches_any_lits : Matches (.any :: lits w) s ↔ w <:+ s := by
  rw [matches_any_cons]
  constructor
  · rintro ⟨t, hsuffix, h⟩
    rw [← matches_lits.mp h]
    exact hsuffix
  · intro h
    exact ⟨w, h, matches_lits.mpr rfl⟩

/-- A wildcard takes what is in front, too. -/
theorem Matches.of_suffix (h : Matches (.any :: g) t) (hts : t <:+ s) :
    Matches (.any :: g) s := by
  obtain ⟨u, hut, hu⟩ := matches_any_cons.mp h
  exact matches_any_cons.mpr ⟨u, hut.trans hts, hu⟩

/-- A letter may be replaced by a wildcard. -/
theorem Matches.weaken (h : Matches g s)
    (hg : List.Forall₂ (fun a b => a = b ∨ b = .any) g g') : Matches g' s := by
  induction hg generalizing s with
  | nil => exact h
  | @cons a b g g' hab _ ih =>
      cases a with
      | any =>
          obtain rfl : b = .any := by
            obtain rfl | hb := hab
            · rfl
            · exact hb
          obtain ⟨t, hts, ht⟩ := matches_any_cons.mp h
          exact matches_any_cons.mpr ⟨t, hts, ih ht⟩
      | lit a =>
          obtain ⟨t, rfl, ht⟩ := h
          obtain rfl | rfl := hab
          · exact ⟨t, rfl, ih ht⟩
          · exact matches_any_cons.mpr ⟨t, List.suffix_cons a t, ih ht⟩

/-- A list is cut along a glob into its letters and the words that its wildcards stand for. -/
def Splits : List (Token α) → List α → List (List α) → Prop
  | [], s, parts => s = [] ∧ parts = []
  | .lit a :: g, s, parts => ∃ t, s = a :: t ∧ Splits g t parts
  | .any :: g, s, parts => ∃ w t rest, s = w ++ t ∧ parts = w :: rest ∧ Splits g t rest

theorem Splits.any {parts : List (List α)} (h : Splits g t parts) (w : List α) :
    Splits (.any :: g) (w ++ t) (w :: parts) :=
  ⟨w, t, parts, rfl, rfl, h⟩

theorem Splits.lits {parts : List (List α)} (h : Splits g t parts) (w : List α) :
    Splits (lits w ++ g) (w ++ t) parts := by
  induction w with
  | nil => exact h
  | cons a w ih => exact ⟨w ++ t, rfl, ih⟩

theorem splits_any (s : List α) : Splits [.any] s [s] := by
  have h : Splits ([] : List (Token α)) [] [] := ⟨rfl, rfl⟩
  have hany := h.any s
  rw [List.append_nil] at hany
  exact hany

theorem splits_lits (w : List α) : Splits (lits w) w [] := by
  have h : Splits ([] : List (Token α)) [] [] := ⟨rfl, rfl⟩
  have hlits := h.lits w
  rw [List.append_nil, List.append_nil] at hlits
  exact hlits

section Strstr

variable [DecidableEq α]

@[simp] theorem strstr_nil (s : List α) : strstr s [] = some s := by
  cases s with
  | nil => rfl
  | cons a s => exact if_pos List.nil_prefix

theorem strstr_eq_some (h : strstr s w = some t) :
    t <:+ s ∧ w <+: t ∧ ∀ u, u <:+ s → w <+: u → u <:+ t := by
  induction s with
  | nil =>
      rw [strstr] at h
      split at h
      · rename_i hw
        obtain rfl := Option.some.inj h
        exact ⟨List.suffix_refl _, hw, fun u hu _ => hu⟩
      · cases h
  | cons a s ih =>
      rw [strstr] at h
      split at h
      · rename_i hw
        obtain rfl := Option.some.inj h
        exact ⟨List.suffix_refl _, hw, fun u hu _ => hu⟩
      · rename_i hw
        obtain ⟨hts, hwt, hfirst⟩ := ih h
        refine ⟨hts.trans (List.suffix_cons a s), hwt, fun u hu hwu => ?_⟩
        obtain rfl | hu := List.suffix_cons_iff.mp hu
        · exact absurd hwu hw
        · exact hfirst u hu hwu

theorem strstr_eq_none (h : strstr s w = none) : ∀ u, u <:+ s → ¬ w <+: u := by
  induction s with
  | nil =>
      rw [strstr] at h
      split at h
      · cases h
      · rename_i hw
        intro u hu
        rw [List.suffix_nil.mp hu]
        exact hw
  | cons a s ih =>
      rw [strstr] at h
      split at h
      · cases h
      · rename_i hw
        intro u hu
        obtain rfl | hu := List.suffix_cons_iff.mp hu
        · exact hw
        · exact ih h u hu

/-- Behind a word between two wildcards, matching goes on after its first occurrence. -/
theorem matches_any_lits_any : Matches (.any :: (lits w ++ .any :: g)) s ↔
    ∃ t, strstr s w = some t ∧ Matches (.any :: g) (t.drop w.length) := by
  rw [matches_any_cons]
  constructor
  · rintro ⟨u, hus, hu⟩
    obtain ⟨rest, rfl, hrest⟩ := matches_lits_append.mp hu
    cases hfirst : strstr s w with
    | none => exact absurd (List.prefix_append w rest) (strstr_eq_none hfirst _ hus)
    | some t =>
        obtain ⟨-, ⟨rest', rfl⟩, hleft⟩ := strstr_eq_some hfirst
        have hsuffix := hleft _ hus (List.prefix_append w rest)
        refine ⟨_, rfl, ?_⟩
        rw [List.drop_left]
        apply hrest.of_suffix
        apply List.suffix_of_suffix_length_le ((List.suffix_append w rest).trans hsuffix)
          (List.suffix_append w rest')
        have hlen := hsuffix.length_le
        rw [List.length_append, List.length_append] at hlen
        omega
  · rintro ⟨t, hfirst, h⟩
    obtain ⟨hts, ⟨rest, rfl⟩, -⟩ := strstr_eq_some hfirst
    rw [List.drop_left] at h
    exact ⟨_, hts, matches_lits_append.mpr ⟨rest, rfl, h⟩⟩

end Strstr

end Glob

end XMonitor.Lib
