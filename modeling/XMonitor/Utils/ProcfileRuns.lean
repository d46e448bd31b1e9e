import Mathlib.Data.List.Induction
import XMonitor.Lib.Runs
import XMonitor.Utils.ProcfileReadall

/-!
# Words and runs

Without quotes and parentheses a line should have the maximal runs of its word bytes as words.
A separator ends a word only if there is one, and so does the end of the file. A newline always
does: directly behind a separator or another newline it adds an empty word to its line.
-/

namespace XMonitor.Procfile

open Lib

/-- A table without quotes and parentheses. -/
def NoQuotes (types : UInt8 → PfChar) : Prop :=
  ∀ c, types c = .isWord ∨ types c = .isSeparator ∨ types c = .isNewline

/-- The lines of a text, without the newlines. -/
def rawLines (types : UInt8 → PfChar) (content : List UInt8) : List (List UInt8) :=
  content.splitOnP fun c => types c = .isNewline

/-- The maximal runs of word bytes of a line. -/
def wordRuns (types : UInt8 → PfChar) (line : List UInt8) : List (List UInt8) :=
  runs (fun c => types c = .isWord) line

/-- The line does not end in a word. -/
def EndsApart (types : UInt8 → PfChar) (line : List UInt8) : Prop :=
  Apart (fun c => types c = .isWord) line

instance (types : UInt8 → PfChar) (line : List UInt8) : Decidable (EndsApart types line) :=
  show Decidable (∀ c ∈ line.getLast?, decide (types c = .isWord) = false) from
    Option.decidableForallMem _

/-- The words of a line that a newline ends. -/
def endedWords (types : UInt8 → PfChar) (line : List UInt8) : List (List UInt8) :=
  wordRuns types line ++ if EndsApart types line then [[]] else []

variable {types : UInt8 → PfChar}

/-- The splitter behind some bytes: the current line is cut in front of the pending word. -/
structure Splitter.Reaches (sp : Splitter) (types : UInt8 → PfChar) (content : List UInt8)
    (done : List (List UInt8)) (front : List UInt8) : Prop where
  raw : rawLines types content = done ++ [front ++ sp.word]
  apart : EndsApart types front
  word : ∀ c ∈ sp.word, types c = .isWord
  line : sp.line = wordRuns types front
  lines : sp.lines = done.map (endedWords types)
  quoting : sp.quoting = {}

namespace Splitter.Reaches

variable {sp : Splitter} {content front : List UInt8} {done : List (List UInt8)}

theorem wordRuns_current (h : sp.Reaches types content done front) :
    wordRuns types (front ++ sp.word) =
      if sp.word = [] then sp.line else sp.line ++ [sp.word] := by
  rw [h.line]
  split
  · rename_i hnil
    rw [hnil, List.append_nil]
  · rename_i hne
    exact runs_append_word h.apart (fun c hc => decide_eq_true (h.word c hc)) hne

theorem endsApart_current_iff (h : sp.Reaches types content done front) :
    EndsApart types (front ++ sp.word) ↔ sp.word = [] := by
  constructor
  · intro hapart
    by_contra hne
    have hlast := List.getLast?_append_of_ne_nil front hne
    have hmem := List.getLast?_eq_getLast_of_ne_nil hne
    exact of_decide_eq_false (hapart _ (hlast.trans hmem)) (h.word _ (List.getLast_mem hne))
  · intro hnil
    rw [hnil, List.append_nil]
    exact h.apart

theorem step_word (h : sp.Reaches types content done front) {c : UInt8}
    (hc : types c = .isWord) :
    (sp.step types c).Reaches types (content ++ [c]) done front := by
  rw [Splitter.step_of_isWord hc]
  refine ⟨?_, h.apart, ?_, h.line, h.lines, h.quoting⟩
  · rw [rawLines, splitOnP_concat h.raw (by rw [hc]; rfl), List.append_assoc]
  · intro x hx
    obtain hx | hx := List.mem_append.mp hx
    · exact h.word x hx
    · rw [List.mem_singleton.mp hx]
      exact hc

theorem step_separator (h : sp.Reaches types content done front) {c : UInt8}
    (hc : types c = .isSeparator) :
    (sp.step types c).Reaches types (content ++ [c]) done (front ++ sp.word ++ [c]) := by
  have hsep : decide (types c = .isWord) = false := by rw [hc]; rfl
  have hraw : rawLines types (content ++ [c]) = done ++ [front ++ sp.word ++ [c]] :=
    splitOnP_concat h.raw (by rw [hc]; rfl)
  have hruns : wordRuns types (front ++ sp.word ++ [c]) = wordRuns types (front ++ sp.word) :=
    runs_concat _ hsep
  have hcurrent := h.wordRuns_current
  by_cases hword : sp.word = []
  · rw [Splitter.step_of_isSeparator_nil hc h.quoting hword]
    rw [if_pos hword] at hcurrent
    refine ⟨?_, apart_concat hsep, h.word, ?_, h.lines, h.quoting⟩
    · rw [hraw, hword, List.append_nil, List.append_nil]
    · rw [hruns, hcurrent]
  · rw [Splitter.step_of_isSeparator hc h.quoting hword]
    rw [if_neg hword] at hcurrent
    refine ⟨?_, apart_concat hsep, fun x hx => absurd hx List.not_mem_nil, ?_, h.lines, h.quoting⟩
    · rw [hraw, List.append_nil]
    · rw [hruns, hcurrent]

/-- A newline adds the pending word, also an empty one. -/
theorem step_newline (h : sp.Reaches types content done front) {c : UInt8}
    (hc : types c = .isNewline) :
    (sp.step types c).Reaches types (content ++ [c]) (done ++ [front ++ sp.word]) [] := by
  have hended : endedWords types (front ++ sp.word) = sp.line ++ [sp.word] := by
    rw [endedWords, h.wordRuns_current]
    by_cases hword : sp.word = []
    · rw [if_pos hword, if_pos (h.endsApart_current_iff.mpr hword), hword]
    · rw [if_neg hword, if_neg fun hapart => hword (h.endsApart_current_iff.mp hapart),
        List.append_nil]
  rw [Splitter.step_of_isNewline hc]
  refine ⟨?_, apart_nil, fun x hx => absurd hx List.not_mem_nil, rfl, ?_, h.quoting⟩
  · rw [rawLines, List.splitOnP_append_cons _ _ (by rw [hc]; rfl), ← rawLines, h.raw]
    rfl
  · rw [List.map_append, ← h.lines, List.map_singleton, hended]

end Splitter.Reaches

/-- Every text is reached. -/
theorem exists_reaches (htypes : NoQuotes types) (content : List UInt8) :
    ∃ done front, (content.foldl (Splitter.step types) {}).Reaches types content done front := by
  induction content using List.reverseRecOn with
  | nil => exact ⟨[], [], rfl, apart_nil, fun c hc => absurd hc List.not_mem_nil, rfl, rfl, rfl⟩
  | append_singleton content c ih =>
      obtain ⟨done, front, h⟩ := ih
      rw [List.foldl_concat]
      obtain hc | hc | hc := htypes c
      · exact ⟨_, _, h.step_word hc⟩
      · exact ⟨_, _, h.step_separator hc⟩
      · exact ⟨_, _, h.step_newline hc⟩

/-- The words of all lines: the runs, and an empty word where a newline follows no word. -/
theorem splitLines_eq (htypes : NoQuotes types) (content : List UInt8) :
    ∃ done last, rawLines types content = done ++ [last] ∧
      splitLines types content = done.map (endedWords types) ++ [wordRuns types last] := by
  obtain ⟨done, front, h⟩ := exists_reaches htypes content
  refine ⟨done, _, h.raw, ?_⟩
  rw [splitLines, Splitter.finish, h.lines, h.wordRuns_current]

theorem rawLines_append_newline {c : UInt8} (hc : types c = .isNewline) (a b : List UInt8) :
    rawLines types (a ++ c :: b) = rawLines types a ++ rawLines types b :=
  List.splitOnP_append_cons a b (decide_eq_true hc)

/-- The lines in front of a newline, and those behind it. -/
theorem splitLines_append_newline (htypes : NoQuotes types) {c : UInt8}
    (hc : types c = .isNewline) (a b : List UInt8) :
    splitLines types (a ++ c :: b) =
      (rawLines types a).map (endedWords types) ++ splitLines types b := by
  obtain ⟨done, last, hraw, hsplit⟩ := splitLines_eq htypes (a ++ c :: b)
  obtain ⟨doneB, lastB, hrawB, hsplitB⟩ := splitLines_eq htypes b
  rw [rawLines_append_newline hc, hrawB, ← List.append_assoc] at hraw
  obtain ⟨rfl, hlast⟩ := List.append_inj' hraw rfl
  obtain rfl := List.singleton_inj.mp hlast
  rw [hsplit, hsplitB, List.map_append, List.append_assoc]

/-- A word has word bytes only. -/
theorem isWord_of_mem_splitLines (htypes : NoQuotes types) {content : List UInt8}
    {words : List (List UInt8)} (hwords : words ∈ splitLines types content) {w : List UInt8}
    (hw : w ∈ words) : ∀ c ∈ w, types c = .isWord := by
  have run {line : List UInt8} (hrun : w ∈ wordRuns types line) : ∀ c ∈ w, types c = .isWord :=
    fun c hc => of_decide_eq_true ((of_mem_runs hrun).2 c hc)
  obtain ⟨done, last, -, hsplit⟩ := splitLines_eq htypes content
  rw [hsplit] at hwords
  obtain hwords | hwords := List.mem_append.mp hwords
  · obtain ⟨line, -, rfl⟩ := List.mem_map.mp hwords
    obtain hw | hw := List.mem_append.mp hw
    · exact run hw
    · intro c hc
      split at hw
      · rw [List.mem_singleton.mp hw] at hc
        exact absurd hc List.not_mem_nil
      · exact absurd hw List.not_mem_nil
  · rw [List.mem_singleton.mp hwords] at hw
    exact run hw

/-- A file has been read, and the words of its lines are the maximal runs of word bytes. -/
def ReadsRuns (pf : ProcFile) (chunks : List (List UInt8)) : Prop :=
  ∃ pf' rows, procfileReadall pf chunks = some pf' ∧
    pf'.Consistent pf.separators chunks.flatten rows ∧ pf'.lines = toLines rows ∧
    rows.map (List.map (slice chunks.flatten)) =
      (rawLines pf.separators chunks.flatten).map (wordRuns pf.separators)

theorem map_length_slices (content : List UInt8) (rows : List (List (Nat × Nat))) :
    (rows.map (List.map (slice content))).map List.length = rows.map List.length := by
  rw [List.map_map]
  exact List.map_congr_left fun row _ => List.length_map _

/-- Rows with the same lines have the same numbers of words. -/
theorem map_length_eq_of_toLines {rows rows' : List (List (Nat × Nat))}
    (h : toLines rows = toLines rows') : rows.map List.length = rows'.map List.length := by
  refine List.ext_getElem? fun i => ?_
  have hi := congrArg (fun lines => lines[i]?.map PfLine.words) h
  simp only [getElem?_toLines, Option.map_map] at hi
  rw [List.getElem?_map, List.getElem?_map]
  exact hi

theorem length_endedWords_iff (line : List UInt8) :
    (endedWords types line).length = (wordRuns types line).length ↔ ¬EndsApart types line := by
  rw [endedWords, List.length_append]
  split
  · rename_i h
    exact iff_of_false (by simp) (not_not.mpr h)
  · rename_i h
    exact iff_of_true rfl h

/-- Where the words are the runs, no newline adds an empty word. -/
theorem ReadsRuns.newlines {pf : ProcFile} {chunks : List (List UInt8)}
    (htypes : NoQuotes pf.separators) (hread : Delivers pf.size 0 chunks)
    (h : ReadsRuns pf chunks) :
    ∀ line ∈ (rawLines pf.separators chunks.flatten).dropLast, ¬EndsApart pf.separators line := by
  obtain ⟨pf₁, rows₁, hreadall, -, hlines, hsplit⟩ := procfileReadall_spec pf chunks hread
  obtain ⟨done, last, hraw, hwords⟩ := splitLines_eq htypes chunks.flatten
  obtain ⟨pf', rows, hreadall', -, hlines', hruns⟩ := h
  obtain rfl := Option.some.inj (hreadall.symm.trans hreadall')
  have hlengths := map_length_eq_of_toLines (hlines.symm.trans hlines')
  rw [← map_length_slices chunks.flatten rows₁, ← map_length_slices chunks.flatten rows, ← hsplit,
    hwords, hruns, hraw, List.map_append, List.map_append, List.map_append, List.map_map,
    List.map_map] at hlengths
  have hdone := List.append_inj_left' hlengths rfl
  rw [hraw, List.dropLast_concat]
  intro line hline
  exact (length_endedWords_iff line).mp (List.map_inj_left.mp hdone line hline)

/-- The words of the lines are the runs exactly if each newline stands directly behind a
word. -/
theorem reads_runs_iff (pf : ProcFile) (chunks : List (List UInt8))
    (htypes : NoQuotes pf.separators) (hread : Delivers pf.size 0 chunks) :
    ReadsRuns pf chunks ↔
      ∀ line ∈ (rawLines pf.separators chunks.flatten).dropLast,
        ¬EndsApart pf.separators line := by
  refine ⟨ReadsRuns.newlines htypes hread, fun hends => ?_⟩
  obtain ⟨pf', rows, hreadall, hconsistent, hlines, hsplit⟩ := procfileReadall_spec pf chunks hread
  obtain ⟨done, last, hraw, hwords⟩ := splitLines_eq htypes chunks.flatten
  rw [hraw, List.dropLast_concat] at hends
  refine ⟨pf', rows, hreadall, hconsistent, hlines, ?_⟩
  rw [← hsplit, hwords, hraw, List.map_append, List.map_singleton]
  congr 1
  refine List.map_congr_left fun line hline => ?_
  rw [endedWords, if_neg (hends line hline), List.append_nil]

theorem noQuotes_spaces : NoQuotes spaces := by
  intro c
  rw [spaces]
  split
  · exact .inr (.inr rfl)
  · split
    · exact .inr (.inl rfl)
    · exact .inl rfl

/-- Two words and a newline directly behind them. -/
theorem two_words_read : ReadsRuns (procfileOpen spaces fun _ => 0) [[97, 32], [98, 10]] :=
  (reads_runs_iff (procfileOpen spaces fun _ => 0) [[97, 32], [98, 10]] noQuotes_spaces
    ⟨by decide, by decide, by decide, by decide, trivial⟩).mpr (by decide)

/-- A word and a space in front of the newline. -/
theorem space_adds_word :
    ¬∀ pf chunks, NoQuotes pf.separators → Delivers pf.size 0 chunks → ReadsRuns pf chunks := by
  intro hclaim
  have hread : Delivers (procfileOpen spaces fun _ => 0).size 0 [[97, 32, 10]] :=
    ⟨by decide, by decide, trivial⟩
  have hends := (hclaim _ _ noQuotes_spaces hread).newlines noQuotes_spaces hread
  exact absurd hends (by decide)

end XMonitor.Procfile
