import XMonitor.Utils.ProcfileSplit

/-!
# The tables of a proc file are consistent

The words that have been found are the ranges of bytes of a list of rows, one for each line.
`ProcFile.Holds` says that the tables of the file hold the rows and that the bytes behind the
words are zero. `Rows` says where the ranges are: every byte of a word in front of the next
word's beginning is in one of them, and the ranges of a row lie between two newlines.

Quotes and parentheses only decide what the action of a byte is. The words in the ranges are
those of the splitter, which takes the same actions.
-/

namespace XMonitor.Procfile

open RowTable

/-- The lines of a table of rows. -/
def toLines (rows : List (List (Nat × Nat))) : List PfLine :=
  (table 0 rows).map fun r => ⟨r.length, r.first⟩

theorem length_toLines (rows : List (List (Nat × Nat))) : (toLines rows).length = rows.length := by
  rw [toLines, List.length_map, length_table]

theorem toLines_concat (rows : List (List (Nat × Nat))) (row : List (Nat × Nat)) :
    toLines (rows ++ [row]) = toLines rows ++ [⟨row.length, rows.flatten.length⟩] := by
  rw [toLines, table_concat, List.map_append]
  rfl

/-- The tables of the file hold the rows, and the bytes behind the words are zero. -/
structure ProcFile.Holds (pf : ProcFile) (seps : UInt8 → PfChar) (content : List UInt8)
    (rows : List (List (Nat × Nat))) : Prop where
  len : pf.len = content.length
  size : pf.len < pf.size
  separators : pf.separators = seps
  data : ∀ i (hi : i < content.length),
    pf.data i = if i ∈ rows.flatten.map Prod.snd then 0 else content[i]
  zero : ∀ r ∈ rows.flatten, pf.data r.2 = 0
  words : pf.words = rows.flatten.map Prod.fst
  lines : pf.lines = toLines rows
  wordsSize : pf.words.length ≤ pf.wordsSize
  linesSize : pf.lines.length ≤ pf.linesSize

variable {pf : ProcFile} {seps : UInt8 → PfChar} {content : List UInt8}
  {rows : List (List (Nat × Nat))} {row : List (Nat × Nat)} {s t : Nat}

/-- An array that is full grows before it gets another element. -/
theorem lt_grown {len size step : Nat} (h : len ≤ size) (hstep : 0 < step) :
    len < if len = size then size + step else size := by
  split
  · omega
  · omega

/-- A new line. -/
theorem ProcFile.Holds.addPfline (h : pf.Holds seps content rows) :
    ∃ pf', pf.addPfline = some (pf', rows.length) ∧ pf'.Holds seps content (rows ++ [[]]) := by
  have hflat : (rows ++ [[]]).flatten = rows.flatten := by simp
  have hlen : rows.length = pf.lines.length := by rw [h.lines, length_toLines]
  have hroom := lt_grown h.linesSize (show 0 < 10 by decide)
  generalize hgrown : (if pf.lines.length = pf.linesSize then pf.linesSize + 10
    else pf.linesSize) = linesSize at hroom
  refine ⟨{ pf with linesSize, lines := pf.lines ++ [⟨0, pf.words.length⟩] }, ?_,
    ⟨h.len, h.size, h.separators, ?_, ?_, ?_, ?_, h.wordsSize, ?_⟩⟩
  · rw [ProcFile.addPfline, hgrown, if_pos hroom, hlen]
  · rw [hflat]
    exact h.data
  · rw [hflat]
    exact h.zero
  · rw [hflat]
    exact h.words
  · rw [toLines_concat, ← h.lines, h.words, List.length_map]
    rfl
  · rw [List.length_append]
    exact hroom

/-- The last line gets a word. -/
theorem ProcFile.Holds.endWord (h : pf.Holds seps content (rows ++ [row])) (hs : s < pf.size) :
    ∃ pf', pf.endWord s t rows.length = some pf' ∧
      pf'.Holds seps content (rows ++ [row ++ [(t, s)]]) := by
  have hflat : (rows ++ [row ++ [(t, s)]]).flatten = (rows ++ [row]).flatten ++ [(t, s)] := by
    simp
  have hroom := lt_grown h.wordsSize (show 0 < 200 by decide)
  generalize hgrown : (if pf.words.length = pf.wordsSize then pf.wordsSize + 200
    else pf.wordsSize) = wordsSize at hroom
  refine ⟨{ pf with
    data := Function.update pf.data s 0
    wordsSize
    words := pf.words ++ [t]
    lines := pf.lines.modify rows.length fun line => { line with words := line.words + 1 } }, ?_,
    ⟨h.len, h.size, h.separators, fun i hi => ?_, fun r hr => ?_, ?_, ?_, ?_, ?_⟩⟩
  · rw [ProcFile.endWord, ProcFile.store, if_pos hs]
    dsimp only [Option.bind_eq_bind, Option.bind_some]
    rw [ProcFile.addPfword, hgrown, if_pos hroom]
    rfl
  · rw [hflat, List.map_append]
    change Function.update pf.data s 0 i = _
    by_cases his : i = s
    · subst his
      simp
    · rw [Function.update_of_ne his, h.data i hi]
      simp only [List.mem_append, List.map_cons, List.map_nil, List.mem_singleton, his, or_false]
  · change Function.update pf.data s 0 r.2 = 0
    by_cases hrs : r.2 = s
    · rw [hrs, Function.update_self]
    · rw [Function.update_of_ne hrs]
      rw [hflat, List.mem_append, List.mem_singleton] at hr
      obtain hr | rfl := hr
      · exact h.zero r hr
      · exact absurd rfl hrs
  · rw [hflat, List.map_append, ← h.words]
    rfl
  · change pf.lines.modify rows.length _ = _
    have hlast := modify_length_append (toLines rows) ⟨row.length, rows.flatten.length⟩
      fun line => { line with words := line.words + 1 }
    rw [length_toLines] at hlast
    rw [h.lines, toLines_concat, hlast, toLines_concat, List.length_append]
    rfl
  · change (pf.words ++ [t]).length ≤ _
    rw [List.length_append]
    exact hroom
  · change (pf.lines.modify rows.length _).length ≤ pf.linesSize
    rw [List.length_modify]
    exact h.linesSize

/-! ## Where the words are -/

/-- The number of newlines in front of a position. -/
def newlines (seps : UInt8 → PfChar) (content : List UInt8) (p : Nat) : Nat :=
  (content.take p).countP fun c => seps c = .isNewline

theorem newlines_succ (seps : UInt8 → PfChar) {p : Nat} (hp : p < content.length) :
    newlines seps content (p + 1) =
      newlines seps content p + if seps content[p] = .isNewline then 1 else 0 := by
  rw [newlines, newlines, List.take_add_one, List.getElem?_eq_getElem hp, List.countP_append]
  simp [List.countP_cons]

theorem newlines_of_le {p : Nat} (hp : content.length ≤ p) :
    newlines seps content p = content.countP fun c => seps c = .isNewline := by
  rw [newlines, List.take_of_length_le hp]

/-- The words that have been found in front of the beginning of the next one. -/
structure Rows (seps : UInt8 → PfChar) (content : List UInt8) (rows : List (List (Nat × Nat)))
    (t : Nat) : Prop where
  ordered : rows.flatten.Pairwise fun r r' => r.2 < r'.1
  bounds : ∀ r ∈ rows.flatten, r.1 ≤ r.2 ∧ r.2 < t
  covered : ∀ i (hi : i < content.length), i < t → seps content[i] = .isWord →
    ∃ r ∈ rows.flatten, r.1 ≤ i ∧ i < r.2
  inLine : ∀ (i : Nat) (row : List (Nat × Nat)), rows[i]? = some row → ∀ r ∈ row,
    newlines seps content r.1 = i ∧ newlines seps content r.2 = i

theorem Rows.nil (seps : UInt8 → PfChar) (content : List UInt8) : Rows seps content [[]] 0 where
  ordered := List.Pairwise.nil
  bounds _ hr := absurd hr List.not_mem_nil
  covered _ _ hi := absurd hi (Nat.not_lt_zero _)
  inLine i row hrow r hr := by
    cases i with
    | zero =>
        obtain rfl := Option.some.inj hrow
        exact absurd hr List.not_mem_nil
    | succ i => exact absurd hrow.symm (Option.some_ne_none row)

/-- A line without words. -/
theorem Rows.concat_nil (h : Rows seps content rows t) : Rows seps content (rows ++ [[]]) t := by
  have hflat : (rows ++ [[]]).flatten = rows.flatten := by simp
  refine ⟨?_, ?_, ?_, fun i row hrow r hr => ?_⟩
  · rw [hflat]
    exact h.ordered
  · rw [hflat]
    exact h.bounds
  · rw [hflat]
    exact h.covered
  · rw [List.getElem?_append] at hrow
    split at hrow
    · exact h.inLine i row hrow r hr
    · obtain ⟨hlt, rfl⟩ := List.getElem?_eq_some_iff.mp hrow
      have hzero : i - rows.length = 0 := Nat.lt_one_iff.mp hlt
      simp only [hzero, List.getElem_cons_zero] at hr
      exact absurd hr List.not_mem_nil

/-- A byte that is no part of a word lies between two words. -/
theorem Rows.skip (h : Rows seps content rows t)
    (hword : ∀ ht : t < content.length, seps content[t] ≠ .isWord) :
    Rows seps content rows (t + 1) where
  ordered := h.ordered
  bounds r hr := ⟨(h.bounds r hr).1, Nat.lt_succ_of_lt (h.bounds r hr).2⟩
  covered i hi hlt hclass := by
    obtain hlt | rfl := Nat.lt_succ_iff_lt_or_eq.mp hlt
    · exact h.covered i hi hlt hclass
    · exact absurd hclass (hword hi)
  inLine := h.inLine

/-- A word of the last line that ends at `s`. -/
theorem Rows.cut (h : Rows seps content (rows ++ [row]) t) (hts : t ≤ s)
    (hword : ∀ hs : s < content.length, seps content[s] ≠ .isWord)
    (ht : newlines seps content t = rows.length) (hs : newlines seps content s = rows.length) :
    Rows seps content (rows ++ [row ++ [(t, s)]]) (s + 1) := by
  have hflat : (rows ++ [row ++ [(t, s)]]).flatten = (rows ++ [row]).flatten ++ [(t, s)] := by
    simp
  refine ⟨?_, fun r hr => ?_, fun i hi hlt hclass => ?_, fun i row' hrow r hr => ?_⟩
  · rw [hflat]
    refine List.pairwise_append.mpr ⟨h.ordered, List.pairwise_singleton _ _, fun r hr r' hr' => ?_⟩
    obtain rfl := List.mem_singleton.mp hr'
    exact (h.bounds r hr).2
  · rw [hflat, List.mem_append, List.mem_singleton] at hr
    obtain hr | rfl := hr
    · have hbounds := h.bounds r hr
      exact ⟨hbounds.1, by omega⟩
    · exact ⟨hts, Nat.lt_succ_self s⟩
  · rw [hflat]
    by_cases hit : i < t
    · obtain ⟨r, hr, hmem⟩ := h.covered i hi hit hclass
      exact ⟨r, List.mem_append_left _ hr, hmem⟩
    · have his : i ≠ s := by
        rintro rfl
        exact hword hi hclass
      exact ⟨(t, s), List.mem_append_right _ List.mem_cons_self, Nat.not_lt.mp hit, by omega⟩
  · rw [List.getElem?_append] at hrow
    split at hrow
    · rename_i hlt
      refine h.inLine i row' ?_ r hr
      rw [List.getElem?_append_left hlt]
      exact hrow
    · rename_i hge
      obtain ⟨hlt, rfl⟩ := List.getElem?_eq_some_iff.mp hrow
      have hzero : i - rows.length = 0 := Nat.lt_one_iff.mp hlt
      have hi : i = rows.length := by omega
      simp only [hzero, List.getElem_cons_zero] at hr
      obtain hr | hr := List.mem_append.mp hr
      · refine h.inLine i row ?_ r hr
        rw [hi, List.getElem?_concat_length]
      · obtain rfl := List.mem_singleton.mp hr
        exact ⟨ht.trans hi.symm, hs.trans hi.symm⟩

/-! ## The parser -/

/-- What holds in front of every byte that the parser takes. -/
structure Parser.Inv (p : Parser) (seps : UInt8 → PfChar) (content : List UInt8)
    (rows : List (List (Nat × Nat))) : Prop where
  holds : p.pf.Holds seps content rows
  found : Rows seps content rows p.t
  t_le : p.t ≤ p.s
  s_le : p.s ≤ content.length
  pending : newlines seps content p.t = newlines seps content p.s
  lineWords : p.lineWords = newlines seps content p.s
  current : rows.length = newlines seps content p.s + 1

variable {p : Parser}

/-- The parser has not changed the bytes that it has not taken. -/
theorem Parser.Inv.data (h : p.Inv seps content rows) (hs : p.s < content.length) :
    p.pf.data p.s = content[p.s] := by
  rw [h.holds.data p.s hs, if_neg]
  intro hmem
  obtain ⟨r, hr, heq⟩ := List.mem_map.mp hmem
  have hlt := (h.found.bounds r hr).2
  have hle := h.t_le
  omega

/-- What the parser does for an action. -/
def Parser.act (p : Parser) (q : Quoting) : Action → Option Parser
  | .pass => some { p with quote := q.quote, opened := q.opened }.pass
  | .skip => some { p with quote := q.quote, opened := q.opened }.skip
  | .cut => { p with quote := q.quote, opened := q.opened }.cut
  | .endLine => { p with quote := q.quote, opened := q.opened }.cut.bind Parser.newLine

/-- The action for the byte that the parser takes next. -/
def Parser.action (p : Parser) : Quoting × Action :=
  Procfile.action (p.pf.separators (p.pf.data p.s)) (p.pf.data p.s) ⟨p.quote, p.opened⟩
    (p.s ≠ p.t)

theorem body_eq (p : Parser) : p.body = p.act p.action.1 p.action.2 := by
  rw [Parser.body, Parser.action]
  unfold Procfile.action
  cases p.pf.separators (p.pf.data p.s) with
  | isWord | isNewline => rfl
  | isSeparator =>
      dsimp only
      split
      · by_cases hs : p.s = p.t
        · simp [hs, Parser.act, Parser.skip]
        · simp [hs, Parser.act]
      · rfl
  | isQuote =>
      simp only [ne_eq, decide_not, Bool.not_eq_false', decide_eq_true_eq]
      split
      · rfl
      · split
        · rfl
        · rfl
  | isOpen =>
      simp only [ne_eq, decide_not, Bool.not_eq_false', decide_eq_true_eq]
      split
      · rfl
      · split
        · rfl
        · rfl
  | isClose =>
      dsimp only
      split
      · split
        · rfl
        · rfl
      · rfl

/-- The bytes of a range. -/
def slice (content : List UInt8) (r : Nat × Nat) : List UInt8 :=
  (content.drop r.1).take (r.2 - r.1)

theorem slice_self (content : List UInt8) (i : Nat) : slice content (i, i) = [] := by
  rw [slice, Nat.sub_self, List.take_zero]

theorem slice_succ (hts : t ≤ s) (hs : s < content.length) :
    slice content (t, s + 1) = slice content (t, s) ++ [content[s]] := by
  have hlt : s - t < (content.drop t).length := by
    rw [List.length_drop]
    omega
  rw [slice, slice, Nat.succ_sub hts, List.take_add_one, List.getElem?_eq_getElem hlt,
    List.getElem_drop]
  simp only [Nat.add_sub_cancel' hts, Option.toList_some]

theorem slice_ne_nil (hts : t ≤ s) (hs : s ≤ content.length) :
    slice content (t, s) ≠ [] ↔ s ≠ t := by
  rw [Ne, Ne, ← List.length_eq_zero_iff, slice, List.length_take, List.length_drop]
  omega

/-- The splitter has found the words in the ranges, and has the same word pending. -/
structure Parser.Follows (p : Parser) (content : List UInt8) (rows : List (List (Nat × Nat)))
    (sp : Splitter) : Prop where
  quoting : sp.quoting = ⟨p.quote, p.opened⟩
  word : sp.word = slice content (p.t, p.s)
  lines : sp.lines ++ [sp.line] = rows.map (List.map (slice content))

theorem Parser.Follows.last {sp : Splitter} (h : p.Follows content (rows ++ [row]) sp) :
    sp.lines = rows.map (List.map (slice content)) ∧ sp.line = row.map (slice content) := by
  have hlines := h.lines
  rw [List.map_append, List.map_singleton] at hlines
  obtain ⟨hfront, hlast⟩ := List.append_inj' hlines rfl
  exact ⟨hfront, (List.cons.inj hlast).1⟩

/-- The word that is pending ends. -/
theorem Parser.Inv.endWord (h : p.Inv seps content rows)
    (hword : ∀ hs : p.s < content.length, seps content[p.s] ≠ .isWord) :
    ∃ pf before row, rows = before ++ [row] ∧ p.pf.endWord p.s p.t p.lineWords = some pf ∧
      pf.Holds seps content (before ++ [row ++ [(p.t, p.s)]]) ∧
      Rows seps content (before ++ [row ++ [(p.t, p.s)]]) (p.s + 1) := by
  have hcurrent := h.current
  obtain rfl | ⟨before, row, rfl⟩ := rows.eq_nil_or_concat'
  · cases hcurrent
  have hlen : before.length = newlines seps content p.s := by
    rw [List.length_append, List.length_singleton] at hcurrent
    exact Nat.succ.inj hcurrent
  have hsize : p.s < p.pf.size := by
    have hlt := h.holds.size
    have hle := h.s_le
    rw [h.holds.len] at hlt
    omega
  obtain ⟨pf, hend, hholds⟩ := h.holds.endWord (t := p.t) hsize
  refine ⟨pf, before, row, rfl, ?_, hholds,
    h.found.cut h.t_le hword (h.pending.trans hlen.symm) hlen.symm⟩
  rw [h.lineWords, ← hlen]
  exact hend

/-- A word ends at the byte that is taken. -/
theorem Parser.Inv.cut (h : p.Inv seps content rows) (hs : p.s < content.length)
    (hword : seps content[p.s] ≠ .isWord) (q : Quoting) :
    ∃ pf before row, rows = before ++ [row] ∧
      { p with quote := q.quote, opened := q.opened }.cut =
        some { p with quote := q.quote, opened := q.opened, pf }.skip ∧
      pf.Holds seps content (before ++ [row ++ [(p.t, p.s)]]) ∧
      Rows seps content (before ++ [row ++ [(p.t, p.s)]]) (p.s + 1) := by
  obtain ⟨pf, before, row, hrows, hend, hrest⟩ := h.endWord fun _ => hword
  refine ⟨pf, before, row, hrows, ?_, hrest⟩
  rw [Parser.cut]
  dsimp only
  rw [hend]
  rfl

/-- The splitter takes the same action. -/
theorem Parser.Follows.step {sp : Splitter} (hf : p.Follows content rows sp)
    (h : p.Inv seps content rows) (hs : p.s < content.length) {q : Quoting} {a : Action}
    (haction : p.action = (q, a)) :
    sp.step seps content[p.s] = sp.act content[p.s] q a := by
  have hpending : decide (sp.word ≠ []) = decide (p.s ≠ p.t) := by
    rw [hf.word, decide_eq_decide]
    exact slice_ne_nil h.t_le h.s_le
  have hsame : Procfile.action (seps content[p.s]) content[p.s] sp.quoting (sp.word ≠ []) =
      (q, a) := by
    rw [← haction, Parser.action, h.holds.separators, h.data hs, hf.quoting, hpending]
  rw [Splitter.step, hsame]

theorem Parser.Inv.body (h : p.Inv seps content rows) (hs : p.s < content.length) :
    ∃ p' rows', p.body = some p' ∧ p'.Inv seps content rows' ∧ p'.s = p.s + 1 ∧
      ∀ sp, p.Follows content rows sp → p'.Follows content rows' (sp.step seps content[p.s]) := by
  have hsucc := newlines_succ seps hs
  have hclass : p.pf.separators (p.pf.data p.s) = seps content[p.s] := by
    rw [h.holds.separators, h.data hs]
  obtain ⟨⟨q, a⟩, haction⟩ : ∃ x, p.action = x := ⟨_, rfl⟩
  have hline : a = .endLine ↔ seps content[p.s] = .isNewline := by
    have hiff : p.action.2 = .endLine ↔ p.pf.separators (p.pf.data p.s) = .isNewline :=
      action_endLine_iff
    rwa [haction, hclass] at hiff
  have hword : a ≠ .pass → seps content[p.s] ≠ .isWord := by
    intro ha hisWord
    rw [← hclass] at hisWord
    have hpass : p.action = (⟨p.quote, p.opened⟩, .pass) := action_of_isWord hisWord
    exact ha (congrArg Prod.snd (haction.symm.trans hpass))
  rw [body_eq, haction]
  cases a with
  | pass =>
      rw [if_neg fun hnewline => Action.noConfusion (hline.mpr hnewline), Nat.add_zero] at hsucc
      refine ⟨_, rows, rfl, ⟨h.holds, h.found, Nat.le_succ_of_le h.t_le, hs, ?_, ?_, ?_⟩, rfl,
        fun sp hf => ?_⟩
      · exact h.pending.trans hsucc.symm
      · exact h.lineWords.trans hsucc.symm
      · exact h.current.trans (congrArg (· + 1) hsucc.symm)
      · rw [hf.step h hs haction]
        refine ⟨rfl, ?_, hf.lines⟩
        change sp.word ++ [content[p.s]] = slice content (p.t, p.s + 1)
        rw [hf.word, slice_succ h.t_le hs]
  | skip =>
      -- nothing is pending
      have hst : p.s = p.t := by
        have hskip := congrArg Prod.snd haction
        simpa using not_pending_of_skip hskip
      rw [if_neg fun hnewline => Action.noConfusion (hline.mpr hnewline), Nat.add_zero] at hsucc
      have hfound := h.found.skip fun ht => by
        simp only [← hst]
        exact hword Action.noConfusion
      rw [← hst] at hfound
      refine ⟨_, rows, rfl, ⟨h.holds, hfound, Nat.le_refl _, hs, rfl, ?_, ?_⟩, rfl,
        fun sp hf => ?_⟩
      · exact h.lineWords.trans hsucc.symm
      · exact h.current.trans (congrArg (· + 1) hsucc.symm)
      · rw [hf.step h hs haction]
        exact ⟨rfl, (slice_self content _).symm, hf.lines⟩
  | cut =>
      -- a word of this line ends
      rw [if_neg fun hnewline => Action.noConfusion (hline.mpr hnewline), Nat.add_zero] at hsucc
      obtain ⟨pf, before, row, rfl, hcut, hholds, hfound⟩ :=
        h.cut hs (hword Action.noConfusion) q
      refine ⟨_, _, hcut, ⟨hholds, hfound, Nat.le_refl _, hs, rfl, ?_, ?_⟩, rfl, fun sp hf => ?_⟩
      · exact h.lineWords.trans hsucc.symm
      · have hcurrent := h.current
        rw [List.length_append] at hcurrent ⊢
        exact hcurrent.trans (congrArg (· + 1) hsucc.symm)
      · obtain ⟨hlines, hlast⟩ := hf.last
        rw [hf.step h hs haction]
        refine ⟨rfl, (slice_self content _).symm, ?_⟩
        change sp.lines ++ [sp.line ++ [sp.word]] = _
        rw [hlines, hlast, hf.word]
        simp only [List.map_append, List.map_cons, List.map_nil]
  | endLine =>
      -- a word ends, and the line
      rw [if_pos (hline.mp rfl)] at hsucc
      obtain ⟨pf, before, row, rfl, hcut, hholds, hfound⟩ :=
        h.cut hs (hword Action.noConfusion) q
      obtain ⟨pf', hadd, hholds'⟩ := hholds.addPfline
      have hcurrent := h.current
      rw [List.length_append] at hcurrent
      have hcount : (before ++ [row ++ [(p.t, p.s)]]).length =
          newlines seps content (p.s + 1) := by
        rw [List.length_append, hsucc]
        exact hcurrent
      have hnew : p.act q .endLine = some
          { p with
            pf := pf', s := p.s + 1, t := p.s + 1, quote := q.quote, opened := q.opened
            lineWords := (before ++ [row ++ [(p.t, p.s)]]).length } := by
        rw [Parser.act, hcut, Option.bind_some, Parser.newLine]
        change (pf.addPfline.bind _) = _
        rw [hadd]
        rfl
      refine ⟨_, _, hnew, ⟨hholds', hfound.concat_nil, Nat.le_refl _, hs, rfl, hcount, ?_⟩, rfl,
        fun sp hf => ?_⟩
      · rw [List.length_append, hcount]
        rfl
      · obtain ⟨hlines, hlast⟩ := hf.last
        rw [hf.step h hs haction]
        refine ⟨rfl, (slice_self content _).symm, ?_⟩
        change sp.lines ++ [sp.line ++ [sp.word]] ++ [[]] = _
        rw [hlines, hlast, hf.word]
        simp only [List.map_append, List.map_cons, List.map_nil]

/-- The loop takes every byte. -/
theorem Parser.Inv.loop (h : p.Inv seps content rows) {n : Nat} (hn : p.s + n = content.length) :
    ∃ p' rows', Parser.loop n p = some p' ∧ p'.Inv seps content rows' ∧
      p'.s = content.length ∧ ∀ sp, p.Follows content rows sp →
        p'.Follows content rows' ((content.drop p.s).foldl (Splitter.step seps) sp) := by
  induction n generalizing p rows with
  | zero =>
      refine ⟨p, rows, rfl, h, hn, fun sp hf => ?_⟩
      rw [List.drop_of_length_le (i := p.s) (Nat.le_of_eq hn.symm)]
      exact hf
  | succ n ih =>
      have hs : p.s < content.length := by omega
      obtain ⟨p₁, rows₁, hbody, h₁, hs₁, hfollows₁⟩ := h.body hs
      obtain ⟨p₂, rows₂, hloop, h₂, hs₂, hfollows₂⟩ := ih h₁ (by omega)
      refine ⟨p₂, rows₂, ?_, h₂, hs₂, fun sp hf => ?_⟩
      · rw [Parser.loop, h.holds.len, if_pos hs, hbody]
        exact hloop
      · rw [List.drop_eq_getElem_cons hs, List.foldl_cons, ← hs₁]
        exact hfollows₂ _ (hfollows₁ sp hf)

/-- The last word, which no byte of the file ends. -/
theorem Parser.Inv.finish (h : p.Inv seps content rows) (hs : p.s = content.length) :
    ∃ pf rows', p.finish = some pf ∧ pf.Holds seps content rows' ∧
      Rows seps content rows' (content.length + 1) ∧
      rows'.length = newlines seps content content.length + 1 ∧
      ∀ sp, p.Follows content rows sp → sp.finish = rows'.map (List.map (slice content)) := by
  have hlen := h.holds.len
  have hsize := h.holds.size
  have hcurrent := h.current
  have hle := h.t_le
  have hpending := slice_ne_nil h.t_le h.s_le
  rw [hs] at hcurrent
  rw [Parser.finish]
  by_cases hlast : p.t < p.s ∧ p.t < p.pf.len
  · rw [if_pos hlast]
    dsimp only
    rw [if_neg (by omega)]
    obtain ⟨pf, before, row, rfl, hend, hholds, hfound⟩ := h.endWord fun hlt =>
      absurd hlt (by omega)
    rw [hs] at hfound hholds
    rw [List.length_append] at hcurrent
    refine ⟨pf, _, hend, hs ▸ hholds, hfound, ?_, fun sp hf => ?_⟩
    · rw [List.length_append]
      exact hcurrent
    · obtain ⟨hlines, hline⟩ := hf.last
      have hsome : sp.word ≠ [] := hf.word ▸ hpending.mpr (by omega)
      rw [Splitter.finish, if_neg hsome, hlines, hline, hf.word, hs]
      simp only [List.map_append, List.map_cons, List.map_nil]
  · rw [if_neg hlast]
    have ht : p.t = content.length := by omega
    refine ⟨p.pf, rows, rfl, h.holds, ?_, hcurrent, fun sp hf => ?_⟩
    · rw [← ht]
      exact h.found.skip fun hlt => absurd hlt (by omega)
    · have hnone : sp.word = [] := by
        rw [hf.word, hs, ht, slice_self]
      rw [Splitter.finish, if_pos hnone, hf.lines]

end XMonitor.Procfile
