import Mathlib.Data.List.Pairwise
import XMonitor.Utils.ProcfileTables

/-!
# What a proc file holds after it has been read

The buffer always has room for one byte more than the file, so that the zero behind the last
word is inside of it. The tables are then those of a list of rows, one for each line of the
file, and a word of a line is one of the row's.

`ProcFile.Consistent.string_lineword` connects the buffer to the lists of strings that the
collectors are modelled on.
-/

namespace XMonitor.Procfile

open RowTable

variable {pf : ProcFile} {seps : UInt8 → PfChar} {content : List UInt8}
  {rows : List (List (Nat × Nat))}

/-! ## Reading -/

theorem lt_grownSize {size len : Nat} (h : len ≤ size) : len < grownSize size len := by
  rw [grownSize]
  split
  · omega
  · omega

/-- What the buffer has read, and room for one more byte when the file ends. -/
theorem Delivers.readLoop {chunks : List (List UInt8)} (h : Delivers pf.size pf.len chunks)
    (hlen : pf.len = content.length) (hsize : pf.len ≤ pf.size)
    (hdata : ∀ i (hi : i < content.length), pf.data i = content[i]) :
    ∃ pf', pf.readLoop chunks = some pf' ∧ pf'.separators = pf.separators ∧
      pf'.len = (content ++ chunks.flatten).length ∧ pf'.len < pf'.size ∧
      ∀ i (hi : i < (content ++ chunks.flatten).length),
        pf'.data i = (content ++ chunks.flatten)[i] := by
  have hgrown := lt_grownSize hsize
  induction chunks generalizing pf content with
  | nil =>
      refine ⟨pf.grow, rfl, rfl, ?_, hgrown, fun i hi => ?_⟩
      · rw [List.flatten_nil, List.append_nil]
        exact hlen
      · simp only [List.flatten_nil, List.append_nil] at hi ⊢
        exact hdata i hi
  | cons chunk chunks ih =>
      obtain ⟨-, hfits, hrest⟩ := h
      have hroom : pf.len + chunk.length ≤ grownSize pf.size pf.len := by omega
      obtain ⟨pf₁, hpf₁⟩ : ∃ q : ProcFile, q = { pf.grow with
          data := fun i => if pf.len ≤ i then chunk.getD (i - pf.len) (pf.data i) else pf.data i
          len := pf.len + chunk.length } := ⟨_, rfl⟩
      have happend : pf.grow.append chunk = some pf₁ := by
        rw [ProcFile.append, hpf₁]
        exact if_pos hroom
      have hdelivers₁ : Delivers pf₁.size pf₁.len chunks := by
        rw [hpf₁]
        exact hrest
      have hlen₁ : pf₁.len = (content ++ chunk).length := by
        rw [hpf₁, List.length_append, ← hlen]
      have hsize₁ : pf₁.len ≤ pf₁.size := by
        rw [hpf₁]
        exact hroom
      have hdata₁ : ∀ i (hi : i < (content ++ chunk).length),
          pf₁.data i = (content ++ chunk)[i] := by
        intro i hi
        rw [List.length_append] at hi
        rw [hpf₁]
        dsimp only
        by_cases hold : i < content.length
        · rw [if_neg (by omega), hdata i hold, List.getElem_append_left hold]
        · have hnew : i - content.length < chunk.length := by omega
          rw [if_pos (by omega), hlen, List.getElem_append_right (Nat.not_lt.mp hold),
            List.getD_eq_getElem?_getD, List.getElem?_eq_getElem hnew, Option.getD_some]
      obtain ⟨pf', hloop, hseps, hlen', hsize', hdata'⟩ :=
        ih hdelivers₁ hlen₁ hsize₁ hdata₁ (lt_grownSize hsize₁)
      have hseps₁ : pf₁.separators = pf.separators := by
        rw [hpf₁]
        rfl
      rw [List.flatten_cons, ← List.append_assoc]
      refine ⟨pf', ?_, hseps.trans hseps₁, hlen', hsize', hdata'⟩
      rw [ProcFile.readLoop, happend]
      exact hloop

/-! ## The tables -/

/-- The tables of a file after it has been read. The words of a line are the ranges of its
row. -/
structure ProcFile.Consistent (pf : ProcFile) (seps : UInt8 → PfChar) (content : List UInt8)
    (rows : List (List (Nat × Nat))) : Prop where
  len : pf.len = content.length
  size : pf.len < pf.size
  data : ∀ i (hi : i < content.length),
    pf.data i = if i ∈ rows.flatten.map Prod.snd then 0 else content[i]
  first : pf.lines[0]?.map PfLine.first = some 0
  next : ∀ (i : Nat) (l l' : PfLine), pf.lines[i]? = some l → pf.lines[i + 1]? = some l' →
    l'.first = l.first + l.words
  sum : (pf.lines.map PfLine.words).sum = pf.words.length
  count : pf.lines.length = (content.countP fun c => seps c = .isNewline) + 1
  words : pf.words = rows.flatten.map Prod.fst
  ordered : rows.flatten.Pairwise fun r r' => r.2 < r'.1
  bounds : ∀ r ∈ rows.flatten, r.1 ≤ r.2 ∧ r.2 ≤ content.length
  zero : ∀ r ∈ rows.flatten, pf.data r.2 = 0
  covered : ∀ i (hi : i < content.length), seps content[i] = .isWord →
    ∃! r, r ∈ rows.flatten ∧ r.1 ≤ i ∧ i < r.2
  lineword : ∀ line word : Nat,
    pf.lineword line word = (rows[line]?.bind fun row => row[word]?).map Prod.fst
  inLine : ∀ (line : Nat) (row : List (Nat × Nat)), rows[line]? = some row → ∀ r ∈ row,
    newlines seps content r.1 = line ∧ newlines seps content r.2 = line

theorem getElem?_toLines (rows : List (List (Nat × Nat))) (i : Nat) :
    (toLines rows)[i]? =
      rows[i]?.map fun row => ⟨row.length, (rows.take i).flatten.length⟩ := by
  rw [toLines, List.getElem?_map, getElem?_table, Option.map_map]
  simp only [Nat.zero_add]
  rfl

/-- A word of a line is one of its row. -/
theorem ProcFile.Holds.lineword (h : pf.Holds seps content rows) (line word : Nat) :
    pf.lineword line word = (rows[line]?.bind fun row => row[word]?).map Prod.fst := by
  rw [ProcFile.lineword, ProcFile.linewords, h.lines, getElem?_toLines]
  cases hrow : rows[line]? with
  | none => rfl
  | some row =>
      simp only [Option.map_some, Option.bind_eq_bind, Option.bind_some, Option.getD_some]
      by_cases hword : word < row.length
      · rw [if_pos hword, ProcFile.word, h.words, List.getElem?_map, getElem?_flatten hrow hword]
      · rw [if_neg hword, List.getElem?_eq_none (Nat.not_lt.mp hword)]
        rfl

/-- Two words are apart. -/
theorem apart_of_ordered (hordered : rows.flatten.Pairwise fun r r' => r.2 < r'.1)
    {r r' : Nat × Nat} (hr : r ∈ rows.flatten) (hr' : r' ∈ rows.flatten) (hne : r ≠ r') :
    r.2 < r'.1 ∨ r'.2 < r.1 := by
  have hapart : rows.flatten.Pairwise fun r r' => r.2 < r'.1 ∨ r'.2 < r.1 :=
    hordered.imp fun h => .inl h
  have hsymm : Std.Symm fun r r' : Nat × Nat => r.2 < r'.1 ∨ r'.2 < r.1 := ⟨fun _ _ => Or.symm⟩
  exact hapart.forall hr hr' hne

/-- A position is in one word only. -/
theorem eq_of_ordered (hordered : rows.flatten.Pairwise fun r r' => r.2 < r'.1) {i : Nat}
    {r r' : Nat × Nat} (hr : r ∈ rows.flatten) (hr' : r' ∈ rows.flatten) (hi : r.1 ≤ i ∧ i < r.2)
    (hi' : r'.1 ≤ i ∧ i < r'.2) : r = r' := by
  by_contra hne
  obtain hlt | hlt := apart_of_ordered hordered hr hr' hne
  · omega
  · omega

/-- The parser of a file that has been read. -/
theorem procfileParser_holds (pf : ProcFile) (hlen : pf.len = content.length)
    (hsize : pf.len < pf.size)
    (hdata : ∀ i (hi : i < content.length), pf.data i = content[i]) (hlines : pf.lines = [])
    (hwords : pf.words = []) :
    ∃ pf' rows, procfileParser pf = some pf' ∧ pf'.Holds pf.separators content rows ∧
      Rows pf.separators content rows (content.length + 1) ∧
      rows.length = newlines pf.separators content content.length + 1 ∧
      splitLines pf.separators content = rows.map (List.map (slice content)) := by
  have hempty : pf.Holds pf.separators content [] := by
    refine ⟨hlen, hsize, rfl, hdata, fun r hr => absurd hr List.not_mem_nil, hwords, hlines,
      ?_, ?_⟩
    · rw [hwords]
      exact Nat.zero_le _
    · rw [hlines]
      exact Nat.zero_le _
  obtain ⟨pf₁, hadd, hfirst⟩ := hempty.addPfline
  have hstart : Parser.Inv ⟨pf₁, 0, 0, 0, 0, 0⟩ pf.separators content [[]] :=
    ⟨hfirst, Rows.nil _ _, Nat.le_refl _, Nat.zero_le _, rfl, rfl, rfl⟩
  have hfollows : Parser.Follows ⟨pf₁, 0, 0, 0, 0, 0⟩ content [[]] {} :=
    ⟨rfl, (slice_self content 0).symm, rfl⟩
  obtain ⟨p, rows, hloop, hinv, hs, hstep⟩ := hstart.loop (Nat.zero_add _)
  obtain ⟨pf', rows', hfinish, hholds, hfound, hrows, hsplit⟩ := hinv.finish hs
  refine ⟨pf', rows', ?_, hholds, hfound, hrows, hsplit _ (hstep _ hfollows)⟩
  rw [procfileParser, hadd]
  change (Parser.loop pf₁.len _).bind _ = _
  rw [hfirst.len]
  exact (congrArg (Option.bind · Parser.finish) hloop).trans hfinish

theorem ProcFile.Holds.consistent (h : pf.Holds seps content rows)
    (hfound : Rows seps content rows (content.length + 1))
    (hrows : rows.length = newlines seps content content.length + 1) :
    pf.Consistent seps content rows where
  len := h.len
  size := h.size
  data := h.data
  first := by
    rw [h.lines, getElem?_toLines, Option.map_map]
    cases rows with
    | nil => cases hrows
    | cons row rows => rfl
  next i l l' hl hl' := by
    rw [h.lines, toLines, List.getElem?_map] at hl hl'
    obtain ⟨r, hr, rfl⟩ := Option.map_eq_some_iff.mp hl
    obtain ⟨r', hr', rfl⟩ := Option.map_eq_some_iff.mp hl'
    exact first_succ hr hr'
  sum := by
    have hsum : (table 0 rows).map Row.length = (toLines rows).map PfLine.words := by
      rw [toLines, List.map_map]
      rfl
    rw [h.lines, h.words, List.length_map, ← hsum, sum_length]
  count := by
    rw [h.lines, length_toLines, hrows, newlines_of_le (Nat.le_refl _)]
  words := h.words
  ordered := hfound.ordered
  bounds r hr := ⟨(hfound.bounds r hr).1, Nat.le_of_lt_succ (hfound.bounds r hr).2⟩
  zero := h.zero
  covered i hi hclass := by
    obtain ⟨r, hr, hmem⟩ := hfound.covered i hi (Nat.lt_succ_of_lt hi) hclass
    exact ⟨r, ⟨hr, hmem⟩, fun r' hr' => eq_of_ordered hfound.ordered hr'.1 hr hr'.2 hmem⟩
  lineword := h.lineword
  inLine := hfound.inLine

/-- A file that has been read, with the words of the splitter. -/
theorem procfileReadall_spec (pf : ProcFile) (chunks : List (List UInt8))
    (hread : Delivers pf.size 0 chunks) :
    ∃ pf' rows, procfileReadall pf chunks = some pf' ∧
      pf'.Consistent pf.separators chunks.flatten rows ∧ pf'.lines = toLines rows ∧
      splitLines pf.separators chunks.flatten = rows.map (List.map (slice chunks.flatten)) := by
  have hlen₀ : ({ pf with len := 0 } : ProcFile).len = ([] : List UInt8).length := rfl
  obtain ⟨pf₁, hloop, hseps, hlen, hsize, hdata⟩ :=
    Delivers.readLoop hread hlen₀ (Nat.zero_le _) fun i hi => absurd hi (Nat.not_lt_zero i)
  rw [List.nil_append] at hlen
  simp only [List.nil_append] at hdata
  obtain ⟨pf', rows, hparser, hholds, hfound, hrows, hsplit⟩ :=
    procfileParser_holds { pf₁ with lines := [], words := [] } hlen hsize hdata rfl rfl
  have hconsistent := hholds.consistent hfound hrows
  rw [show pf₁.separators = pf.separators from hseps] at hconsistent hsplit
  refine ⟨pf', rows, ?_, hconsistent, hholds.lines, hsplit⟩
  rw [procfileReadall, hloop]
  exact hparser

/-- The tables are consistent, whatever the file and the types of its bytes, and however the
file is read. -/
theorem procfile_tables_consistent (pf : ProcFile) (chunks : List (List UInt8))
    (hread : Delivers pf.size 0 chunks) :
    ∃ pf' rows, procfileReadall pf chunks = some pf' ∧
      pf'.Consistent pf.separators chunks.flatten rows := by
  obtain ⟨pf', rows, hreadall, hconsistent, -, -⟩ := procfileReadall_spec pf chunks hread
  exact ⟨pf', rows, hreadall, hconsistent⟩

/-- A new file, as `procfile_open` allocates it. -/
def procfileOpen (separators : UInt8 → PfChar) (data : Nat → UInt8) : ProcFile where
  len := 0
  size := 512
  lines := []
  linesSize := 10
  words := []
  wordsSize := 200
  separators := separators
  data := data

/-- Spaces separate words and `\n` ends a line, as in the default table. -/
def spaces (c : UInt8) : PfChar :=
  if c = 10 then .isNewline else if c = 32 then .isSeparator else .isWord

theorem twoLines_consistent :
    ∃ pf rows, procfileReadall (procfileOpen spaces fun _ => 0) [[97, 32], [98, 10, 99]] = some pf ∧
      pf.Consistent spaces [97, 32, 98, 10, 99] rows :=
  procfile_tables_consistent (procfileOpen spaces fun _ => 0) [[97, 32], [98, 10, 99]]
    ⟨by decide, by decide, by decide, by decide, trivial⟩

/-! ## The strings of the words -/

/-- The characters of a C string, which a zero ends. -/
def cString (bytes : List UInt8) : CString :=
  (bytes.takeWhile fun c => c ≠ 0).map fun c => Char.ofNat c.toNat

/-- The string that a pointer into the buffer points to. -/
def ProcFile.string (pf : ProcFile) (w : Nat) : CString :=
  cString ((List.range' w (pf.size - w)).map pf.data)

/-- The lines of a file as lists of strings. -/
def lineStrings (content : List UInt8) (rows : List (List (Nat × Nat))) : XMonitor.ProcFile :=
  rows.map fun row => row.map fun r => cString ((content.drop r.1).take (r.2 - r.1))

theorem cString_append_zero (bytes more : List UInt8) :
    cString (bytes ++ 0 :: more) = cString bytes := by
  rw [cString, cString]
  congr 1
  induction bytes with
  | nil => rfl
  | cons c bytes ih =>
      rw [List.cons_append, List.takeWhile_cons, List.takeWhile_cons, ih]

/-- The bytes of a word are those of the file. -/
theorem ProcFile.Consistent.string_eq (h : pf.Consistent seps content rows) {r : Nat × Nat}
    (hr : r ∈ rows.flatten) :
    pf.string r.1 = cString ((content.drop r.1).take (r.2 - r.1)) := by
  obtain ⟨hle, hend⟩ := h.bounds r hr
  have hsize := h.size
  have hlen := h.len
  have hbytes : (List.range' r.1 (r.2 - r.1)).map pf.data =
      (content.drop r.1).take (r.2 - r.1) := by
    refine List.ext_getElem ?_ fun i hi hi' => ?_
    · simp only [List.length_map, List.length_range', List.length_take, List.length_drop]
      omega
    · rw [List.length_map, List.length_range'] at hi
      have hin : r.1 + i < content.length := by omega
      simp only [List.getElem_map, List.getElem_range', List.getElem_take, List.getElem_drop,
        Nat.one_mul]
      rw [h.data _ hin, if_neg]
      intro hmem
      obtain ⟨r', hr', heq⟩ := List.mem_map.mp hmem
      -- the zero behind another word is not in this one
      have hle' := (h.bounds r' hr').1
      have hne : r' ≠ r := by
        rintro rfl
        omega
      obtain hlt | hlt := apart_of_ordered h.ordered hr' hr hne
      · omega
      · omega
  have hrange : List.range' r.1 (pf.size - r.1) =
      List.range' r.1 (r.2 - r.1) ++ r.2 :: List.range' (r.2 + 1) (pf.size - r.2 - 1) := by
    have hlast : pf.size - r.2 = (pf.size - r.2 - 1) + 1 := by omega
    have hsum : pf.size - r.1 = (r.2 - r.1) + (pf.size - r.2) := by omega
    rw [← List.range'_succ, ← hlast, hsum, ← List.range'_append_1, Nat.add_sub_cancel' hle]
  rw [ProcFile.string, hrange, List.map_append, List.map_cons, h.zero r hr, cString_append_zero,
    hbytes]

/-- A collector that asks for a word of a line gets the string of the list of lines. -/
theorem ProcFile.Consistent.string_lineword (h : pf.Consistent seps content rows)
    (line word : Nat) :
    ((pf.lineword line word).map pf.string).getD [] =
      XMonitor.lineword ((lineStrings content rows).getD line []) word := by
  rw [h.lineword, XMonitor.lineword, lineStrings, List.getD_eq_getElem?_getD,
    List.getD_eq_getElem?_getD, List.getElem?_map]
  cases hrow : rows[line]? with
  | none => rfl
  | some row =>
      simp only [Option.map_some, Option.bind_some, Option.getD_some, List.getElem?_map]
      cases hword : row[word]? with
      | none => rfl
      | some r =>
          have hr : r ∈ rows.flatten :=
            List.mem_flatten.mpr ⟨row, List.mem_of_getElem? hrow, List.mem_of_getElem? hword⟩
          exact h.string_eq hr

end XMonitor.Procfile
