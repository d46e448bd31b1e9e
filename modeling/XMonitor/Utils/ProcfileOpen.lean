import Mathlib.Data.List.TakeWhile
import XMonitor.Utils.ProcfileReadall

/-!
# Types of bytes and lines of strings

`procfile_open` gives a file a table with the types of its bytes, which the calls behind it may
change. After the file has been read, its lines and their words as strings are a function of
that table and of the bytes of the file, whatever the buffer has held and however `read` has
delivered them.
-/

namespace XMonitor.Procfile

/-- `isspace`. -/
def isspace (c : UInt8) : Bool := c = 32 ∨ 9 ≤ c ∧ c ≤ 13

/-- `isprint`. -/
def isprint (c : UInt8) : Bool := 32 ≤ c ∧ c ≤ 126

/-- `__def_seps_type`. -/
def defSepsType (c : UInt8) : PfChar :=
  if c = 10 ∨ c = 13 then .isNewline
  else if isspace c ∨ ¬isprint c then .isSeparator
  else .isWord

/-- The separators that are added where the caller gives none. -/
def defaultSeps : List UInt8 := [32, 9, 61, 124]

/-- `__procfile_set_separators`. -/
def procfileSetSeparators (seps : Option (List UInt8)) (c : UInt8) : PfChar :=
  if c ∈ seps.getD defaultSeps then .isSeparator else defSepsType c

/-- Printable bytes are parts of words, if they are no separators. -/
theorem procfileSetSeparators_of_notMem {seps : Option (List UInt8)} {c : UInt8}
    (hseps : c ∉ seps.getD defaultSeps) (hlow : 32 < c.toNat) (hhigh : c.toNat < 127) :
    procfileSetSeparators seps c = .isWord := by
  have hne (d : UInt8) (hd : d.toNat ≤ 32) : c ≠ d := by
    rintro rfl
    omega
  have hspace : isspace c = false := by
    simp only [isspace, UInt8.le_iff_toNat_le, decide_eq_false_iff_not, UInt8.reduceToNat]
    refine not_or.mpr ⟨hne _ (by decide), ?_⟩
    omega
  have hprint : isprint c = true := by
    simp only [isprint, UInt8.le_iff_toNat_le, decide_eq_true_eq, UInt8.reduceToNat]
    omega
  rw [procfileSetSeparators, if_neg hseps, defSepsType,
    if_neg (not_or.mpr ⟨hne _ (by decide), hne _ (by decide)⟩), hspace, hprint]
  rfl

/-- `procfile_set_open_close`. -/
def procfileSetOpenClose (types : UInt8 → PfChar) (opens closes : List UInt8) (c : UInt8) :
    PfChar :=
  let type := if types c = .isOpen ∨ types c = .isClose then .isWord else types c
  if opens = [] ∨ closes = [] then type
  else if c ∈ closes then .isClose
  else if c ∈ opens then .isOpen
  else type

/-- The lines of a file, with their words as strings. -/
def fileLines (types : UInt8 → PfChar) (content : List UInt8) : XMonitor.ProcFile :=
  (splitLines types content).map (List.map cString)

/-- What a collector gets from a file that has been read. -/
theorem procfileReadall_fileLines (pf : ProcFile) (chunks : List (List UInt8))
    (hread : Delivers pf.size 0 chunks) :
    ∃ pf', procfileReadall pf chunks = some pf' ∧
      pf'.lines.length = (fileLines pf.separators chunks.flatten).length ∧
      (∀ line, pf'.linewords line =
        ((fileLines pf.separators chunks.flatten).getD line []).length) ∧
      ∀ line word, ((pf'.lineword line word).map pf'.string).getD [] =
        lineword ((fileLines pf.separators chunks.flatten).getD line []) word := by
  obtain ⟨pf', rows, hreadall, hconsistent, hlines, hsplit⟩ := procfileReadall_spec pf chunks hread
  have hstrings : fileLines pf.separators chunks.flatten = lineStrings chunks.flatten rows := by
    rw [fileLines, hsplit, lineStrings, List.map_map]
    refine List.map_congr_left fun row _ => ?_
    rw [Function.comp_apply, List.map_map]
    rfl
  rw [hstrings]
  refine ⟨pf', hreadall, ?_, fun line => ?_, hconsistent.string_lineword⟩
  · rw [hlines, length_toLines, lineStrings, List.length_map]
  · rw [ProcFile.linewords, hlines, getElem?_toLines, lineStrings, List.getD_eq_getElem?_getD,
      List.getElem?_map]
    cases rows[line]? with
    | none => rfl
    | some row => exact (List.length_map _).symm

/-! ## Words that have ended -/

namespace Splitter

variable {types : UInt8 → PfChar} {sp : Splitter}

/-- A word of a line has ended. -/
def Ended (sp : Splitter) (line word : Nat) (w : List UInt8) : Prop :=
  ∃ words, (sp.lines ++ [sp.line])[line]? = some words ∧ words[word]? = some w

theorem Ended.act {line word : Nat} {w : List UInt8} (h : sp.Ended line word w) (c : UInt8)
    (quoting : Quoting) (a : Action) : (sp.act c quoting a).Ended line word w := by
  obtain ⟨words, hline, hword⟩ := h
  have hlt : word < words.length := (List.getElem?_eq_some_iff.mp hword).1
  -- the current line gets longer, and only behind the words it has
  have longer (more : List (List UInt8)) :
      ∃ words', (sp.lines ++ [sp.line ++ more])[line]? = some words' ∧ words'[word]? = some w := by
    obtain hin | hin := Nat.lt_or_ge line sp.lines.length
    · rw [List.getElem?_append_left hin] at hline ⊢
      exact ⟨words, hline, hword⟩
    · rw [List.getElem?_append_right hin] at hline ⊢
      obtain ⟨hpos, rfl⟩ := List.getElem?_eq_some_iff.mp hline
      rw [List.length_singleton] at hpos
      refine ⟨sp.line ++ more, ?_, ?_⟩
      · rw [Nat.lt_one_iff.mp hpos]
        rfl
      · rw [List.getElem_singleton] at hword hlt
        rw [List.getElem?_append_left hlt]
        exact hword
  cases a with
  | pass | skip => exact ⟨words, hline, hword⟩
  | cut => exact longer [sp.word]
  | endLine =>
      obtain ⟨words', hline', hword'⟩ := longer [sp.word]
      refine ⟨words', ?_, hword'⟩
      change (sp.lines ++ [sp.line ++ [sp.word]] ++ [[]])[line]? = some words'
      rw [List.getElem?_append_left (List.getElem?_eq_some_iff.mp hline').1]
      exact hline'

theorem Ended.foldl {line word : Nat} {w : List UInt8} (h : sp.Ended line word w)
    (content : List UInt8) : (content.foldl (step types) sp).Ended line word w := by
  induction content generalizing sp with
  | nil => exact h
  | cons c content ih => exact ih (h.act c _ _)

theorem Ended.finish {line word : Nat} {w : List UInt8} (h : sp.Ended line word w) :
    ∃ words, sp.finish[line]? = some words ∧ words[word]? = some w := by
  obtain hword | hword := Decidable.em (sp.word = [])
  · rw [Splitter.finish, if_pos hword]
    exact h
  · have hcut := h.act 0 sp.quoting .cut
    rw [Splitter.finish, if_neg hword]
    exact hcut

end Splitter

/-- A word that has ended is the word of the file, whatever follows. -/
theorem lineword_of_ended {types : UInt8 → PfChar} {content : List UInt8} {line word : Nat}
    {w : List UInt8} (front : List UInt8) (hfront : front <+: content)
    (h : (front.foldl (Splitter.step types) {}).Ended line word w) :
    lineword ((fileLines types content).getD line []) word = cString w := by
  obtain ⟨back, rfl⟩ := hfront
  have hfoldl : (back.foldl (Splitter.step types) _).Ended line word w := h.foldl back
  rw [← List.foldl_append] at hfoldl
  obtain ⟨words, hline, hword⟩ := hfoldl.finish
  rw [lineword, fileLines, List.getD_eq_getElem?_getD, List.getD_eq_getElem?_getD,
    List.getElem?_map, splitLines, hline, Option.map_some, Option.getD_some, List.getElem?_map,
    hword]
  rfl

/-! ## Strings of bytes -/

/-- The bytes of a text. -/
def ascii (s : String) : List UInt8 := s.toList.map fun c => UInt8.ofNat c.toNat

/-- The character of a byte. -/
def charOf (c : UInt8) : Char := Char.ofNat c.toNat

theorem toNat_charOf (c : UInt8) : (charOf c).toNat = c.toNat := by
  have hlt := c.toNat_lt
  have hvalid : c.toNat.isValidChar := .inl (by omega)
  rw [charOf, Char.ofNat, dif_pos hvalid]
  rfl

theorem charOf_injective : Function.Injective charOf := by
  intro c d h
  rw [← UInt8.toNat_inj, ← toNat_charOf c, ← toNat_charOf d, h]

theorem isDigit_charOf_iff (c : UInt8) : (charOf c).isDigit ↔ 48 ≤ c ∧ c ≤ 57 := by
  rw [Char.isDigit, Bool.and_eq_true, decide_eq_true_eq, decide_eq_true_eq,
    UInt8.le_iff_toNat_le, UInt8.le_iff_toNat_le, ← toNat_charOf c]
  exact and_congr UInt32.le_iff_toNat_le UInt32.le_iff_toNat_le

/-- A string without a zero keeps all of its bytes. -/
theorem cString_of_ne_zero {bytes : List UInt8} (h : ∀ c ∈ bytes, c ≠ 0) :
    cString bytes = bytes.map charOf := by
  have hall : bytes.takeWhile (fun c => c ≠ 0) = bytes :=
    List.takeWhile_eq_self_iff.mpr fun c hc => decide_eq_true (h c hc)
  rw [cString, hall]
  rfl

theorem take_cString_eq_iff {a b : List UInt8} (ha : ∀ c ∈ a, c ≠ 0) (hb : ∀ c ∈ b, c ≠ 0)
    (n : Nat) : (cString a).take n = cString b ↔ a.take n = b := by
  rw [cString_of_ne_zero ha, cString_of_ne_zero hb, ← List.map_take]
  exact (List.map_injective_iff.mpr charOf_injective).eq_iff

theorem cString_append {a : List UInt8} (ha : ∀ c ∈ a, c ≠ 0) (b : List UInt8) :
    cString (a ++ b) = cString a ++ cString b := by
  have hall : ∀ c ∈ a, decide (c ≠ 0) = true := fun c hc => decide_eq_true (ha c hc)
  rw [cString_of_ne_zero ha, cString, List.takeWhile_append_of_pos hall, List.map_append]
  rfl

theorem head_of_cString {w : List UInt8} {c : UInt8} (h : (cString w).head? = some (charOf c)) :
    w.head? = some c := by
  cases w with
  | nil => exact Option.noConfusion rfl (heq_of_eq h)
  | cons d w =>
      rw [cString, List.takeWhile_cons] at h
      split at h
      · have hd : charOf d = charOf c := Option.some.inj h
        rw [charOf_injective hd]
        rfl
      · exact Option.noConfusion rfl (heq_of_eq h)

/-! ## The first byte of a word -/

namespace Splitter

variable {types : UInt8 → PfChar} {sp : Splitter}

/-- A word does not begin with an opening parenthesis. -/
def Begins (types : UInt8 → PfChar) (w : List UInt8) : Prop :=
  ∀ c, w.head? = some c → types c ≠ .isOpen

theorem begins_nil : Begins types [] := fun _ h => Option.noConfusion rfl (heq_of_eq h)

/-- No word does, and the pending one does not. -/
def AllBegin (types : UInt8 → PfChar) (sp : Splitter) : Prop :=
  (∀ words ∈ sp.lines, ∀ w ∈ words, Begins types w) ∧ (∀ w ∈ sp.line, Begins types w) ∧
    Begins types sp.word

theorem AllBegin.step (h : sp.AllBegin types) (c : UInt8) :
    (sp.step types c).AllBegin types := by
  obtain ⟨hlines, hline, hword⟩ := h
  have hline' : ∀ w ∈ sp.line ++ [sp.word], Begins types w :=
    List.forall_mem_append.mpr ⟨hline, List.forall_mem_singleton.mpr hword⟩
  rw [Splitter.step]
  cases haction : action (types c) c sp.quoting (decide (sp.word ≠ [])) with
  | mk quoting a =>
      cases a with
      | skip => exact ⟨hlines, hline, begins_nil⟩
      | cut => exact ⟨hlines, hline', begins_nil⟩
      | endLine =>
          exact ⟨List.forall_mem_append.mpr ⟨hlines, List.forall_mem_singleton.mpr hline'⟩,
            List.forall_mem_nil _, begins_nil⟩
      | pass =>
          refine ⟨hlines, hline, fun d hd => ?_⟩
          change (sp.word ++ [c]).head? = some d at hd
          by_cases hempty : sp.word = []
          · rw [hempty] at hd
            obtain rfl : c = d := Option.some.inj hd
            -- an opening parenthesis in front of a word would have been skipped
            intro hopen
            rw [hopen, hempty] at haction
            exact Action.noConfusion (congrArg Prod.snd haction)
          · rw [List.head?_append_of_ne_nil _ hempty] at hd
            exact hword d hd

theorem AllBegin.foldl (h : sp.AllBegin types) (content : List UInt8) :
    (content.foldl (Splitter.step types) sp).AllBegin types := by
  induction content generalizing sp with
  | nil => exact h
  | cons c content ih => exact ih (h.step c)

theorem AllBegin.finish (h : sp.AllBegin types) :
    ∀ words ∈ sp.finish, ∀ w ∈ words, Begins types w := by
  obtain ⟨hlines, hline, hword⟩ := h
  rw [Splitter.finish]
  refine List.forall_mem_append.mpr ⟨hlines, List.forall_mem_singleton.mpr ?_⟩
  split
  · exact hline
  · exact List.forall_mem_append.mpr ⟨hline, List.forall_mem_singleton.mpr hword⟩

end Splitter

/-- No word of a file begins with an opening parenthesis. -/
theorem begins_of_mem_splitLines {types : UInt8 → PfChar} {content : List UInt8}
    {words : List (List UInt8)} (hwords : words ∈ splitLines types content) {w : List UInt8}
    (hw : w ∈ words) : Splitter.Begins types w := by
  have hstart : ({} : Splitter).AllBegin types :=
    ⟨List.forall_mem_nil _, List.forall_mem_nil _, Splitter.begins_nil⟩
  exact (hstart.foldl content).finish words hwords w hw

/-- No string of a line does. -/
theorem ne_isOpen_of_head_lineword {types : UInt8 → PfChar} {content : List UInt8}
    {line word : Nat} {c : UInt8}
    (h : (lineword ((fileLines types content).getD line []) word).head? = some (charOf c)) :
    types c ≠ .isOpen := by
  rw [lineword, List.getD_eq_getElem?_getD, List.getD_eq_getElem?_getD, fileLines,
    List.getElem?_map] at h
  cases hwords : (splitLines types content)[line]? with
  | none =>
      rw [hwords] at h
      exact Option.noConfusion rfl (heq_of_eq h)
  | some words =>
      rw [hwords, Option.map_some, Option.getD_some, List.getElem?_map] at h
      cases hw : words[word]? with
      | none =>
          rw [hw] at h
          exact Option.noConfusion rfl (heq_of_eq h)
      | some w =>
          rw [hw, Option.map_some, Option.getD_some] at h
          refine begins_of_mem_splitLines (List.mem_of_getElem? hwords) (List.mem_of_getElem? hw) c
            ?_
          exact head_of_cString h

/-! ## Printed numbers -/

/-- A number in decimal. -/
def decimal (n : Nat) : List UInt8 := (Nat.toDigits 10 n).map fun c => UInt8.ofNat c.toNat

/-- A number in decimal, with a sign if it is negative. -/
def decimalInt : Int → List UInt8
  | .ofNat n => decimal n
  | .negSucc n => 45 :: decimal (n + 1)

theorem toNat_of_isDigit {c : Char} (h : c.isDigit) : 48 ≤ c.toNat ∧ c.toNat ≤ 57 := by
  rw [Char.isDigit, Bool.and_eq_true, decide_eq_true_eq, decide_eq_true_eq] at h
  exact ⟨UInt32.le_iff_toNat_le.mp h.1, UInt32.le_iff_toNat_le.mp h.2⟩

theorem digit_of_mem_decimal {n : Nat} {c : UInt8} (h : c ∈ decimal n) : 48 ≤ c ∧ c ≤ 57 := by
  obtain ⟨d, hd, rfl⟩ := List.mem_map.mp h
  obtain ⟨hge, hle⟩ := toNat_of_isDigit (Nat.isDigit_of_mem_toDigits (by omega) (by omega) hd)
  rw [UInt8.le_iff_toNat_le, UInt8.le_iff_toNat_le, UInt8.toNat_ofNat']
  change 48 ≤ d.toNat % 256 ∧ d.toNat % 256 ≤ 57
  omega

theorem decimal_ne_nil (n : Nat) : decimal n ≠ [] := by
  rw [decimal, Ne, List.map_eq_nil_iff]
  exact Nat.toDigits_ne_nil

theorem mem_decimalInt {n : Int} {c : UInt8} (h : c ∈ decimalInt n) :
    c = 45 ∨ 48 ≤ c ∧ c ≤ 57 := by
  cases n with
  | ofNat n => exact .inr (digit_of_mem_decimal h)
  | negSucc n => exact (List.mem_cons.mp h).imp_right digit_of_mem_decimal

theorem decimalInt_ne_nil (n : Int) : decimalInt n ≠ [] := by
  cases n with
  | ofNat n => exact decimal_ne_nil n
  | negSucc n => exact List.cons_ne_nil _ _

theorem charOf_ofNat_toNat {c : Char} (h : c.isDigit) : charOf (UInt8.ofNat c.toNat) = c := by
  obtain ⟨-, hle⟩ := toNat_of_isDigit h
  have hlt : c.toNat < 2 ^ 8 := by omega
  rw [charOf, UInt8.toNat_ofNat', Nat.mod_eq_of_lt hlt, Char.ofNat_toNat]

theorem map_charOf_decimal (n : Nat) : (decimal n).map charOf = Nat.toDigits 10 n := by
  rw [decimal, List.map_map]
  refine (List.map_congr_left fun c hc => ?_).trans (List.map_id _)
  exact charOf_ofNat_toNat (Nat.isDigit_of_mem_toDigits (by omega) (by omega) hc)

theorem cString_decimal (n : Nat) : cString (decimal n) = Nat.toDigits 10 n := by
  have hne : ∀ c ∈ decimal n, c ≠ 0 := by
    rintro _ hc rfl
    exact absurd (digit_of_mem_decimal hc).1 (by decide)
  rw [cString_of_ne_zero hne, map_charOf_decimal]

end XMonitor.Procfile
