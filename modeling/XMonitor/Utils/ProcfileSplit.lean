import XMonitor.Utils.Procfile

/-!
# Splitting a file into words

The parser of a proc file without its buffer: a function of the bytes of the file and of their
types, whose value is the list of the lines with their words. Each byte is part of a word, is
skipped, ends a word or ends a line. This depends on its type, on open quotes and parentheses
and on whether a word is pending, and on nothing else.
-/

namespace XMonitor.Procfile

/-- What the parser does with a byte. -/
inductive Action
  | pass | skip | cut | endLine
deriving DecidableEq

/-- The open quote, if any, and the number of open parentheses. -/
structure Quoting where
  quote : UInt8 := 0
  opened : Nat := 0
deriving DecidableEq

/-- The action for a byte, and what is open behind it. -/
def action (type : PfChar) (c : UInt8) (q : Quoting) (pending : Bool) : Quoting × Action :=
  match type with
  | .isWord => (q, .pass)
  | .isSeparator =>
      if q.quote = 0 ∧ q.opened = 0 then if pending then (q, .cut) else (q, .skip) else (q, .pass)
  | .isNewline => (q, .endLine)
  | .isQuote =>
      if q.quote = 0 ∧ pending = false then ({ q with quote := c }, .skip)
      else if q.quote ≠ 0 ∧ q.quote = c then ({ q with quote := 0 }, .cut)
      else (q, .pass)
  | .isOpen =>
      if pending = false then ({ q with opened := q.opened + 1 }, .skip)
      else if q.opened ≠ 0 then ({ q with opened := q.opened + 1 }, .pass)
      else (q, .pass)
  | .isClose =>
      if q.opened ≠ 0 then
        if q.opened - 1 = 0 then ({ q with opened := q.opened - 1 }, .cut)
        else ({ q with opened := q.opened - 1 }, .pass)
      else (q, .pass)

/-- The lines that have ended, the words of the current one, and the pending word. -/
structure Splitter where
  lines : List (List (List UInt8)) := []
  line : List (List UInt8) := []
  word : List UInt8 := []
  quoting : Quoting := {}

namespace Splitter

/-- What becomes of the words for an action. -/
def act (sp : Splitter) (c : UInt8) (quoting : Quoting) : Action → Splitter
  | .pass => { sp with quoting, word := sp.word ++ [c] }
  | .skip => { sp with quoting, word := [] }
  | .cut => { sp with quoting, line := sp.line ++ [sp.word], word := [] }
  | .endLine =>
      { quoting, lines := sp.lines ++ [sp.line ++ [sp.word]], line := [], word := [] }

/-- One byte. -/
def step (types : UInt8 → PfChar) (sp : Splitter) (c : UInt8) : Splitter :=
  let (quoting, a) := action (types c) c sp.quoting (sp.word ≠ [])
  sp.act c quoting a

/-- The last line, with the word that no byte ends. -/
def finish (sp : Splitter) : List (List (List UInt8)) :=
  sp.lines ++ [if sp.word = [] then sp.line else sp.line ++ [sp.word]]

end Splitter

/-- The lines of a file, with their words. -/
def splitLines (types : UInt8 → PfChar) (content : List UInt8) : List (List (List UInt8)) :=
  (content.foldl (Splitter.step types) {}).finish

/-! ## Actions and types -/

section

variable {type : PfChar} {c : UInt8} {q : Quoting} {pending : Bool}

theorem action_endLine_iff : (action type c q pending).2 = .endLine ↔ type = .isNewline := by
  cases type with
  | isNewline => exact iff_of_true rfl rfl
  | _ =>
      refine iff_of_false ?_ PfChar.noConfusion
      rw [action]
      repeat' split
      all_goals exact Action.noConfusion

theorem action_of_isWord (h : type = .isWord) : action type c q pending = (q, .pass) := by
  rw [h]
  rfl

theorem action_of_isNewline (h : type = .isNewline) :
    action type c q pending = (q, .endLine) := by
  rw [h]
  rfl

/-- Nothing is pending where a byte is skipped. -/
theorem not_pending_of_skip (h : (action type c q pending).2 = .skip) : pending = false := by
  revert h
  unfold action
  cases type with
  | isNewline | isWord | isClose =>
      dsimp only
      repeat' split
      all_goals exact Action.noConfusion
  | isSeparator =>
      cases pending with
      | false => exact fun _ => rfl
      | true =>
          dsimp only
          split
          all_goals exact Action.noConfusion
  | isQuote =>
      dsimp only
      split
      · rename_i h
        exact fun _ => h.2
      · split
        all_goals exact Action.noConfusion
  | isOpen =>
      dsimp only
      split
      · exact fun _ => ‹_›
      · split
        all_goals exact Action.noConfusion

end

/-! ## Texts -/

namespace Splitter

variable {types : UInt8 → PfChar} {sp : Splitter}

theorem step_of_isWord {c : UInt8} (h : types c = .isWord) :
    sp.step types c = { sp with word := sp.word ++ [c] } := by
  rw [step, action_of_isWord h]
  rfl

theorem step_of_isNewline {c : UInt8} (h : types c = .isNewline) :
    sp.step types c =
      { sp with lines := sp.lines ++ [sp.line ++ [sp.word]], line := [], word := [] } := by
  rw [step, action_of_isNewline h]
  rfl

theorem foldl_word {word : List UInt8} (h : ∀ c ∈ word, types c = .isWord) :
    word.foldl (step types) sp = { sp with word := sp.word ++ word } := by
  induction word generalizing sp with
  | nil =>
      rw [List.append_nil]
      rfl
  | cons c word ih =>
      obtain ⟨hc, hword⟩ := List.forall_mem_cons.mp h
      rw [List.foldl_cons, step_of_isWord hc, ih hword]
      simp

/-- A separator behind a word, while nothing is open. -/
theorem step_of_isSeparator {c : UInt8} (h : types c = .isSeparator) (hquiet : sp.quoting = {})
    (hword : sp.word ≠ []) :
    sp.step types c = { sp with line := sp.line ++ [sp.word], word := [] } := by
  rw [step, h, hquiet]
  simp [action, act, hword]

/-- A separator in front of a word, while nothing is open. -/
theorem step_of_isSeparator_nil {c : UInt8} (h : types c = .isSeparator)
    (hquiet : sp.quoting = {}) (hword : sp.word = []) : sp.step types c = sp := by
  obtain ⟨lines, line, word, quoting⟩ := sp
  obtain rfl : quoting = {} := hquiet
  obtain rfl : word = [] := hword
  rw [step, h]
  rfl

/-- A separator inside parentheses is part of a word. -/
theorem step_of_opened {c : UInt8} (h : types c = .isSeparator ∨ types c = .isWord)
    (hopened : sp.quoting.opened ≠ 0) :
    sp.step types c = { sp with word := sp.word ++ [c] } := by
  obtain h | h := h
  · rw [step, h]
    simp [action, act, hopened]
  · exact step_of_isWord h

theorem foldl_opened {bytes : List UInt8}
    (h : ∀ c ∈ bytes, types c = .isSeparator ∨ types c = .isWord)
    (hopened : sp.quoting.opened ≠ 0) :
    bytes.foldl (step types) sp = { sp with word := sp.word ++ bytes } := by
  induction bytes generalizing sp with
  | nil =>
      rw [List.append_nil]
      rfl
  | cons c bytes ih =>
      obtain ⟨hc, hbytes⟩ := List.forall_mem_cons.mp h
      have hnext : ({ sp with word := sp.word ++ [c] } : Splitter).quoting.opened ≠ 0 := hopened
      rw [List.foldl_cons, step_of_opened hc hopened, ih hbytes hnext, List.append_assoc]
      rfl

/-- An opening parenthesis in front of a word is not part of it. -/
theorem step_of_isOpen_nil {c : UInt8} (h : types c = .isOpen) (hword : sp.word = []) :
    sp.step types c =
      { sp with quoting := { sp.quoting with opened := sp.quoting.opened + 1 } } := by
  obtain ⟨lines, line, word, quoting⟩ := sp
  obtain rfl : word = [] := hword
  rw [step, h]
  rfl

theorem step_of_isOpen {c : UInt8} (h : types c = .isOpen) (hword : sp.word ≠ [])
    (hopened : sp.quoting.opened ≠ 0) :
    sp.step types c =
      { sp with
        word := sp.word ++ [c]
        quoting := { sp.quoting with opened := sp.quoting.opened + 1 } } := by
  rw [step, h]
  simp [action, act, hword, hopened]

/-- A closing parenthesis that is not the last one. -/
theorem step_of_isClose {c : UInt8} (h : types c = .isClose) (hopened : 1 < sp.quoting.opened) :
    sp.step types c =
      { sp with
        word := sp.word ++ [c]
        quoting := { sp.quoting with opened := sp.quoting.opened - 1 } } := by
  have hleft : sp.quoting.opened - 1 ≠ 0 := by omega
  rw [step, h]
  simp [action, act, hleft, Nat.ne_of_gt (Nat.zero_lt_of_lt hopened)]

/-- The last closing parenthesis ends a word, which may be empty. -/
theorem step_of_isClose_last {c : UInt8} (h : types c = .isClose)
    (hopened : sp.quoting.opened = 1) :
    sp.step types c =
      { sp with
        line := sp.line ++ [sp.word]
        word := []
        quoting := { sp.quoting with opened := 0 } } := by
  rw [step, h]
  simp [action, act, hopened]

end Splitter

/-- A word with the byte that separates it from the next one. -/
abbrev Separated := List UInt8 × UInt8

/-- The text of a line: words with separators, and the last word with a newline. -/
def lineText (front : List Separated) (last : List UInt8) : List UInt8 :=
  (front.flatMap fun w => w.1 ++ [w.2]) ++ last ++ [10]

/-- Such a line, for the types of the bytes. -/
structure Plain (types : UInt8 → PfChar) (front : List Separated) (last : List UInt8) : Prop where
  newline : types 10 = .isNewline
  nonempty : ∀ w ∈ front, w.1 ≠ []
  words : ∀ w ∈ front, ∀ c ∈ w.1, types c = .isWord
  separators : ∀ w ∈ front, types w.2 = .isSeparator
  last : ∀ c ∈ last, types c = .isWord

/-- In front of the newline there are only words and separators. -/
theorem Plain.mem {types : UInt8 → PfChar} {front : List Separated} {last : List UInt8}
    (h : Plain types front last) :
    ∀ c ∈ (front.flatMap fun w => w.1 ++ [w.2]) ++ last,
      types c = .isSeparator ∨ types c = .isWord := by
  refine List.forall_mem_append.mpr ⟨fun c hc => ?_, fun c hc => .inr (h.last c hc)⟩
  obtain ⟨w, hw, hc⟩ := List.mem_flatMap.mp hc
  obtain hc | hc := List.mem_append.mp hc
  · exact .inr (h.words w hw c hc)
  · rw [List.mem_singleton.mp hc]
    exact .inl (h.separators w hw)

namespace Splitter

variable {types : UInt8 → PfChar}

theorem foldl_separated (lines : List (List (List UInt8))) (line : List (List UInt8))
    {front : List Separated} (hnonempty : ∀ w ∈ front, w.1 ≠ [])
    (hwords : ∀ w ∈ front, ∀ c ∈ w.1, types c = .isWord)
    (hseparators : ∀ w ∈ front, types w.2 = .isSeparator) :
    (front.flatMap fun w => w.1 ++ [w.2]).foldl (step types) { lines, line } =
      { lines, line := line ++ front.map Prod.fst } := by
  induction front generalizing line with
  | nil =>
      rw [List.map_nil, List.append_nil]
      rfl
  | cons w front ih =>
      obtain ⟨hw, hnonempty⟩ := List.forall_mem_cons.mp hnonempty
      obtain ⟨hword, hwords⟩ := List.forall_mem_cons.mp hwords
      obtain ⟨hseparator, hseparators⟩ := List.forall_mem_cons.mp hseparators
      have hone : (w.1 ++ [w.2]).foldl (step types) { lines, line } =
          { lines, line := line ++ [w.1] } := by
        rw [List.foldl_append, foldl_word hword, List.foldl_cons,
          step_of_isSeparator hseparator rfl hw]
        rfl
      rw [List.flatMap_cons, List.foldl_append, hone, ih _ hnonempty hwords hseparators,
        List.map_cons, List.append_assoc]
      rfl

/-- A line adds its words, also to those that it begins with. -/
theorem foldl_line (lines : List (List (List UInt8))) (line : List (List UInt8))
    {front : List Separated} {last : List UInt8} (h : Plain types front last) :
    (lineText front last).foldl (step types) { lines, line } =
      { lines := lines ++ [line ++ front.map Prod.fst ++ [last]] } := by
  rw [lineText, List.foldl_append, List.foldl_append,
    foldl_separated lines line h.nonempty h.words h.separators, foldl_word h.last,
    List.foldl_cons, step_of_isNewline h.newline]
  rfl

end Splitter

/-- A file of such lines has their words, and an empty line behind the last newline. -/
theorem splitLines_of_plain {types : UInt8 → PfChar} {α : Type*} (lines : List α)
    (front : α → List Separated) (last : α → List UInt8)
    (h : ∀ l ∈ lines, Plain types (front l) (last l)) :
    splitLines types (lines.flatMap fun l => lineText (front l) (last l)) =
      (lines.map fun l => (front l).map Prod.fst ++ [last l]) ++ [[]] := by
  have key : ∀ (lines : List α) (before : List (List (List UInt8))),
      (∀ l ∈ lines, Plain types (front l) (last l)) →
      (lines.flatMap fun l => lineText (front l) (last l)).foldl (Splitter.step types)
          { lines := before } =
        { lines := before ++ lines.map fun l => (front l).map Prod.fst ++ [last l] } := by
    intro lines
    induction lines with
    | nil =>
        intro before _
        rw [List.map_nil, List.append_nil]
        rfl
    | cons l lines ih =>
        intro before h
        obtain ⟨hl, h⟩ := List.forall_mem_cons.mp h
        rw [List.flatMap_cons, List.foldl_append, Splitter.foldl_line before [] hl, ih _ h,
          List.map_cons, List.append_assoc]
        rfl
  rw [splitLines, key lines [] h]
  rfl

end XMonitor.Procfile
