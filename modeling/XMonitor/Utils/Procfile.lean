import XMonitor.Lib.RowTable
import XMonitor.Utils.Strings

/-!
# Reading and splitting a proc file

`procfile_readall` reads a file into a buffer that grows, and splits it in place: the byte
behind each word becomes zero, the words are pointers into the buffer, and a line is the index
of its first word and the number of its words. Quotes and parentheses keep separators inside
a word, but no newline.

A pointer into the buffer is an offset. A function returns nothing where it would write
outside of what has been allocated.
-/

namespace XMonitor.Procfile

/-- `enum procfile_separator_type`. -/
inductive PfChar
  | isSeparator | isNewline | isWord | isQuote | isOpen | isClose
deriving DecidableEq

/-- `struct pf_line`. -/
structure PfLine where
  words : Nat
  first : Nat
deriving DecidableEq

/-- `struct proc_file`, with the capacities of its lines and words. -/
structure ProcFile where
  len : Nat
  size : Nat
  lines : List PfLine
  linesSize : Nat
  words : List Nat
  wordsSize : Nat
  separators : UInt8 → PfChar
  data : Nat → UInt8

/-- `__add_pfline`, with the line whose words it returns a pointer to. -/
def ProcFile.addPfline (pf : ProcFile) : Option (ProcFile × Nat) :=
  let linesSize := if pf.lines.length = pf.linesSize then pf.linesSize + 10 else pf.linesSize
  if pf.lines.length < linesSize then
    some ({ pf with linesSize, lines := pf.lines ++ [⟨0, pf.words.length⟩] }, pf.lines.length)
  else none

/-- `__add_pfword`. -/
def ProcFile.addPfword (pf : ProcFile) (word : Nat) : Option ProcFile :=
  let wordsSize := if pf.words.length = pf.wordsSize then pf.wordsSize + 200 else pf.wordsSize
  if pf.words.length < wordsSize then some { pf with wordsSize, words := pf.words ++ [word] }
  else none

/-- A write into the buffer. -/
def ProcFile.store (pf : ProcFile) (i : Nat) (c : UInt8) : Option ProcFile :=
  if i < pf.size then some { pf with data := Function.update pf.data i c } else none

/-- `(*line_words)++`. -/
def ProcFile.countWord (pf : ProcFile) (lineWords : Nat) : ProcFile :=
  { pf with lines := pf.lines.modify lineWords fun line => { line with words := line.words + 1 } }

/-- The end of a word: a zero behind it, and one more word of the line. -/
def ProcFile.endWord (pf : ProcFile) (s t lineWords : Nat) : Option ProcFile := do
  let pf ← pf.store s 0
  let pf ← pf.addPfword t
  some (pf.countWord lineWords)

/-- The variables of `__procfile_parser`. -/
structure Parser where
  pf : ProcFile
  s : Nat
  t : Nat
  quote : UInt8
  opened : Nat
  lineWords : Nat

/-- `s++`. -/
def Parser.pass (p : Parser) : Parser := { p with s := p.s + 1 }

/-- `t = ++s`. -/
def Parser.skip (p : Parser) : Parser := { p with s := p.s + 1, t := p.s + 1 }

/-- A word ends at `s`, and the next one begins behind it. -/
def Parser.cut (p : Parser) : Option Parser := do
  let pf ← p.pf.endWord p.s p.t p.lineWords
  some { p with pf }.skip

/-- `line_words = __add_pfline(pf)`. -/
def Parser.newLine (p : Parser) : Option Parser := do
  let (pf, lineWords) ← p.pf.addPfline
  some { p with pf, lineWords }

/-- The body of the loop. -/
def Parser.body (p : Parser) : Option Parser :=
  match p.pf.separators (p.pf.data p.s) with
  | .isWord => some p.pass
  | .isSeparator =>
      if p.quote = 0 ∧ p.opened = 0 then
        if p.s ≠ p.t then p.cut else some p.skip
      else some p.pass
  | .isNewline => do
      let p ← p.cut
      p.newLine
  | .isQuote =>
      if p.quote = 0 ∧ p.s = p.t then some { p with quote := p.pf.data p.s }.skip
      else if p.quote ≠ 0 ∧ p.quote = p.pf.data p.s then { p with quote := 0 }.cut
      else some p.pass
  | .isOpen =>
      if p.s = p.t then some { p with opened := p.opened + 1 }.skip
      else if p.opened ≠ 0 then some { p with opened := p.opened + 1 }.pass
      else some p.pass
  | .isClose =>
      if p.opened ≠ 0 then
        if p.opened - 1 = 0 then { p with opened := p.opened - 1 }.cut
        else some { p with opened := p.opened - 1 }.pass
      else some p.pass

/-- The loop, in which every step takes one byte. -/
def Parser.loop : Nat → Parser → Option Parser
  | 0, p => some p
  | n + 1, p =>
      if p.s < p.pf.len then do
        let p ← p.body
        loop n p
      else some p

/-- What the parser does behind the loop. -/
def Parser.finish (p : Parser) : Option ProcFile :=
  if p.t < p.s ∧ p.t < p.pf.len then
    let s := if p.pf.size ≤ p.pf.len then p.pf.size - 1 else p.s
    p.pf.endWord s p.t p.lineWords
  else some p.pf

/-- `__procfile_parser`. -/
def procfileParser (pf : ProcFile) : Option ProcFile := do
  let (pf, lineWords) ← pf.addPfline
  let p ← Parser.loop pf.len { pf, s := 0, t := 0, quote := 0, opened := 0, lineWords }
  p.finish

/-- The size of the buffer in front of a call of `read`: it grows if it has no space left. -/
def grownSize (size len : Nat) : Nat := if size - len = 0 then size + 512 else size

def ProcFile.grow (pf : ProcFile) : ProcFile := { pf with size := grownSize pf.size pf.len }

/-- What `read` puts behind the bytes that have been read. -/
def ProcFile.append (pf : ProcFile) (chunk : List UInt8) : Option ProcFile :=
  if pf.len + chunk.length ≤ pf.size then
    some
      { pf with
        data := fun i => if pf.len ≤ i then chunk.getD (i - pf.len) (pf.data i) else pf.data i
        len := pf.len + chunk.length }
  else none

/-- The loop of `procfile_readall`, which ends when `read` returns no bytes. -/
def ProcFile.readLoop (pf : ProcFile) : List (List UInt8) → Option ProcFile
  | [] => some pf.grow
  | chunk :: chunks => do
      let pf ← pf.grow.append chunk
      pf.readLoop chunks

/-- `procfile_readall`, for the chunks that `read` delivers. -/
def procfileReadall (pf : ProcFile) (chunks : List (List UInt8)) : Option ProcFile := do
  let pf ← { pf with len := 0 }.readLoop chunks
  procfileParser { pf with lines := [], words := [] }

/-- A call of `read` returns at least one byte, and no more than it is asked for. -/
def Delivers (size len : Nat) : List (List UInt8) → Prop
  | [] => True
  | chunk :: chunks =>
      chunk ≠ [] ∧ chunk.length ≤ grownSize size len - len ∧
        Delivers (grownSize size len) (len + chunk.length) chunks

/-- `procfile_linewords`. -/
def ProcFile.linewords (pf : ProcFile) (line : Nat) : Nat :=
  (pf.lines[line]?.map PfLine.words).getD 0

/-- `procfile_word`, which is none for the empty string. -/
def ProcFile.word (pf : ProcFile) (word : Nat) : Option Nat := pf.words[word]?

/-- `procfile_lineword`, which is none for the empty string. -/
def ProcFile.lineword (pf : ProcFile) (line word : Nat) : Option Nat := do
  let l ← pf.lines[line]?
  if word < pf.linewords line then pf.word (l.first + word) else none

end XMonitor.Procfile
