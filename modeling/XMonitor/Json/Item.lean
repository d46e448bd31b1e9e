import XMonitor.Utils.ProcfileOpen

/-!
# JSON items and their text

The items that the exporter sends to the manager and reads from its answers, and the text that
stands for an item, with and without the white space of a formatted print. Children hang from
their parent in a chain. Floating point numbers are a parameter: what `print_number` writes for
one is any text that fits its buffer.
-/

namespace XMonitor.Json

open Procfile

abbrev Bytes := List UInt8

abbrev quotationMark : UInt8 := 34
abbrev comma : UInt8 := 44
abbrev colon : UInt8 := 58
abbrev leftBracket : UInt8 := 91
abbrev backslash : UInt8 := 92
abbrev rightBracket : UInt8 := 93
abbrev leftBrace : UInt8 := 123
abbrev rightBrace : UInt8 := 125

/-- The bytes of a C string, without the one that ends it. -/
structure Str where
  bytes : Bytes
  nul_free : 0 ∉ bytes
  deriving DecidableEq

/-- The string that starts with these bytes and ends at the first zero, if there is one. -/
def Str.ofBytes (bytes : Bytes) : Str where
  bytes := bytes.takeWhile (· ≠ 0)
  nul_free h := by simpa using (List.mem_takeWhile_imp h)

/-- What `sprintf` leaves in `number_buffer`. -/
structure NumberText where
  bytes : Bytes
  fits : bytes.length ≤ 25
  nul_free : 0 ∉ bytes

mutual

/-- The types of `cJSON` without the raw ones and without references. -/
inductive Item (D : Type)
  | null
  | bool (valueint : Bool)
  | int (valueint : Int64)
  | number (valuedouble : D)
  | string (valuestring : Str)
  | array (child : Elements D)
  | object (child : Members D)

/-- A chain of items without names. -/
inductive Elements (D : Type)
  | nil
  | cons (item : Item D) (next : Elements D)

/-- A chain of items with their names. -/
inductive Members (D : Type)
  | nil
  | cons (string : Str) (item : Item D) (next : Members D)

end

/-! ## The text -/

def hexDigit (n : UInt8) : UInt8 := if n < 10 then 48 + n else 87 + n

/-- The text of a byte inside quotation marks. -/
def escape (c : UInt8) : Bytes :=
  if c = quotationMark ∨ c = backslash then [backslash, c]
  else if c = 8 then [backslash, 98]
  else if c = 12 then [backslash, 102]
  else if c = 10 then [backslash, 110]
  else if c = 13 then [backslash, 114]
  else if c = 9 then [backslash, 116]
  else if c < 32 then [backslash, 117, 48, 48, hexDigit (c / 16), hexDigit (c % 16)]
  else [c]

def Str.text (s : Str) : Bytes := quotationMark :: (s.bytes.flatMap escape ++ [quotationMark])

/-- White space that only a formatted print has. -/
def space (format : Bool) (ws : Bytes) : Bytes := if format then ws else []

def tabs (depth : Nat) : Bytes := List.replicate depth 9

def literalNull : Bytes := [110, 117, 108, 108]
def literalTrue : Bytes := [116, 114, 117, 101]
def literalFalse : Bytes := [102, 97, 108, 115, 101]

/-- A null pointer instead of the next item. -/
def Elements.isNull {D : Type} : Elements D → Bool
  | .nil => true
  | .cons _ _ => false

def Members.isNull {D : Type} : Members D → Bool
  | .nil => true
  | .cons _ _ _ => false

/-- What stands between an element and the elements that follow it. -/
def Elements.separator {D : Type} (format : Bool) (next : Elements D) : Bytes :=
  if next.isNull then [] else comma :: space format [32]

def Members.separator {D : Type} (next : Members D) : Bytes := if next.isNull then [] else [comma]

section Text

variable {D : Type} (sprintfDouble : D → NumberText) (format : Bool)

mutual

/-- The text of an item at a nesting depth. -/
def Item.text (depth : Nat) : Item D → Bytes
  | .null => literalNull
  | .bool b => if b then literalTrue else literalFalse
  | .int v => decimalInt v.toInt
  | .number d => (sprintfDouble d).bytes
  | .string s => s.text
  | .array child => leftBracket :: (Elements.text (depth + 1) child ++ [rightBracket])
  | .object child =>
    leftBrace :: (space format [10] ++ (Members.text (depth + 1) child ++
      (space format (tabs depth) ++ [rightBrace])))

def Elements.text (depth : Nat) : Elements D → Bytes
  | .nil => []
  | .cons item next =>
    Item.text depth item ++ (Elements.separator format next ++ Elements.text depth next)

def Members.text (depth : Nat) : Members D → Bytes
  | .nil => []
  | .cons string item next =>
    space format (tabs depth) ++ (string.text ++ (colon :: (space format [9] ++
      (Item.text depth item ++ (Members.separator next ++
        (space format [10] ++ Members.text depth next))))))

end

end Text

/-! ## No text has a zero byte -/

/-- Every byte is one of 256. -/
theorem forall_byte {P : UInt8 → Prop} (h : ∀ n : Fin 256, P (UInt8.ofFin n)) (c : UInt8) : P c :=
  h c.toFin

theorem nul_notMem_escape : ∀ c : UInt8, c ≠ 0 → 0 ∉ escape c :=
  forall_byte (by decide +kernel)

theorem Str.nul_notMem_text (s : Str) : 0 ∉ s.text := by
  intro h
  rcases List.mem_cons.mp h with h | h
  · exact absurd h (by decide)
  · rcases List.mem_append.mp h with h | h
    · obtain ⟨c, hc, h⟩ := List.mem_flatMap.mp h
      refine nul_notMem_escape c ?_ h
      rintro rfl
      exact s.nul_free hc
    · exact absurd h (by decide)

theorem nul_notMem_space {format : Bool} {ws : Bytes} (h : 0 ∉ ws) : 0 ∉ space format ws := by
  rw [space]
  split
  · exact h
  · exact List.not_mem_nil

theorem nul_notMem_tabs (depth : Nat) : 0 ∉ tabs depth :=
  fun h => absurd (List.eq_of_mem_replicate h) (by decide)

theorem nul_notMem_decimalInt (v : Int) : 0 ∉ decimalInt v := by
  intro h
  rcases mem_decimalInt h with h | ⟨h, -⟩
  · exact absurd h (by decide)
  · exact absurd h (by decide)

theorem Elements.nul_notMem_separator {D : Type} (format : Bool) (child : Elements D) :
    0 ∉ child.separator format := by
  rw [separator]
  split
  · exact List.not_mem_nil
  · rw [List.mem_cons, not_or]
    exact ⟨by decide, nul_notMem_space (by decide)⟩

theorem Members.nul_notMem_separator {D : Type} (child : Members D) : 0 ∉ child.separator := by
  rw [separator]
  split <;> decide

section Text

variable {D : Type} (sprintfDouble : D → NumberText) (format : Bool)

mutual

theorem Item.nul_notMem_text (depth : Nat) :
    ∀ item : Item D, 0 ∉ item.text sprintfDouble format depth
  | .null => by rw [Item.text]; decide
  | .bool b => by rw [Item.text]; revert b; decide
  | .int v => by rw [Item.text]; exact nul_notMem_decimalInt _
  | .number d => by rw [Item.text]; exact (sprintfDouble d).nul_free
  | .string s => by rw [Item.text]; exact s.nul_notMem_text
  | .array child => by
    rw [Item.text]
    have hchild := Elements.nul_notMem_text (depth + 1) child
    simp only [List.mem_cons, List.mem_append, not_or]
    exact ⟨by decide, hchild, by decide⟩
  | .object child => by
    rw [Item.text]
    have hchild := Members.nul_notMem_text (depth + 1) child
    simp only [List.mem_cons, List.mem_append, not_or]
    exact ⟨by decide, nul_notMem_space (by decide), hchild,
      nul_notMem_space (nul_notMem_tabs depth), by decide⟩

theorem Elements.nul_notMem_text (depth : Nat) :
    ∀ child : Elements D, 0 ∉ child.text sprintfDouble format depth
  | .nil => by rw [Elements.text]; exact List.not_mem_nil
  | .cons item next => by
    rw [Elements.text]
    have hitem := Item.nul_notMem_text depth item
    have hnext := Elements.nul_notMem_text depth next
    simp only [List.mem_append, not_or]
    exact ⟨hitem, next.nul_notMem_separator format, hnext⟩

theorem Members.nul_notMem_text (depth : Nat) :
    ∀ child : Members D, 0 ∉ child.text sprintfDouble format depth
  | .nil => by rw [Members.text]; exact List.not_mem_nil
  | .cons string item next => by
    rw [Members.text]
    have hitem := Item.nul_notMem_text depth item
    have hnext := Members.nul_notMem_text depth next
    simp only [List.mem_append, List.mem_cons, not_or]
    exact ⟨nul_notMem_space (nul_notMem_tabs depth), string.nul_notMem_text, by decide,
      nul_notMem_space (by decide), hitem, next.nul_notMem_separator, nul_notMem_space (by decide),
      hnext⟩

end

end Text

end XMonitor.Json
