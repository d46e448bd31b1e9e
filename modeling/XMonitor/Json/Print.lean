import XMonitor.Json.PrintBuffer

/-!
# Printing

The printers of `cJSON.c` on the print buffer. Whatever the allocator does, they never store
outside the buffer, and when they succeed the buffer holds the text of the item.
-/

namespace XMonitor.Json

open Lib Lib.Procedure Procfile

/-- The characters that a byte takes in addition to its own. -/
def escapeCharacters (c : UInt8) : Nat :=
  if c = quotationMark ∨ c = backslash ∨ c = 8 ∨ c = 12 ∨ c = 10 ∨ c = 13 ∨ c = 9 then 1
  else if c < 32 then 5
  else 0

section Print

variable (hooks : Allocator)

/-- The number as `sprintf` has left it in `number_buffer`. -/
def printNumber (number : Bytes) : Print Unit := do
  if number.length > 25 then
    fail
  else
    let output ← ensure hooks (number.length + 1)
    store output number
    store (output + number.length) [0]
    advance number.length

/-- The escape sequence of a byte behind its backslash. The pointer that is returned is at the
last byte of the sequence. -/
def storeSequence (output : Nat) (c : UInt8) : Print Nat := do
  if c = backslash then do store output [backslash]; pure output
  else if c = quotationMark then do store output [quotationMark]; pure output
  else if c = 8 then do store output [98]; pure output
  else if c = 12 then do store output [102]; pure output
  else if c = 10 then do store output [110]; pure output
  else if c = 13 then do store output [114]; pure output
  else if c = 9 then do store output [116]; pure output
  else do
    -- `sprintf` puts a zero behind the digits, and the next byte goes over it.
    store output [117, 48, 48, hexDigit (c / 16), hexDigit (c % 16), 0]
    pure (output + 4)

/-- Copy the string, with escape sequences. -/
def storeEscaped (output : Nat) : Bytes → Print Nat
  | [] => pure output
  | c :: input =>
    if c > 31 ∧ c ≠ quotationMark ∧ c ≠ backslash then do
      store output [c]
      storeEscaped (output + 1) input
    else do
      store output [backslash]
      let output ← storeSequence (output + 1) c
      storeEscaped (output + 1) input

def printStringPtr (input : Str) : Print Unit := do
  let escapes := (input.bytes.map escapeCharacters).sum
  let outputLength := input.bytes.length + escapes
  let output ← ensure hooks (outputLength + 3)
  if escapes = 0 then do
    store output [quotationMark]
    store (output + 1) input.bytes
    store (output + outputLength + 1) [quotationMark]
    store (output + outputLength + 2) [0]
  else do
    store output [quotationMark]
    let _ ← storeEscaped (output + 1) input.bytes
    store (output + outputLength + 1) [quotationMark]
    store (output + outputLength + 2) [0]

/-- `depth++` and `depth--`. -/
def setDepth (f : Nat → Nat) : Print Unit := modify fun p => { p with depth := f p.depth }

/-- The comma between two elements. -/
def storeComma : Print Unit := do
  let p ← get
  let length := if p.format then 2 else 1
  let output ← ensure hooks (length + 1)
  store output [comma]
  when p.format (store (output + 1) [32])
  store (output + length) [0]
  advance length

/-- The tabs in front of a name. -/
def storeIndent : Print Unit := do
  let p ← get
  when p.format do
    let output ← ensure hooks p.depth
    store output (tabs p.depth)
    advance p.depth

/-- The colon behind a name. -/
def storeColon : Print Unit := do
  let p ← get
  let length := if p.format then 2 else 1
  let output ← ensure hooks length
  store output [colon]
  when p.format (store (output + 1) [9])
  advance length

/-- The comma behind a member, if another member follows, and the end of its line. -/
def storeLineEnd (last : Bool) : Print Unit := do
  let p ← get
  let length := (if p.format then 1 else 0) + (if last then 0 else 1)
  let output ← ensure hooks (length + 1)
  when (!last) (store output [comma])
  let output := if last then output else output + 1
  when p.format (store output [10])
  store (output + if p.format then 1 else 0) [0]
  advance length

variable {D : Type} (sprintfDouble : D → NumberText)

mutual

def printValue : Item D → Print Unit
  | .null => do
    let output ← ensure hooks 5
    store output (literalNull ++ [0])
  | .bool valueint => do
    let output ← ensure hooks 6
    if valueint then store output (literalTrue ++ [0]) else store output (literalFalse ++ [0])
  | .int valueint => printNumber hooks (decimalInt valueint.toInt)
  | .number valuedouble => printNumber hooks (sprintfDouble valuedouble).bytes
  | .string valuestring => printStringPtr hooks valuestring
  | .array child => do
    let output ← ensure hooks 1
    store output [leftBracket]
    advance 1
    setDepth (· + 1)
    printElements child
    let output ← ensure hooks 2
    store output [rightBracket]
    store (output + 1) [0]
    setDepth (· - 1)
  | .object child => do
    let p ← get
    let length := if p.format then 2 else 1
    let output ← ensure hooks (length + 1)
    store output [leftBrace]
    setDepth (· + 1)
    when p.format (store (output + 1) [10])
    advance length
    printMembers child
    let p ← get
    let output ← ensure hooks (if p.format then p.depth + 1 else 2)
    let indent := if p.format then p.depth - 1 else 0
    store output (tabs indent)
    store (output + indent) [rightBrace]
    store (output + indent + 1) [0]
    setDepth (· - 1)

/-- The loop of `print_array`. -/
def printElements : Elements D → Print Unit
  | .nil => pure ()
  | .cons item next => do
    printValue item
    updateOffset
    when (!next.isNull) (storeComma hooks)
    printElements next

/-- The loop of `print_object`. -/
def printMembers : Members D → Print Unit
  | .nil => pure ()
  | .cons string item next => do
    storeIndent hooks
    printStringPtr hooks string
    updateOffset
    storeColon hooks
    printValue item
    updateOffset
    storeLineEnd hooks next.isNull
    printMembers next

end

/-- `print`, behind `cJSON_Print` and `cJSON_PrintUnformatted`: the printed bytes or a null
pointer. There is no value where the behaviour is undefined. -/
def print (item : Item D) (format : Bool) : Option (Option Bytes) :=
  match hooks.allocate 256 with
  | none => some none
  | some buffer =>
    match (do printValue hooks sprintfDouble item; updateOffset)
      { buffer := some buffer, format } with
    | .fault => none
    | .fail _ => some none
    | .ok () p => p.buffer.map fun buffer => hooks.reallocate buffer (p.offset + 1)

/-- `cJSON_PrintPreallocated` with a buffer of the given length: whether the item was printed, and
the buffer. -/
def printPreallocated (item : Item D) (buffer : Bytes) (format : Bool) : Option (Bool × Bytes) :=
  match printValue hooks sprintfDouble item { buffer := some buffer, noalloc := true, format } with
  | .fault => none
  | .fail p => some (false, p.buffer.getD [])
  | .ok () p => some (true, p.buffer.getD [])

end Print

end XMonitor.Json
