import XMonitor.Json.StringSafety

/-!
# Parsing

The parsers of `cJSON.c` on the parse buffer. `fuel` bounds the depth of the calls. A run that has
used it up has no value, and so has a run that reads behind the content; both do not happen to
`cJSON_Parse`.
-/

namespace XMonitor.Json

open Lib Lib.Procedure Procfile

/-! ## The parse buffer -/

def cjsonNestingLimit : Nat := 1000

def ParseBuffer.canRead (b : ParseBuffer) (size : Nat) : Bool := b.offset + size ≤ b.content.length

def ParseBuffer.canAccessAtIndex (b : ParseBuffer) (index : Nat) : Bool :=
  b.offset + index < b.content.length

/-- `can_access_at_index(buffer, 0) && buffer_at_offset(buffer)[0] == c`. -/
def ParseBuffer.isAt (b : ParseBuffer) (c : UInt8) : Bool := b.content[b.offset]? = some c

/-- The comparison with a literal by `strncmp`. -/
def ParseBuffer.startsWith (b : ParseBuffer) (literal : Bytes) : Bool :=
  b.canRead literal.length ∧ (b.content.drop b.offset).take literal.length = literal

def skip (n : Nat) : Parse Unit := modify fun b => { b with offset := b.offset + n }

/-- `offset--`. -/
def stepBack : Parse Unit := modify fun b => { b with offset := b.offset - 1 }

def nest (f : Nat → Nat) : Parse Unit := modify fun b => { b with depth := f b.depth }

/-- Zero bytes are white space as well. At the end of the content the last byte is given back. -/
def bufferSkipWhitespace : Parse Unit := modify fun b =>
  if b.canAccessAtIndex 0 then
    let offset := b.offset + ((b.content.drop b.offset).takeWhile (· ≤ 32)).length
    if offset = b.content.length then { b with offset := offset - 1 } else { b with offset }
  else b

def skipUtf8Bom : Parse Unit := do
  let b ← get
  when (b.canAccessAtIndex 4 ∧ (b.content.drop b.offset).take 3 = [0xEF, 0xBB, 0xBF]) (skip 3)

/-! ## Numbers -/

def isDigit (c : UInt8) : Bool := 48 ≤ c ∧ c ≤ 57

def isSign (c : UInt8) : Bool := c = 43 ∨ c = 45

def isExponent (c : UInt8) : Bool := c = 101 ∨ c = 69

def isPoint (c : UInt8) : Bool := c = 46

/-- The bytes that go into `number_c_string`. -/
def isNumberByte (c : UInt8) : Bool := isDigit c ∨ isSign c ∨ isExponent c ∨ isPoint c

def signLength (s : Bytes) : Nat := if s.head?.any isSign then 1 else 0

def digitsLength (s : Bytes) : Nat := (s.takeWhile isDigit).length

/-- How much of a string of number bytes `strtod` converts. -/
def strtodLength (s : Bytes) : Nat :=
  let sign := signLength s
  let whole := digitsLength (s.drop sign)
  let point := if (s.drop (sign + whole)).head?.any isPoint then 1 else 0
  let fraction := if point = 1 then digitsLength (s.drop (sign + whole + 1)) else 0
  if whole + fraction = 0 then 0
  else
    let mantissa := sign + whole + point + fraction
    let exponent := s.drop mantissa
    if exponent.head?.any isExponent then
      let exponentSign := signLength (exponent.drop 1)
      let digits := digitsLength (exponent.drop (1 + exponentSign))
      if digits = 0 then mantissa else mantissa + 1 + exponentSign + digits
    else mantissa

/-- The decimal number that is written in some digits. -/
def decimalValue (digits : Bytes) : Nat :=
  digits.foldl (fun n c => n * 10 + (c.toNat - 48)) 0

/-- `strtoll` with base 10 on a string without white space in front: the number, at the limits of
its type when it is beyond them, and how much of the string has been converted. -/
def strtoll (s : Bytes) : Int64 × Nat :=
  let sign := signLength s
  let digits := (s.drop sign).takeWhile isDigit
  if digits = [] then (0, 0)
  else
    let magnitude : Int := decimalValue digits
    let value := if s.head? = some 45 then -magnitude else magnitude
    (Int64.ofInt (max (-2 ^ 63) (min (2 ^ 63 - 1) value)), sign + digits.length)

section Parse

variable {D : Type} (strtod : Bytes → D)

def parseNumber : Parse (Item D) := do
  let b ← get
  let numberCString := ((b.content.drop b.offset).take 63).takeWhile isNumberByte
  let isInteger := numberCString.all fun c => !isExponent c && !isPoint c
  let afterEnd := strtodLength numberCString
  if afterEnd = 0 then
    fail
  else if isInteger then
    let (valueint, afterEndInt) := strtoll numberCString
    if afterEndInt = 0 then
      fail
    else do
      skip afterEnd
      pure (.int valueint)
  else do
    skip afterEnd
    pure (.number (strtod numberCString))

/-! ## Values -/

/-- What `parse_array` and `parse_object` have in common: the brackets around the loop over the
children. -/
def parseBracketed {α : Type} (close : UInt8) (empty : Item D) (wrap : α → Item D)
    (children : Parse α) : Parse (Item D) := do
  let b ← get
  if b.depth ≥ cjsonNestingLimit then
    fail
  else do
    nest (· + 1)
    skip 1
    bufferSkipWhitespace
    let b ← get
    if b.isAt close then do
      nest (· - 1)
      skip 1
      pure empty
    else if !b.canAccessAtIndex 0 then do
      stepBack
      fail
    else do
      -- back to the byte in front of the first child
      stepBack
      let child ← children
      let b ← get
      if b.isAt close then do
        nest (· - 1)
        skip 1
        pure (wrap child)
      else fail

mutual

def parseValue : Nat → Parse (Item D)
  | 0 => fault
  | fuel + 1 => do
    let b ← get
    if b.startsWith literalNull then do skip 4; pure .null
    else if b.startsWith literalFalse then do skip 5; pure (.bool false)
    else if b.startsWith literalTrue then do skip 4; pure (.bool true)
    else if b.isAt quotationMark then do
      let s ← parseString
      pure (.string s)
    else if b.content[b.offset]?.any fun c => isSign c || isDigit c then parseNumber strtod
    else if b.isAt leftBracket then parseArray fuel
    else if b.isAt leftBrace then parseObject fuel
    else fail

def parseArray : Nat → Parse (Item D)
  | 0 => fault
  | fuel + 1 => parseBracketed rightBracket (.array .nil) .array (parseElements fuel)

/-- The loop of `parse_array`. -/
def parseElements : Nat → Parse (Elements D)
  | 0 => fault
  | fuel + 1 => do
    skip 1
    bufferSkipWhitespace
    let item ← parseValue fuel
    bufferSkipWhitespace
    let b ← get
    if b.isAt comma then do
      let next ← parseElements fuel
      pure (.cons item next)
    else pure (.cons item .nil)

def parseObject : Nat → Parse (Item D)
  | 0 => fault
  | fuel + 1 => parseBracketed rightBrace (.object .nil) .object (parseMembers fuel)

/-- The loop of `parse_object`. -/
def parseMembers : Nat → Parse (Members D)
  | 0 => fault
  | fuel + 1 => do
    skip 1
    bufferSkipWhitespace
    let string ← parseString
    bufferSkipWhitespace
    let b ← get
    if !b.isAt colon then
      fail
    else do
      skip 1
      bufferSkipWhitespace
      let item ← parseValue fuel
      bufferSkipWhitespace
      let b ← get
      if b.isAt comma then do
        let next ← parseMembers fuel
        pure (.cons string item next)
      else pure (.cons string item .nil)

end

/-- The parsing in `cJSON_ParseWithLengthOpts`. -/
def parseDocument (requireNullTerminated : Bool) (fuel : Nat) : Parse (Item D) := do
  skipUtf8Bom
  bufferSkipWhitespace
  let item ← parseValue strtod fuel
  when requireNullTerminated do
    bufferSkipWhitespace
    let b ← get
    if b.isAt 0 then pure () else fail
  pure item

/-- `cJSON_ParseWithLengthOpts`: the item, or the position of the error. There is no value where
the behaviour is undefined. -/
def parseWithLengthOpts (content : Bytes) (requireNullTerminated : Bool) :
    Option (Except Nat (Item D)) :=
  if content.length = 0 then some (.error 0)
  else
    match parseDocument strtod requireNullTerminated (3 * content.length) { content } with
    | .fault => none
    | .ok item _ => some (.ok item)
    | .fail b => some (.error (if b.offset < content.length then b.offset else content.length - 1))

/-- `cJSON_ParseWithOpts`. The zero at the end of the string belongs to the content. -/
def parseWithOpts (value : Str) (requireNullTerminated : Bool) : Option (Except Nat (Item D)) :=
  parseWithLengthOpts strtod (value.bytes ++ [0]) requireNullTerminated

def cjsonParse (value : Str) : Option (Except Nat (Item D)) := parseWithOpts strtod value false

end Parse

end XMonitor.Json
